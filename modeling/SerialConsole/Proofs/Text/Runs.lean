import SerialConsole.Machine.Basic
import SerialConsole.Proofs.Text

/-!
# Lines and the runs that they consist of

The words of a line are its maximal runs of characters that are not blank. `RunAt` says what that is
without a scan, by what stands before, inside and behind a run; `Lists` says that a list has just
what stands somewhere, in the order of the places.

* `runs_append_blanks`: blanks between two texts only keep them apart, however many there are;
* `exists_lists_runAt`: a text is split into its maximal runs, in order;
* `blanks_divide_lines`: so it does not matter over how many lines the input of a machine is spread.
-/

namespace SerialConsole

namespace Text

/-! ## Texts with blanks between them -/

/-- Blanks at the front belong to no run. -/
theorem runs_blanks_append {blanks : List Char} (hblanks : ∀ c ∈ blanks, isBlank c)
    (back : List Char) : runs (blanks ++ back) = runs back := by
  induction blanks with
  | nil => rfl
  | cons c rest ih =>
    have hskip : runs (c :: (rest ++ back)) = runs (rest ++ back) :=
      runs_append_blank [] (hblanks c List.mem_cons_self) (rest ++ back)
    rw [List.cons_append, hskip, ih fun d hd => hblanks d (List.mem_cons_of_mem c hd)]

/-- Texts with blanks between them are split on their own. -/
theorem runs_append_blanks (front : List Char) {blanks : List Char} (hsome : blanks ≠ [])
    (hblanks : ∀ c ∈ blanks, isBlank c) (back : List Char) :
    runs (front ++ blanks ++ back) = runs front ++ runs back := by
  obtain ⟨c, rest, rfl⟩ := List.exists_cons_of_ne_nil hsome
  have hrest : ∀ d ∈ rest, isBlank d := fun d hd => hblanks d (List.mem_cons_of_mem c hd)
  rw [List.append_assoc, List.cons_append,
    runs_append_blank front (hblanks c List.mem_cons_self), runs_blanks_append hrest]

/-! ## Maximal runs -/

/-- A run that stands in a text from a place on. It has at least one character and no blank, and it
is maximal: before it and behind it the text ends or has a blank. -/
structure RunAt (cs : List Char) (start : Nat) (run : List Char) : Prop where
  ne_nil : run ≠ []
  noBlank : ∀ c ∈ run, isBlank c = false
  there : run <+: cs.drop start
  before : ∀ i c, i + 1 = start → cs[i]? = some c → isBlank c
  behind : ∀ c, cs[start + run.length]? = some c → isBlank c

/-- A list of just the things that stand somewhere, in the order of their places. -/
def Lists (places : List (Nat × List Char)) (stands : Nat → List Char → Prop) : Prop :=
  places.Pairwise (fun place next => place.1 < next.1) ∧
    ∀ start run, (start, run) ∈ places ↔ stands start run

theorem not_runAt_nil (start : Nat) (run : List Char) : ¬RunAt [] start run := by
  intro h
  have hthere := h.there
  rw [List.drop_nil, List.prefix_nil] at hthere
  exact h.ne_nil hthere

/-- The run that a text starts with, as `leadingRun` finds it. -/
theorem leadingRun_fst (cs : List Char) : (leadingRun cs).1 = cs.takeWhile fun c => !isBlank c := by
  induction cs with
  | nil => rfl
  | cons c rest ih =>
    simp only [leadingRun, List.takeWhile_cons, ← ih]
    cases isBlank c <;> rfl

/-- The only run at the front is the leading one, if there is one. -/
theorem runAt_zero_iff {cs run : List Char} :
    RunAt cs 0 run ↔ run = (leadingRun cs).1 ∧ run ≠ [] := by
  rw [leadingRun_fst]
  constructor
  · intro h
    obtain ⟨back, rfl⟩ := h.there
    have hback : ∀ c ∈ back.head?, (!isBlank c) = false := by
      intro c hc
      have hbehind : (run ++ back)[0 + run.length]? = some c := by
        rw [Nat.zero_add, List.getElem?_append_right (Nat.le_refl _), Nat.sub_self,
          ← List.head?_eq_getElem?]
        exact hc
      simp [h.behind c hbehind]
    have hsplit := span_append (p := fun c => !isBlank c) (by simpa using h.noBlank) hback
    rw [List.span_eq_takeWhile_dropWhile] at hsplit
    exact ⟨(congrArg Prod.fst hsplit).symm, h.ne_nil⟩
  · rintro ⟨rfl, hsome⟩
    refine ⟨hsome, fun c hc => by simpa using List.mem_takeWhile_imp hc,
      List.takeWhile_prefix _, fun i c hi => by omega, fun c hc => ?_⟩
    -- what stands behind the run comes first when the run is dropped
    have hhead : (cs.dropWhile fun c => !isBlank c).head? = some c := by
      rw [List.head?_eq_getElem?, ← Nat.sub_self (cs.takeWhile fun c => !isBlank c).length,
        ← List.getElem?_append_right (Nat.le_refl _), List.takeWhile_append_dropWhile, ← hc,
        Nat.zero_add]
    have hblank := List.head?_dropWhile_not (fun c => !isBlank c) cs
    rw [hhead] at hblank
    simpa using hblank

/-- A character in front moves the runs of a text up by a place. Only a blank leaves the run at the
front what it is. -/
theorem runAt_succ_iff {c : Char} {rest run : List Char} {start : Nat} :
    RunAt (c :: rest) (start + 1) run ↔ RunAt rest start run ∧ (start = 0 → isBlank c) := by
  have hindex : (c :: rest)[start + 1 + run.length]? = rest[start + run.length]? := by
    rw [Nat.add_right_comm, List.getElem?_cons_succ]
  constructor
  · intro h
    refine ⟨⟨h.ne_nil, h.noBlank, h.there, ?_, hindex ▸ h.behind⟩, ?_⟩
    · rintro i d rfl hd
      exact h.before (i + 1) d rfl hd
    · rintro rfl
      exact h.before 0 c rfl rfl
  · rintro ⟨h, hfront⟩
    refine ⟨h.ne_nil, h.noBlank, h.there, ?_, hindex ▸ h.behind⟩
    intro i d hi hd
    cases i with
    | zero =>
      obtain rfl : c = d := Option.some.inj hd
      exact hfront (by omega)
    | succ i => exact h.before i d (by omega) hd

/-! ## Runs in order -/

/-- The same one place further on. -/
def moveUp (places : List (Nat × List Char)) : List (Nat × List Char) :=
  places.map fun place => (place.1 + 1, place.2)

theorem map_snd_moveUp (places : List (Nat × List Char)) :
    (moveUp places).map Prod.snd = places.map Prod.snd := by
  rw [moveUp, List.map_map]
  rfl

theorem Lists.moveUp {places : List (Nat × List Char)} {stands moved : Nat → List Char → Prop}
    (h : Lists places stands) (hzero : ∀ run, ¬moved 0 run)
    (hsucc : ∀ start run, moved (start + 1) run ↔ stands start run) :
    Lists (Text.moveUp places) moved := by
  refine ⟨List.pairwise_map.mpr (h.1.imp fun hlt => Nat.succ_lt_succ hlt), fun start run => ?_⟩
  cases start with
  | zero => simp [Text.moveUp, hzero]
  | succ start => simp [Text.moveUp, hsucc, ← h.2]

/-- With the leading run in front, the runs behind it are all runs. -/
theorem exists_lists_of_behind {cs : List Char} {places : List (Nat × List Char)}
    (h : Lists places fun start run => start ≠ 0 ∧ RunAt cs start run) :
    ∃ all, all.map Prod.snd = consWord (leadingRun cs).1 (places.map Prod.snd) ∧
      Lists all (RunAt cs) := by
  obtain ⟨hordered, hmem⟩ := h
  by_cases hrun : (leadingRun cs).1 = []
  · refine ⟨places, by simp [consWord, hrun], hordered, fun start run => ?_⟩
    rw [hmem]
    cases start with
    | zero => simp [runAt_zero_iff, hrun]
    | succ start => simp
  · refine ⟨(0, (leadingRun cs).1) :: places, by simp [consWord, hrun], ?_, fun start run => ?_⟩
    · refine List.pairwise_cons.mpr ⟨fun place hplace => ?_, hordered⟩
      exact Nat.pos_of_ne_zero ((hmem place.1 place.2).mp hplace).1
    · rw [List.mem_cons, hmem]
      cases start with
      | zero =>
        rw [runAt_zero_iff]
        simp only [Prod.mk.injEq, true_and, ne_eq, not_true_eq_false, false_and, or_false]
        exact ⟨fun h => ⟨h, h ▸ hrun⟩, And.left⟩
      | succ start => simp

/-- The words behind the leading run are the runs that stand behind it. -/
theorem exists_lists_behind (cs : List Char) :
    ∃ places, places.map Prod.snd = (leadingRun cs).2 ∧
      Lists places fun start run => start ≠ 0 ∧ RunAt cs start run := by
  induction cs with
  | nil => exact ⟨[], rfl, .nil, by simp [not_runAt_nil]⟩
  | cons c rest ih =>
    obtain ⟨places, hwords, hplaces⟩ := ih
    by_cases hblank : isBlank c
    · -- all runs of the rest are behind the blank
      obtain ⟨all, hall, hruns⟩ := exists_lists_of_behind hplaces
      refine ⟨moveUp all, ?_, hruns.moveUp ?_ ?_⟩
      · simp [map_snd_moveUp, hall, leadingRun, hblank, hwords]
      · simp
      · simp [runAt_succ_iff, hblank]
    · -- the leading run of the rest is no longer maximal
      refine ⟨moveUp places, ?_, hplaces.moveUp ?_ ?_⟩
      · simp [map_snd_moveUp, hwords, leadingRun, hblank]
      · simp
      · simp [runAt_succ_iff, hblank, and_comm]

/-- The runs of a text, as it is split, are its maximal runs in order. -/
theorem exists_lists_runAt (cs : List Char) :
    ∃ places, places.map Prod.snd = runs cs ∧ Lists places (RunAt cs) := by
  obtain ⟨behind, hwords, hbehind⟩ := exists_lists_behind cs
  obtain ⟨places, hall, hplaces⟩ := exists_lists_of_behind hbehind
  exact ⟨places, by rw [hall, hwords, runs], hplaces⟩

end Text

/-! ## Lines of tokens -/

namespace Token

theorem ofLine_append_blanks (front : String) {blanks : String} (hsome : blanks ≠ "")
    (hblanks : ∀ c ∈ blanks.toList, Text.isBlank c) (back : String) :
    ofLine (front ++ blanks ++ back) = ofLine front ++ ofLine back := by
  have hne : blanks.toList ≠ [] := fun hnil => hsome (String.toList_eq_nil_iff.mp hnil)
  simp only [ofLine, Text.words, String.toList_append,
    Text.runs_append_blanks front.toList hne hblanks, List.map_append]

/-- The tokens of a line are what its maximal runs stand for. -/
theorem exists_lists_ofLine (line : String) :
    ∃ places, Text.Lists places (Text.RunAt line.toList) ∧
      ofLine line = places.map fun place => ofText (String.ofList place.2) := by
  obtain ⟨places, hruns, hplaces⟩ := Text.exists_lists_runAt line.toList
  refine ⟨places, hplaces, ?_⟩
  rw [ofLine, Text.words, ← hruns, List.map_map, List.map_map]
  rfl

theorem ofLine_eq_nil_iff (line : String) : ofLine line = [] ↔ Text.trim line = "" := by
  rw [ofLine, List.map_eq_nil_iff, Text.trim_eq_empty_iff]

end Token

namespace Machine

/-- Two lines are entered like one that has the tokens of both. -/
theorem enter_enter {ρ : Type} (machine : Machine ρ) {front back line : String}
    (hline : Token.ofLine line = Token.ofLine front ++ Token.ofLine back) :
    (machine.enter front).enter back = machine.enter line := by
  simp only [enter, hline, List.append_assoc]

/-- It does not matter how input is spread over lines. Two lines have the tokens of the one line in
which blanks, of any kind and number, stand between them, and leave every machine alike. The tokens
of a line are what its maximal runs of other characters stand for, in order, and there are none just
if trimming leaves nothing of the line. -/
theorem blanks_divide_lines :
    (∀ front blanks back : String, blanks ≠ "" → (∀ c ∈ blanks.toList, Text.isBlank c) →
      Token.ofLine (front ++ blanks ++ back) = Token.ofLine front ++ Token.ofLine back ∧
        ∀ (ρ : Type) (machine : Machine ρ),
          (machine.enter front).enter back = machine.enter (front ++ blanks ++ back)) ∧
      (∀ line, ∃ places, Text.Lists places (Text.RunAt line.toList) ∧
        Token.ofLine line = places.map fun place => Token.ofText (String.ofList place.2)) ∧
      ∀ line, Token.ofLine line = [] ↔ Text.trim line = "" := by
  refine ⟨?_, Token.exists_lists_ofLine, Token.ofLine_eq_nil_iff⟩
  intro front blanks back hsome hblanks
  have hline := Token.ofLine_append_blanks front hsome hblanks back
  exact ⟨hline, fun ρ machine => machine.enter_enter hline⟩

/-- Blanks of different widths divide two lines that have blanks of their own. -/
theorem blanks_divide_lines_wide :
    let front := "\t1 "
    let blanks := "\u3000 \u2028"
    let back := "\u00a0$10 nl\n"
    (blanks ≠ "" ∧ '\u3000' ∈ blanks.toList ∧ ∀ c ∈ blanks.toList, Text.isBlank c) ∧
      Token.ofLine (front ++ blanks ++ back) = [.literal 1, .literal 16, .word "nl"] ∧
      Token.ofLine (front ++ blanks ++ back) = Token.ofLine front ++ Token.ofLine back ∧
        ∀ (ρ : Type) (machine : Machine ρ),
          (machine.enter front).enter back = machine.enter (front ++ blanks ++ back) := by
  intro front blanks back
  have hsome : blanks ≠ "" := by decide
  have hblanks : ∀ c ∈ blanks.toList, Text.isBlank c := List.all_eq_true.mp (by decide)
  refine ⟨⟨hsome, by decide, hblanks⟩, by decide +kernel, ?_⟩
  exact blanks_divide_lines.1 front blanks back hsome hblanks

end Machine

end SerialConsole
