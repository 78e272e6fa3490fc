import Mathlib.Data.List.TakeDrop
import Mathlib.Data.List.TakeWhile
import SerialConsole.Text.Blank
import SerialConsole.Text.Numeral

/-!
# Texts read back

What the reader of words makes of a text, and how a text is put together from words:

* `span_append`: a part of a text ends where something follows that cannot belong to it;
* `runs_append_blank`: a blank cuts a text into two parts that are split on their own, so words that
  are joined by blanks come apart into the same words (`words_intercalate`);
* `isWord_of_mem_words`: what a line is split into can stand as a word again;
* `trim_eq_empty_iff`: a line without words is one that trimming leaves nothing of;
* `isWord_signed`: an integer is written as one word.
-/

namespace SerialConsole.Text

/-! ## Parts of one kind -/

/-- A front part of one kind, behind which something of another kind stands, can be split off. -/
theorem span_append {α : Type} {p : α → Bool} {front back : List α}
    (hfront : ∀ item ∈ front, p item) (hback : ∀ item ∈ back.head?, p item = false) :
    (front ++ back).span p = (front, back) := by
  have hnone : back.takeWhile p = [] ∧ back.dropWhile p = back := by
    cases back with
    | nil => exact ⟨rfl, rfl⟩
    | cons item rest =>
      have hitem : p item = false := hback item rfl
      simp [hitem]
  rw [List.span_eq_takeWhile_dropWhile, List.takeWhile_append_of_pos hfront,
    List.dropWhile_append_of_pos hfront, hnone.1, hnone.2, List.append_nil]

/-! ## Words -/

theorem consWord_append (word : List Char) (words others : List (List Char)) :
    consWord word (words ++ others) = consWord word words ++ others := by
  unfold consWord
  split <;> rfl

/-- A blank ends the leading run, and what stands behind it is split on its own. -/
theorem leadingRun_append_blank (front : List Char) {c : Char} (hblank : isBlank c)
    (back : List Char) :
    leadingRun (front ++ c :: back)
      = ((leadingRun front).1, (leadingRun front).2 ++ runs back) := by
  induction front with
  | nil => simp [leadingRun, hblank, runs]
  | cons d rest ih =>
    simp only [List.cons_append, leadingRun, ih, consWord_append]
    split <;> rfl

/-- The runs of a text with a blank in it are those before the blank and those behind it. -/
theorem runs_append_blank (front : List Char) {c : Char} (hblank : isBlank c) (back : List Char) :
    runs (front ++ c :: back) = runs front ++ runs back := by
  rw [runs, leadingRun_append_blank front hblank]
  exact consWord_append _ _ _

/-- A text that can stand as a word: at least one character, and no blank. -/
def IsWord (text : String) : Prop := text ≠ "" ∧ ∀ c ∈ text.toList, isBlank c = false

instance (text : String) : Decidable (IsWord text) :=
  have : Decidable (∀ c ∈ text.toList, isBlank c = false) := List.decidableBAll _ _
  inferInstanceAs (Decidable (_ ∧ _))

theorem leadingRun_of_no_blank {cs : List Char} (h : ∀ c ∈ cs, isBlank c = false) :
    leadingRun cs = (cs, []) := by
  induction cs with
  | nil => rfl
  | cons c rest ih =>
    have hrest : leadingRun rest = (rest, []) := ih fun d hd => h d (List.mem_cons_of_mem c hd)
    simp [leadingRun, hrest, h c List.mem_cons_self]

theorem runs_of_isWord {word : String} (h : IsWord word) : runs word.toList = [word.toList] := by
  have hsome : word.toList ≠ [] := fun hnil => h.1 (String.toList_eq_nil_iff.mp hnil)
  rw [runs, leadingRun_of_no_blank h.2, consWord, if_neg (by simpa using hsome)]

/-- Words that are joined by single blanks are the words of the line. -/
theorem words_intercalate {texts : List String} (h : ∀ text ∈ texts, IsWord text) :
    words (" ".intercalate texts) = texts := by
  have hruns : runs (" ".intercalate texts).toList = texts.map String.toList := by
    induction texts with
    | nil => rfl
    | cons first rest ih =>
      have hfirst := runs_of_isWord (h first List.mem_cons_self)
      cases rest with
      | nil => simpa using hfirst
      | cons second others =>
        have hrest := ih fun text htext => h text (List.mem_cons_of_mem first htext)
        have hline : (" ".intercalate (first :: second :: others)).toList
            = first.toList ++ ' ' :: (" ".intercalate (second :: others)).toList := by
          rw [String.intercalate_cons_cons, String.toList_append, String.toList_append,
            List.append_assoc]
          rfl
        rw [hline, runs_append_blank _ (by decide), hfirst, hrest]
        rfl
  rw [words, hruns, List.map_map]
  exact List.map_id'' (fun text => String.ofList_toList) texts

theorem mem_consWord {word other : List Char} {words : List (List Char)} :
    other ∈ consWord word words ↔ (other = word ∧ word ≠ []) ∨ other ∈ words := by
  unfold consWord
  split
  case isTrue hempty => simp [List.isEmpty_iff.mp hempty]
  case isFalse hsome =>
    have hne : word ≠ [] := fun hnil => hsome (by simp [hnil])
    simp [hne]

/-- Neither the leading run nor a word behind it has a blank, and no word is empty. -/
theorem leadingRun_no_blank (cs : List Char) :
    (∀ c ∈ (leadingRun cs).1, isBlank c = false) ∧
      ∀ word ∈ (leadingRun cs).2, word ≠ [] ∧ ∀ c ∈ word, isBlank c = false := by
  induction cs with
  | nil => simp [leadingRun]
  | cons c rest ih =>
    obtain ⟨hrun, hwords⟩ := ih
    simp only [leadingRun]
    split
    · refine ⟨by simp, fun word hword => ?_⟩
      rcases mem_consWord.mp hword with ⟨rfl, hne⟩ | hmem
      · exact ⟨hne, hrun⟩
      · exact hwords word hmem
    case isFalse hblank =>
      refine ⟨?_, hwords⟩
      simpa using ⟨Bool.not_eq_true _ ▸ hblank, hrun⟩

/-- What a line is split into can stand as a word again. -/
theorem isWord_of_mem_words {line text : String} (h : text ∈ words line) : IsWord text := by
  obtain ⟨run, hmem, rfl⟩ := List.mem_map.mp h
  obtain ⟨hfirst, hothers⟩ := leadingRun_no_blank line.toList
  have hrun : run ≠ [] ∧ ∀ c ∈ run, isBlank c = false := by
    rcases mem_consWord.mp hmem with ⟨rfl, hne⟩ | hother
    · exact ⟨hne, hfirst⟩
    · exact hothers run hother
  refine ⟨fun hempty => hrun.1 ?_, by simpa using hrun.2⟩
  simpa using hempty

/-! ## Blank lines -/

/-- A text has no runs if it has nothing but blanks. -/
theorem runs_eq_nil_iff (cs : List Char) : runs cs = [] ↔ ∀ c ∈ cs, isBlank c := by
  induction cs with
  | nil => simp [runs, leadingRun, consWord]
  | cons c rest ih =>
    rw [List.forall_mem_cons, ← ih]
    by_cases hblank : isBlank c
    · -- a blank at the front belongs to no run
      have hskip : runs (c :: rest) = runs rest := runs_append_blank [] hblank rest
      rw [hskip]
      simp [hblank]
    · simp [runs, leadingRun, consWord, hblank]

/-- What is left when the leading items of a kind are dropped is of that kind only if all was. -/
theorem forall_mem_dropWhile_iff {α : Type} (p : α → Bool) (items : List α) :
    (∀ item ∈ items.dropWhile p, p item) ↔ ∀ item ∈ items, p item := by
  constructor
  · intro h item hitem
    have hsplit : items.takeWhile p ++ items.dropWhile p = items :=
      List.takeWhile_append_dropWhile
    rw [← hsplit, List.mem_append] at hitem
    rcases hitem with hfront | hback
    · exact List.mem_takeWhile_imp hfront
    · exact h item hback
  · intro h item hitem
    exact h item ((List.dropWhile_sublist p).subset hitem)

/-- Trimming leaves nothing of a line just if the line has no words: both scans have the same notion
of a blank. -/
theorem trim_eq_empty_iff (line : String) : trim line = "" ↔ words line = [] := by
  have htrim : trim line = "" ↔ ∀ c ∈ line.toList, isBlank c := by
    rw [trim, ← String.toList_eq_nil_iff, String.toList_ofList, List.reverse_eq_nil_iff,
      List.dropWhile_eq_nil_iff]
    simp only [List.mem_reverse]
    exact forall_mem_dropWhile_iff isBlank line.toList
  rw [htrim, words, List.map_eq_nil_iff, runs_eq_nil_iff]

/-! ## Written integers -/

theorem toNat_of_isDigit {c : Char} (h : c.isDigit) : 48 ≤ c.toNat ∧ c.toNat ≤ 57 := by
  simp only [Char.isDigit, Bool.and_eq_true, decide_eq_true_eq] at h
  exact h

theorem isDigit_of_mem_toDigits {n : Nat} {c : Char} (h : c ∈ Nat.toDigits 10 n) : c.isDigit :=
  Nat.isDigit_of_mem_toDigits (by decide) (by decide) h

theorem isBlank_of_isDigit {c : Char} (h : c.isDigit) : isBlank c = false := by
  have hbounds := toNat_of_isDigit h
  simp only [isBlank, Bool.or_eq_false_iff, Bool.and_eq_false_iff, decide_eq_false_iff_not,
    beq_eq_false_iff_ne]
  omega

/-- The characters of a written integer: a sign if it is negative, and the digits. -/
theorem toList_signed (z : Int) :
    (signed z).toList = (if z < 0 then ['-'] else []) ++ Nat.toDigits 10 z.natAbs := by
  rw [signed]
  split <;> simp [decimal]

/-- A written integer stands as a word. -/
theorem isWord_signed (z : Int) : IsWord (signed z) := by
  constructor
  · intro hempty
    have hnil := String.toList_eq_nil_iff.mpr hempty
    rw [toList_signed] at hnil
    exact Nat.toDigits_ne_nil (List.append_eq_nil_iff.mp hnil).2
  · intro c hc
    rw [toList_signed, List.mem_append] at hc
    rcases hc with hsign | hdigit
    · split at hsign
      · rw [List.mem_singleton.mp hsign]
        decide
      · cases hsign
    · exact isBlank_of_isDigit (isDigit_of_mem_toDigits hdigit)

end SerialConsole.Text
