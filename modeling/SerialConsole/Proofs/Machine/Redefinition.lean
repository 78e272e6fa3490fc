import Mathlib.Data.List.Find
import Mathlib.Data.List.Nodup
import SerialConsole.Proofs.Machine.Names

/-!
# Exchanging a dictionary

A machine asks its dictionary for the first entry of a name and for nothing else, `words` apart. So a
dictionary can be exchanged for another one, as long as the first entries of the names that are used
need as many values and do the same. The argument has three parts:

* `Dictionary.Edit.find?_eq`: which edits of a dictionary leave the first entries of the used names;
* `Machine.Stocked.attend`: a machine without procedures runs only the tokens that it was given;
* `Machine.mimics_redefined`: a token does the same under two dictionaries that agree on its name.
-/

namespace SerialConsole

open Failing

variable {ρ : Type}

/-! ## Dictionaries that agree -/

namespace Dictionary

/-- Two dictionaries give a name the same meaning, which is not to list the dictionary. -/
inductive AgreeOn (dictionary other : Dictionary) (name : String) : Prop where
  /-- Neither has an entry of the name. -/
  | unknown (h : dictionary.find? name = none) (hother : other.find? name = none)
  /-- The first entries of the name need as many values and do the same, and do not list it. -/
  | known {entry entry' : Entry} (h : dictionary.find? name = some entry)
    (hother : other.find? name = some entry') (harity : entry.arity = entry'.arity)
    (haction : entry.action = entry'.action) (hwords : entry.action ≠ .builtin .words)

/-- The same first entry is enough, if it does not list the dictionary. -/
theorem agreeOn_of_find?_eq {dictionary other : Dictionary} {name : String}
    (h : dictionary.find? name = other.find? name)
    (hwords : ∀ entry, dictionary.find? name = some entry → entry.action ≠ .builtin .words) :
    dictionary.AgreeOn other name := by
  cases hfind : dictionary.find? name with
  | none => exact .unknown hfind (h ▸ hfind)
  | some entry => exact .known hfind (h ▸ hfind) rfl rfl (hwords entry hfind)

/-- Edits of a dictionary that cannot be seen by who uses only some of the names. -/
inductive Edit (used : String → Prop) : List Entry → List Entry → Prop where
  /-- An entry that is hidden by an earlier one is removed. -/
  | remove (front back : List Entry) (hidden : Entry)
    (h : ∃ entry ∈ front, entry.name = hidden.name) :
    Edit used (front ++ hidden :: back) (front ++ back)
  /-- Entries of names that are not used are added, at the end or elsewhere. -/
  | add (front back added : List Entry) (h : ∀ entry ∈ added, ¬used entry.name) :
    Edit used (front ++ back) (front ++ added ++ back)
  /-- Entries of distinct names that stand together are put in another order. -/
  | permute (front back moved reordered : List Entry) (h : moved.Perm reordered)
    (hnames : (moved.map Entry.name).Nodup) :
    Edit used (front ++ moved ++ back) (front ++ reordered ++ back)

theorem Edit.find?_eq {used : String → Prop} {dictionary other : Dictionary}
    (h : Edit used dictionary.entries other.entries) {name : String} (hused : used name) :
    dictionary.find? name = other.find? name := by
  unfold find?
  generalize dictionary.entries = entries at h
  generalize other.entries = entries' at h
  cases h with
  | remove front back hidden hfront =>
    rw [List.find?_append, List.find?_append, List.find?_cons]
    cases hname : hidden.name == name with
    | false => rfl
    | true =>
      -- the search does not get past the entry in front
      obtain ⟨entry, hentry, hsame⟩ := hfront
      cases hfound : front.find? fun entry => entry.name == name with
      | some found => rfl
      | none =>
        rw [List.find?_eq_none] at hfound
        exact absurd (hsame ▸ hname) (hfound entry hentry)
  | add front back added hadded =>
    have hnone : (added.find? fun entry => entry.name == name) = none := by
      rw [List.find?_eq_none]
      intro entry hentry hname
      exact hadded entry hentry (beq_iff_eq.mp hname ▸ hused)
    rw [List.find?_append, List.find?_append, List.find?_append, hnone, Option.or_none]
  | permute front back moved reordered hperm hnames =>
    have hone : {entry ∈ moved | (entry.name == name) = true}.Subsingleton := by
      rintro entry ⟨hentry, hname⟩ entry' ⟨hentry', hname'⟩
      rw [beq_iff_eq] at hname hname'
      exact List.inj_on_of_nodup_map hnames hentry hentry' (hname.trans hname'.symm)
    simp only [List.find?_append, List.find?_eq_find?_of_perm hperm hone]

end Dictionary

/-! ## Decisions under another dictionary -/

section Decisions

variable {machine other : Machine ρ}

/-- No command but `words` reads the dictionary. -/
theorem Builtin.effect_withDictionary {command : Builtin} (h : command ≠ .words)
    (machine : Machine ρ) (dictionary : Dictionary) :
    command.effect { machine with dictionary } = command.effect machine := by
  cases command with
  | words => exact absurd rfl h
  | _ => rfl

/-- Entries that need as many values and do the same are decided alike, whatever the dictionary around
them, unless they list it. -/
theorem Entry.effect_congr (h : ({ machine with dictionary := other.dictionary }).Alike other)
    {entry entry' : Entry} (harity : entry.arity = entry'.arity)
    (haction : entry.action = entry'.action) (hwords : entry.action ≠ .builtin .words) :
    entry.effect machine = entry'.effect other := by
  have hdepth : machine.stack.depth = other.stack.depth := DataStack.depth_congr h.values
  rw [Entry.effect, Entry.effect, ← harity, ← haction, DataStack.require, DataStack.require, hdepth]
  cases hcommand : entry.action with
  | procedure steps => rfl
  | builtin command =>
    have hreads : command ≠ .words := by
      rintro rfl
      exact hwords hcommand
    have hdecided : command.effect machine = command.effect other := by
      rw [← Builtin.effect_withDictionary hreads machine other.dictionary]
      exact Builtin.effect_congr h command
    simp only [hdecided]

/-- A token is decided alike on machines whose dictionaries agree on its name and that are otherwise
alike. -/
theorem Token.effect_of_agreeOn (h : ({ machine with dictionary := other.dictionary }).Alike other)
    {token : Token} (hagree : ∀ name, token = word name →
      machine.dictionary.AgreeOn other.dictionary name) :
    token.effect machine = token.effect other := by
  cases token with
  | literal value => exact Token.effect_congr h (literal value)
  | word name =>
    cases hagree name rfl with
    | unknown hfind hfind' => simp only [Token.effect, hfind, hfind']
    | known hfind hfind' harity haction hwords =>
      simp only [Token.effect, hfind, hfind', Entry.effect_congr h harity haction hwords]

end Decisions

namespace Machine

/-! ## The tokens that are run -/

/-- The tokens that a request brings. -/
def Request.tokens : Request → List Token
  | .enter line => Token.ofLine line
  | .run token => [token]
  | .call name => [.word name]
  | _ => []

/-- Whether a name is among the tokens that wait on a machine or that requests bring. -/
def Mentions (machine : Machine ρ) (requests : List Request) (name : String) : Prop :=
  Token.word name ∈ machine.pending ++ requests.flatMap Request.tokens

/-- A machine without procedures, on which only tokens of a stock wait. -/
structure Stocked (stock : List Token) (machine : Machine ρ) : Prop where
  native : machine.dictionary.Native
  pending : machine.pending ⊆ stock

section Stocked

variable {stock : List Token} {machine : Machine ρ}

theorem Stocked.onStack {α : Type} (h : machine.Stocked stock)
    (operation : DataStack DataStack.deviceCapacity →
      Except Fault (α × DataStack DataStack.deviceCapacity)) :
    (stateAfter (MachineM.onStack operation machine)).Stocked stock := by
  obtain ⟨stack, hafter⟩ := stateAfter_onStack operation machine
  rw [hafter]
  exact ⟨h.native, h.pending⟩

variable [Radio ρ]

theorem Stocked.run (h : machine.Stocked stock) (room : Nat) (token : Token) :
    (stateAfter (MachineM.runWithin room token machine)).Stocked stock := by
  rw [MachineM.runWithin_eq h.native]
  rcases MachineM.run_cases h.native token with ⟨_, _, -, hrun⟩ | ⟨_, _, -, hrun⟩
  · rw [hrun]
    exact ⟨h.native, h.pending⟩
  · rw [hrun]
    exact ⟨h.native, h.pending⟩

theorem Stocked.traceWithin (h : machine.Stocked stock) (room fuel : Nat) :
    (∀ ran ∈ (machine.traceWithin room fuel).1, ran.token ∈ stock) ∧
      (machine.traceWithin room fuel).2.2.Stocked stock := by
  fun_induction Machine.traceWithin room fuel machine with
  | case1 machine => exact ⟨List.forall_mem_nil _, h.native, List.nil_subset stock⟩
  | case2 fuel machine => exact ⟨List.forall_mem_nil _, h⟩
  | case3 fuel machine hflushed token rest hpending _ next hrun ih =>
    have hwaits := h.pending
    rw [hpending, List.cons_subset] at hwaits
    have hstarted : Stocked stock { machine with pending := rest } := ⟨h.native, hwaits.2⟩
    have hnext := hstarted.run room token
    rw [hrun] at hnext
    obtain ⟨hlater, hlast⟩ := ih hnext
    exact ⟨List.forall_mem_cons.mpr ⟨hwaits.1, hlater⟩, hlast⟩
  | case4 fuel machine hflushed token rest hpending fault after hrun =>
    have hwaits := h.pending
    rw [hpending, List.cons_subset] at hwaits
    have hstarted : Stocked stock { machine with pending := rest } := ⟨h.native, hwaits.2⟩
    have hafter := hstarted.run room token
    rw [hrun] at hafter
    exact ⟨List.forall_mem_singleton.mpr hwaits.1, hafter.native, List.nil_subset stock⟩
  | case5 fuel machine => exact ⟨List.forall_mem_nil _, h.native, h.pending⟩

theorem Stocked.pollRadio (h : machine.Stocked stock) : machine.pollRadio.Stocked stock := by
  unfold Machine.pollRadio
  split
  · exact h
  · split
    · exact ⟨h.native, h.pending⟩
    · exact ⟨h.native, h.pending⟩

theorem Stocked.perform (h : machine.Stocked stock) (limits : Limits) {request : Request}
    (hbrought : request.tokens ⊆ stock) :
    (∀ ran ∈ (machine.perform limits request).runs, ran.token ∈ stock) ∧
      (machine.perform limits request).machine.Stocked stock := by
  cases request with
  | enter line =>
    exact ⟨List.forall_mem_nil _, h.native, List.append_subset.mpr ⟨h.pending, hbrought⟩⟩
  | execute => exact h.traceWithin limits.nesting (limits.input + machine.pending.length + 1)
  | run token =>
    exact ⟨List.forall_mem_singleton.mpr (hbrought List.mem_cons_self), h.run limits.nesting token⟩
  | call name =>
    exact ⟨List.forall_mem_singleton.mpr (hbrought List.mem_cons_self),
      h.run limits.nesting (.word name)⟩
  | push value => exact ⟨List.forall_mem_nil _, h.onStack _⟩
  | pop => exact ⟨List.forall_mem_nil _, h.onStack _⟩
  | pollRadio => exact ⟨List.forall_mem_nil _, h.pollRadio⟩
  | clear => exact ⟨List.forall_mem_nil _, h.native, List.nil_subset stock⟩
  | print _ | echo _ => exact ⟨List.forall_mem_nil _, h.native, h.pending⟩

/-- A machine without procedures runs no token that it was not given. -/
theorem Stocked.attend (h : machine.Stocked stock) (limits : Limits) (requests : List Request)
    (hbrought : requests.flatMap Request.tokens ⊆ stock) :
    ∀ ran ∈ (machine.attend limits requests).runs, ran.token ∈ stock := by
  induction requests generalizing machine with
  | nil => exact List.forall_mem_nil _
  | cons request rest ih =>
    rw [List.flatMap_cons, List.append_subset] at hbrought
    obtain ⟨hfirst, hnext⟩ := h.perform limits hbrought.1
    intro ran hran
    rcases List.mem_append.mp hran with hhere | hthere
    · exact hfirst ran hhere
    · exact ih hnext hbrought.2 ran hthere

end Stocked

/-! ## Machines that differ in their dictionaries -/

/-- The insides of machines with the given dictionaries that are otherwise the same. -/
structure Redefined (dictionary other : Dictionary) (inside inside' : Inside) : Prop where
  dictionary : inside.dictionary = dictionary
  other : inside'.dictionary = other
  memory : inside.memory = inside'.memory
  rom : inside.rom = inside'.rom

section Redefined

variable [Radio ρ] {dictionary other : Dictionary}

/-- A token does the same under dictionaries that agree on its name. -/
theorem mimics_redefined (limits : Limits) (hnative : dictionary.Native) (hother : other.Native) :
    Mimics limits (fun ran : Ran ρ => ∀ name, ran.token = .word name → dictionary.AgreeOn other name)
      (Redefined dictionary other) := by
  intro machine machine' token h hagree
  obtain rfl : machine.dictionary = dictionary := h.inside.dictionary
  obtain rfl : machine'.dictionary = other := h.inside.other
  have halike : ({ machine with dictionary := machine'.dictionary }).Alike machine' :=
    ⟨congrArg DataStack.toList h.stack, rfl, h.inside.memory, h.inside.rom⟩
  rw [MachineM.runWithin_eq hnative, MachineM.runWithin_eq hother]
  refine h.endsAlike_of_does (MachineM.run_does hnative token) (MachineM.run_does hother token) ?_
  rw [← Token.effect_of_agreeOn halike hagree]
  cases token.effect machine with
  | error fault => exact .error fault
  | ok effect =>
    have hrom : effect.rom?.getD machine.rom = effect.rom?.getD machine'.rom :=
      congrArg (effect.rom?.getD ·) h.inside.rom
    exact .ok effect ⟨rfl, rfl, h.inside.memory, hrom⟩

/-- Under either dictionary a machine gives the same answers to requests, and after each of them has
the same stack, radio, node, pending tokens, printed text and storage. -/
def Interchangeable (limits : Limits) (machine : Machine ρ) (dictionary other : Dictionary)
    (requests : List Request) : Prop :=
  ∀ asked, asked <+: requests →
    let account := { machine with dictionary }.attend limits asked
    let account' := { machine with dictionary := other }.attend limits asked
    account.answers = account'.answers ∧ account.machine.LooksLike account'.machine ∧
      account.machine.rom = account'.machine.rom

theorem interchangeable_of_agreeOn (limits : Limits) (machine : Machine ρ)
    (hnative : dictionary.Native) (hother : other.Native) {requests : List Request}
    (hagree : ∀ name, machine.Mentions requests name → dictionary.AgreeOn other name) :
    machine.Interchangeable limits dictionary other requests := by
  intro asked hasked account account'
  obtain ⟨later, rfl⟩ := hasked
  have hstart : Twins (Redefined dictionary other) { machine with dictionary }
      { machine with dictionary := other } :=
    ⟨⟨rfl, rfl, rfl, rfl, rfl⟩, ⟨rfl, rfl, rfl, rfl⟩⟩
  have hstocked : Stocked (machine.pending ++ (asked ++ later).flatMap Request.tokens)
      { machine with dictionary } := ⟨hnative, List.subset_append_left _ _⟩
  have hbrought : asked.flatMap Request.tokens
      ⊆ machine.pending ++ (asked ++ later).flatMap Request.tokens := by
    rw [List.flatMap_append]
    exact List.subset_append_of_subset_right _ (List.subset_append_left _ _)
  have hruns : ∀ ran ∈ account.runs, ∀ name, ran.token = .word name →
      dictionary.AgreeOn other name := by
    intro ran hran name hname
    have hgiven := hstocked.attend limits asked hbrought ran hran
    rw [hname] at hgiven
    exact hagree name hgiven
  obtain ⟨hanswers, htwins⟩ :=
    Mimics.attend (mimics_redefined limits hnative hother) asked hstart hruns
  exact ⟨hanswers, htwins.toLooksLike, htwins.inside.rom⟩

/-- What a machine does depends on its dictionary only through the first entries of names. Take two
dictionaries of the console's own commands, under whatever names and arities, and a machine with either
of them. If for every name that occurs in the tokens that wait or in the requests neither dictionary has
an entry, or the first entries need as many values and do the same, and do not list the dictionary, then
both machines give the same answers and are left with the same stack, radio and storage after each
request. So, where no such name lists the dictionary, it changes nothing to remove an entry that is
hidden by an earlier one, to add entries of other names, or to permute entries of distinct names. -/
theorem first_entries_decide (limits : Limits) (machine : Machine ρ) (hnative : dictionary.Native)
    (hother : other.Native) (requests : List Request) :
    ((∀ name, machine.Mentions requests name → dictionary.AgreeOn other name) →
        machine.Interchangeable limits dictionary other requests) ∧
      ((∀ name entry, machine.Mentions requests name → dictionary.find? name = some entry →
          entry.action ≠ .builtin .words) →
        Dictionary.Edit (machine.Mentions requests) dictionary.entries other.entries →
          machine.Interchangeable limits dictionary other requests) := by
  refine ⟨interchangeable_of_agreeOn limits machine hnative hother, fun hwords hedit => ?_⟩
  apply interchangeable_of_agreeOn limits machine hnative hother
  intro name hname
  exact Dictionary.agreeOn_of_find?_eq (hedit.find?_eq hname) fun entry => hwords name entry hname

/-- A session under the full dictionary and under a small one, with its entries in another order and a
second `-` that would list it; and under dictionaries without and with radio and slots. -/
theorem first_entries_decide_session :
    let requests : List Request :=
      [.enter "7 3 - nl", .execute, .call "negate", .run (.word "frob"), .pop]
    let machine : Machine QueuedRadio := { radio := {} }
    let small : Dictionary :=
      ⟨[⟨"negate", 1, .builtin (.unary .negate)⟩, ⟨"-", 2, .builtin (.binary .subtract)⟩,
        ⟨"nl", 0, .builtin .newline⟩, ⟨"-", 0, .builtin .words⟩], by decide⟩
    (∀ name, machine.Mentions requests name → (Dictionary.standard .standard).AgreeOn small name) ∧
      machine.Interchangeable .device (.standard .standard) small requests ∧
      Dictionary.Edit (machine.Mentions requests) (Dictionary.standard .bare).entries
        (Dictionary.standard .standard).entries ∧
      machine.Interchangeable .device (.standard .bare) (.standard .standard) requests := by
  intro requests machine small
  have hmentions : ∀ name, machine.Mentions requests name → name ∈ ["-", "nl", "negate", "frob"] := by
    intro name hname
    have htokens : machine.pending ++ requests.flatMap Request.tokens
        = [.literal 7, .literal 3, .word "-", .word "nl", .word "negate", .word "frob"] := by
      decide +kernel
    rw [Mentions, htokens] at hname
    simpa using hname
  have hsmall : small.Native := by simp [Dictionary.Native, small]
  have hagree : ∀ name, machine.Mentions requests name →
      (Dictionary.standard .standard).AgreeOn small name := by
    intro name hname
    have hlisted := hmentions name hname
    simp only [List.mem_cons, List.not_mem_nil, or_false] at hlisted
    rcases hlisted with rfl | rfl | rfl | rfl
    · exact .known rfl rfl rfl rfl nofun
    · exact .known rfl rfl rfl rfl nofun
    · exact .known rfl rfl rfl rfl nofun
    · exact .unknown rfl rfl
  have hwords : ∀ name entry, machine.Mentions requests name →
      (Dictionary.standard .bare).find? name = some entry → entry.action ≠ .builtin .words := by
    intro name entry hname hfind haction
    -- in the standard dictionary only `words` does so, and the session does not use it
    obtain ⟨command, -, rfl⟩ := Dictionary.named (List.mem_of_find?_eq_some hfind)
    obtain rfl : command = .words := Action.builtin.inj haction
    obtain rfl : "words" = name := Dictionary.name_of_find? hfind
    exact absurd (hmentions _ hname) (by decide)
  have hedit : Dictionary.Edit (machine.Mentions requests) (Dictionary.standard .bare).entries
      (Dictionary.standard .standard).entries := by
    have hunused : ∀ entry ∈ Dictionary.radioEntries ++ Dictionary.romEntries,
        entry.name ∉ ["-", "nl", "negate", "frob"] := by decide
    exact .add Dictionary.coreEntries [] _ fun entry hentry hused =>
      hunused entry hentry (hmentions _ hused)
  exact ⟨hagree, (first_entries_decide .device machine (Dictionary.native_standard .standard) hsmall
    requests).1 hagree, hedit, (first_entries_decide .device machine (Dictionary.native_standard .bare)
    (Dictionary.native_standard .standard) requests).2 hwords hedit⟩

end Redefined

end Machine

end SerialConsole
