import SerialConsole.Proofs.Machine.Token
import SerialConsole.Proofs.Memory.Listing

/-!
# Operands

What the console's own commands take off the stack and leave there, and what can be wrong with them.
The arity in the dictionary is a number beside each command; `Dictionary.declares` says that it is the
number of values that the command works on. So once a command is started its operands are there, and
a fault can only be one of its own: `Builtin.refuses_own` looks at every way out of every command.

`run_stack_as_declared` puts this together for tokens: which of them fail because of the stack, and
how the stack looks after those that do not.
-/

namespace SerialConsole

open Failing

variable {ρ α β : Type}

/-! ## Faults of a command's own -/

/-- A fault that a command finds when its operands are there. It is not about the stack or the name
of the command, and it names no command yet. -/
structure Fault.Own (fault : Fault) : Prop where
  word : fault.word = none
  kind : fault.kind ∉ [.stackOverflow, .stackUnderflow, .unknownCommand]

/-- Whatever an answer fails with has a property; nothing is said of a value. -/
def Refuses (P : Fault → Prop) : Except Fault α → Prop
  | .ok _ => True
  | .error fault => P fault

theorem refuses_bind {P : Fault → Prop} {answer : Except Fault α} {next : α → Except Fault β}
    (h : Refuses P answer) (hnext : ∀ value, answer = .ok value → Refuses P (next value)) :
    Refuses P (answer >>= next) := by
  cases answer with
  | ok value => exact hnext value rfl
  | error fault => exact h

/-- A peek finds what is there. -/
theorem refuses_peek {capacity : Nat} {stack : DataStack capacity} {n : Nat} (h : n < stack.depth)
    (P : Fault → Prop) : Refuses P (stack.peek n) := by
  unfold DataStack.peek
  rw [dif_pos h]
  split <;> exact True.intro

theorem refuses_narrow (limit : Nat) (detail : String) (value : Cell) :
    Refuses Fault.Own (narrow limit detail value) := by
  unfold narrow
  split
  · exact True.intro
  · exact ⟨rfl, by simp [Fault.withDetail]⟩

theorem refuses_slotIndex (value : Cell) : Refuses Fault.Own (slotIndex value) := by
  unfold slotIndex
  split
  · exact True.intro
  · exact ⟨rfl, by decide⟩

theorem BinaryOp.refuses_apply (op : BinaryOp) (lhs rhs : Cell) :
    Refuses Fault.Own (op.apply lhs rhs) := by
  have hdivision : Refuses Fault.Own (checkDivision lhs rhs) := by
    unfold checkDivision
    split
    · exact ⟨rfl, by decide⟩
    · split
      · exact ⟨rfl, by decide⟩
      · exact True.intro
  have hshift : Refuses Fault.Own (checkShift lhs) := by
    unfold checkShift
    split
    · exact True.intro
    · exact ⟨rfl, by decide⟩
  cases op with
  | divide | modulo => exact refuses_bind hdivision fun _ _ => True.intro
  | shiftLeft | shiftRight => exact refuses_bind hshift fun _ _ => True.intro
  | _ => exact True.intro

theorem RomFailure.own_fault (failure : RomFailure) : failure.fault.Own := by
  cases failure with
  | noSlot => exact ⟨rfl, by decide⟩
  | unwritable path cause => exact ⟨rfl, by simp [fault, Fault.withDetail]⟩

/-! ## Memory -/

/-- An address space that a region, a map of regions or a window gives. -/
def AddressSpace.Mapped (memory : AddressSpace) : Prop :=
  (∃ region : Region, memory = region.space) ∨ (∃ map : AddressMap, memory = map.space) ∨
    ∃ window : Window, memory = window.space

/-- There is nothing wrong with an address but that nothing is mapped there. -/
theorem AddressSpace.Mapped.refuses {memory : AddressSpace} (h : memory.Mapped)
    (address : UInt32) : Refuses Fault.Own (memory address) := by
  have hrange : outOfRange.Own := ⟨rfl, by decide⟩
  have hread : ∀ read? : UInt32 → Option UInt8, Refuses Fault.Own (ofRead? read? address) := by
    intro read?
    unfold ofRead?
    split
    · exact True.intro
    · exact hrange
  rcases h with ⟨region, rfl⟩ | ⟨map, rfl⟩ | ⟨window, rfl⟩
  · exact hread region.read?
  · exact hread map.read?
  · unfold Window.space
    split
    · exact True.intro
    · exact hrange

/-- A listing fails only with what reading a byte fails with. -/
theorem Listing.refuses_listing {P : Fault → Prop} {memory : AddressSpace}
    (h : ∀ address, Refuses P (memory address)) (start : UInt32) (count : Cell) :
    Refuses P (listing memory start count) := by
  cases hlisting : listing memory start count with
  | ok text => exact True.intro
  | error fault =>
    obtain ⟨row, -, offset, -, hfault, -⟩ := listing_eq_error_iff.mp hlisting
    have hread := h (address start row offset)
    rw [hfault] at hread
    exact hread

/-! ## What a command takes and leaves -/

namespace Builtin

/-- The number of values that a command works on. -/
def operands : Builtin → Nat
  | newline | words => 0
  | unary _ | radioPower | romFetch => 1
  | binary _ | dump | romStore => 2
  | radioInit => 3

/-- The number of values that a command leaves in the place of its operands. -/
def results : Builtin → Nat
  | unary _ | binary _ | romFetch => 1
  | newline | words | dump | radioInit | radioPower | romStore => 0

theorem results_le_operands (command : Builtin) : command.results ≤ command.operands := by
  cases command <;> simp [results, operands]

/-- A command that does not fail takes its operands and leaves its results. -/
theorem decides_exchange (command : Builtin) (machine : Machine ρ) :
    Decides (fun effect => effect.taken = command.operands ∧
      effect.left?.toList.length = command.results) (command.effect machine) := by
  refine (command.decides_yields machine).imp fun effect hyields => ?_
  cases command with
  | romStore | dump =>
    obtain ⟨_, _, _, -, rfl⟩ := hyields
    exact ⟨rfl, rfl⟩
  | newline | words => exact hyields ▸ ⟨rfl, rfl⟩
  | _ =>
    obtain ⟨_, rfl⟩ := hyields
    exact ⟨rfl, rfl⟩

/-- A command whose operands are there fails only with a fault of its own: no look at the stack finds
less than it needs. -/
theorem refuses_own (command : Builtin) {machine : Machine ρ} (hmemory : machine.memory.Mapped)
    (hdepth : command.operands ≤ machine.stack.depth) :
    Refuses Fault.Own (command.effect machine) := by
  have hpeek : ∀ n, n < command.operands → Refuses Fault.Own (machine.stack.peek n) :=
    fun n hn => refuses_peek (by omega) _
  cases command with
  | newline => exact True.intro
  | words => exact True.intro
  | unary op => exact refuses_bind (hpeek 0 Nat.one_pos) fun _ _ => True.intro
  | binary op =>
    refine refuses_bind (hpeek 0 Nat.two_pos) fun rhs _ => ?_
    refine refuses_bind (hpeek 1 Nat.one_lt_two) fun lhs _ => ?_
    exact refuses_bind (op.refuses_apply lhs rhs) fun _ _ => True.intro
  | dump =>
    refine refuses_bind (hpeek 0 (by decide)) fun count _ => ?_
    refine refuses_bind (hpeek 1 (by decide)) fun start _ => ?_
    exact refuses_bind (Listing.refuses_listing hmemory.refuses _ _) fun _ _ => True.intro
  | radioInit =>
    refine refuses_bind (hpeek 0 (by decide)) fun _ _ => refuses_bind (refuses_narrow _ _ _) ?_
    intro frequency _
    refine refuses_bind (hpeek 1 (by decide)) fun _ _ => refuses_bind (refuses_narrow _ _ _) ?_
    intro group _
    refine refuses_bind (hpeek 2 (by decide)) fun _ _ => refuses_bind (refuses_narrow _ _ _) ?_
    exact fun _ _ => True.intro
  | radioPower =>
    refine refuses_bind (hpeek 0 (by decide)) fun _ _ => refuses_bind (refuses_narrow _ _ _) ?_
    exact fun _ _ => True.intro
  | romFetch =>
    refine refuses_bind (hpeek 0 (by decide)) fun _ _ => refuses_bind (refuses_slotIndex _) ?_
    intro index _
    cases machine.rom.bank.fetch index with
    | ok value => exact True.intro
    | error failure => exact failure.own_fault
  | romStore =>
    refine refuses_bind (hpeek 0 (by decide)) fun _ _ => refuses_bind (refuses_slotIndex _) ?_
    intro index _
    refine refuses_bind (hpeek 1 (by decide)) fun value _ => ?_
    cases RomStorage.store index value machine.rom with
    | ok _ rom => exact True.intro
    | error failure _ => exact failure.own_fault

end Builtin

/-! ## The dictionary's arities -/

/-- How much deeper the stack is after a token that does not fail. -/
def Token.growth : Token → Int
  | .literal _ => 1
  | .word name =>
    if name ∈ ["+", "-", "*", "/", "mod", "and", "or", "xor", "<<", ">>", "rf-txpower"] then -1
    else if name ∈ ["dump", "rom!"] then -2
    else if name = "rf-init" then -3
    else 0

namespace Dictionary

/-- Every entry of the standard dictionary is one of the console's own commands, declared with the
number of values that the command works on. -/
theorem declares {features : Features} {entry : Entry} (h : entry ∈ (standard features).entries) :
    ∃ command : Builtin, entry.action = .builtin command ∧ entry.arity = command.operands ∧
      (Token.word entry.name).growth = command.results - command.operands := by
  have hall : ∀ entry ∈ coreEntries ++ radioEntries ++ romEntries,
      ∃ command : Builtin, entry.action = .builtin command ∧ entry.arity = command.operands ∧
        (Token.word entry.name).growth = command.results - command.operands := by
    simp [coreEntries, radioEntries, romEntries, own, Builtin.operands, Builtin.results,
      Token.growth]
  apply hall
  simp only [standard, standardEntries, List.mem_append] at h ⊢
  obtain ⟨radio, rom⟩ := features
  cases radio <;> cases rom <;> grind

theorem name_of_find? {dictionary : Dictionary} {name : String} {entry : Entry}
    (h : dictionary.find? name = some entry) : entry.name = name := by
  simpa using List.find?_some h

/-- The number of values that a token is declared to need. -/
def arity (dictionary : Dictionary) : Token → Nat
  | .literal _ => 0
  | .word name => ((dictionary.find? name).map Entry.arity).getD 0

end Dictionary

/-! ## What becomes of a token -/

/-- What a token that does not fail does to the stack: the values it was declared to need are there
and are taken, and there is room for what is left in their place. -/
structure Effect.Fits (stack : DataStack DataStack.deviceCapacity) (arity : Nat) (growth : Int)
    (effect : Effect) : Prop where
  taken : effect.taken = arity
  there : arity ≤ stack.depth
  grows : growth = effect.left?.toList.length - arity
  room : effect.left? = none ∨ stack.depth - arity < DataStack.deviceCapacity

namespace Token

variable {features : Dictionary.Features} {machine : Machine ρ}

theorem effect_of_unknown {name : String} (h : machine.dictionary.find? name = none) :
    (word name).effect machine = .error ((Fault.ofKind .unknownCommand).inWord name) := by
  simp only [effect, h]

/-- A command that is short of operands is not started. -/
theorem effect_of_short {name : String} {entry : Entry}
    (h : machine.dictionary.find? name = some entry) (hshort : machine.stack.depth < entry.arity) :
    (word name).effect machine = .error ((Fault.ofKind .stackUnderflow).inWord name) := by
  have hrequire : machine.stack.require entry.arity = .error (Fault.ofKind .stackUnderflow) :=
    if_neg (by omega)
  simp only [effect, h, Entry.effect, hrequire]
  rfl

/-- A command whose operands are there is decided on, and its fault gets its name. -/
theorem effect_of_enough {name : String} {entry : Entry} {command : Builtin}
    (h : machine.dictionary.find? name = some entry) (haction : entry.action = .builtin command)
    (henough : entry.arity ≤ machine.stack.depth) :
    (word name).effect machine = (command.effect machine).mapError (·.inWord name) := by
  have hrequire : machine.stack.require entry.arity = .ok () := if_pos henough
  simp only [effect, h, Entry.effect, hrequire, haction]
  rfl

/-- What becomes of a name: it is unknown, or it is short of its operands, or its command decides. -/
theorem word_cases (hstandard : machine.dictionary = .standard features) (name : String) :
    machine.dictionary.find? name = none ∧
        (word name).effect machine = .error ((Fault.ofKind .unknownCommand).inWord name) ∨
      ∃ entry, machine.dictionary.find? name = some entry ∧
        (machine.stack.depth < entry.arity ∧
            (word name).effect machine = .error ((Fault.ofKind .stackUnderflow).inWord name) ∨
          entry.arity ≤ machine.stack.depth ∧ ∃ command : Builtin,
            entry.arity = command.operands ∧
              (word name).growth = command.results - command.operands ∧
              (word name).effect machine = (command.effect machine).mapError (·.inWord name)) := by
  cases hfind : machine.dictionary.find? name with
  | none => exact .inl ⟨rfl, effect_of_unknown hfind⟩
  | some entry =>
    refine .inr ⟨entry, rfl, ?_⟩
    have hentry := List.mem_of_find?_eq_some hfind
    rw [hstandard] at hentry
    obtain ⟨command, haction, harity, hgrowth⟩ := Dictionary.declares hentry
    rw [Dictionary.name_of_find? hfind] at hgrowth
    rcases Nat.lt_or_ge machine.stack.depth entry.arity with hshort | henough
    · exact .inl ⟨hshort, effect_of_short hfind hshort⟩
    · exact .inr ⟨henough, command, harity, hgrowth, effect_of_enough hfind haction henough⟩

/-- What a command decides on fits the stack if its operands are there. -/
theorem fits_of_decided {command : Builtin} {effect : Effect}
    (hdecided : command.effect machine = .ok effect)
    (henough : command.operands ≤ machine.stack.depth) :
    effect.Fits machine.stack command.operands (command.results - command.operands) := by
  have hexchange := command.decides_exchange machine
  rw [hdecided] at hexchange
  obtain ⟨htaken, hleft⟩ := hexchange
  refine ⟨htaken, henough, by rw [hleft], ?_⟩
  -- a command that leaves a value has taken one, so there is a free place
  have hbound := machine.stack.depth_le
  have hfewer := command.results_le_operands
  cases hvalue : effect.left? with
  | none => exact .inl rfl
  | some value =>
    rw [hvalue] at hleft
    have hone : command.results = 1 := hleft.symm
    exact .inr (by omega)

/-- A token that does not fail finds what it was declared to need. -/
theorem fits {effect : Effect} (hstandard : machine.dictionary = .standard features)
    {token : Token} (h : token.effect machine = .ok effect) :
    effect.Fits machine.stack (machine.dictionary.arity token) token.growth := by
  cases token with
  | literal value =>
    by_cases hroom : machine.stack.depth < DataStack.deviceCapacity
    · rw [Token.effect, if_pos hroom] at h
      cases h
      exact ⟨rfl, Nat.zero_le _, rfl, .inr hroom⟩
    · rw [Token.effect, if_neg hroom] at h
      cases h
  | word name =>
    rcases word_cases hstandard name with ⟨-, hword⟩ | ⟨entry, hfind, ⟨-, hword⟩ | hstarted⟩
    · rw [hword] at h
      cases h
    · rw [hword] at h
      cases h
    · obtain ⟨henough, command, harity, hgrowth, hword⟩ := hstarted
      have hdeclared : machine.dictionary.arity (word name) = command.operands := by
        rw [Dictionary.arity, hfind]
        exact harity
      rw [hword] at h
      rw [hdeclared, hgrowth]
      cases hdecided : command.effect machine with
      | error fault =>
        rw [hdecided] at h
        cases h
      | ok decided =>
        rw [hdecided] at h
        cases h
        exact fits_of_decided hdecided (harity ▸ henough)

/-- The ways in which a token fails. A number fails on a full stack. A name fails if it is unknown,
if operands are missing, or with a fault of the command's own; the fault bears the name. -/
theorem fault_cases {fault : Fault} (hstandard : machine.dictionary = .standard features)
    (hmemory : machine.memory.Mapped) {token : Token} (h : token.effect machine = .error fault) :
    (∃ value, token = literal value ∧ machine.stack.depth = DataStack.deviceCapacity ∧
        fault = Fault.ofKind .stackOverflow) ∨
      ∃ name, token = word name ∧ fault.word = some name ∧
        (fault.kind = .unknownCommand ∧ machine.dictionary.find? name = none ∨
          fault.kind = .stackUnderflow ∧ (∃ entry, machine.dictionary.find? name = some entry ∧
            machine.stack.depth < entry.arity) ∨
          fault.kind ∉ [.stackOverflow, .stackUnderflow, .unknownCommand] ∧
            ∃ entry, machine.dictionary.find? name = some entry ∧
              entry.arity ≤ machine.stack.depth) := by
  have hbound := machine.stack.depth_le
  cases token with
  | literal value =>
    by_cases hroom : machine.stack.depth < DataStack.deviceCapacity
    · rw [Token.effect, if_pos hroom] at h
      cases h
    · rw [Token.effect, if_neg hroom] at h
      cases h
      exact .inl ⟨value, rfl, by omega, rfl⟩
  | word name =>
    refine .inr ⟨name, rfl, ?_⟩
    rcases word_cases hstandard name with ⟨hfind, hword⟩ | ⟨entry, hfind, hshort | hstarted⟩
    · rw [hword] at h
      cases h
      exact ⟨rfl, .inl ⟨rfl, hfind⟩⟩
    · rw [hshort.2] at h
      cases h
      exact ⟨rfl, .inr (.inl ⟨rfl, entry, hfind, hshort.1⟩)⟩
    · obtain ⟨henough, command, harity, -, hword⟩ := hstarted
      have hown := command.refuses_own hmemory (harity ▸ henough)
      rw [hword] at h
      cases hdecided : command.effect machine with
      | ok effect =>
        rw [hdecided] at h
        cases h
      | error inner =>
        rw [hdecided] at h hown
        cases h
        have hnamed := Fault.word_inWord_of_none inner name hown.word
        exact ⟨hnamed, .inr (.inr ⟨hown.kind, entry, hfind, henough⟩)⟩

/-- A token is decided to fail with a fault of some kind. -/
def FailsAs (machine : Machine ρ) (token : Token) (kind : Fault.Kind) : Prop :=
  ∃ fault, token.effect machine = .error fault ∧ fault.kind = kind

section FailsAs

variable (hstandard : machine.dictionary = .standard features) (hmemory : machine.memory.Mapped)
  (token : Token)

include hstandard hmemory

theorem failsAs_stackOverflow_iff : FailsAs machine token .stackOverflow ↔
    (∃ value, token = literal value) ∧ machine.stack.depth = DataStack.deviceCapacity := by
  constructor
  · rintro ⟨fault, hdecided, hkind⟩
    rcases fault_cases hstandard hmemory hdecided with
      ⟨value, rfl, hfull, -⟩ | ⟨name, rfl, -, hcause⟩
    · exact ⟨⟨value, rfl⟩, hfull⟩
    · simp [hkind] at hcause
  · rintro ⟨⟨value, rfl⟩, hfull⟩
    exact ⟨_, if_neg (by omega), rfl⟩

theorem failsAs_unknownCommand_iff : FailsAs machine token .unknownCommand ↔
    ∃ name, token = word name ∧ machine.dictionary.find? name = none := by
  constructor
  · rintro ⟨fault, hdecided, hkind⟩
    rcases fault_cases hstandard hmemory hdecided with
      ⟨value, rfl, -, rfl⟩ | ⟨name, rfl, -, hcause⟩
    · cases hkind
    · exact ⟨name, rfl, by simpa [hkind] using hcause⟩
  · rintro ⟨name, rfl, hfind⟩
    exact ⟨_, effect_of_unknown hfind, rfl⟩

theorem failsAs_stackUnderflow_iff : FailsAs machine token .stackUnderflow ↔
    ∃ name entry, token = word name ∧ machine.dictionary.find? name = some entry ∧
      machine.stack.depth < entry.arity := by
  constructor
  · rintro ⟨fault, hdecided, hkind⟩
    rcases fault_cases hstandard hmemory hdecided with
      ⟨value, rfl, -, rfl⟩ | ⟨name, rfl, -, hcause⟩
    · cases hkind
    · obtain ⟨entry, hfind, hshort⟩ : ∃ entry, machine.dictionary.find? name = some entry ∧
          machine.stack.depth < entry.arity := by simpa [hkind] using hcause
      exact ⟨name, entry, rfl, hfind, hshort⟩
  · rintro ⟨name, entry, rfl, hfind, hshort⟩
    exact ⟨_, effect_of_short hfind hshort, rfl⟩

end FailsAs

end Token

namespace MachineM

variable [Radio ρ]

/-- An action fails just if that was decided, and with the fault that was decided on. -/
theorem Does.failure?_eq_some_iff {action : MachineM ρ Unit} {machine : Machine ρ}
    {decision : Except Fault Effect} (h : Does action machine decision) (fault : Fault) :
    failure? (action machine) = some fault ↔ decision = .error fault := by
  cases decision with
  | ok effect =>
    obtain ⟨journal, hrun⟩ := h
    rw [hrun]
    simp [failure?]
  | error decided =>
    obtain ⟨journal, hrun⟩ := h
    rw [hrun]
    simp [failure?]

/-- A command of the dictionary that is started with its declared operands there does not find the
stack too short or too full. -/
theorem kind_of_started {features : Dictionary.Features} {machine : Machine ρ}
    (hmemory : machine.memory.Mapped) {entry : Entry}
    (hentry : entry ∈ (Dictionary.standard features).entries) {command : Builtin}
    (haction : entry.action = .builtin command) (henough : entry.arity ≤ machine.stack.depth)
    {fault : Fault} (h : failure? (command.run machine) = some fault) :
    fault.kind ≠ .stackUnderflow ∧ fault.kind ≠ .stackOverflow := by
  obtain ⟨declared, hdeclared, harity, -⟩ := Dictionary.declares hentry
  obtain rfl : command = declared := by simpa [haction] using hdeclared
  have hown := command.refuses_own hmemory (by omega)
  rw [((command.run_does machine).failure?_eq_some_iff fault).mp h] at hown
  have hkind := hown.kind
  simp only [List.mem_cons, not_or] at hkind
  exact ⟨hkind.2.1, hkind.1⟩

/-- No command changes the dictionary. -/
theorem dictionary_of_run {machine after : Machine ρ} (hnative : machine.dictionary.Native)
    {token : Token} (h : run token machine = .ok () after) :
    after.dictionary = machine.dictionary := by
  rcases run_cases hnative token with ⟨effect, journal, -, hrun⟩ | ⟨fault, journal, -, hrun⟩
  · rw [hrun] at h
    cases h
    rfl
  · rw [hrun] at h
    cases h

/-- The stack after a token that does not fail. -/
theorem stack_of_run {features : Dictionary.Features} {machine after : Machine ρ}
    (hstandard : machine.dictionary = .standard features) {token : Token}
    (h : run token machine = .ok () after) :
    (after.stack.depth : Int) = machine.stack.depth + token.growth ∧
      ∃ below operands left, machine.stack.toList = below ++ operands ∧
        operands.length = machine.dictionary.arity token ∧
        after.stack.toList = below ++ left := by
  have hnative : machine.dictionary.Native := hstandard ▸ Dictionary.native_standard features
  rcases run_cases hnative token with ⟨effect, journal, hdecided, hrun⟩ | ⟨_, _, -, hrun⟩
  · obtain ⟨htaken, hthere, hgrows, hroom⟩ := Token.fits hstandard hdecided
    rw [hrun] at h
    cases h
    have hvalues := DataStack.toList_replace machine.stack _ _ hroom
    rw [← htaken] at hvalues
    constructor
    · have hlength := congrArg List.length hvalues
      rw [List.length_append, List.length_take, DataStack.length_toList,
        DataStack.length_toList] at hlength
      show ((machine.stack.replace effect.taken effect.left?).depth : Int) = _
      omega
    · refine ⟨_, _, _, (List.take_append_drop _ machine.stack.toList).symm, ?_, hvalues⟩
      rw [List.length_drop, DataStack.length_toList]
      omega
  · rw [hrun] at h
    cases h

/-- The stack does as the dictionary declares, on every machine with the standard dictionary. A token
overflows the stack just if it is a number and the stack is full; it is unknown just if it is a name
that the dictionary does not have; it underflows the stack just if it is a name whose declared
operands are not all there. So a command that was started never finds the stack too short. The fault
of a name bears that name, and the fault of a number none. A token that does not fail changes the
depth by its `growth` and leaves everything beneath its declared operands in place. -/
theorem run_stack_as_declared {features : Dictionary.Features} {machine : Machine ρ}
    (hstandard : machine.dictionary = .standard features) (hmemory : machine.memory.Mapped)
    (token : Token) :
    let depth := machine.stack.depth
    let fault? := failure? (run token machine)
    (fault?.map Fault.kind = some .stackOverflow ↔
        (∃ value, token = .literal value) ∧ depth = DataStack.deviceCapacity) ∧
      (fault?.map Fault.kind = some .unknownCommand ↔
        ∃ name, token = .word name ∧ machine.dictionary.find? name = none) ∧
      (fault?.map Fault.kind = some .stackUnderflow ↔
        ∃ name entry, token = .word name ∧ machine.dictionary.find? name = some entry ∧
          depth < entry.arity) ∧
      (∀ entry ∈ machine.dictionary.entries, ∀ command, entry.action = .builtin command →
        entry.arity ≤ depth → ∀ fault ∈ failure? (command.run machine),
          fault.kind ≠ .stackUnderflow ∧ fault.kind ≠ .stackOverflow) ∧
      (∀ fault ∈ fault?, fault.word = match token with
        | .literal _ => none
        | .word name => some name) ∧
      ∀ after, run token machine = .ok () after →
        (after.stack.depth : Int) = depth + token.growth ∧
          ∃ below operands left, machine.stack.toList = below ++ operands ∧
            operands.length = machine.dictionary.arity token ∧
            after.stack.toList = below ++ left := by
  intro depth fault?
  have hnative : machine.dictionary.Native := hstandard ▸ Dictionary.native_standard features
  have hfault : ∀ fault, fault? = some fault ↔ token.effect machine = .error fault :=
    (run_does hnative token).failure?_eq_some_iff
  have hkind : ∀ kind, fault?.map Fault.kind = some kind ↔ Token.FailsAs machine token kind := by
    intro kind
    simp only [Option.map_eq_some_iff, hfault, Token.FailsAs]
  refine ⟨(hkind _).trans (Token.failsAs_stackOverflow_iff hstandard hmemory token),
    (hkind _).trans (Token.failsAs_unknownCommand_iff hstandard hmemory token),
    (hkind _).trans (Token.failsAs_stackUnderflow_iff hstandard hmemory token), ?_, ?_,
    fun after => stack_of_run hstandard⟩
  · intro entry hentry command haction henough fault hfailed
    exact kind_of_started hmemory (hstandard ▸ hentry) haction henough hfailed
  · intro fault hfailed
    rcases Token.fault_cases hstandard hmemory ((hfault fault).mp hfailed) with
      ⟨value, rfl, -, rfl⟩ | ⟨name, rfl, hword, -⟩
    · rfl
    · exact hword

/-- Two values are too few for one command and enough for another, which leaves one of them. -/
theorem run_stack_as_declared_two_values :
    let machine : Machine QueuedRadio :=
      { stack := (DataStack.empty.put 5).put 9, memory := (Region.zeroed 0 16).space, radio := {} }
    machine.dictionary = .standard .standard ∧ machine.memory.Mapped ∧
      (failure? (run (.word "rf-init") machine)).map Fault.kind = some .stackUnderflow ∧
      ∃ after, run (.word "-") machine = .ok () after ∧ (after.stack.depth : Int) = 1 := by
  intro machine
  have hstandard : machine.dictionary = .standard .standard := rfl
  have hmemory : machine.memory.Mapped := .inl ⟨_, rfl⟩
  have hnative : machine.dictionary.Native := Dictionary.native_standard .standard
  have hdecided : (Token.word "-").effect machine = .ok { taken := 2, left? := some (9 - 5) } := rfl
  have hdoes := run_does hnative (.word "-")
  rw [hdecided] at hdoes
  obtain ⟨journal, hrun⟩ := hdoes
  have hshort := (run_stack_as_declared hstandard hmemory (.word "rf-init")).2.2.1
  have hdepth := ((run_stack_as_declared hstandard hmemory (.word "-")).2.2.2.2.2 _ hrun).1
  exact ⟨hstandard, hmemory, hshort.mpr ⟨"rf-init", _, rfl, rfl, by decide⟩, _, hrun, hdepth⟩

end MachineM

end SerialConsole
