import Mathlib.Data.List.Basic
import SerialConsole.Proofs.Machine.Expression
import SerialConsole.Proofs.Machine.Operands
import SerialConsole.Proofs.Machine.Requests

/-!
# Commands by name

The standard dictionary has each of its commands under one name, and no name twice. So the name of a
token says which command it stands for, and a token that changes the radio or the slots bears the name
of the one command that does so:

* `Dictionary.find?_name` and `Dictionary.named`, the dictionary read in both directions;
* `Token.effect_name`, what the name of a command is decided to do;
* `Token.command_of_effect`, the command behind a token that was decided to do something.
-/

namespace SerialConsole

open Failing

variable {ρ : Type}

/-! ## The names of the dictionary -/

/-- The name of a command in the standard dictionary. -/
def Builtin.name : Builtin → String
  | newline => "nl"
  | unary op => op.name
  | binary op => op.name
  | dump => "dump"
  | words => "words"
  | radioInit => "rf-init"
  | radioPower => "rf-txpower"
  | romFetch => "rom@"
  | romStore => "rom!"

/-- Whether a console that is fitted so has a command. -/
def Dictionary.Features.has (features : Features) : Builtin → Bool
  | .radioInit | .radioPower => features.radio
  | .romFetch | .romStore => features.rom
  | _ => true

namespace Dictionary

variable {features : Features} {command : Builtin}

/-- A command that the console has is found under its name. -/
theorem find?_name (h : features.has command = true) :
    (standard features).find? command.name = some (own command.name command.operands command) := by
  obtain ⟨radio, rom⟩ := features
  cases command with
  | unary op => exact find?_unary _ op
  | binary op => exact find?_binary _ op
  | newline | dump | words => rfl
  | radioInit | radioPower =>
    obtain rfl : radio = true := h
    rfl
  | romFetch | romStore =>
    obtain rfl : rom = true := h
    cases radio <;> rfl

/-- A name stands for one command. -/
theorem name_injective : Function.Injective Builtin.name := by
  intro command other h
  have hall : ∀ command, Features.standard.has command = true := by
    intro command
    cases command <;> rfl
  -- both are what the console that has everything finds under the name
  have hfound := find?_name (hall command)
  rw [h, find?_name (hall other)] at hfound
  simp only [own, Option.some.injEq, Entry.mk.injEq, Action.builtin.injEq] at hfound
  exact hfound.2.2.symm

/-- Every entry is that of a command which the console has. -/
theorem named {entry : Entry} (h : entry ∈ (standard features).entries) :
    ∃ command, features.has command = true ∧
      entry = own command.name command.operands command := by
  obtain ⟨command, haction, harity, -⟩ := declares h
  have hcore : ∀ entry ∈ coreEntries, ∀ command : Builtin, entry.action = .builtin command →
      entry.name = command.name ∧ features.has command = true := by
    simp [coreEntries, own, Features.has, Builtin.name, UnaryOp.name, BinaryOp.name]
  have hradio : ∀ entry ∈ radioEntries, ∀ command : Builtin, entry.action = .builtin command →
      entry.name = command.name ∧ features.has command = features.radio := by
    simp [radioEntries, own, Features.has, Builtin.name]
  have hrom : ∀ entry ∈ romEntries, ∀ command : Builtin, entry.action = .builtin command →
      entry.name = command.name ∧ features.has command = features.rom := by
    simp [romEntries, own, Features.has, Builtin.name]
  have hnamed : entry.name = command.name ∧ features.has command = true := by
    simp only [standard, standardEntries, List.mem_append, List.mem_ite_nil_right] at h
    rcases h with (h | ⟨hfitted, h⟩) | ⟨hfitted, h⟩
    · exact hcore entry h command haction
    · exact hfitted ▸ hradio entry h command haction
    · exact hfitted ▸ hrom entry h command haction
  obtain ⟨name, arity, action⟩ := entry
  exact ⟨command, hnamed.2, Entry.mk.injEq .. ▸ ⟨hnamed.1, harity, haction⟩⟩

end Dictionary

/-! ## Tokens and their commands -/

namespace Token

variable {features : Dictionary.Features} {machine : Machine ρ} {command : Builtin}

/-- The name of a command that the console has is decided on by that command, if the operands are
there. -/
theorem effect_name (hstandard : machine.dictionary = .standard features) (command : Builtin)
    (hhas : features.has command = true) (henough : command.operands ≤ machine.stack.depth) :
    (word command.name).effect machine
      = (command.effect machine).mapError (·.inWord command.name) := by
  have hfind := Dictionary.find?_name hhas
  rw [← hstandard] at hfind
  exact effect_of_enough hfind rfl henough

theorem effect_name_of_short (hstandard : machine.dictionary = .standard features)
    (hhas : features.has command = true) (hshort : machine.stack.depth < command.operands) :
    (word command.name).effect machine
      = .error ((Fault.ofKind .stackUnderflow).inWord command.name) := by
  have hfind := Dictionary.find?_name hhas
  rw [← hstandard] at hfind
  exact effect_of_short hfind hshort

/-- What a token is decided to do is what a pushed number does, or what the command of its name is
decided to do with its operands there. -/
theorem command_of_effect (hstandard : machine.dictionary = .standard features) {token : Token}
    {effect : Effect} (h : token.effect machine = .ok effect) :
    (∃ value, token = literal value ∧ effect = { left? := some value }) ∨
      ∃ command : Builtin, token = word command.name ∧ command.operands ≤ machine.stack.depth ∧
        command.effect machine = .ok effect := by
  cases token with
  | literal value =>
    rw [Token.effect] at h
    split at h
    · cases h
      exact .inl ⟨value, rfl, rfl⟩
    · cases h
  | word name =>
    cases hfind : machine.dictionary.find? name with
    | none =>
      rw [effect_of_unknown hfind] at h
      cases h
    | some entry =>
      have hentry := List.mem_of_find?_eq_some hfind
      rw [hstandard] at hentry
      obtain ⟨command, hhas, rfl⟩ := Dictionary.named hentry
      obtain rfl : command.name = name := Dictionary.name_of_find? hfind
      rcases Nat.lt_or_ge machine.stack.depth command.operands with hshort | henough
      · rw [effect_name_of_short hstandard hhas hshort] at h
        cases h
      · rw [effect_name hstandard command hhas henough] at h
        cases hdecided : command.effect machine with
        | error fault =>
          rw [hdecided] at h
          cases h
        | ok decided =>
          rw [hdecided] at h
          cases h
          exact .inr ⟨command, rfl, henough, hdecided⟩

/-- What the name of a command is decided to do, the command is decided to do with its operands on top
of the stack. -/
theorem effect_of_name (hstandard : machine.dictionary = .standard features)
    (command : Builtin) {effect : Effect} (h : (word command.name).effect machine = .ok effect) :
    ∃ values below, values.length = command.operands ∧ machine.stack.fromTop = values ++ below ∧
      command.effect machine = .ok effect := by
  rcases command_of_effect hstandard h with ⟨value, hliteral, -⟩ | ⟨other, hword, henough, hdecided⟩
  · cases hliteral
  · obtain rfl : command = other := Dictionary.name_injective (word.inj hword)
    obtain ⟨values, below, hlength, hvalues⟩ := DataStack.exists_fromTop henough
    exact ⟨values, below, hlength, hvalues, hdecided⟩

end Token

/-- Only one token sets up the radio, only one sets its power, and only one writes a slot. -/
structure Effect.OnlyBy (token : Token) (effect : Effect) : Prop where
  config : token ≠ .word "rf-init" → effect.config? = none
  power : token ≠ .word "rf-txpower" → effect.power? = none
  rom : token ≠ .word "rom!" → effect.rom? = none

theorem Builtin.decides_onlyBy (command : Builtin) (machine : Machine ρ) :
    Decides (Effect.OnlyBy (.word command.name)) (command.effect machine) := by
  refine (command.decides_yields machine).imp fun effect hyields => ?_
  cases command with
  | romStore | dump =>
    obtain ⟨_, _, _, -, rfl⟩ := hyields
    constructor <;> simp [Builtin.name]
  | newline | words =>
    subst hyields
    constructor <;> simp
  | _ =>
    obtain ⟨_, rfl⟩ := hyields
    constructor <;> simp [Builtin.name]

theorem Token.onlyBy_of_effect {features : Dictionary.Features} {machine : Machine ρ}
    (hstandard : machine.dictionary = .standard features) {token : Token} {effect : Effect}
    (h : token.effect machine = .ok effect) : effect.OnlyBy token := by
  rcases command_of_effect hstandard h with ⟨value, rfl, rfl⟩ | ⟨command, rfl, -, hdecided⟩
  · constructor <;> simp
  · have honly := command.decides_onlyBy machine
    rwa [hdecided] at honly

/-! ## How tokens end -/

section Ends

variable [Radio ρ]

/-- A token fails as it was decided. -/
theorem MachineM.failure?_run {machine : Machine ρ} (hnative : machine.dictionary.Native)
    (token : Token) :
    failure? (run token machine) = match token.effect machine with
      | .ok _ => none
      | .error fault => some fault := by
  rcases run_cases hnative token with
    ⟨effect, journal, hdecided, hrun⟩ | ⟨fault, journal, hdecided, hrun⟩
  · rw [hrun, hdecided]
    rfl
  · rw [hrun, hdecided]
    rfl

/-- The name of a command that the console has fails as the command was decided to, with its operands
there, and the fault bears the name. -/
theorem MachineM.failure?_name {features : Dictionary.Features} {machine : Machine ρ}
    (hstandard : machine.dictionary = .standard features) (command : Builtin)
    (hhas : features.has command = true) (henough : command.operands ≤ machine.stack.depth) :
    failure? (run (.word command.name) machine) = match command.effect machine with
      | .ok _ => none
      | .error fault => some (fault.inWord command.name) := by
  have hnative : machine.dictionary.Native := hstandard ▸ Dictionary.native_standard features
  rw [failure?_run hnative, Token.effect_name hstandard command hhas henough]
  cases command.effect machine <;> rfl

/-- A token succeeds just if it was decided to do something. -/
theorem Ran.succeeds_iff {ran : Ran ρ} (hnative : ran.machine.dictionary.Native) :
    ran.succeeds = true ↔ ∃ effect, ran.token.effect ran.machine = .ok effect := by
  rw [Ran.succeeds, MachineM.failure?_run hnative]
  cases ran.token.effect ran.machine <;> simp

/-- What a token leaves: the machine with the effect that was decided on, if it succeeds, or the
machine as it was. -/
theorem Ran.after_cases {ran : Ran ρ} (hnative : ran.machine.dictionary.Native) :
    (∃ effect journal, ran.token.effect ran.machine = .ok effect ∧ ran.succeeds = true ∧
        ran.after = { effect.on ran.machine with journal }) ∨
      ∃ journal, ran.succeeds = false ∧ ran.after = { ran.machine with journal } := by
  rcases MachineM.run_cases hnative ran.token with
    ⟨effect, journal, hdecided, hrun⟩ | ⟨fault, journal, hdecided, hrun⟩
  · refine .inl ⟨effect, journal, hdecided, ?_, ?_⟩
    · rw [Ran.succeeds, hrun]
      rfl
    · rw [Ran.after, hrun]
      rfl
  · refine .inr ⟨journal, ?_, ?_⟩
    · rw [Ran.succeeds, hrun]
      rfl
    · rw [Ran.after, hrun]
      rfl

end Ends

end SerialConsole
