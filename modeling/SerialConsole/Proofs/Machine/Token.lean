import SerialConsole.Proofs.Machine.Effect

/-!
# What a token does

A token is decided on like a command: `Token.effect` says what it would do to a machine, and
`run_does` that it does just that on a machine whose dictionary holds the console's own commands and
no procedures. Two consequences carry most of what is said about whole lines:

* `run_error_unchanged`: a token that fails leaves the machine as it found it;
* `Token.effect_congr`: machines that differ only in what no command reads decide alike.
-/

namespace SerialConsole

open Failing

variable {ρ : Type}

/-! ## Dictionaries without procedures -/

/-- A dictionary of the console's own commands, under whatever names and arities. -/
def Dictionary.Native (dictionary : Dictionary) : Prop :=
  ∀ entry ∈ dictionary.entries, ∃ command, entry.action = .builtin command

theorem Dictionary.native_standard (features : Features) : (standard features).Native := by
  obtain ⟨radio, rom⟩ := features
  intro entry hentry
  have hown : ∀ own ∈ coreEntries ++ radioEntries ++ romEntries,
      ∃ command, own.action = .builtin command := by
    simp [coreEntries, radioEntries, romEntries, own]
  apply hown
  simp only [standard, standardEntries, List.mem_append] at hentry ⊢
  cases radio <;> cases rom <;> grind

theorem Dictionary.Native.action_of_find? {dictionary : Dictionary} (hnative : dictionary.Native)
    {name : String} {entry : Entry} (h : dictionary.find? name = some entry) :
    ∃ command, entry.action = .builtin command :=
  hnative entry (List.mem_of_find?_eq_some h)

/-! ## Decisions -/

/-- What an entry would do to a machine. Procedures are not decided on in advance. -/
def Entry.effect (machine : Machine ρ) (entry : Entry) : Except Fault Effect := do
  machine.stack.require entry.arity
  match entry.action with
  | .builtin command => command.effect machine
  | .procedure _ => .ok {}

/-- What a token would do to a machine, or the fault it would fail with. -/
def Token.effect (machine : Machine ρ) : Token → Except Fault Effect
  | .literal value =>
    if machine.stack.depth < DataStack.deviceCapacity then .ok { left? := some value }
    else .error (Fault.ofKind .stackOverflow)
  | .word name =>
    match machine.dictionary.find? name with
    | none => .error ((Fault.ofKind .unknownCommand).inWord name)
    | some entry => (entry.effect machine).mapError (·.inWord name)

/-- What every command decides on and a pushed number has, every token decides on. -/
theorem Token.decides {P : Effect → Prop} {machine : Machine ρ}
    (hnative : machine.dictionary.Native) (hliteral : ∀ value, P { left? := some value })
    (hcommand : ∀ command : Builtin, Decides P (command.effect machine)) (token : Token) :
    Decides P (token.effect machine) := by
  cases token with
  | literal value =>
    rw [Token.effect]
    split
    · exact hliteral value
    · exact True.intro
  | word name =>
    rw [Token.effect]
    cases hfind : machine.dictionary.find? name with
    | none => exact True.intro
    | some entry =>
      obtain ⟨command, haction⟩ := hnative.action_of_find? hfind
      have hentry : Decides P (entry.effect machine) := by
        rw [Entry.effect, haction]
        exact decides_bind fun _ _ => hcommand command
      show Decides P ((entry.effect machine).mapError (·.inWord name))
      cases hdecided : entry.effect machine with
      | ok effect =>
        rw [hdecided] at hentry
        exact hentry
      | error fault => exact True.intro

theorem Token.decides_writesAtMostOnce {machine : Machine ρ}
    (hnative : machine.dictionary.Native) (token : Token) :
    Decides (Effect.WritesAtMostOnce machine.rom) (token.effect machine) :=
  Token.decides hnative (fun _ => .inl rfl) (fun command => command.decides_writesAtMostOnce machine)
    token

/-! ## Machines that decide alike -/

/-- Machines that agree on all that a command reads before it acts. -/
structure Machine.Alike (machine other : Machine ρ) : Prop where
  values : machine.stack.toList = other.stack.toList
  dictionary : machine.dictionary = other.dictionary
  memory : machine.memory = other.memory
  rom : machine.rom = other.rom

section Alike

variable {machine other : Machine ρ}

theorem Builtin.effect_congr (h : machine.Alike other) (command : Builtin) :
    command.effect machine = command.effect other := by
  cases command <;>
    simp only [Builtin.effect, DataStack.peek_congr h.values, h.dictionary, h.memory, h.rom]

/-- Machines that differ only in what no command reads decide alike. -/
theorem Token.effect_congr (h : machine.Alike other) (token : Token) :
    token.effect machine = token.effect other := by
  have hdepth := DataStack.depth_congr h.values
  cases token with
  | literal value => simp only [Token.effect, hdepth]
  | word name =>
    simp only [Token.effect, Entry.effect, DataStack.require, h.dictionary, hdepth,
      Builtin.effect_congr h]

/-- The same effect leaves machines alike. -/
theorem Machine.Alike.on [Radio ρ] (h : machine.Alike other) (effect : Effect) :
    (effect.on machine).Alike (effect.on other) where
  values := DataStack.toList_replace_congr h.values _ _
  dictionary := h.dictionary
  memory := h.memory
  rom := by simp only [Effect.on, h.rom]

end Alike

/-! ## Tokens do what was decided -/

namespace MachineM

theorem require_eq (n : Nat) (machine : Machine ρ) :
    require n machine = ofExcept (machine.stack.require n) machine := rfl

section Does

variable [Radio ρ] {machine : Machine ρ}

/-- A note before an action is one more notice and nothing else. -/
theorem Does.note_bind {action : MachineM ρ Unit} {notice : Notice}
    {decision : Except Fault Effect} (h : Does action (machine.note notice) decision) :
    Does (do note notice; action) machine decision := by
  cases decision with
  | ok effect => exact h.imp fun _ hrun => (bind_of_ok (note_eq notice machine) _).trans hrun
  | error fault => exact h.imp fun _ hrun => (bind_of_ok (note_eq notice machine) _).trans hrun

/-- As part of a command, an action does the same, and its fault bears the command's name. -/
theorem Does.inWord {action : MachineM ρ Unit} {decision : Except Fault Effect}
    (h : Does action machine decision) (name : String) :
    Does (inWord name action) machine (decision.mapError (·.inWord name)) := by
  cases decision with
  | ok effect =>
    obtain ⟨journal, hrun⟩ := h
    exact ⟨journal, by simp only [MachineM.inWord, EStateM.adaptExcept, hrun]⟩
  | error fault =>
    obtain ⟨journal, hrun⟩ := h
    exact ⟨journal, by simp only [MachineM.inWord, EStateM.adaptExcept, hrun]⟩

theorem call_does (hnative : machine.dictionary.Native) (name : String) :
    Does (call name) machine ((Token.word name).effect machine) := by
  rw [Token.effect, call, callWithin]
  apply Does.congr (bind_of_ok (get_eq machine) _)
  cases hfind : machine.dictionary.find? name with
  | none => exact ⟨machine.journal, rfl⟩
  | some entry =>
    obtain ⟨command, haction⟩ := hnative.action_of_find? hfind
    apply Does.note_bind
    apply Does.inWord
    rw [Entry.effect, haction]
    refine does_bind (require_eq entry.arity _) fun _ _ => ?_
    -- the call was noted first, and no decision reads the journal
    have halike : machine.Alike (machine.note (.invoked name machine.stack.text)) :=
      ⟨rfl, rfl, rfl, rfl⟩
    show Does command.run _ (command.effect machine)
    rw [Builtin.effect_congr halike]
    exact command.run_does _

/-- Every token does what was decided before it did anything. -/
theorem run_does (hnative : machine.dictionary.Native) (token : Token) :
    Does (run token) machine (token.effect machine) := by
  cases token with
  | word name => exact call_does hnative name
  | literal value =>
    rw [Token.effect]
    split
    case isTrue hroom =>
      refine ⟨machine.journal, ?_⟩
      simp [run, runWithin, push, onStack, DataStack.push_eq hroom, Except.map, Effect.on]
    case isFalse hfull =>
      refine ⟨machine.journal, ?_⟩
      simp [run, runWithin, push, onStack, DataStack.push_eq_error hfull, Except.map]

/-- What running a token can come to: the effect that was decided on, or the fault and nothing
else. -/
theorem run_cases (hnative : machine.dictionary.Native) (token : Token) :
    (∃ effect journal, token.effect machine = .ok effect ∧
        run token machine = .ok () { effect.on machine with journal }) ∨
      ∃ fault journal, token.effect machine = .error fault ∧
        run token machine = .error fault { machine with journal } := by
  have hdoes := run_does hnative token
  cases hdecided : token.effect machine with
  | ok effect =>
    rw [hdecided] at hdoes
    obtain ⟨journal, hrun⟩ := hdoes
    exact .inl ⟨effect, journal, rfl, hrun⟩
  | error fault =>
    rw [hdecided] at hdoes
    obtain ⟨journal, hrun⟩ := hdoes
    exact .inr ⟨fault, journal, rfl, hrun⟩

/-- Without procedures the room for them does not matter. -/
theorem runWithin_eq (hnative : machine.dictionary.Native) (room : Nat) (token : Token) :
    runWithin room token machine = run token machine := by
  cases token with
  | literal value => rfl
  | word name =>
    show callWithin room name machine = callWithin Limits.device.nesting name machine
    rw [callWithin, callWithin, bind_of_ok (get_eq machine), bind_of_ok (get_eq machine)]
    cases hfind : machine.dictionary.find? name with
    | none => rfl
    | some entry =>
      obtain ⟨command, haction⟩ := hnative.action_of_find? hfind
      simp only [haction]

/-- A token that fails leaves the machine as it found it: the stack, the node, the tokens that wait,
the printed text, the radio, every slot and every file. Only the journal may have grown. -/
theorem run_error_unchanged {features : Dictionary.Features} {after : Machine ρ} {token : Token}
    {fault : Fault} (hstandard : machine.dictionary = .standard features)
    (h : run token machine = .error fault after) :
    after = { machine with journal := after.journal } := by
  have hnative : machine.dictionary.Native := hstandard ▸ Dictionary.native_standard features
  rcases run_cases hnative token with ⟨effect, journal, -, hrun⟩ | ⟨fault', journal, -, hrun⟩
  · rw [hrun] at h
    cases h
  · rw [hrun] at h
    cases h
    rfl

end Does

/-- A write to a slot whose image cannot be written, since a directory stands in its place. -/
theorem run_error_unchanged_unwritable :
    let machine : Machine QueuedRadio :=
      { stack := (DataStack.empty.put 7).put 0
        radio := {}
        rom := .opened (Disk.place {} "rom.bin" .directory) "rom.bin" 2 }
    ∃ after, run (.word "rom!") machine
        = .error ⟨.internalError, some "rom!", "ROM WRITE FAILED"⟩ after ∧
      after = { machine with journal := after.journal } := by
  intro machine
  have hdecided : (Token.word "rom!").effect machine
      = .error ⟨.internalError, some "rom!", "ROM WRITE FAILED"⟩ := rfl
  have hnative : machine.dictionary.Native := Dictionary.native_standard .standard
  have hdoes := run_does hnative (.word "rom!")
  rw [hdecided] at hdoes
  obtain ⟨journal, hrun⟩ := hdoes
  exact ⟨_, hrun, run_error_unchanged rfl hrun⟩

end MachineM

end SerialConsole
