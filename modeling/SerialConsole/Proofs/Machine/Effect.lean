import SerialConsole.Machine.Command
import SerialConsole.Proofs.DataStack
import SerialConsole.Proofs.Rom.Persistence

/-!
# What a command does

A command looks before it acts: it decides from the values on the stack, the memory, the dictionary
and the slots whether it fails, and only then changes the machine. This file says both halves apart:

* `Effect` is the change, as data, and `Effect.on` carries it out;
* `Builtin.effect` is the decision, and reads the machine without touching it;
* `Does` ties an action to a decision: the action makes exactly that change, or fails with exactly
  that fault and changes nothing. Either way it may add to the journal.

`Builtin.run_does` is the one statement about the commands' own code. What the machine does with
tokens is derived from it.
-/

namespace SerialConsole

open Failing

variable {ρ : Type}

/-! ## Effects -/

/-- The change that a command makes to a machine: what it takes off the stack and leaves there, what
it prints, and what it tells the radio and the storage. -/
structure Effect where
  taken : Nat := 0
  left? : Option Cell := none
  text : String := ""
  config? : Option RadioConfig := none
  power? : Option UInt8 := none
  rom? : Option RomStorage := none
deriving DecidableEq, Repr

namespace Effect

/-- What a radio is told. -/
@[simp] def onRadio [Radio ρ] (effect : Effect) (radio : ρ) : ρ :=
  let radio := match effect.config? with
    | some config => Radio.configure config radio
    | none => radio
  match effect.power? with
  | some level => Radio.setPower level radio
  | none => radio

/-- The machine after an effect. -/
def on [Radio ρ] (effect : Effect) (machine : Machine ρ) : Machine ρ :=
  { machine with
    stack := machine.stack.replace effect.taken effect.left?
    printed := machine.printed ++ effect.text
    radio := effect.onRadio machine.radio
    nodeId := (effect.config?.map RadioConfig.node).getD machine.nodeId
    rom := effect.rom?.getD machine.rom }

/-- What a radio is told does not bring it packets. -/
theorem queue_onRadio (effect : Effect) (radio : QueuedRadio) :
    (effect.onRadio radio).queue = radio.queue := by
  rw [onRadio]
  cases effect.config? <;> cases effect.power? <;> rfl

theorem config?_onRadio (effect : Effect) (radio : QueuedRadio) :
    (effect.onRadio radio).config? = effect.config?.or radio.config? := by
  rw [onRadio]
  cases effect.config? <;> cases effect.power? <;> rfl

theorem power?_onRadio (effect : Effect) (radio : QueuedRadio) :
    (effect.onRadio radio).power? = effect.power?.or radio.power? := by
  rw [onRadio]
  cases effect.config? <;> cases effect.power? <;> rfl

end Effect

/-- What each of the console's own commands would do to a machine, or the fault it would fail with. -/
def Builtin.effect (machine : Machine ρ) : Builtin → Except Fault Effect
  | newline => .ok { text := "\n" }
  | unary op => do
    let value ← machine.stack.peek 0
    .ok { taken := 1, left? := some (op.apply value) }
  | binary op => do
    let rhs ← machine.stack.peek 0
    let lhs ← machine.stack.peek 1
    let value ← op.apply lhs rhs
    .ok { taken := 2, left? := some value }
  | dump => do
    let count ← machine.stack.peek 0
    let start ← machine.stack.peek 1
    let text ← Listing.listing machine.memory start.toUInt32 count
    .ok { taken := 2, text }
  | words => .ok { text := machine.dictionary.listing }
  | radioInit => do
    let frequency ← narrow 65535 "FREQUENCY" (← machine.stack.peek 0)
    let group ← narrow 255 "GROUP" (← machine.stack.peek 1)
    let node ← narrow 255 "NODE ID" (← machine.stack.peek 2)
    .ok { taken := 3
          config? := some ⟨UInt8.ofNat node, UInt8.ofNat group, UInt16.ofNat frequency⟩ }
  | radioPower => do
    let level ← narrow maxPower "LEVEL 0..31" (← machine.stack.peek 0)
    .ok { taken := 1, power? := some (UInt8.ofNat level) }
  | romFetch => do
    let index ← slotIndex (← machine.stack.peek 0)
    match machine.rom.bank.fetch index with
    | .ok value => .ok { taken := 1, left? := some value }
    | .error failure => .error failure.fault
  | romStore => do
    let index ← slotIndex (← machine.stack.peek 0)
    let value ← machine.stack.peek 1
    match RomStorage.store index value machine.rom with
    | .ok _ rom => .ok { taken := 2, rom? := some rom }
    | .error failure _ => .error failure.fault

/-- Whatever is decided on has a property; nothing is said of a fault. -/
def Decides (P : Effect → Prop) : Except Fault Effect → Prop
  | .ok effect => P effect
  | .error _ => True

theorem decides_bind {α : Type} {P : Effect → Prop} {answer : Except Fault α}
    {next : α → Except Fault Effect}
    (h : ∀ value, answer = .ok value → Decides P (next value)) : Decides P (answer >>= next) := by
  cases answer with
  | ok value => exact h value rfl
  | error fault => exact True.intro

theorem Decides.imp {P Q : Effect → Prop} {decision : Except Fault Effect} (h : Decides P decision)
    (himp : ∀ effect, P effect → Q effect) : Decides Q decision := by
  cases decision with
  | ok effect => exact himp effect h
  | error fault => exact True.intro

/-- The effects that a command can decide on. -/
def Builtin.Yields (machine : Machine ρ) : Builtin → Effect → Prop
  | newline, effect => effect = { text := "\n" }
  | unary _, effect => ∃ value, effect = { taken := 1, left? := some value }
  | binary _, effect => ∃ value, effect = { taken := 2, left? := some value }
  | dump, effect => ∃ start count text,
    Listing.listing machine.memory start count = .ok text ∧ effect = { taken := 2, text }
  | words, effect => effect = { text := machine.dictionary.listing }
  | radioInit, effect => ∃ config, effect = { taken := 3, config? := some config }
  | radioPower, effect => ∃ level, effect = { taken := 1, power? := some level }
  | romFetch, effect => ∃ value, effect = { taken := 1, left? := some value }
  | romStore, effect => ∃ index value rom,
    RomStorage.store index value machine.rom = .ok () rom ∧ effect = { taken := 2, rom? := some rom }

/-- A command that looks and does not fail comes to one of its effects. -/
theorem Builtin.decides_yields (command : Builtin) (machine : Machine ρ) :
    Decides (command.Yields machine) (command.effect machine) := by
  cases command with
  | newline => exact rfl
  | words => exact rfl
  | unary op => exact decides_bind fun _ _ => ⟨_, rfl⟩
  | binary op =>
    exact decides_bind fun _ _ => decides_bind fun _ _ => decides_bind fun _ _ => ⟨_, rfl⟩
  | dump =>
    refine decides_bind fun _ _ => decides_bind fun _ _ => decides_bind fun _ htext => ?_
    exact ⟨_, _, _, htext, rfl⟩
  | radioInit =>
    refine decides_bind fun _ _ => decides_bind fun _ _ => decides_bind fun _ _ => ?_
    exact decides_bind fun _ _ => decides_bind fun _ _ => decides_bind fun _ _ => ⟨_, rfl⟩
  | radioPower => exact decides_bind fun _ _ => decides_bind fun _ _ => ⟨_, rfl⟩
  | romFetch =>
    refine decides_bind fun _ _ => decides_bind fun index _ => ?_
    cases machine.rom.bank.fetch index with
    | ok value => exact ⟨_, rfl⟩
    | error failure => exact True.intro
  | romStore =>
    refine decides_bind fun _ _ => decides_bind fun index _ => decides_bind fun value _ => ?_
    cases hstore : RomStorage.store index value machine.rom with
    | ok _ rom => exact ⟨index, value, rom, hstore, rfl⟩
    | error failure _ => exact True.intro

/-- The storage is left alone or takes one write to a slot. -/
def Effect.WritesAtMostOnce (storage : RomStorage) (effect : Effect) : Prop :=
  effect.rom? = none ∨ ∃ index value rom,
    effect.rom? = some rom ∧ RomStorage.store index value storage = .ok () rom

theorem Builtin.decides_writesAtMostOnce (command : Builtin) (machine : Machine ρ) :
    Decides (Effect.WritesAtMostOnce machine.rom) (command.effect machine) := by
  refine (command.decides_yields machine).imp fun effect hyields => ?_
  cases command with
  | romStore =>
    obtain ⟨index, value, rom, hstore, rfl⟩ := hyields
    exact .inr ⟨index, value, rom, rfl, hstore⟩
  | dump =>
    obtain ⟨start, count, text, -, rfl⟩ := hyields
    exact .inl rfl
  | newline | words => exact .inl (hyields ▸ rfl)
  | _ =>
    obtain ⟨_, rfl⟩ := hyields
    exact .inl rfl

/-! ## Actions and their effects -/

namespace MachineM

/-- An action makes the change that was decided on, or fails with the fault and changes nothing;
what it notes on the way is left open. -/
def Does [Radio ρ] (action : MachineM ρ Unit) (machine : Machine ρ) : Except Fault Effect → Prop
  | .ok effect => ∃ journal, action machine = .ok () { effect.on machine with journal }
  | .error fault => ∃ journal, action machine = .error fault { machine with journal }

theorem peek_eq (n : Nat) (machine : Machine ρ) :
    peek n machine = ofExcept (machine.stack.peek n) machine := rfl

theorem top_eq (machine : Machine ρ) : top machine = ofExcept (machine.stack.peek 0) machine := by
  rw [← DataStack.top?_eq]
  rfl

theorem pop_eq {machine : Machine ρ} (h : machine.stack.depth ≠ 0) :
    pop machine = .ok machine.stack.top { machine with stack := machine.stack.discard } := by
  simp only [pop, onStack, DataStack.pop_eq h]

theorem setTop_eq {machine : Machine ρ} (h : machine.stack.depth ≠ 0) (value : Cell) :
    setTop value machine = .ok () { machine with stack := machine.stack.discard.put value } := by
  simp only [setTop, onStack, DataStack.setTop_eq h, Except.map]

theorem get_eq (machine : Machine ρ) : (get : MachineM ρ (Machine ρ)) machine = .ok machine machine :=
  rfl

theorem modify_eq (change : Machine ρ → Machine ρ) (machine : Machine ρ) :
    (modify change : MachineM ρ Unit) machine = .ok () (change machine) := rfl

theorem print_eq (text : String) (machine : Machine ρ) :
    print text machine = .ok () (machine.print text) := rfl

theorem note_eq (notice : Notice) (machine : Machine ρ) :
    note notice machine = .ok () (machine.note notice) := rfl

/-- Notices change the journal alone. -/
theorem foldl_note (notices : List Notice) (machine : Machine ρ) :
    notices.foldl Machine.note machine
      = { machine with journal := notices.reverse ++ machine.journal } := by
  induction notices generalizing machine with
  | nil => rfl
  | cons notice rest ih => simp [ih, Machine.note]

section Does

variable [Radio ρ] {machine : Machine ρ} {α : Type}

theorem Does.congr {action other : MachineM ρ Unit} {decision : Except Fault Effect}
    (h : action machine = other machine) (hdoes : Does other machine decision) :
    Does action machine decision := by
  cases decision with
  | ok effect => exact hdoes.imp fun _ hrun => h.trans hrun
  | error fault => exact hdoes.imp fun _ hrun => h.trans hrun

/-- A look at the machine goes before what depends on it. -/
theorem does_bind {look : MachineM ρ α} {answer : Except Fault α} {next : α → MachineM ρ Unit}
    {decide : α → Except Fault Effect} (hlook : look machine = ofExcept answer machine)
    (hnext : ∀ value, answer = .ok value → Does (next value) machine (decide value)) :
    Does (look >>= next) machine (answer >>= decide) := by
  cases answer with
  | ok value => exact (hnext value rfl).congr (bind_of_ok hlook next)
  | error fault => exact ⟨machine.journal, bind_of_error hlook next⟩

theorem print_does (text : String) : Does (print text) machine (.ok { text }) :=
  ⟨machine.journal, by simp [print_eq, Effect.on, Machine.print]⟩

end Does

end MachineM

/-! ## The console's own commands -/

namespace Builtin

open MachineM

variable [Radio ρ]

theorem runUnary_does (op : UnaryOp) (machine : Machine ρ) :
    Does (runUnary op) machine ((unary op).effect machine) := by
  refine does_bind (top_eq machine) fun value hvalue => ?_
  have hdepth : machine.stack.depth ≠ 0 := by
    have := DataStack.lt_depth_of_peek hvalue
    omega
  refine ⟨machine.journal, ?_⟩
  rw [setTop_eq hdepth]
  simp [Effect.on]

theorem runBinary_does (op : BinaryOp) (machine : Machine ρ) :
    Does (runBinary op) machine ((binary op).effect machine) := by
  refine does_bind (peek_eq 0 machine) fun rhs _ => ?_
  refine does_bind (peek_eq 1 machine) fun lhs hlhs => ?_
  refine does_bind rfl fun value _ => ?_
  have hdepth := DataStack.lt_depth_of_peek hlhs
  refine ⟨machine.journal, ?_⟩
  rw [bind_of_ok (pop_eq (by omega)), setTop_eq (by rw [DataStack.depth_discard]; omega)]
  simp [Effect.on]

theorem runDump_does (machine : Machine ρ) : Does runDump machine (dump.effect machine) := by
  refine does_bind (peek_eq 0 machine) fun count _ => ?_
  refine does_bind (peek_eq 1 machine) fun start hstart => ?_
  refine Does.congr (bind_of_ok (get_eq machine) _) (does_bind rfl fun text _ => ?_)
  have hdepth := DataStack.lt_depth_of_peek hstart
  refine ⟨machine.journal, ?_⟩
  rw [bind_of_ok (pop_eq (by omega)), bind_of_ok (pop_eq (by rw [DataStack.depth_discard]; omega)),
    print_eq]
  simp [Effect.on, Machine.print]

theorem runRadioInit_does (machine : Machine ρ) :
    Does runRadioInit machine (radioInit.effect machine) := by
  refine does_bind (peek_eq 0 machine) fun first _ => does_bind rfl fun frequency _ => ?_
  refine does_bind (peek_eq 1 machine) fun second _ => does_bind rfl fun group _ => ?_
  refine does_bind (peek_eq 2 machine) fun third hthird => does_bind rfl fun node _ => ?_
  have hdepth := DataStack.lt_depth_of_peek hthird
  refine ⟨.radioConfigured ⟨UInt8.ofNat node, UInt8.ofNat group, UInt16.ofNat frequency⟩
    :: machine.journal, ?_⟩
  rw [bind_of_ok (pop_eq (by omega)), bind_of_ok (pop_eq (by rw [DataStack.depth_discard]; omega)),
    bind_of_ok (pop_eq (by rw [DataStack.depth_discard, DataStack.depth_discard]; omega)),
    bind_of_ok (note_eq _ _), modify_eq]
  simp [Effect.on, Machine.note]

theorem runRadioPower_does (machine : Machine ρ) :
    Does runRadioPower machine (radioPower.effect machine) := by
  refine does_bind (peek_eq 0 machine) fun first hfirst => does_bind rfl fun level _ => ?_
  have hdepth := DataStack.lt_depth_of_peek hfirst
  refine ⟨.powerSet level :: machine.journal, ?_⟩
  rw [bind_of_ok (pop_eq (by omega)), bind_of_ok (note_eq _ _), modify_eq]
  simp [Effect.on, Machine.note]

theorem runRomFetch_does (machine : Machine ρ) :
    Does runRomFetch machine (romFetch.effect machine) := by
  refine does_bind (top_eq machine) fun first hfirst => does_bind rfl fun index _ => ?_
  have hdepth := DataStack.lt_depth_of_peek hfirst
  cases hfetch : machine.rom.bank.fetch index with
  | ok value =>
    have hrom : onRom (RomStorage.fetch index) machine = .ok value machine := by
      simp only [onRom, RomStorage.fetch, hfetch]
    have hnoted : (machine.note (.slotFetched index value)).stack.depth ≠ 0 := by
      show machine.stack.depth ≠ 0
      omega
    refine ⟨.slotFetched index value :: machine.journal, ?_⟩
    rw [bind_of_ok hrom, bind_of_ok (note_eq _ _), setTop_eq hnoted]
    simp [Effect.on, Machine.note]
  | error failure =>
    have hrom : onRom (RomStorage.fetch index) machine
        = .error failure.fault (failure.notices.foldl Machine.note machine) := by
      simp only [onRom, RomStorage.fetch, hfetch]
    exact ⟨_, by rw [bind_of_error hrom, foldl_note]⟩

theorem runRomStore_does (machine : Machine ρ) :
    Does runRomStore machine (romStore.effect machine) := by
  refine does_bind (peek_eq 0 machine) fun first _ => does_bind rfl fun index _ => ?_
  refine does_bind (peek_eq 1 machine) fun value hvalue => ?_
  have hdepth := DataStack.lt_depth_of_peek hvalue
  cases hstore : RomStorage.store index value machine.rom with
  | ok _ rom =>
    have hrom : onRom (RomStorage.store index value) machine = .ok () { machine with rom } := by
      simp only [onRom, hstore]
    refine ⟨.slotStored index value :: machine.journal, ?_⟩
    rw [bind_of_ok hrom, bind_of_ok (note_eq _ _),
      bind_of_ok (pop_eq (by simp only [Machine.note]; omega)),
      bind_of_ok (pop_eq (by simp only [Machine.note, DataStack.depth_discard]; omega))]
    simp [Effect.on, Machine.note]
    rfl
  | error failure rom =>
    -- the storage gave the slot its old value back
    have hsame := RomStorage.store_error_unchanged hstore
    have hrom : onRom (RomStorage.store index value) machine
        = .error failure.fault (failure.notices.foldl Machine.note machine) := by
      simp only [onRom, hstore, hsame]
    exact ⟨_, by rw [bind_of_error hrom, foldl_note]⟩

/-- Every command of the console does what was decided before it did anything. -/
theorem run_does (command : Builtin) (machine : Machine ρ) :
    Does command.run machine (command.effect machine) := by
  cases command with
  | newline => exact print_does "\n"
  | unary op => exact runUnary_does op machine
  | binary op => exact runBinary_does op machine
  | dump => exact runDump_does machine
  | words => exact Does.congr (bind_of_ok (get_eq machine) _) (print_does _)
  | radioInit => exact runRadioInit_does machine
  | radioPower => exact runRadioPower_does machine
  | romFetch => exact runRomFetch_does machine
  | romStore => exact runRomStore_does machine

end Builtin

end SerialConsole
