import SerialConsole.DataStack
import SerialConsole.Dictionary.Basic
import SerialConsole.Memory.AddressMap
import SerialConsole.Radio
import SerialConsole.Rom.Bank
import SerialConsole.Token

/-!
# The machine

A machine holds the data stack, the dictionary, the parts that commands talk to, the tokens that
wait and the text that was printed but not yet taken. This module has what can be done to a machine
from outside, and the services that a command can ask for while it runs.
-/

namespace SerialConsole

/-- The state of a console's interpreter over a radio of type `ρ`. -/
structure Machine (ρ : Type) where
  stack : DataStack DataStack.deviceCapacity := .empty
  dictionary : Dictionary := .standard .standard
  memory : AddressSpace := .unmapped
  radio : ρ
  rom : RomStorage := { bank := .blank RomBank.deviceSlots }
  /-- The node that the radio was last set up as; 0 until then. -/
  nodeId : UInt8 := 0
  pending : List Token := []
  printed : String := ""
  /-- What was noted, the latest first. -/
  journal : List Notice := []

namespace Machine

variable {ρ : Type}

/-! ## From outside -/

/-- Notes an event. -/
def note (machine : Machine ρ) (notice : Notice) : Machine ρ :=
  { machine with journal := notice :: machine.journal }

/-- What was noted, in order. -/
def notices (machine : Machine ρ) : List Notice := machine.journal.reverse

/-- Prints a text behind what is already printed. -/
def print (machine : Machine ρ) (text : String) : Machine ρ :=
  { machine with printed := machine.printed ++ text }

/-- Prints a byte from the line as its decimal value. -/
def echo (machine : Machine ρ) (byte : UInt8) : Machine ρ :=
  machine.print (Text.decimal byte.toNat ++ "\n")

/-- Queues the tokens of a line. -/
def enter (machine : Machine ρ) (line : String) : Machine ρ :=
  { machine with pending := machine.pending ++ Token.ofLine line }

/-- Drops the queued tokens and empties the stack. What is printed stays. -/
def clear (machine : Machine ρ) : Machine ρ :=
  { machine with pending := [], stack := machine.stack.clear }

/-- Prints the next packet, if there is one. The radio is not asked before it was set up as a node
other than 0. -/
def pollRadio [Radio ρ] (machine : Machine ρ) : Machine ρ :=
  if machine.nodeId = 0 then machine
  else
    match Radio.receive machine.radio with
    | (none, radio) => { machine with radio }
    | (some packet, radio) =>
      ({ machine with radio }.note (.packetReceived packet.data.length)).print
        (packet.text ++ "\n")

/-- A machine that is no node does not ask its radio, of whatever kind. -/
theorem pollRadio_of_no_node [Radio ρ] {machine : Machine ρ} (h : machine.nodeId = 0) :
    machine.pollRadio = machine := if_pos h

/-- A poll leaves everything but the queue of the radio and what is printed and noted. -/
theorem pollRadio_changes (machine : Machine QueuedRadio) : ∃ queue printed journal,
    machine.pollRadio
      = { machine with radio := { machine.radio with queue }, printed, journal } := by
  obtain ⟨queue, hqueue⟩ := machine.radio.receive_changes
  have hreceive : Radio.receive machine.radio
      = (machine.radio.receive.1, { machine.radio with queue }) := Prod.ext rfl hqueue
  rw [pollRadio, hreceive]
  split
  · exact ⟨machine.radio.queue, machine.printed, machine.journal, rfl⟩
  · cases machine.radio.receive.1 <;> exact ⟨queue, _, _, rfl⟩

/-- Nothing comes in over a radio without packets. -/
theorem pollRadio_of_empty {machine : Machine QueuedRadio} (h : machine.radio.queue = []) :
    machine.pollRadio = machine := by
  have hreceive : Radio.receive machine.radio = (none, machine.radio) :=
    QueuedRadio.receive_of_empty h
  rw [pollRadio, hreceive]
  split <;> rfl

end Machine

/-! ## Services for commands -/

/-- Something that runs on a machine and can fail. What it did before it failed stays done. -/
abbrev MachineM (ρ : Type) := EStateM Fault (Machine ρ)

namespace MachineM

variable {ρ α : Type}

/-- Gives a result that does not touch the machine. -/
def ofExcept (result : Except Fault α) : MachineM ρ α := fun machine =>
  match result with
  | .ok value => .ok value machine
  | .error fault => .error fault machine

/-- Runs an operation that changes the stack. -/
def onStack (operation : DataStack DataStack.deviceCapacity →
    Except Fault (α × DataStack DataStack.deviceCapacity)) : MachineM ρ α := fun machine =>
  match operation machine.stack with
  | .ok (value, stack) => .ok value { machine with stack }
  | .error fault => .error fault machine

/-- Puts a value on the stack. -/
def push (value : Cell) : MachineM ρ Unit :=
  onStack fun stack => (stack.push value).map ((), ·)

/-- Takes the top value off the stack. -/
def pop : MachineM ρ Cell := onStack DataStack.pop

/-- Overwrites the top value. -/
def setTop (value : Cell) : MachineM ρ Unit :=
  onStack fun stack => (stack.setTop value).map ((), ·)

/-- The value `n` places beneath the top. -/
def peek (n : Nat) : MachineM ρ Cell := do ofExcept ((← get).stack.peek n)

/-- The top value. -/
def top : MachineM ρ Cell := do ofExcept (← get).stack.top?

/-- Fails unless at least `n` values are on the stack. -/
def require (n : Nat) : MachineM ρ Unit := do ofExcept ((← get).stack.require n)

/-- Prints a text. -/
def print (text : String) : MachineM ρ Unit := modify (·.print text)

/-- Notes an event. -/
def note (notice : Notice) : MachineM ρ Unit := modify (·.note notice)

/-- Runs an action on the storage; a failure is noted and reported as its fault. -/
def onRom (action : RomM α) : MachineM ρ α := fun machine =>
  match action machine.rom with
  | .ok value rom => .ok value { machine with rom }
  | .error failure rom =>
    .error failure.fault (failure.notices.foldl Machine.note { machine with rom })

/-- Runs something and gives its outcome instead of failing. -/
def attempt (action : MachineM ρ α) : MachineM ρ (Except Fault α) := fun machine =>
  match action machine with
  | .ok value machine => .ok (.ok value) machine
  | .error fault machine => .ok (.error fault) machine

/-- Runs something as part of a command: a fault that names no command gets its name. -/
def inWord (name : String) (action : MachineM ρ α) : MachineM ρ α :=
  EStateM.adaptExcept (·.inWord name) action

end MachineM

end SerialConsole
