import SerialConsole.Machine.Basic
import SerialConsole.Memory.Listing

/-!
# What commands do

The console's own commands and procedures as actions on a machine. Every command looks at its operands
and does all that can fail before it takes anything off the stack.
-/

namespace SerialConsole

variable {ρ : Type}

/-! ## Operands -/

/-- A cell as a number of at most `limit`; the detail says which operand is out of range. -/
def narrow (limit : Nat) (detail : String) (value : Cell) : Except Fault Nat :=
  if 0 ≤ value.toInt ∧ value.toInt ≤ limit then .ok value.toInt.toNat
  else .error (Fault.withDetail .illegalFunctionCall detail)

/-- A cell as the index of a slot. -/
def slotIndex (value : Cell) : Except Fault Nat :=
  if 0 ≤ value.toInt then .ok value.toInt.toNat
  else .error (Fault.ofKind .addressOutOfRange)

/-! ## The console's own commands -/

namespace Builtin

/-- Replaces the top by the operator's value. -/
def runUnary (op : UnaryOp) : MachineM ρ Unit := do
  let value ← MachineM.top
  MachineM.setTop (op.apply value)

/-- Folds the top into the value beneath it. -/
def runBinary (op : BinaryOp) : MachineM ρ Unit := do
  let rhs ← MachineM.peek 0
  let lhs ← MachineM.peek 1
  let value ← MachineM.ofExcept (op.apply lhs rhs)
  let _ ← MachineM.pop
  MachineM.setTop value

/-- `start count dump` prints a listing of memory. -/
def runDump : MachineM ρ Unit := do
  let count ← MachineM.peek 0
  let start ← MachineM.peek 1
  let text ← MachineM.ofExcept (Listing.listing (← get).memory start.toUInt32 count)
  let _ ← MachineM.pop
  let _ ← MachineM.pop
  MachineM.print text

/-- `node group frequency rf-init` sets up the radio. -/
def runRadioInit [Radio ρ] : MachineM ρ Unit := do
  let frequency ← MachineM.ofExcept (narrow 65535 "FREQUENCY" (← MachineM.peek 0))
  let group ← MachineM.ofExcept (narrow 255 "GROUP" (← MachineM.peek 1))
  let node ← MachineM.ofExcept (narrow 255 "NODE ID" (← MachineM.peek 2))
  let _ ← MachineM.pop
  let _ ← MachineM.pop
  let _ ← MachineM.pop
  let config : RadioConfig := ⟨UInt8.ofNat node, UInt8.ofNat group, UInt16.ofNat frequency⟩
  MachineM.note (.radioConfigured config)
  modify fun machine =>
    { machine with radio := Radio.configure config machine.radio, nodeId := config.node }

/-- `level rf-txpower` sets the radio's power. -/
def runRadioPower [Radio ρ] : MachineM ρ Unit := do
  let level ← MachineM.ofExcept (narrow maxPower "LEVEL 0..31" (← MachineM.peek 0))
  let _ ← MachineM.pop
  MachineM.note (.powerSet level)
  modify fun machine =>
    { machine with radio := Radio.setPower (UInt8.ofNat level) machine.radio }

/-- `index rom@` replaces an index by the value of its slot. -/
def runRomFetch : MachineM ρ Unit := do
  let index ← MachineM.ofExcept (slotIndex (← MachineM.top))
  let value ← MachineM.onRom (RomStorage.fetch index)
  MachineM.note (.slotFetched index value)
  MachineM.setTop value

/-- `value index rom!` writes a slot. -/
def runRomStore : MachineM ρ Unit := do
  let index ← MachineM.ofExcept (slotIndex (← MachineM.peek 0))
  let value ← MachineM.peek 1
  MachineM.onRom (RomStorage.store index value)
  MachineM.note (.slotStored index value)
  let _ ← MachineM.pop
  let _ ← MachineM.pop

/-- What each of the console's own commands does. -/
def run [Radio ρ] : Builtin → MachineM ρ Unit
  | newline => MachineM.print "\n"
  | unary op => runUnary op
  | binary op => runBinary op
  | dump => runDump
  | words => do MachineM.print (← get).dictionary.listing
  | radioInit => runRadioInit
  | radioPower => runRadioPower
  | romFetch => runRomFetch
  | romStore => runRomStore

end Builtin

/-! ## Procedures -/

/-- What a procedure does, given how to run a command by name. -/
def Procedure.run (call : String → MachineM ρ Unit) : Procedure → MachineM ρ Unit
  | done => pure ()
  | fail fault => throw fault
  | print text next => do
    MachineM.print text
    next.run call
  | push value next => do
    let answer ← (MachineM.push value).attempt
    (next answer).run call
  | pop next => do
    let answer ← MachineM.pop.attempt
    (next answer).run call
  | inspect next => do
    (next (← get).stack.toList).run call
  | Procedure.call name next => do
    let answer ← (call name).attempt
    (next answer).run call
  | enter line next => do
    modify (·.enter line)
    next.run call
  | clear next => do
    modify (·.clear)
    next.run call

/-! ## Commands by name -/

/-- How far a machine goes. Commands can run commands and queue further input, so a line could
otherwise keep a machine busy for ever. -/
structure Limits where
  /-- How many procedures may wait for one another. -/
  nesting : Nat
  /-- How many tokens beyond those that wait may run before the next event. -/
  input : Nat
deriving DecidableEq, Repr

/-- The limits of the device. -/
def Limits.device : Limits := ⟨256, 65536⟩

/-- Runs a command by name, with room for `room` procedures that wait for one another. The command
must be known and its operands must be there before it is started. -/
def callWithin [Radio ρ] (room : Nat) (name : String) : MachineM ρ Unit := do
  let machine ← get
  match machine.dictionary.find? name with
  | none => throw ((Fault.ofKind .unknownCommand).inWord name)
  | some entry =>
    MachineM.note (.invoked name machine.stack.text)
    MachineM.inWord name do
      MachineM.require entry.arity
      match entry.action with
      | .builtin command => command.run
      | .procedure steps =>
        match room with
        | 0 => throw (Fault.withDetail .internalError "NESTED TOO DEEP")
        | room + 1 => steps.run (callWithin room)

namespace MachineM

variable [Radio ρ]

/-- Runs one token, with room for `room` procedures that wait for one another: a number is pushed, a
name is run as a command. -/
def runWithin (room : Nat) : Token → MachineM ρ Unit
  | .literal value => MachineM.push value
  | .word name => callWithin room name

/-- Runs a command by name, under the limits of the device. -/
def call (name : String) : MachineM ρ Unit := callWithin Limits.device.nesting name

/-- Runs one token, under the limits of the device. -/
def run (token : Token) : MachineM ρ Unit := runWithin Limits.device.nesting token

end MachineM

end SerialConsole
