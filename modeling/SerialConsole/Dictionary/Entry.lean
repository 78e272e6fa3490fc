import SerialConsole.Arithmetic
import SerialConsole.Text.Numeral

/-!
# Dictionary entries

What a command is: a name, the number of stack values it needs, and the action it takes. An action
is one of the console's own commands or a procedure made of what the machine offers to a command.
-/

namespace SerialConsole

/-- The console's own commands. -/
inductive Builtin where
  | newline
  | unary (op : UnaryOp)
  | binary (op : BinaryOp)
  | dump
  | words
  | radioInit
  | radioPower
  | romFetch
  | romStore
deriving DecidableEq, Repr

/-- A command put together from the machine's services. Each step says what is asked of the machine
and how to go on with the answer, so a procedure can do nothing else to the machine. -/
inductive Procedure where
  | done
  | fail (fault : Fault)
  | print (text : String) (next : Procedure)
  | push (value : Cell) (next : Except Fault Unit → Procedure)
  | pop (next : Except Fault Cell → Procedure)
  /-- Looks at the stack, from the bottom to the top. -/
  | inspect (next : List Cell → Procedure)
  /-- Runs another command. -/
  | call (name : String) (next : Except Fault Unit → Procedure)
  /-- Queues a line of input. -/
  | enter (line : String) (next : Procedure)
  /-- Drops the queued input and empties the stack. -/
  | clear (next : Procedure)

/-- The procedure that ends as an answer did. -/
def Procedure.ofAnswer : Except Fault α → Procedure
  | .ok _ => done
  | .error fault => fail fault

/-- What a command does once its operands are known to be there. -/
inductive Action where
  | builtin (command : Builtin)
  | procedure (steps : Procedure)

/-- A named command. `arity` is the number of stack values it needs. -/
structure Entry where
  name : String
  arity : Nat
  action : Action

/-- The text of an entry: its name and arity. -/
def Entry.text (entry : Entry) : String :=
  entry.name ++ "/" ++ Text.decimal entry.arity

end SerialConsole
