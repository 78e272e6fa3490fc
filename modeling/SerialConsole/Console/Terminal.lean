/-!
# Terminals

The line that a console talks over, with a person or a script at the far end. A terminal keeps a
transcript of all that happened on it, in order, and the break flag that an interrupt raises. A
script can also plan ahead: an interrupt after so many writes, or a write that fails.
-/

namespace SerialConsole

/-- A signal that can arrive instead of a line. -/
inductive Signal where
  | breakKey
  | continueKey
  | interrupt
  | suspend
  | quit
deriving DecidableEq, Repr

/-- What the far end does while the console waits for a line. -/
inductive Act where
  | line (text : String)
  | signal (signal : Signal)
  | endOfInput
  | readFailure (cause : String)
  /-- Interrupts; the console goes on waiting. -/
  | interrupt
  /-- Plans an interrupt right after the given number of further writes. -/
  | interruptAfter (writes : Nat)
  /-- Plans the failure of the write of the given number, counted from now on. -/
  | failWrite (nth : Nat) (cause : String)
  /-- Refuses the console's first contact; later it means nothing. -/
  | failOpen (cause : String)
deriving DecidableEq, Repr

/-- Whether an act only plans ahead. -/
def Act.isPlan : Act → Bool
  | interruptAfter _ | failWrite _ _ => true
  | _ => false

/-- Something that happened on a terminal. -/
inductive Occurrence where
  | opened (name : String)
  /-- From here on an interrupt is reported instead of ending the program. -/
  | interruptsReported
  | wrote (text : String)
  /-- A line was put in the history. -/
  | remembered (line : String)
  /-- The line being edited was replaced. -/
  | bufferSet (text : String)
  /-- The break flag was raised. -/
  | breakRequested
  /-- The interpreter was given control while so many tokens waited. -/
  | interpreted (waiting : Nat)
deriving DecidableEq, Repr

/-- Whether the far end can see an occurrence. -/
def Occurrence.isVisible : Occurrence → Bool
  | breakRequested | interpreted _ => false
  | _ => true

/-- The state of a terminal. Each plan counts the writes that are left until it comes due. -/
structure Terminal where
  transcript : List Occurrence := []
  breakRequested : Bool := false
  interrupts : List Nat := []
  failures : List (Nat × String) := []
deriving DecidableEq, Repr

namespace Terminal

/-- What the far end saw, in order. -/
def trace (terminal : Terminal) : List Occurrence :=
  terminal.transcript.filter Occurrence.isVisible

/-- Puts an occurrence at the end of the transcript. -/
def record (terminal : Terminal) (occurrence : Occurrence) : Terminal :=
  { terminal with transcript := terminal.transcript ++ [occurrence] }

/-- Raises the break flag. -/
def requestBreak (terminal : Terminal) : Terminal :=
  { terminal with breakRequested := true }.record .breakRequested

/-- Takes up a plan; other acts plan nothing. -/
def plan (terminal : Terminal) : Act → Terminal
  | .interruptAfter writes => { terminal with interrupts := terminal.interrupts ++ [writes] }
  | .failWrite nth cause => { terminal with failures := terminal.failures ++ [(nth, cause)] }
  | _ => terminal

/-- Writes a text, or gives the cause of a failure that was planned for this write. An interrupt
that comes due strikes right after the text. -/
def write (terminal : Terminal) (text : String) : Except String Terminal :=
  match terminal.failures.find? fun failure => failure.1 == 1 with
  | some failure => .error failure.2
  | none =>
    let written : Terminal := { terminal with
      transcript := terminal.transcript ++ [.wrote text]
      interrupts := terminal.interrupts.map (· - 1)
      failures := terminal.failures.map fun (left, cause) => (left - 1, cause) }
    .ok (if terminal.interrupts.contains 1 then written.requestBreak else written)

end Terminal

end SerialConsole
