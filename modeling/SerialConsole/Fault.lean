/-!
# Faults

A fault is why a command did not run: its kind, the command it happened in, and sometimes a detail.
`Fault.message` is the one place where a fault becomes text.
-/

namespace SerialConsole

/-- The kinds of fault that the console reports. -/
inductive Fault.Kind where
  | illegalFunctionCall
  | overflow
  | stackOverflow
  | divisionByZero
  | stackUnderflow
  | unknownCommand
  | addressOutOfRange
  | internalError
deriving DecidableEq, Repr

namespace Fault.Kind

/-- Every kind, by ascending code. -/
def all : List Fault.Kind :=
  [illegalFunctionCall, overflow, stackOverflow, divisionByZero, stackUnderflow, unknownCommand,
    addressOutOfRange, internalError]

/-- The number of a kind in the device's error list. -/
def code : Fault.Kind → Nat
  | illegalFunctionCall => 5
  | overflow => 6
  | stackOverflow => 7
  | divisionByZero => 11
  | stackUnderflow => 22
  | unknownCommand => 24
  | addressOutOfRange => 25
  | internalError => 51

/-- The words a kind is reported with. -/
def text : Fault.Kind → String
  | illegalFunctionCall => "ILLEGAL FUNCTION CALL"
  | overflow => "OVERFLOW"
  | stackOverflow => "STACK OVERFLOW"
  | divisionByZero => "DIVISION BY ZERO"
  | stackUnderflow => "STACK UNDERFLOW"
  | unknownCommand => "UNKNOWN COMMAND"
  | addressOutOfRange => "ADDRESS OUT OF RANGE"
  | internalError => "INTERNAL ERROR"

end Fault.Kind

/-- A reported failure. `word` is the command it happened in; an empty `detail` is not shown. -/
structure Fault where
  kind : Fault.Kind
  word : Option String := none
  detail : String := ""
deriving DecidableEq, Repr

namespace Fault

/-- The fault of a kind, outside any command and without detail. -/
def ofKind (kind : Kind) : Fault := { kind }

/-- The fault of a kind with a detail, outside any command. -/
def withDetail (kind : Kind) (detail : String) : Fault := { kind, detail }

/-- Names the command a fault happened in. The first name sticks, so the innermost command that
claims a fault keeps it. -/
def inWord (fault : Fault) (name : String) : Fault :=
  { fault with word := fault.word.or (some name) }

/-- The text of a fault: its kind, then the command after a blank, then the detail after `"; "`. -/
def message (fault : Fault) : String :=
  fault.kind.text
    ++ (match fault.word with
        | some name => " " ++ name
        | none => "")
    ++ (if fault.detail = "" then "" else "; " ++ fault.detail)

/-- The text of a fault as it stands inside a record. -/
def bracketed (fault : Fault) : String :=
  "Error \x7b " ++ fault.message ++ " \x7d"

@[simp] theorem kind_inWord (fault : Fault) (name : String) :
    (fault.inWord name).kind = fault.kind := rfl

@[simp] theorem word_inWord_of_none (fault : Fault) (name : String) (h : fault.word = none) :
    (fault.inWord name).word = some name := by
  simp [inWord, h]

end Fault

end SerialConsole
