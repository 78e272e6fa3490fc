import SerialConsole.Cell
import SerialConsole.Text.Blank
import SerialConsole.Text.Numeral

/-!
# Tokens

A line of input is a list of tokens: numbers to push and names of commands to run. A number is
decimal, or hexadecimal behind `0x`, `0X` or `$`; whatever does not read as a number is a name.
-/

namespace SerialConsole

/-- One item of a line of input. -/
inductive Token where
  | literal (value : Cell)
  | word (name : String)
deriving DecidableEq, Repr

namespace Token

/-! ## Reading -/

/-- Splits off a minus sign: whether there is one, and what stands behind it. -/
def splitSign : List Char → Bool × List Char
  | '-' :: rest => (true, rest)
  | cs => (false, cs)

/-- What stands behind the mark of a hexadecimal number. -/
def hexBody? : List Char → Option (List Char)
  | '0' :: 'x' :: ds => some ds
  | '0' :: 'X' :: ds => some ds
  | '$' :: ds => some ds
  | _ => none

/-- A magnitude with its sign. -/
def withSign (negative : Bool) (n : Nat) : Int :=
  if negative then -(n : Int) else n

/-- A decimal number is taken only if it fits in a cell. -/
def decimalCell? (negative : Bool) (ds : List Char) : Option Cell :=
  match Text.numeral? 10 ds with
  | some n =>
    let value := withSign negative n
    if -2147483648 ≤ value ∧ value ≤ 2147483647 then some (Int32.ofInt value) else none
  | none => none

/-- A hexadecimal number of at most 32 bits is taken as the pattern it writes, so that addresses
in the upper half of the map can be typed; a minus sign negates the pattern. -/
def hexCell? (negative : Bool) (ds : List Char) : Option Cell :=
  match Text.numeral? 16 ds with
  | some n => if n < 4294967296 then some (Int32.ofInt (withSign negative n)) else none
  | none => none

/-- The number that a text writes, if it writes one. -/
def number? (text : String) : Option Cell :=
  let (negative, body) := splitSign text.toList
  match hexBody? body with
  | some ds => hexCell? negative ds
  | none => decimalCell? negative body

/-- The token that a text stands for. -/
def ofText (text : String) : Token :=
  match number? text with
  | some value => literal value
  | none => word text

/-- The tokens of a line. -/
def ofLine (line : String) : List Token :=
  (Text.words line).map ofText

/-! ## Writing -/

/-- The text of a token: numbers are written in decimal. -/
def text : Token → String
  | literal value => Text.signed value.toInt
  | word name => name

end Token

end SerialConsole
