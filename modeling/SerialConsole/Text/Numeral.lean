/-!
# Numerals

Reading and writing of numbers in decimal and hexadecimal. Only the ASCII digits count as digits;
hexadecimal is read in either case and written in lower case.
-/

namespace SerialConsole.Text

/-! ## Reading -/

/-- The value of a hexadecimal digit. -/
def digit? (c : Char) : Option Nat :=
  if '0' ≤ c ∧ c ≤ '9' then some (c.toNat - '0'.toNat)
  else if 'a' ≤ c ∧ c ≤ 'f' then some (c.toNat - 'a'.toNat + 10)
  else if 'A' ≤ c ∧ c ≤ 'F' then some (c.toNat - 'A'.toNat + 10)
  else none

/-- Appends one digit to a number written in a base; a character that is no digit of that base
fails. -/
def appendDigit? (base value : Nat) (c : Char) : Option Nat :=
  match digit? c with
  | some d => if d < base then some (base * value + d) else none
  | none => none

/-- The number that one or more digits of a base write, with any number of leading zeros. -/
def numeral? (base : Nat) : List Char → Option Nat
  | [] => none
  | ds => ds.foldlM (appendDigit? base) 0

/-! ## Writing -/

/-- A natural number in decimal, without leading zeros. -/
def decimal (n : Nat) : String :=
  String.ofList (Nat.toDigits 10 n)

/-- An integer in decimal; only a negative one has a sign. -/
def signed (z : Int) : String :=
  if z < 0 then "-" ++ decimal z.natAbs else decimal z.natAbs

/-- A number in exactly `width` hexadecimal digits; higher digits are lost. -/
def hexDigits : Nat → Nat → List Char
  | 0, _ => []
  | width + 1, n => hexDigits width (n / 16) ++ [Nat.digitChar (n % 16)]

@[simp] theorem length_hexDigits (width n : Nat) : (hexDigits width n).length = width := by
  induction width generalizing n with
  | zero => rfl
  | succ width ih => simp [hexDigits, ih]

/-- A byte as two hexadecimal digits. -/
def hexByte (b : UInt8) : List Char := hexDigits 2 b.toNat

/-- A word as eight hexadecimal digits. -/
def hexWord (w : UInt32) : List Char := hexDigits 8 w.toNat

end SerialConsole.Text
