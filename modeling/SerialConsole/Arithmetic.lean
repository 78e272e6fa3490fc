import SerialConsole.Cell
import SerialConsole.Fault

/-!
# Arithmetic

The operators of the console on cells. A binary operator has the value beneath the top on its left
and the top on its right, and the right one is the minuend, the dividend or the value that is
shifted: `7 3 -` leaves `3 - 7`. Sums, differences and products wrap.
-/

namespace SerialConsole

/-- Where RAM begins in the device's address map. -/
def ramBase : UInt32 := 0x10000000

/-! ## Operators of one operand -/

/-- An operator that replaces the top of the stack. -/
inductive UnaryOp where
  | negate
  | invert
  | ramPlus
deriving DecidableEq, Repr

/-- The value of an operator of one operand; `ramPlus` turns an offset into RAM into an address. -/
def UnaryOp.apply : UnaryOp → Cell → Cell
  | negate, value => -value
  | invert, value => ~~~value
  | ramPlus, value => value + ramBase.toInt32

/-! ## Operators of two operands -/

/-- An operator that folds the top of the stack into the value beneath it. -/
inductive BinaryOp where
  | add
  | subtract
  | multiply
  | divide
  | modulo
  | bitAnd
  | bitOr
  | bitXor
  | shiftLeft
  | shiftRight
deriving DecidableEq, Repr

namespace BinaryOp

/-- Division is refused for a zero divisor and for the one quotient that no cell holds. -/
def checkDivision (divisor dividend : Cell) : Except Fault Unit :=
  if divisor = 0 then .error (Fault.ofKind .divisionByZero)
  else if divisor = -1 ∧ dividend = Int32.minValue then .error (Fault.ofKind .overflow)
  else .ok ()

/-- A value is shifted by 0 to 31 places. -/
def checkShift (count : Cell) : Except Fault Unit :=
  if 0 ≤ count ∧ count < 32 then .ok ()
  else .error (Fault.withDetail .illegalFunctionCall "SHIFT 0..31")

/-- The value of an operator. Quotients go toward zero, a remainder has the sign of the dividend,
and a shift to the right brings in zeros. -/
def apply (op : BinaryOp) (lhs rhs : Cell) : Except Fault Cell :=
  match op with
  | add => .ok (lhs + rhs)
  | subtract => .ok (rhs - lhs)
  | multiply => .ok (lhs * rhs)
  | divide => do
    checkDivision lhs rhs
    .ok (rhs / lhs)
  | modulo => do
    checkDivision lhs rhs
    .ok (rhs % lhs)
  | bitAnd => .ok (lhs &&& rhs)
  | bitOr => .ok (lhs ||| rhs)
  | bitXor => .ok (lhs ^^^ rhs)
  | shiftLeft => do
    checkShift lhs
    .ok (rhs <<< lhs)
  | shiftRight => do
    checkShift lhs
    .ok (rhs.toUInt32 >>> lhs.toUInt32).toInt32

end BinaryOp

end SerialConsole
