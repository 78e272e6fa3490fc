import Mathlib.Algebra.Ring.Int.Defs
import Mathlib.Algebra.Ring.Nat
import SerialConsole.Arithmetic

/-!
# Arithmetic on cells and on integers

What the operators would give if cells had no bounds: plain arithmetic on integers, where the
operators on bits see an integer through its lowest 32 bits. `UnaryOp.apply_eq` and
`BinaryOp.apply_eq` say that a cell's operator gives the integer result wrapped into a cell, and
fails for the same reason.
-/

namespace SerialConsole

/-- The lowest 32 bits of an integer, as a natural number. -/
def pattern (z : Int) : Nat := (z % 4294967296).toNat

theorem natCast_pattern (z : Int) : (pattern z : Int) = z % 4294967296 :=
  Int.toNat_of_nonneg (Int.emod_nonneg _ (by decide))

theorem pattern_toInt (value : Cell) : pattern value.toInt = value.toBitVec.toNat := by
  have hback : BitVec.ofInt 32 value.toInt = value.toBitVec := BitVec.ofInt_toInt
  rw [← hback, BitVec.toNat_ofInt]
  rfl

/-- A natural number that is wrapped into a cell is taken as the cell's bits. -/
theorem toBitVec_ofInt_natCast (n : Nat) :
    (Int32.ofInt (n : Int)).toBitVec = BitVec.ofNat 32 n := by
  rw [Int32.toBitVec_ofInt, BitVec.ofInt_natCast]

/-! ## Operators of one operand -/

/-- The value of an operator on an integer. -/
def UnaryOp.integer : UnaryOp → Int → Int
  | negate, z => -z
  | invert, z => -z - 1
  | ramPlus, z => z + 0x10000000

theorem UnaryOp.apply_eq (op : UnaryOp) (value : Cell) :
    op.apply value = Int32.ofInt (op.integer value.toInt) := by
  cases op with
  | negate => rw [apply, integer, Int32.ofInt_neg, Int32.ofInt_toInt]
  | invert =>
    rw [apply, integer, Int32.ofInt_sub, Int32.ofInt_neg, Int32.ofInt_toInt, Int32.not_eq_neg_sub]
    rfl
  | ramPlus =>
    rw [apply, integer, Int32.ofInt_add, Int32.ofInt_toInt]
    rfl

/-! ## Operators of two operands -/

namespace BinaryOp

/-- The value of an operator on integers, or the kind of fault that it ends in. A quotient that is
too large for a cell is refused, for the remainder as for the quotient itself. -/
def integer (op : BinaryOp) (lhs rhs : Int) : Except Fault.Kind Int :=
  match op with
  | add => .ok (lhs + rhs)
  | subtract => .ok (rhs - lhs)
  | multiply => .ok (lhs * rhs)
  | divide =>
    if lhs = 0 then .error .divisionByZero
    else if 2147483648 ≤ rhs.tdiv lhs then .error .overflow
    else .ok (rhs.tdiv lhs)
  | modulo =>
    if lhs = 0 then .error .divisionByZero
    else if 2147483648 ≤ rhs.tdiv lhs then .error .overflow
    else .ok (rhs.tmod lhs)
  | bitAnd => .ok (pattern lhs &&& pattern rhs : Nat)
  | bitOr => .ok (pattern lhs ||| pattern rhs : Nat)
  | bitXor => .ok (pattern lhs ^^^ pattern rhs : Nat)
  | shiftLeft =>
    if 0 ≤ lhs ∧ lhs < 32 then .ok (rhs * 2 ^ lhs.toNat) else .error .illegalFunctionCall
  | shiftRight =>
    if 0 ≤ lhs ∧ lhs < 32 then .ok (pattern rhs / 2 ^ lhs.toNat : Nat)
    else .error .illegalFunctionCall

/-! ### Checks -/

theorem toInt_eq_zero_iff {value : Cell} : value.toInt = 0 ↔ value = 0 := by
  rw [← Int32.toInt_inj]
  rfl

/-- The one quotient of cells that is too large for a cell. -/
theorem le_tdiv_iff {divisor dividend : Cell} (h : divisor ≠ 0) :
    2147483648 ≤ dividend.toInt.tdiv divisor.toInt ↔
      divisor = -1 ∧ dividend = Int32.minValue := by
  have hne : divisor.toInt ≠ 0 := fun hzero => h (toInt_eq_zero_iff.mp hzero)
  have hlow := dividend.le_toInt
  have hhigh := dividend.toInt_lt
  constructor
  · intro hlarge
    have habs : (dividend.toInt.tdiv divisor.toInt).natAbs
        = dividend.toInt.natAbs / divisor.toInt.natAbs := Int.natAbs_tdiv _ _
    have hone : divisor.toInt.natAbs = 1 := by
      rcases Nat.lt_or_ge divisor.toInt.natAbs 2 with hlt | htwo
      · omega
      · -- a divisor of two or more would halve the dividend at least
        have hhalf : dividend.toInt.natAbs / divisor.toInt.natAbs ≤ dividend.toInt.natAbs / 2 :=
          Nat.div_le_div_left htwo (by omega)
        omega
    have hcases : divisor.toInt = 1 ∨ divisor.toInt = -1 := by omega
    rcases hcases with hdivisor | hdivisor
    · rw [hdivisor, Int.tdiv_one] at hlarge
      omega
    · rw [hdivisor, Int.tdiv_neg, Int.tdiv_one] at hlarge
      have hdividend : dividend.toInt = Int32.minValue.toInt := by
        rw [Int32.toInt_minValue]
        omega
      exact ⟨Int32.toInt_inj.mp hdivisor, Int32.toInt_inj.mp hdividend⟩
  · rintro ⟨rfl, rfl⟩
    decide

theorem checkDivision_eq (divisor dividend : Cell) :
    checkDivision divisor dividend =
      if divisor.toInt = 0 then .error (Fault.ofKind .divisionByZero)
      else if 2147483648 ≤ dividend.toInt.tdiv divisor.toInt then
        .error (Fault.ofKind .overflow)
      else .ok () := by
  by_cases hzero : divisor = 0
  · rw [checkDivision, if_pos hzero, if_pos (toInt_eq_zero_iff.mpr hzero)]
  · rw [checkDivision, if_neg hzero, if_neg (fun h => hzero (toInt_eq_zero_iff.mp h))]
    simp only [le_tdiv_iff hzero]

theorem checkShift_eq (count : Cell) :
    checkShift count = if 0 ≤ count.toInt ∧ count.toInt < 32 then .ok ()
      else .error (Fault.withDetail .illegalFunctionCall "SHIFT 0..31") := by
  simp only [checkShift, Int32.le_iff_toInt_le, Int32.lt_iff_toInt_lt]
  rfl

/-! ### Values -/

theorem ofInt_add (lhs rhs : Cell) : Int32.ofInt (lhs.toInt + rhs.toInt) = lhs + rhs := by
  rw [Int32.ofInt_add, Int32.ofInt_toInt, Int32.ofInt_toInt]

theorem ofInt_sub (lhs rhs : Cell) : Int32.ofInt (rhs.toInt - lhs.toInt) = rhs - lhs := by
  rw [Int32.ofInt_sub, Int32.ofInt_toInt, Int32.ofInt_toInt]

theorem ofInt_mul (lhs rhs : Cell) : Int32.ofInt (lhs.toInt * rhs.toInt) = lhs * rhs := by
  rw [Int32.ofInt_mul, Int32.ofInt_toInt, Int32.ofInt_toInt]

theorem ofInt_tdiv (lhs rhs : Cell) : Int32.ofInt (rhs.toInt.tdiv lhs.toInt) = rhs / lhs := by
  rw [Int32.ofInt_tdiv rhs.minValue_le_toInt rhs.toInt_le lhs.minValue_le_toInt lhs.toInt_le,
    Int32.ofInt_toInt, Int32.ofInt_toInt]

theorem ofInt_tmod (lhs rhs : Cell) : Int32.ofInt (rhs.toInt.tmod lhs.toInt) = rhs % lhs := by
  rw [Int32.ofInt_tmod rhs.minValue_le_toInt rhs.toInt_le lhs.minValue_le_toInt lhs.toInt_le,
    Int32.ofInt_toInt, Int32.ofInt_toInt]

theorem ofInt_and (lhs rhs : Cell) :
    Int32.ofInt (pattern lhs.toInt &&& pattern rhs.toInt : Nat) = lhs &&& rhs := by
  apply Int32.toBitVec_inj.mp
  rw [toBitVec_ofInt_natCast, pattern_toInt, pattern_toInt, Int32.toBitVec_and, BitVec.ofNat_and]
  simp

theorem ofInt_or (lhs rhs : Cell) :
    Int32.ofInt (pattern lhs.toInt ||| pattern rhs.toInt : Nat) = lhs ||| rhs := by
  apply Int32.toBitVec_inj.mp
  rw [toBitVec_ofInt_natCast, pattern_toInt, pattern_toInt, Int32.toBitVec_or, BitVec.ofNat_or]
  simp

theorem ofInt_xor (lhs rhs : Cell) :
    Int32.ofInt (pattern lhs.toInt ^^^ pattern rhs.toInt : Nat) = lhs ^^^ rhs := by
  apply Int32.toBitVec_inj.mp
  rw [toBitVec_ofInt_natCast, pattern_toInt, pattern_toInt, Int32.toBitVec_xor, BitVec.ofNat_xor]
  simp

/-- A count that passes the check is the number that its bits write. -/
theorem toNat_toBitVec_of_nonneg {count : Cell} (h : 0 ≤ count.toInt) :
    count.toBitVec.toNat = count.toInt.toNat := by
  have hlt := count.toInt_lt
  rw [← pattern_toInt, pattern]
  congr 1
  omega

theorem ofInt_shiftLeft {lhs : Cell} (h : 0 ≤ lhs.toInt ∧ lhs.toInt < 32) (rhs : Cell) :
    Int32.ofInt (rhs.toInt * 2 ^ lhs.toInt.toNat) = rhs <<< lhs := by
  have hcount : lhs.toBitVec.smod 32 = lhs.toBitVec := by
    apply BitVec.toInt_inj.mp
    rw [BitVec.toInt_smod]
    exact Int.fmod_eq_of_lt h.1 h.2
  have hpower : BitVec.ofInt 32 (2 ^ lhs.toInt.toNat) = BitVec.twoPow 32 lhs.toInt.toNat := by
    have hcast : (2 : Int) ^ lhs.toInt.toNat = (2 ^ lhs.toInt.toNat : Nat) := by simp
    apply BitVec.eq_of_toNat_eq
    rw [hcast, BitVec.ofInt_natCast, BitVec.toNat_ofNat, BitVec.toNat_twoPow]
  have hback : BitVec.ofInt 32 rhs.toInt = rhs.toBitVec := BitVec.ofInt_toInt
  apply Int32.toBitVec_inj.mp
  rw [Int32.toBitVec_ofInt, BitVec.ofInt_mul, hpower, hback, Int32.toBitVec_shiftLeft, hcount,
    BitVec.shiftLeft_eq', toNat_toBitVec_of_nonneg h.1, BitVec.shiftLeft_eq_mul_twoPow]

theorem ofInt_shiftRight {lhs : Cell} (h : 0 ≤ lhs.toInt ∧ lhs.toInt < 32) (rhs : Cell) :
    Int32.ofInt (pattern rhs.toInt / 2 ^ lhs.toInt.toNat : Nat)
      = (rhs.toUInt32 >>> lhs.toUInt32).toInt32 := by
  have hcount : (lhs.toBitVec % 32).toNat = lhs.toInt.toNat := by
    rw [BitVec.toNat_umod, toNat_toBitVec_of_nonneg h.1]
    show lhs.toInt.toNat % 32 = lhs.toInt.toNat
    omega
  apply Int32.toBitVec_inj.mp
  rw [toBitVec_ofInt_natCast, pattern_toInt, UInt32.toBitVec_toInt32, UInt32.toBitVec_shiftRight,
    Int32.toBitVec_toUInt32, Int32.toBitVec_toUInt32, BitVec.ushiftRight_eq', hcount]
  apply BitVec.eq_of_toNat_eq
  rw [BitVec.toNat_ushiftRight, Nat.shiftRight_eq_div_pow, BitVec.toNat_ofNat]
  apply Nat.mod_eq_of_lt
  exact Nat.lt_of_le_of_lt (Nat.div_le_self _ _) rhs.toBitVec.isLt

/-- An operator gives the integer result wrapped into a cell, or fails for the same reason. -/
theorem apply_eq (op : BinaryOp) (lhs rhs : Cell) :
    (op.apply lhs rhs).mapError Fault.kind
      = (op.integer lhs.toInt rhs.toInt).map Int32.ofInt := by
  cases op with
  | add => rw [apply, integer, Except.map, ofInt_add]; rfl
  | subtract => rw [apply, integer, Except.map, ofInt_sub]; rfl
  | multiply => rw [apply, integer, Except.map, ofInt_mul]; rfl
  | divide =>
    rw [apply, integer, checkDivision_eq]
    split
    · rfl
    · split
      · rfl
      · rw [Except.map, ofInt_tdiv]
        rfl
  | modulo =>
    rw [apply, integer, checkDivision_eq]
    split
    · rfl
    · split
      · rfl
      · rw [Except.map, ofInt_tmod]
        rfl
  | bitAnd => rw [apply, integer, Except.map, ofInt_and]; rfl
  | bitOr => rw [apply, integer, Except.map, ofInt_or]; rfl
  | bitXor => rw [apply, integer, Except.map, ofInt_xor]; rfl
  | shiftLeft =>
    rw [apply, integer, checkShift_eq]
    split
    case isTrue h =>
      rw [Except.map, ofInt_shiftLeft h]
      rfl
    case isFalse => rfl
  | shiftRight =>
    rw [apply, integer, checkShift_eq]
    split
    case isTrue h =>
      rw [Except.map, ofInt_shiftRight h]
      rfl
    case isFalse => rfl

/-- A fault of an operator names no command. -/
theorem word_of_apply_eq_error {op : BinaryOp} {lhs rhs : Cell} {fault : Fault}
    (h : op.apply lhs rhs = .error fault) : fault.word = none := by
  cases op with
  | add | subtract | multiply | bitAnd | bitOr | bitXor => cases h
  | divide | modulo =>
    rw [apply, checkDivision] at h
    split at h
    · cases h
      rfl
    · split at h
      · cases h
        rfl
      · cases h
  | shiftLeft | shiftRight =>
    rw [apply, checkShift] at h
    split at h
    · cases h
    · cases h
      rfl

/-- A value of an operator on cells is that of the operator on integers, wrapped into a cell. -/
theorem apply_eq_ok_iff {op : BinaryOp} {lhs rhs value : Cell} :
    op.apply lhs rhs = .ok value ↔
      ∃ z, op.integer lhs.toInt rhs.toInt = .ok z ∧ Int32.ofInt z = value := by
  have hagree := op.apply_eq lhs rhs
  cases hcell : op.apply lhs rhs <;> cases hinteger : op.integer lhs.toInt rhs.toInt <;>
    simp_all [Except.mapError, Except.map]

theorem exists_apply_eq_error_iff {op : BinaryOp} {lhs rhs : Cell} {kind : Fault.Kind} :
    (∃ fault, op.apply lhs rhs = .error fault ∧ fault.kind = kind) ↔
      op.integer lhs.toInt rhs.toInt = .error kind := by
  have hagree := op.apply_eq lhs rhs
  cases hcell : op.apply lhs rhs <;> cases hinteger : op.integer lhs.toInt rhs.toInt <;>
    simp_all [Except.mapError, Except.map]

/-! ### Quotients and remainders -/

/-- The ways in which a division is checked, as conditions on integers. -/
theorem checkDivision_cases (divisor dividend : Cell) :
    divisor.toInt = 0 ∧
        checkDivision divisor dividend = .error (Fault.ofKind .divisionByZero) ∨
      (divisor.toInt = -1 ∧ dividend.toInt = -2 ^ 31) ∧
        checkDivision divisor dividend = .error (Fault.ofKind .overflow) ∨
      (divisor.toInt ≠ 0 ∧ ¬(divisor.toInt = -1 ∧ dividend.toInt = -2 ^ 31)) ∧
        checkDivision divisor dividend = .ok () := by
  have hunit : divisor = -1 ↔ divisor.toInt = -1 := Int32.toInt_inj.symm
  have hleast : dividend = Int32.minValue ↔ dividend.toInt = -2 ^ 31 := Int32.toInt_inj.symm
  simp only [checkDivision, hunit, hleast]
  split
  case isTrue hzero => exact .inl ⟨toInt_eq_zero_iff.mpr hzero, rfl⟩
  case isFalse hnonzero =>
    have hne : divisor.toInt ≠ 0 := fun hzero => hnonzero (toInt_eq_zero_iff.mp hzero)
    split
    case isTrue hoverflow => exact .inr (.inl ⟨hoverflow, rfl⟩)
    case isFalse hfits => exact .inr (.inr ⟨⟨hne, hfits⟩, rfl⟩)

/-- Quotient and remainder of cells make up the dividend again, without wrapping. -/
theorem toInt_div_add_mod {divisor dividend : Cell}
    (h : ¬(divisor.toInt = -1 ∧ dividend.toInt = -2 ^ 31)) :
    dividend.toInt = divisor.toInt * (dividend / divisor).toInt + (dividend % divisor).toInt := by
  have hquotient : (dividend / divisor).toInt = dividend.toInt.tdiv divisor.toInt := by
    by_cases hunit : divisor = -1
    · have hleast : dividend ≠ Int32.minValue := by
        rintro rfl
        exact h ⟨congrArg Int32.toInt hunit, rfl⟩
      exact Int32.toInt_div_of_ne_left _ _ hleast
    · exact Int32.toInt_div_of_ne_right _ _ hunit
  rw [hquotient, Int32.toInt_mod, Int.mul_tdiv_add_tmod]

theorem natAbs_toInt_mod_lt {divisor : Cell} (h : divisor.toInt ≠ 0) (dividend : Cell) :
    (dividend % divisor).toInt.natAbs < divisor.toInt.natAbs := by
  rw [Int32.toInt_mod, Int.natAbs_tmod]
  exact Nat.mod_lt _ (by omega)

/-- A remainder is on the side of the dividend. -/
theorem sign_toInt_mod (divisor dividend : Cell) :
    (dividend % divisor).toInt = 0 ∨ (dividend % divisor).toInt.sign = dividend.toInt.sign := by
  rw [Int32.toInt_mod]
  by_cases hdvd : divisor.toInt ∣ dividend.toInt
  · exact .inl (Int.tmod_eq_zero_of_dvd hdvd)
  · exact .inr (by rw [Int.sign_tmod, if_neg hdvd])

/-! ### Shifts -/

/-- A cell has the bits of the integer that was wrapped into it. -/
theorem pattern_toInt_ofInt (z : Int) : pattern (Int32.ofInt z).toInt = pattern z := by
  have hsize : (Int32.size : Int) = 4294967296 := rfl
  rw [Int32.toInt_ofInt, pattern, pattern, ← hsize, Int.bmod_emod]

/-- What a shift to the left has pushed out does not come back. -/
theorem pattern_mul_div {count : Nat} (h : count ≤ 31) (z : Int) :
    ((pattern (z * 2 ^ count) / 2 ^ count : Nat) : Int) = z % 2 ^ (32 - count) := by
  have hpos : (0 : Int) < 2 ^ count := Int.pow_pos (by decide)
  have hsplit : (4294967296 : Int) = 2 ^ count * 2 ^ (32 - count) := by
    rw [← pow_add, Nat.add_sub_cancel' (by omega)]
    rfl
  have hkept : ((pattern (z * 2 ^ count) : Nat) : Int) = 2 ^ count * (z % 2 ^ (32 - count)) := by
    rw [natCast_pattern, hsplit, Int.mul_comm z, Int.mul_emod_mul_of_pos _ _ hpos]
  rw [Int.natCast_div, hkept, Int.natCast_pow]
  exact Int.mul_ediv_cancel_left _ (by omega)

/-- A cell holds the powers of two up to the thirtieth. -/
theorem toInt_ofInt_two_pow {count : Nat} (h : count ≤ 30) :
    (Int32.ofInt (2 ^ count)).toInt = 2 ^ count := by
  have hpos : (0 : Int) < 2 ^ count := Int.pow_pos (by decide)
  have hbound : (2 : Int) ^ count < 2 ^ 31 := by
    have hfewer : 2 ^ count < 2 ^ 31 := Nat.pow_lt_pow_right (by decide) (by omega)
    exact_mod_cast hfewer
  exact Int32.toInt_ofInt_of_le (by omega) hbound

/-- A cell that loses its upper bits is the same cell just if these bits were zero. -/
theorem ofInt_emod_eq_iff {count : Nat} (h : count ≤ 31) (value : Cell) :
    Int32.ofInt (value.toInt % 2 ^ (32 - count)) = value ↔
      count = 0 ∨ 0 ≤ value.toInt ∧ value.toInt < 2 ^ (32 - count) := by
  have hpos : (0 : Int) < 2 ^ (32 - count) := Int.pow_pos (by decide)
  have hlow := Int.emod_nonneg value.toInt (show (2 : Int) ^ (32 - count) ≠ 0 by omega)
  have hhigh := Int.emod_lt_of_pos value.toInt hpos
  rcases Nat.eq_zero_or_pos count with rfl | hsome
  · have hall : Int32.ofInt (value.toInt % 2 ^ 32) = value := by
      rw [Int32.ofInt_eq_iff_bmod_eq_toInt, Int.bmod_def]
      have hleast := value.le_toInt
      have hgreatest := value.toInt_lt
      omega
    exact ⟨fun _ => .inl rfl, fun _ => hall⟩
  · -- fewer than 32 bits never make a negative cell
    have hbound : (2 : Int) ^ (32 - count) ≤ 2 ^ 31 := by
      have hfewer : 2 ^ (32 - count) ≤ 2 ^ 31 := Nat.pow_le_pow_right (by decide) (by omega)
      exact_mod_cast hfewer
    rw [← Int32.toInt_inj, Int32.toInt_ofInt_of_le (by omega) (by omega)]
    constructor
    · intro heq
      rw [heq] at hlow hhigh
      exact .inr ⟨hlow, hhigh⟩
    · rintro (hzero | ⟨hnonneg, hlt⟩)
      · omega
      · exact Int.emod_eq_of_lt hnonneg hlt

end BinaryOp

end SerialConsole
