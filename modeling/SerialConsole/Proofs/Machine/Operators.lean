import SerialConsole.Proofs.Machine.Expression

/-!
# Operators on the stack

What the commands of the operators do to the values on top of the stack, in terms of integers. A command
leaves values (`Machine.Leaves`) or rejects them (`Machine.Rejects`), and changes nothing else; which of
the two, and with which value, is decided by `BinaryOp.apply` on the two topmost cells
(`leaves_binary_iff`, `rejects_binary_iff`). Two families of laws are read off from it:

* `division_truncates`: quotient and remainder fit together without wrapping, and fail together;
* `arithmetic_wraps`: everything else is arithmetic modulo `2 ^ 32`, shifts included.
-/

namespace SerialConsole

open Failing

variable {ρ : Type} [Radio ρ]

namespace Machine

/-- A command succeeds and leaves these values on the stack. Nothing else changes but the journal. -/
def Leaves (machine : Machine ρ) (command : String) (values : List Cell) : Prop :=
  ∃ stack journal, MachineM.run (.word command) machine = .ok () { machine with stack, journal } ∧
    stack.toList = values

/-- A command fails with a fault of some kind. Nothing changes but the journal. -/
def Rejects (machine : Machine ρ) (command : String) (kind : Fault.Kind) : Prop :=
  ∃ fault journal, MachineM.run (.word command) machine = .error fault { machine with journal } ∧
    fault.kind = kind

section Outcome

variable {features : Dictionary.Features} {machine : Machine ρ} {command : String}
  {below values : List Cell} {kind : Fault.Kind}

theorem Leaves.values_eq {others : List Cell} (h : machine.Leaves command values)
    (hother : machine.Leaves command others) : values = others := by
  obtain ⟨stack, journal, hrun, rfl⟩ := h
  obtain ⟨stack', journal', hrun', rfl⟩ := hother
  rw [hrun] at hrun'
  cases hrun'
  rfl

theorem Leaves.not_rejects (h : machine.Leaves command values) : ¬machine.Rejects command kind := by
  rintro ⟨fault, journal', hrun', -⟩
  obtain ⟨stack, journal, hrun, -⟩ := h
  rw [hrun] at hrun'
  cases hrun'

theorem Rejects.kind_eq {other : Fault.Kind} (h : machine.Rejects command kind)
    (hother : machine.Rejects command other) : kind = other := by
  obtain ⟨fault, journal, hrun, rfl⟩ := h
  obtain ⟨fault', journal', hrun', rfl⟩ := hother
  rw [hrun] at hrun'
  cases hrun'
  rfl

/-- A command that was decided to put one value in the place of the topmost ones. -/
theorem leaves_of_effect {gone : List Cell} {value : Cell}
    (hstandard : machine.dictionary = .standard features)
    (hvalues : machine.stack.toList = below ++ gone) (hgone : gone ≠ [])
    (h : (Token.word command).effect machine
      = .ok { taken := gone.length, left? := some value }) :
    machine.Leaves command (below ++ [value]) := by
  have hnative : machine.dictionary.Native := hstandard ▸ Dictionary.native_standard features
  have hdoes := MachineM.run_does hnative (.word command)
  rw [h] at hdoes
  obtain ⟨journal, hrun⟩ := hdoes
  refine ⟨machine.stack.replace gone.length (some value), journal, ?_,
    DataStack.toList_replace_of_append hvalues (.inl hgone) value⟩
  rw [hrun]
  simp [Effect.on]

/-- A command that was decided to fail. -/
theorem rejects_of_effect {fault : Fault} (hstandard : machine.dictionary = .standard features)
    (h : (Token.word command).effect machine = .error fault) :
    machine.Rejects command fault.kind := by
  have hnative : machine.dictionary.Native := hstandard ▸ Dictionary.native_standard features
  have hdoes := MachineM.run_does hnative (.word command)
  rw [h] at hdoes
  obtain ⟨journal, hrun⟩ := hdoes
  exact ⟨fault, journal, hrun, rfl⟩

end Outcome

/-! ## Two operands -/

section Binary

variable {features : Dictionary.Features} {machine : Machine ρ} {below : List Cell} {lhs rhs : Cell}
  (hstandard : machine.dictionary = .standard features)
  (hvalues : machine.stack.toList = below ++ [lhs, rhs])

include hstandard hvalues

/-- The command of an operator leaves its value or rejects its operands, as the operator does. -/
theorem outcome_binary (op : BinaryOp) :
    match op.apply lhs rhs with
    | .ok value => machine.Leaves op.name (below ++ [value])
    | .error fault => machine.Rejects op.name fault.kind := by
  have heffect := Token.effect_binary hstandard hvalues op
  cases hcell : op.apply lhs rhs with
  | ok value =>
    rw [hcell] at heffect
    exact leaves_of_effect hstandard hvalues (by simp) heffect
  | error fault =>
    rw [hcell] at heffect
    -- the name that the fault gets does not change its kind
    have hrejects : machine.Rejects op.name (fault.inWord op.name).kind :=
      rejects_of_effect hstandard heffect
    exact hrejects

theorem leaves_binary_iff (op : BinaryOp) {value : Cell} :
    machine.Leaves op.name (below ++ [value]) ↔ op.apply lhs rhs = .ok value := by
  have houtcome := outcome_binary hstandard hvalues op
  cases hcell : op.apply lhs rhs with
  | ok result =>
    rw [hcell] at houtcome
    constructor
    · intro h
      have hsame := List.append_cancel_left (houtcome.values_eq h)
      rw [List.singleton_inj.mp hsame]
    · rintro ⟨⟩
      exact houtcome
  | error fault =>
    rw [hcell] at houtcome
    exact ⟨fun h => absurd houtcome h.not_rejects, nofun⟩

theorem rejects_binary_iff (op : BinaryOp) {kind : Fault.Kind} :
    machine.Rejects op.name kind ↔ ∃ fault, op.apply lhs rhs = .error fault ∧ fault.kind = kind := by
  have houtcome := outcome_binary hstandard hvalues op
  cases hcell : op.apply lhs rhs with
  | ok result =>
    rw [hcell] at houtcome
    exact ⟨fun h => absurd h houtcome.not_rejects, nofun⟩
  | error fault =>
    rw [hcell] at houtcome
    constructor
    · exact fun h => ⟨fault, rfl, houtcome.kind_eq h⟩
    · rintro ⟨_, ⟨⟩, rfl⟩
      exact houtcome

end Binary

/-! ## Quotients and remainders -/

section Division

variable {features : Dictionary.Features} {machine : Machine ρ} {below : List Cell}
  {divisor dividend : Cell}

/-- What quotient and remainder are checked for before either is taken. -/
theorem rejects_division (hstandard : machine.dictionary = .standard features)
    (hvalues : machine.stack.toList = below ++ [divisor, dividend]) {op : BinaryOp}
    (hop : op = .divide ∨ op = .modulo) (kind : Fault.Kind) :
    machine.Rejects op.name kind ↔
      kind = .divisionByZero ∧ divisor.toInt = 0 ∨
        kind = .overflow ∧ divisor.toInt = -1 ∧ dividend.toInt = -2 ^ 31 := by
  rw [rejects_binary_iff hstandard hvalues]
  have happly : ∃ result, op.apply divisor dividend = (do
      BinaryOp.checkDivision divisor dividend
      .ok result) := by
    rcases hop with rfl | rfl
    · exact ⟨dividend / divisor, rfl⟩
    · exact ⟨dividend % divisor, rfl⟩
  obtain ⟨result, happly⟩ := happly
  simp only [happly, bind_ok_eq_error_iff]
  rcases BinaryOp.checkDivision_cases divisor dividend with
    ⟨hzero, hcheck⟩ | ⟨⟨hunit, hleast⟩, hcheck⟩ | ⟨⟨hnonzero, hfits⟩, hcheck⟩
  · simp [hcheck, hzero, Fault.ofKind, eq_comm]
  · simp [hcheck, hunit, hleast, Fault.ofKind, eq_comm]
  · simp only [hcheck, hnonzero, hfits, reduceCtorEq, and_false, false_and, exists_false, or_self]

theorem leaves_division (hstandard : machine.dictionary = .standard features)
    (hvalues : machine.stack.toList = below ++ [divisor, dividend]) (hnonzero : divisor.toInt ≠ 0)
    (hfits : ¬(divisor.toInt = -1 ∧ dividend.toInt = -2 ^ 31)) :
    machine.Leaves "/" (below ++ [dividend / divisor]) ∧
      machine.Leaves "mod" (below ++ [dividend % divisor]) := by
  have hcheck : BinaryOp.checkDivision divisor dividend = .ok () := by
    rcases BinaryOp.checkDivision_cases divisor dividend with
      ⟨hzero, -⟩ | ⟨hoverflow, -⟩ | ⟨-, hcheck⟩
    · exact absurd hzero hnonzero
    · exact absurd hoverflow hfits
    · exact hcheck
  constructor
  · apply (leaves_binary_iff hstandard hvalues .divide).mpr
    rw [BinaryOp.apply, hcheck]
    rfl
  · apply (leaves_binary_iff hstandard hvalues .modulo).mpr
    rw [BinaryOp.apply, hcheck]
    rfl

end Division

/-- Division truncates. On a stack with a divisor beneath the dividend, `/` and `mod` fail in the same
cases and with the same kind of fault: for a divisor of zero, and for the one quotient that no cell
holds. A failure leaves the stack as it was. Otherwise they leave a quotient and a remainder in the place
of their operands which make up the dividend exactly, the remainder smaller than the divisor and on the
side of the dividend. -/
theorem division_truncates {features : Dictionary.Features} {machine : Machine ρ}
    (hstandard : machine.dictionary = .standard features) {below : List Cell}
    {divisor dividend : Cell} (hvalues : machine.stack.toList = below ++ [divisor, dividend]) :
    (∀ command ∈ ["/", "mod"], ∀ kind, machine.Rejects command kind ↔
      kind = .divisionByZero ∧ divisor.toInt = 0 ∨
        kind = .overflow ∧ divisor.toInt = -1 ∧ dividend.toInt = -2 ^ 31) ∧
      (divisor.toInt ≠ 0 → ¬(divisor.toInt = -1 ∧ dividend.toInt = -2 ^ 31) →
        ∃ quotient remainder : Cell, machine.Leaves "/" (below ++ [quotient]) ∧
          machine.Leaves "mod" (below ++ [remainder]) ∧
          dividend.toInt = divisor.toInt * quotient.toInt + remainder.toInt ∧
          remainder.toInt.natAbs < divisor.toInt.natAbs ∧
          (remainder.toInt = 0 ∨ remainder.toInt.sign = dividend.toInt.sign)) := by
  constructor
  · intro command hcommand
    rcases List.mem_pair.mp hcommand with rfl | rfl
    · exact rejects_division hstandard hvalues (.inl rfl)
    · exact rejects_division hstandard hvalues (.inr rfl)
  · intro hnonzero hfits
    obtain ⟨hquotient, hremainder⟩ := leaves_division hstandard hvalues hnonzero hfits
    exact ⟨_, _, hquotient, hremainder, BinaryOp.toInt_div_add_mod hfits,
      BinaryOp.natAbs_toInt_mod_lt hnonzero dividend, BinaryOp.sign_toInt_mod divisor dividend⟩

/-- A negative dividend with something beneath it, and the quotient that no cell holds. -/
theorem division_truncates_negative :
    let machine : Machine QueuedRadio :=
      { stack := ((DataStack.empty.put 5).put 3).put (-7), radio := {} }
    let least : Machine QueuedRadio :=
      { stack := (DataStack.empty.put (-1)).put (-2147483648), radio := {} }
    machine.stack.toList = [5] ++ [3, -7] ∧ machine.Leaves "/" ([5] ++ [-2]) ∧
      (∃ quotient remainder : Cell, machine.Leaves "/" ([5] ++ [quotient]) ∧
        machine.Leaves "mod" ([5] ++ [remainder]) ∧
        (-7 : Int) = 3 * quotient.toInt + remainder.toInt ∧
        remainder.toInt.natAbs < 3 ∧ (remainder.toInt = 0 ∨ remainder.toInt.sign = -1)) ∧
      least.stack.toList = [] ++ [-1, -2147483648] ∧ least.Rejects "mod" .overflow := by
  intro machine least
  have hvalues : machine.stack.toList = [5] ++ [3, -7] := by decide
  have hleast : least.stack.toList = [] ++ [-1, -2147483648] := by decide
  have hstandard : machine.dictionary = .standard .standard := rfl
  have hstandard' : least.dictionary = .standard .standard := rfl
  have hquotient := (leaves_binary_iff hstandard hvalues .divide).mpr rfl
  exact ⟨hvalues, hquotient,
    (division_truncates hstandard hvalues).2 (by decide) (by decide), hleast,
    ((division_truncates hstandard' hleast).1 "mod" (by decide) .overflow).mpr (.inr (by decide))⟩

/-! ## Wrapping -/

/-- A command puts a cell on the values that lie beneath its operands: the one that is congruent to an
integer modulo `2 ^ 32`. -/
def LeavesWrapped (machine : Machine ρ) (command : String) (below : List Cell) (z : Int) : Prop :=
  ∃ value : Cell, machine.Leaves command (below ++ [value]) ∧ value.toInt ≡ z [ZMOD 2 ^ 32] ∧
    ∀ other : Cell, other.toInt ≡ z [ZMOD 2 ^ 32] → other = value

theorem leavesWrapped_of_leaves {machine : Machine ρ} {command : String} {below : List Cell} {z : Int}
    (h : machine.Leaves command (below ++ [Int32.ofInt z])) :
    machine.LeavesWrapped command below z :=
  ⟨Int32.ofInt z, h, Token.ofInt_eq_iff_modEq.mp rfl,
    fun _ hother => (Token.ofInt_eq_iff_modEq.mpr hother).symm⟩

section Wrapping

variable {features : Dictionary.Features} {machine : Machine ρ} {below : List Cell}

theorem leavesWrapped_unary (hstandard : machine.dictionary = .standard features) {value : Cell}
    (hvalues : machine.stack.toList = below ++ [value]) (op : UnaryOp) :
    machine.LeavesWrapped op.name below (op.integer value.toInt) := by
  apply leavesWrapped_of_leaves
  rw [← op.apply_eq]
  exact leaves_of_effect hstandard hvalues (by simp) (Token.effect_unary hstandard hvalues op)

variable {lhs rhs : Cell} (hstandard : machine.dictionary = .standard features)
  (hvalues : machine.stack.toList = below ++ [lhs, rhs])

include hstandard hvalues

theorem leaves_integer (op : BinaryOp) {z : Int} (h : op.integer lhs.toInt rhs.toInt = .ok z) :
    machine.Leaves op.name (below ++ [Int32.ofInt z]) :=
  (leaves_binary_iff hstandard hvalues op).mpr (BinaryOp.apply_eq_ok_iff.mpr ⟨z, h, rfl⟩)

theorem leavesWrapped_binary (op : BinaryOp) {z : Int}
    (h : op.integer lhs.toInt rhs.toInt = .ok z) : machine.LeavesWrapped op.name below z :=
  leavesWrapped_of_leaves (leaves_integer hstandard hvalues op h)

/-- A shift is refused just for a count that is out of range. -/
theorem rejects_shift {op : BinaryOp} (hop : op = .shiftLeft ∨ op = .shiftRight) :
    machine.Rejects op.name .illegalFunctionCall ↔ ¬(0 ≤ lhs.toInt ∧ lhs.toInt ≤ 31) := by
  rw [rejects_binary_iff hstandard hvalues, BinaryOp.exists_apply_eq_error_iff]
  rcases hop with rfl | rfl
  all_goals
    rw [BinaryOp.integer]
    split <;> simp <;> omega

/-- What a shift to the left leaves, if its count is in range. -/
theorem leaves_shiftLeft (hcount : 0 ≤ lhs.toInt ∧ lhs.toInt ≤ 31) :
    machine.Leaves "<<" (below ++ [Int32.ofInt (rhs.toInt * 2 ^ lhs.toInt.toNat)]) :=
  leaves_integer hstandard hvalues .shiftLeft (if_pos ⟨hcount.1, by omega⟩)

theorem leavesWrapped_shiftRight (hcount : 0 ≤ lhs.toInt ∧ lhs.toInt ≤ 31) :
    machine.LeavesWrapped ">>" below (rhs.toInt % 2 ^ 32 / 2 ^ lhs.toInt.toNat) := by
  have hcells : ((pattern rhs.toInt / 2 ^ lhs.toInt.toNat : Nat) : Int)
      = rhs.toInt % 2 ^ 32 / 2 ^ lhs.toInt.toNat := by
    rw [Int.natCast_div, natCast_pattern, Int.natCast_pow]
    rfl
  rw [← hcells]
  exact leavesWrapped_binary hstandard hvalues .shiftRight (if_pos ⟨hcount.1, by omega⟩)

end Wrapping

section Shifts

variable {features : Dictionary.Features} {machine : Machine ρ} {below : List Cell} {count value : Cell}

/-- A product with a power of two is a shift, on whichever side the power stands. -/
theorem leaves_scaled (hstandard : machine.dictionary = .standard features) {factor : Cell}
    (hfactor : factor.toInt = 2 ^ count.toInt.toNat)
    (hvalues : machine.stack.toList = below ++ [factor, value] ∨
      machine.stack.toList = below ++ [value, factor]) :
    machine.Leaves "*" (below ++ [Int32.ofInt (value.toInt * 2 ^ count.toInt.toNat)]) := by
  rw [← hfactor]
  rcases hvalues with hvalues | hvalues
  · rw [Int.mul_comm]
    exact leaves_integer hstandard hvalues .multiply rfl
  · exact leaves_integer hstandard hvalues .multiply rfl

/-- A shift back restores a value that has lost nothing. -/
theorem leaves_shiftedBack (hstandard : machine.dictionary = .standard features)
    (hcount : 0 ≤ count.toInt ∧ count.toInt ≤ 31)
    (hvalues : machine.stack.toList
      = below ++ [count, Int32.ofInt (value.toInt * 2 ^ count.toInt.toNat)]) :
    machine.Leaves ">>" (below ++ [value]) ↔
      count.toInt = 0 ∨ 0 ≤ value.toInt ∧ value.toInt < 2 ^ (32 - count.toInt.toNat) := by
  have hplaces : count.toInt.toNat ≤ 31 := by omega
  have hzero : count.toInt = 0 ↔ count.toInt.toNat = 0 := by omega
  have hinteger : BinaryOp.integer .shiftRight count.toInt
      (Int32.ofInt (value.toInt * 2 ^ count.toInt.toNat)).toInt
        = .ok (value.toInt % 2 ^ (32 - count.toInt.toNat)) := by
    rw [BinaryOp.integer, if_pos ⟨hcount.1, by omega⟩, BinaryOp.pattern_toInt_ofInt,
      BinaryOp.pattern_mul_div hplaces]
  have hleaves : machine.Leaves ">>" (below ++ [value]) ↔ BinaryOp.apply .shiftRight count _ = _ :=
    leaves_binary_iff hstandard hvalues .shiftRight
  rw [hleaves, BinaryOp.apply_eq_ok_iff, hinteger, hzero, ← BinaryOp.ofInt_emod_eq_iff hplaces]
  simp only [Except.ok.injEq, exists_eq_left']

end Shifts

/-- Arithmetic wraps: on cells it is arithmetic modulo `2 ^ 32`. On a stack with two values on top, `+`,
`-` and `*` never fail and leave the cell that is congruent to the sum, the difference and the product;
the lower value is the subtrahend. `<<` and `>>` reject a count outside of 0 to 31, which leaves the stack
as it was, and otherwise leave the cell that is congruent to the value times a power of two, or to the
quotient of its bits by one. The operators of one value leave the cell that is congruent to what they are
on integers. So `<<` is a product with a power of two as long as a cell holds the power, and `>>` undoes
`<<` just if no bit was lost. -/
theorem arithmetic_wraps {features : Dictionary.Features} {machine : Machine ρ}
    (hstandard : machine.dictionary = .standard features) (below : List Cell) :
    (∀ lhs rhs : Cell, machine.stack.toList = below ++ [lhs, rhs] →
      machine.LeavesWrapped "+" below (lhs.toInt + rhs.toInt) ∧
      machine.LeavesWrapped "-" below (rhs.toInt - lhs.toInt) ∧
      machine.LeavesWrapped "*" below (lhs.toInt * rhs.toInt) ∧
      (∀ command ∈ ["<<", ">>"],
        machine.Rejects command .illegalFunctionCall ↔ ¬(0 ≤ lhs.toInt ∧ lhs.toInt ≤ 31)) ∧
      (0 ≤ lhs.toInt ∧ lhs.toInt ≤ 31 →
        machine.LeavesWrapped "<<" below (rhs.toInt * 2 ^ lhs.toInt.toNat) ∧
        machine.LeavesWrapped ">>" below (rhs.toInt % 2 ^ 32 / 2 ^ lhs.toInt.toNat)) ∧
      (0 ≤ lhs.toInt ∧ lhs.toInt ≤ 30 →
        ∃ value factor : Cell, machine.Leaves "<<" (below ++ [value]) ∧
          factor.toInt = 2 ^ lhs.toInt.toNat ∧
          ∀ (scaled : Machine ρ) (beneath : List Cell),
            scaled.dictionary = .standard features →
            scaled.stack.toList = beneath ++ [factor, rhs] ∨
              scaled.stack.toList = beneath ++ [rhs, factor] →
            scaled.Leaves "*" (beneath ++ [value])) ∧
      (0 ≤ lhs.toInt ∧ lhs.toInt ≤ 31 →
        ∃ value : Cell, machine.Leaves "<<" (below ++ [value]) ∧
          ∀ (shifted : Machine ρ) (beneath : List Cell),
            shifted.dictionary = .standard features →
            shifted.stack.toList = beneath ++ [lhs, value] →
            (shifted.Leaves ">>" (beneath ++ [rhs]) ↔
              lhs.toInt = 0 ∨ 0 ≤ rhs.toInt ∧ rhs.toInt < 2 ^ (32 - lhs.toInt.toNat)))) ∧
      ∀ value : Cell, machine.stack.toList = below ++ [value] →
        machine.LeavesWrapped "negate" below (-value.toInt) ∧
        machine.LeavesWrapped "invert" below (-value.toInt - 1) ∧
        machine.LeavesWrapped "ram+" below (value.toInt + 2 ^ 28) := by
  constructor
  · intro lhs rhs hvalues
    refine ⟨?_, ?_, ?_, ?_, ?_, ?_, ?_⟩
    · exact leavesWrapped_binary hstandard hvalues .add rfl
    · exact leavesWrapped_binary hstandard hvalues .subtract rfl
    · exact leavesWrapped_binary hstandard hvalues .multiply rfl
    · intro command hcommand
      rcases List.mem_pair.mp hcommand with rfl | rfl
      · exact rejects_shift hstandard hvalues (.inl rfl)
      · exact rejects_shift hstandard hvalues (.inr rfl)
    · intro hcount
      exact ⟨leavesWrapped_of_leaves (leaves_shiftLeft hstandard hvalues hcount),
        leavesWrapped_shiftRight hstandard hvalues hcount⟩
    · intro hcount
      refine ⟨_, _, leaves_shiftLeft hstandard hvalues ⟨hcount.1, by omega⟩,
        BinaryOp.toInt_ofInt_two_pow (by omega), fun scaled beneath hscaled hfactors => ?_⟩
      exact leaves_scaled hscaled (BinaryOp.toInt_ofInt_two_pow (by omega)) hfactors
    · intro hcount
      refine ⟨_, leaves_shiftLeft hstandard hvalues hcount, fun shifted beneath hshifted hback => ?_⟩
      exact leaves_shiftedBack hshifted hcount hback
  · intro value hvalues
    exact ⟨leavesWrapped_unary hstandard hvalues .negate,
      leavesWrapped_unary hstandard hvalues .invert,
      leavesWrapped_unary hstandard hvalues .ramPlus⟩

/-- A value of 28 bits is shifted by four places, which makes it negative, and back again. -/
theorem arithmetic_wraps_four_places :
    let machine : Machine QueuedRadio :=
      { stack := ((DataStack.empty.put 4).put 4).put 0x0fffffff, radio := {} }
    let shifted : Machine QueuedRadio :=
      { stack := (DataStack.empty.put 4).put (-16), radio := {} }
    machine.stack.toList = [4] ++ [4, 0x0fffffff] ∧ machine.Leaves "<<" ([4] ++ [-16]) ∧
      shifted.stack.toList = [] ++ [4, -16] ∧ shifted.Leaves ">>" ([] ++ [0x0fffffff]) := by
  intro machine shifted
  have hstandard : machine.dictionary = .standard .standard := rfl
  have hvalues : machine.stack.toList = [4] ++ [4, 0x0fffffff] := by decide
  have hshifted : shifted.stack.toList = [] ++ [4, -16] := by decide
  obtain ⟨-, -, -, -, -, -, hback⟩ := (arithmetic_wraps hstandard [4]).1 4 0x0fffffff hvalues
  obtain ⟨value, hleft, hback⟩ := hback (by decide)
  obtain rfl : value = -16 := by
    have hcell := (leaves_binary_iff hstandard hvalues .shiftLeft).mp hleft
    exact (Except.ok.inj hcell).symm
  exact ⟨hvalues, hleft, hshifted, (hback shifted [] rfl hshifted).mpr (.inr (by decide))⟩

end Machine

end SerialConsole
