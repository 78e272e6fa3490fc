import SerialConsole.Cell
import SerialConsole.Fault
import SerialConsole.Text.Numeral

/-!
# The data stack

A bounded stack of cells with its top in a register. The values beneath the top stand in a fixed
backing store, so a stack of depth `d` uses the first `d - 1` places of the store; what the other
places hold is left over from earlier and belongs to nobody. `DataStack.toList` is the view: the
values from the bottom to the top.
-/

namespace SerialConsole

/-- A stack of at most `capacity` cells. -/
structure DataStack (capacity : Nat) where
  top : Cell
  store : Vector Cell capacity
  depth : Nat
  depth_le : depth ≤ capacity

namespace DataStack

variable {capacity : Nat}

/-- The depth of the device's stack. -/
def deviceCapacity : Nat := 32

/-- The stack without values. -/
def empty : DataStack capacity where
  top := 0
  store := Vector.replicate capacity 0
  depth := 0
  depth_le := Nat.zero_le _

/-- The values from the bottom to the top. -/
def toList (s : DataStack capacity) : List Cell :=
  s.store.toList.take (s.depth - 1) ++ if s.depth = 0 then [] else [s.top]

/-- Whether there are no values. -/
def isEmpty (s : DataStack capacity) : Bool := s.depth == 0

/-- Whether no further value fits. -/
def isFull (s : DataStack capacity) : Bool := capacity ≤ s.depth

/-- Drops every value; the store keeps what it holds. -/
def clear (s : DataStack capacity) : DataStack capacity :=
  { s with top := 0, depth := 0, depth_le := Nat.zero_le _ }

/-- Puts a value on top. The old top moves into the store. -/
def push (s : DataStack capacity) (value : Cell) : Except Fault (DataStack capacity) :=
  if h : s.depth < capacity then
    .ok {
      top := value
      store := if 0 < s.depth then s.store.set (s.depth - 1) s.top (by omega) else s.store
      depth := s.depth + 1
      depth_le := h }
  else .error (Fault.ofKind .stackOverflow)

/-- Takes the top value off. The value beneath it moves out of the store. -/
def pop (s : DataStack capacity) : Except Fault (Cell × DataStack capacity) :=
  have bound := s.depth_le
  if h : s.depth = 0 then .error (Fault.ofKind .stackUnderflow)
  else
    .ok (s.top, {
      s with
      top := if h₁ : s.depth = 1 then 0 else s.store[s.depth - 2]
      depth := s.depth - 1
      depth_le := by omega })

/-- The top value. -/
def top? (s : DataStack capacity) : Except Fault Cell :=
  if s.depth = 0 then .error (Fault.ofKind .stackUnderflow) else .ok s.top

/-- Overwrites the top value. -/
def setTop (s : DataStack capacity) (value : Cell) : Except Fault (DataStack capacity) :=
  if s.depth = 0 then .error (Fault.ofKind .stackUnderflow) else .ok { s with top := value }

/-- The value `n` places beneath the top; the top itself is at 0. -/
def peek (s : DataStack capacity) (n : Nat) : Except Fault Cell :=
  have bound := s.depth_le
  if h : n < s.depth then
    if n = 0 then .ok s.top else .ok s.store[s.depth - 1 - n]
  else .error (Fault.ofKind .stackUnderflow)

/-- Fails unless there are at least `n` values. -/
def require (s : DataStack capacity) (n : Nat) : Except Fault Unit :=
  if n ≤ s.depth then .ok () else .error (Fault.ofKind .stackUnderflow)

/-- The text of a stack: its values from the bottom to the top, in brackets. -/
def text (s : DataStack capacity) : String :=
  "[" ++ ", ".intercalate (s.toList.map fun v => Text.signed v.toInt) ++ "]"

/-! ## The operations through the view -/

@[simp] theorem length_toList (s : DataStack capacity) : s.toList.length = s.depth := by
  have bound := s.depth_le
  unfold toList
  by_cases h : s.depth = 0
  · simp [h]
  · simp only [h, if_false, List.length_append, List.length_take, Vector.length_toList,
      List.length_singleton]
    omega

@[simp] theorem toList_clear (s : DataStack capacity) : s.clear.toList = [] := by
  simp [clear, toList]

theorem toList_of_depth_eq_zero {s : DataStack capacity} (h : s.depth = 0) : s.toList = [] := by
  simp [toList, h]

/-- A stack with a value shows the used part of its store and then its top. -/
theorem toList_of_depth_ne_zero {s : DataStack capacity} (h : s.depth ≠ 0) :
    s.toList = s.store.toList.take (s.depth - 1) ++ [s.top] := by
  simp [toList, h]

/-- A pushed value stands behind the others. -/
theorem toList_of_push {s t : DataStack capacity} {value : Cell} (h : s.push value = .ok t) :
    t.toList = s.toList ++ [value] := by
  unfold push at h
  split at h
  case isFalse => cases h
  case isTrue room =>
    cases h
    by_cases none_yet : s.depth = 0
    · simp [toList, none_yet]
    · -- the old top lands on the first free place of the store
      obtain ⟨beneath, depth_eq⟩ := Nat.exists_eq_succ_of_ne_zero none_yet
      rw [toList_of_depth_ne_zero none_yet, toList_of_depth_ne_zero (Nat.succ_ne_zero _)]
      simp only [depth_eq, Nat.succ_eq_add_one, Nat.add_sub_cancel, Nat.succ_pos, if_true,
        Vector.toList_set]
      rw [List.take_succ_eq_append_getElem (by simp; omega), List.getElem_set_self,
        List.take_set_of_le (Nat.le_refl _)]

/-- A popped value was the last one, and the others stay. -/
theorem toList_of_pop {s t : DataStack capacity} {value : Cell} (h : s.pop = .ok (value, t)) :
    s.toList = t.toList ++ [value] := by
  have bound := s.depth_le
  unfold pop at h
  split at h
  case isTrue => cases h
  case isFalse some_left =>
    cases h
    rw [toList_of_depth_ne_zero some_left]
    by_cases last : s.depth = 1
    · simp [toList, last]
    · -- the new top comes from the last used place of the store
      obtain ⟨beneath, depth_eq⟩ : ∃ beneath, s.depth = beneath + 2 := ⟨s.depth - 2, by omega⟩
      rw [toList_of_depth_ne_zero (by simp only; omega)]
      simp only [depth_eq, Nat.add_sub_cancel, dif_neg (show ¬beneath + 2 = 1 by omega),
        show beneath + 2 - 1 = beneath + 1 from rfl]
      rw [List.take_succ_eq_append_getElem (by simp; omega), Vector.getElem_toList]

end DataStack

end SerialConsole
