import SerialConsole.DataStack

/-!
# The data stack through its view

What commands do to a stack, in terms of the list of its values:

* `peek_eq` and its relatives: every look at a stack is a look at `toList`, so two stacks with the
  same values answer alike whatever their stores hold beyond them;
* `discard` and `put`, a pop and a push that cannot fail, with the equations that turn the failing
  operations into them once the depth is known;
* `replace`, the one change of the stack that a command makes: some values are taken off and at
  most one is left in their place.
-/

namespace SerialConsole.DataStack

variable {capacity : Nat}

/-! ## Looking -/

/-- The values from the top to the bottom. -/
def fromTop (s : DataStack capacity) : List Cell := s.toList.reverse

@[simp] theorem length_fromTop (s : DataStack capacity) : s.fromTop.length = s.depth := by
  simp [fromTop]

/-- A stack that reaches so deep has that many values above the others. -/
theorem exists_fromTop {s : DataStack capacity} {n : Nat} (h : n ≤ s.depth) :
    ∃ values below, values.length = n ∧ s.fromTop = values ++ below := by
  refine ⟨s.fromTop.take n, s.fromTop.drop n, ?_, (List.take_append_drop n _).symm⟩
  rw [List.length_take, length_fromTop]
  omega

theorem le_depth_of_fromTop {s : DataStack capacity} (values : List Cell) {below : List Cell}
    (h : s.fromTop = values ++ below) : values.length ≤ s.depth := by
  rw [← length_fromTop, h, List.length_append]
  omega

/-- A value that is there, or the fault of a stack that does not reach so deep. -/
def orUnderflow : Option Cell → Except Fault Cell
  | some value => .ok value
  | none => .error (Fault.ofKind .stackUnderflow)

/-- A peek finds the value at its place from the top. -/
theorem peek_eq (s : DataStack capacity) (n : Nat) : s.peek n = orUnderflow s.fromTop[n]? := by
  have hbound := s.depth_le
  by_cases hn : n < s.depth
  · have hsome : s.depth ≠ 0 := by omega
    have hview := toList_of_depth_ne_zero hsome
    have hat : s.fromTop[n]? = s.toList[s.depth - 1 - n]? := by
      rw [fromTop, List.getElem?_reverse (by simpa using hn), length_toList]
    rw [hat, hview]
    by_cases htop : n = 0
    · subst htop
      have hlen : (s.store.toList.take (s.depth - 1)).length = s.depth - 1 := by
        rw [List.length_take, Vector.length_toList]
        omega
      rw [List.getElem?_append_right (by omega), hlen]
      simp [peek, hn, orUnderflow]
    · -- beneath the top the used part of the store answers
      rw [List.getElem?_append_left (by simp; omega), List.getElem?_take_of_lt (by omega),
        List.getElem?_eq_getElem (by simp; omega)]
      simp [peek, hn, htop, orUnderflow]
  · rw [List.getElem?_eq_none (by simpa using hn)]
    simp [peek, hn, orUnderflow]

theorem peek_of_fromTop {s : DataStack capacity} {values : List Cell} (h : s.fromTop = values)
    {n : Nat} {value : Cell} (hvalue : values[n]? = some value) : s.peek n = .ok value := by
  rw [peek_eq, h, hvalue]
  rfl

theorem top?_eq (s : DataStack capacity) : s.top? = s.peek 0 := by
  by_cases h : s.depth = 0
  · simp [top?, peek, h]
  · simp [top?, peek, h, Nat.pos_of_ne_zero h]

/-- A peek that finds something looks at a stack that reaches so deep. -/
theorem lt_depth_of_peek {s : DataStack capacity} {n : Nat} {value : Cell}
    (h : s.peek n = .ok value) : n < s.depth := by
  unfold peek at h
  split at h
  · assumption
  · cases h

theorem depth_congr {s t : DataStack capacity} (h : s.toList = t.toList) : s.depth = t.depth := by
  rw [← length_toList s, h, length_toList]

/-- Stacks with the same values look the same. -/
theorem peek_congr {s t : DataStack capacity} (h : s.toList = t.toList) (n : Nat) :
    s.peek n = t.peek n := by
  rw [peek_eq, peek_eq, fromTop, fromTop, h]

/-! ## Changes that cannot fail -/

/-- The stack without its top value; an empty stack stays as it is. -/
def discard (s : DataStack capacity) : DataStack capacity :=
  match s.pop with
  | .ok (_, t) => t
  | .error _ => s

/-- The stack with a value on top; a full stack stays as it is. -/
def put (s : DataStack capacity) (value : Cell) : DataStack capacity :=
  match s.push value with
  | .ok t => t
  | .error _ => s

theorem pop_eq {s : DataStack capacity} (h : s.depth ≠ 0) : s.pop = .ok (s.top, s.discard) := by
  simp [discard, pop, h]

theorem push_eq {s : DataStack capacity} (h : s.depth < capacity) (value : Cell) :
    s.push value = .ok (s.put value) := by
  simp [put, push, h]

theorem push_eq_error {s : DataStack capacity} (h : ¬s.depth < capacity) (value : Cell) :
    s.push value = .error (Fault.ofKind .stackOverflow) := by
  simp [push, h]

@[simp] theorem toList_discard (s : DataStack capacity) : s.discard.toList = s.toList.dropLast := by
  by_cases h : s.depth = 0
  · rw [toList_of_depth_eq_zero h]
    simp [discard, pop, h, toList_of_depth_eq_zero h]
  · rw [toList_of_pop (pop_eq h), List.dropLast_concat]

@[simp] theorem depth_discard (s : DataStack capacity) : s.discard.depth = s.depth - 1 := by
  rw [← length_toList, toList_discard, List.length_dropLast, length_toList]

theorem toList_put {s : DataStack capacity} (h : s.depth < capacity) (value : Cell) :
    (s.put value).toList = s.toList ++ [value] :=
  toList_of_push (push_eq h value)

/-- To overwrite the top is to take it off and put the new value in its place: the value beneath
moves out of the store and back to where it stood. -/
theorem setTop_eq {s : DataStack capacity} (h : s.depth ≠ 0) (value : Cell) :
    s.setTop value = .ok (s.discard.put value) := by
  obtain ⟨top, store, depth, hdepth⟩ := s
  -- a single value has nothing beneath it in the store, so it is a case of its own
  rcases depth with _ | _ | beneath
  · exact absurd rfl h
  · have hroom : 0 < capacity := hdepth
    simp [setTop, discard, pop, put, push, hroom]
  · have hroom : beneath + 1 < capacity := hdepth
    simp [setTop, discard, pop, put, push, hroom]

/-! ## Replacing -/

/-- The stack without its `count` top values. -/
@[simp] def drop : Nat → DataStack capacity → DataStack capacity
  | 0, s => s
  | count + 1, s => drop count s.discard

/-- The stack with its `count` top values taken off and at most one value left in their place. -/
@[simp] def replace (s : DataStack capacity) (count : Nat) (left? : Option Cell) : DataStack capacity :=
  match left? with
  | none => s.drop count
  | some value => (s.drop count).put value

theorem toList_drop (count : Nat) (s : DataStack capacity) :
    (s.drop count).toList = s.toList.take (s.depth - count) := by
  induction count generalizing s with
  | zero => rw [drop, Nat.sub_zero, List.take_of_length_le (by simp)]
  | succ count ih =>
    rw [drop, ih, toList_discard, depth_discard, List.dropLast_eq_take, length_toList,
      List.take_take]
    congr 1
    omega

@[simp] theorem depth_drop (count : Nat) (s : DataStack capacity) :
    (s.drop count).depth = s.depth - count := by
  rw [← length_toList, toList_drop, List.length_take, length_toList]
  omega

/-- The values beneath those that were taken stay, and what is left stands on them. The room is
there whenever something was taken. -/
theorem toList_replace (s : DataStack capacity) (count : Nat) (left? : Option Cell)
    (h : left? = none ∨ s.depth - count < capacity) :
    (s.replace count left?).toList = s.toList.take (s.depth - count) ++ left?.toList := by
  cases left? with
  | none => simp [replace, toList_drop]
  | some value =>
    have hroom : (s.drop count).depth < capacity := by simpa using h
    simp [replace, toList_put hroom, toList_drop]

/-- One value takes the place of the topmost ones. There is room for it if at least one of them is taken
off. -/
theorem toList_replace_of_append {s : DataStack capacity} {below gone : List Cell}
    (h : s.toList = below ++ gone) (hroom : gone ≠ [] ∨ s.depth < capacity) (value : Cell) :
    (s.replace gone.length (some value)).toList = below ++ [value] := by
  have hbound := s.depth_le
  have hlength : s.depth = below.length + gone.length := by
    rw [← length_toList, h, List.length_append]
  have hdepth : s.depth - gone.length = below.length := by omega
  have hbelow : below.length < capacity := by
    rcases hroom with hsome | hroom
    · have hpos := List.length_pos_iff.mpr hsome
      omega
    · omega
  rw [toList_replace _ _ _ (.inr (by omega)), hdepth, h, List.take_left]
  rfl

/-- A replacement from the top: what is left, and then what was beneath the values that were taken. -/
theorem fromTop_replace (s : DataStack capacity) (count : Nat) (left? : Option Cell)
    (h : left? = none ∨ s.depth - count < capacity) :
    (s.replace count left?).fromTop = left?.toList ++ s.fromTop.drop count := by
  have hkept : (s.toList.take (s.depth - count)).reverse = s.fromTop.drop count := by
    rw [List.reverse_take, length_toList, ← fromTop]
    rcases Nat.le_total count s.depth with hle | hge
    · rw [Nat.sub_sub_self hle]
    · rw [List.drop_of_length_le (by simp; omega), List.drop_of_length_le (by simpa using hge)]
  rw [fromTop, toList_replace s count left? h, List.reverse_append, hkept]
  cases left? <;> rfl

/-- Stacks with the same values have the same values after the same replacement. -/
theorem toList_replace_congr {s t : DataStack capacity} (h : s.toList = t.toList) (count : Nat)
    (left? : Option Cell) : (s.replace count left?).toList = (t.replace count left?).toList := by
  have hdepth := depth_congr h
  cases left? with
  | none => simp [replace, toList_drop, h, hdepth]
  | some value =>
    by_cases hroom : s.depth - count < capacity
    · rw [toList_replace s count _ (.inr hroom), toList_replace t count _ (.inr (hdepth ▸ hroom)),
        h, hdepth]
    · -- what is put on a full stack is lost, on either side
      have hfull : ∀ u : DataStack capacity, ¬u.depth < capacity → u.put value = u := fun u hu => by
        simp [put, push_eq_error hu]
      rw [replace, replace, hfull _ (by simpa using hroom), hfull _ (by simpa [← hdepth] using hroom),
        toList_drop, toList_drop, h, hdepth]

end SerialConsole.DataStack
