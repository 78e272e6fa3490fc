import SerialConsole.Proofs.DataStack

/-!
# The data stack as a bounded list

A stack that is only seen through its requests cannot be told from a plain list of at most
`capacity` values:

* `DataStack.perform` is one request to a stack, `BoundedList.perform` the same request to a list;
  `perform_eq` says that they answer alike and leave the same values;
* `transcript` is everything that is seen of a sequence of requests, and `transcript_eq` follows by
  induction over the sequence;
* `Footprint` says which place of the store a request reads or writes, and that it uses no other.
-/

namespace SerialConsole

/-! ## Requests -/

/-- Something that is asked of a stack. -/
inductive DataStack.Request where
  | push (value : Cell)
  | pop
  | top
  | setTop (value : Cell)
  | peek (n : Nat)
  | require (n : Nat)
  | clear
deriving DecidableEq, Repr

/-- What is answered: a value, nothing, or a fault. -/
abbrev DataStack.Reply := Except Fault (Option Cell)

/-- What can be seen of a stack between two requests. -/
structure DataStack.View where
  depth : Nat
  isEmpty : Bool
  isFull : Bool
  values : List Cell
deriving DecidableEq, Repr

/-! ## Lists of bounded length -/

namespace BoundedList

open DataStack (Request Reply View)

/-- What a request does to a list of at most `capacity` values, the last of which is the top. -/
def perform (capacity : Nat) (values : List Cell) : Request → Reply × List Cell
  | .push value =>
    if values.length = capacity then (.error (Fault.ofKind .stackOverflow), values)
    else (.ok none, values ++ [value])
  | .pop =>
    match values.getLast? with
    | some value => (.ok (some value), values.dropLast)
    | none => (.error (Fault.ofKind .stackUnderflow), values)
  | .top =>
    match values.getLast? with
    | some value => (.ok (some value), values)
    | none => (.error (Fault.ofKind .stackUnderflow), values)
  | .setTop value =>
    if values = [] then (.error (Fault.ofKind .stackUnderflow), values)
    else (.ok none, values.dropLast ++ [value])
  | .peek n =>
    match values.reverse[n]? with
    | some value => (.ok (some value), values)
    | none => (.error (Fault.ofKind .stackUnderflow), values)
  | .require n =>
    if values.length < n then (.error (Fault.ofKind .stackUnderflow), values)
    else (.ok none, values)
  | .clear => (.ok none, [])

/-- A list as it is seen between two requests. -/
def view (capacity : Nat) (values : List Cell) : View where
  depth := values.length
  isEmpty := values.isEmpty
  isFull := values.length = capacity
  values := values

/-- The answers to a sequence of requests, each with what is seen after it. -/
def transcript (capacity : Nat) (values : List Cell) : List Request → List (Reply × View)
  | [] => []
  | request :: rest =>
    let (reply, next) := perform capacity values request
    (reply, view capacity next) :: transcript capacity next rest

/-- A request that fails leaves the list as it is. -/
theorem perform_of_error {capacity : Nat} {values : List Cell} {request : Request} {fault : Fault}
    (h : (perform capacity values request).1 = .error fault) :
    (perform capacity values request).2 = values := by
  cases request with
  | push value =>
    by_cases hfull : values.length = capacity
    · rw [perform, if_pos hfull]
    · rw [perform, if_neg hfull] at h
      cases h
  | pop =>
    cases hlast : values.getLast? with
    | some value =>
      simp only [perform, hlast] at h
      cases h
    | none => simp only [perform, hlast]
  | setTop value =>
    by_cases hnone : values = []
    · rw [perform, if_pos hnone]
    · rw [perform, if_neg hnone] at h
      cases h
  | top =>
    rw [perform]
    split <;> rfl
  | peek n =>
    rw [perform]
    split <;> rfl
  | require n =>
    rw [perform]
    split <;> rfl
  | clear => cases h

end BoundedList

/-! ## Stacks -/

namespace DataStack

variable {capacity : Nat}

/-- One request: the answer and the stack after it. -/
def perform (s : DataStack capacity) : Request → Reply × DataStack capacity
  | .push value =>
    match s.push value with
    | .ok t => (.ok none, t)
    | .error fault => (.error fault, s)
  | .pop =>
    match s.pop with
    | .ok (value, t) => (.ok (some value), t)
    | .error fault => (.error fault, s)
  | .top => (s.top?.map some, s)
  | .setTop value =>
    match s.setTop value with
    | .ok t => (.ok none, t)
    | .error fault => (.error fault, s)
  | .peek n => ((s.peek n).map some, s)
  | .require n => ((s.require n).map fun _ => none, s)
  | .clear => (.ok none, s.clear)

/-- A stack as it is seen between two requests. -/
def view (s : DataStack capacity) : View where
  depth := s.depth
  isEmpty := s.isEmpty
  isFull := s.isFull
  values := s.toList

/-- The answers to a sequence of requests, each with what is seen after it. -/
def transcript (s : DataStack capacity) : List Request → List (Reply × View)
  | [] => []
  | request :: rest =>
    let (reply, next) := s.perform request
    (reply, next.view) :: next.transcript rest

/-- The stack after a sequence of requests. -/
def after (s : DataStack capacity) (requests : List Request) : DataStack capacity :=
  requests.foldl (fun t request => (t.perform request).2) s

theorem view_eq (s : DataStack capacity) : s.view = BoundedList.view capacity s.toList := by
  have hbound := s.depth_le
  have hempty : s.isEmpty = s.toList.isEmpty := by
    rw [isEmpty, ← length_toList]
    cases s.toList <;> rfl
  have hfull : s.isFull = decide (s.toList.length = capacity) := by
    rw [isFull, length_toList]
    apply decide_eq_decide.mpr
    omega
  rw [view, BoundedList.view, hempty, hfull, length_toList]

theorem getLast?_toList {s : DataStack capacity} (h : s.depth ≠ 0) :
    s.toList.getLast? = some s.top := by
  rw [toList_of_depth_ne_zero h, List.getLast?_concat]

/-- A request does to a stack what it does to the list of its values. -/
theorem perform_eq (s : DataStack capacity) (request : Request) :
    ((s.perform request).1, (s.perform request).2.toList)
      = BoundedList.perform capacity s.toList request := by
  have hbound := s.depth_le
  cases request with
  | push value =>
    by_cases hroom : s.depth < capacity
    · have hlength : s.toList.length ≠ capacity := by
        rw [length_toList]
        omega
      simp only [perform, push_eq hroom, toList_put hroom, BoundedList.perform, if_neg hlength]
    · have hlength : s.toList.length = capacity := by
        rw [length_toList]
        omega
      simp only [perform, push_eq_error hroom, BoundedList.perform, if_pos hlength]
  | pop =>
    by_cases hnone : s.depth = 0
    · simp [perform, pop, BoundedList.perform, hnone, toList_of_depth_eq_zero hnone]
    · simp only [perform, pop_eq hnone, toList_discard, BoundedList.perform, getLast?_toList hnone]
  | top =>
    by_cases hnone : s.depth = 0
    · simp [perform, top?, BoundedList.perform, hnone, toList_of_depth_eq_zero hnone, Except.map]
    · simp only [perform, top?, if_neg hnone, Except.map, BoundedList.perform,
        getLast?_toList hnone]
  | setTop value =>
    by_cases hnone : s.depth = 0
    · simp [perform, setTop, BoundedList.perform, hnone, toList_of_depth_eq_zero hnone]
    · have hroom : s.discard.depth < capacity := by
        rw [depth_discard]
        omega
      have hsome : s.toList ≠ [] := by
        intro hnil
        exact hnone (by rw [← length_toList, hnil, List.length_nil])
      simp only [perform, setTop_eq hnone, toList_put hroom, toList_discard, BoundedList.perform,
        if_neg hsome]
  | peek n =>
    simp only [perform, peek_eq, fromTop, BoundedList.perform]
    cases s.toList.reverse[n]? <;> rfl
  | require n =>
    by_cases hthere : n ≤ s.depth
    · have hlength : ¬s.toList.length < n := by
        rw [length_toList]
        omega
      simp only [perform, require, if_pos hthere, Except.map, BoundedList.perform, if_neg hlength]
    · have hlength : s.toList.length < n := by
        rw [length_toList]
        omega
      simp only [perform, require, if_neg hthere, Except.map, BoundedList.perform, if_pos hlength]
  | clear => simp only [perform, toList_clear, BoundedList.perform]

/-- All that is seen of a stack is what would be seen of the list of its values. -/
theorem transcript_eq (s : DataStack capacity) (requests : List Request) :
    s.transcript requests = BoundedList.transcript capacity s.toList requests := by
  induction requests generalizing s with
  | nil => rfl
  | cons request rest ih =>
    have hstep := perform_eq s request
    rw [transcript, BoundedList.transcript, ← hstep]
    simp only [view_eq, ih]

/-! ## The store -/

/-- The place of the store that a request uses, if it uses one. A push moves the old top there, a
pop takes the new top from there, and a peek beneath the top looks there. -/
def place? (s : DataStack capacity) : Request → Option Nat
  | .push _ => if 0 < s.depth ∧ s.depth < capacity then some (s.depth - 1) else none
  | .pop => if 1 < s.depth then some (s.depth - 2) else none
  | .peek n => if 0 < n ∧ n < s.depth then some (s.depth - 1 - n) else none
  | .top | .setTop _ | .require _ | .clear => none

/-- What a request answers, and the depth and top that it leaves, depend on the store at its own
place alone. -/
theorem perform_congr_of_place {s t : DataStack capacity} (hdepth : t.depth = s.depth)
    (htop : t.top = s.top) (request : Request)
    (hplace : ∀ place, s.place? request = some place → t.store[place]? = s.store[place]?) :
    (t.perform request).1 = (s.perform request).1 ∧
      (t.perform request).2.depth = (s.perform request).2.depth ∧
      (t.perform request).2.top = (s.perform request).2.top := by
  obtain ⟨top, store, depth, hbound⟩ := s
  obtain ⟨_, other, _, _⟩ := t
  cases hdepth
  cases htop
  cases request with
  | push value =>
    by_cases hroom : depth < capacity
    · simp [perform, push, hroom]
    · simp [perform, push, hroom]
  | pop =>
    rcases depth with _ | _ | beneath
    · simp [perform, pop]
    · simp [perform, pop]
    · have hsame := hplace beneath (by simp [place?])
      rw [Vector.getElem?_eq_getElem (by omega), Vector.getElem?_eq_getElem (by omega),
        Option.some.injEq] at hsame
      simp [perform, pop, hsame]
  | peek n =>
    by_cases hbeneath : 0 < n ∧ n < depth
    · have hsame := hplace (depth - 1 - n) (by simp [place?, hbeneath])
      rw [Vector.getElem?_eq_getElem (by omega), Vector.getElem?_eq_getElem (by omega),
        Option.some.injEq] at hsame
      simp [perform, peek, hbeneath.2, hsame]
    · have hat : n = 0 ∨ ¬n < depth := by omega
      rcases hat with rfl | hbeyond
      · simp [perform, peek]
      · simp [perform, peek, hbeyond]
  | top => simp [perform, top?]
  | setTop value =>
    by_cases hnone : depth = 0
    · simp [perform, setTop, hnone]
    · simp [perform, setTop, hnone]
  | require n => simp [perform, require]
  | clear => simp [perform, clear]

/-- A request leaves the store as it is, except at its own place. -/
theorem store_perform_of_ne {s : DataStack capacity} {request : Request} {place : Nat}
    (h : s.place? request ≠ some place) :
    (s.perform request).2.store[place]? = s.store[place]? := by
  cases request with
  | push value =>
    by_cases hroom : s.depth < capacity
    · by_cases hnone : 0 < s.depth
      · simp only [place?, hnone, hroom, and_self, if_true, ne_eq, Option.some.injEq] at h
        simp [perform, push, hroom, hnone, Vector.getElem?_set_ne _ h]
      · simp [perform, push, hroom, hnone]
    · simp [perform, push, hroom]
  | pop =>
    by_cases hnone : s.depth = 0
    · simp [perform, pop, hnone]
    · simp [perform, pop, hnone]
  | setTop value =>
    by_cases hnone : s.depth = 0
    · simp [perform, setTop, hnone]
    · simp [perform, setTop, hnone]
  | top => rfl
  | peek n => rfl
  | require n => rfl
  | clear => rfl

theorem place?_lt {s : DataStack capacity} {request : Request} {place : Nat}
    (h : s.place? request = some place) : place < capacity := by
  have hbound := s.depth_le
  cases request with
  | push value | pop | peek n =>
    simp only [place?, Option.ite_none_right_eq_some, Option.some.injEq] at h
    omega
  | top | setTop value | require n | clear => cases h

/-- A request uses the store at a place that is there and nowhere else. -/
structure Footprint (s : DataStack capacity) (request : Request) (place? : Option Nat) : Prop where
  inside : ∀ place, place? = some place → place < capacity
  reads : ∀ t : DataStack capacity, t.depth = s.depth → t.top = s.top →
    (∀ place, place? = some place → t.store[place]? = s.store[place]?) →
    (t.perform request).1 = (s.perform request).1 ∧
      (t.perform request).2.depth = (s.perform request).2.depth ∧
      (t.perform request).2.top = (s.perform request).2.top
  writes : ∀ place, place? ≠ some place → (s.perform request).2.store[place]? = s.store[place]?

theorem footprint (s : DataStack capacity) (request : Request) :
    s.Footprint request (s.place? request) where
  inside _ := place?_lt
  reads _ hdepth htop := perform_congr_of_place hdepth htop request
  writes _ := store_perform_of_ne

/-! ## The stack refines the list -/

/-- Whatever is asked of a new stack of any capacity, all that is seen is what would be seen of a
list of at most so many values. Wherever a sequence of requests leads, a request that fails leaves
the values as they are, a request uses the store only at a place that is there, and what else the
store holds is never seen: any stack with the same values looks the same for ever after. -/
theorem refines_boundedList (capacity : Nat) (requests : List Request) :
    (empty : DataStack capacity).transcript requests
        = BoundedList.transcript capacity [] requests ∧
      let s := (empty : DataStack capacity).after requests
      s.toList.length ≤ capacity ∧
        (∀ request fault, (s.perform request).1 = .error fault →
          (s.perform request).2.toList = s.toList) ∧
        (∀ request, s.Footprint request (s.place? request)) ∧
        ∀ t : DataStack capacity, t.toList = s.toList →
          ∀ more, t.transcript more = s.transcript more := by
  refine ⟨transcript_eq empty requests, ?_⟩
  intro s
  refine ⟨?_, ?_, footprint s, ?_⟩
  · rw [length_toList]
    exact s.depth_le
  · intro request fault hfault
    have hstep := perform_eq s request
    have hfault' : (BoundedList.perform capacity s.toList request).1 = .error fault := by
      rw [← hstep]
      exact hfault
    have hkept := BoundedList.perform_of_error hfault'
    rw [← hstep] at hkept
    exact hkept
  · intro t hvalues more
    rw [transcript_eq, transcript_eq, hvalues]

/-- A stack that was filled and emptied keeps a value in its store that nobody sees. -/
theorem refines_boundedList_leftover :
    let s := (empty : DataStack 2).after [.push 1, .push 2, .pop, .pop]
    s.store.toList = [1, 0] ∧ s.toList = [] ∧
      (s.perform .pop).1 = .error (Fault.ofKind .stackUnderflow) ∧
      (s.perform .pop).2.toList = s.toList ∧
      ∀ more, (empty : DataStack 2).transcript more = s.transcript more := by
  intro s
  have hleft : s.store.toList = [1, 0] := rfl
  have hvalues : s.toList = [] := rfl
  have hfault : (s.perform .pop).1 = .error (Fault.ofKind .stackUnderflow) := rfl
  obtain ⟨-, -, hkept, -, hsame⟩ := refines_boundedList 2 [.push 1, .push 2, .pop, .pop]
  exact ⟨hleft, hvalues, hfault, hkept .pop _ hfault, hsame empty hvalues.symm⟩

end DataStack

end SerialConsole
