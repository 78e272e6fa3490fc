/-!
# Actions that can fail

How a sequence of actions on a state runs once it is known how its first action ends. The state is
kept when an action fails, so a handler goes on from where the failed action stopped. Questions
without a state that are asked in a series stop at the first that has no answer.
-/

namespace SerialConsole.Failing

variable {ε σ α β : Type}

theorem bind_of_ok {action : EStateM ε σ α} {state after : σ} {value : α}
    (h : action state = .ok value after) (next : α → EStateM ε σ β) :
    (action >>= next) state = next value after := by
  simp only [bind, EStateM.bind, h]

theorem bind_of_error {action : EStateM ε σ α} {state after : σ} {failure : ε}
    (h : action state = .error failure after) (next : α → EStateM ε σ β) :
    (action >>= next) state = .error failure after := by
  simp only [bind, EStateM.bind, h]

theorem bind_congr_of_ok {action : EStateM ε σ α} {state after : σ} {value : α}
    (h : action state = .ok value after) {next next' : α → EStateM ε σ β}
    (hnext : next value after = next' value after) :
    (action >>= next) state = (action >>= next') state := by
  rw [bind_of_ok h, bind_of_ok h, hnext]

theorem tryCatch_of_ok {action : EStateM ε σ α} {state after : σ} {value : α}
    (h : action state = .ok value after) (handler : ε → EStateM ε σ α) :
    (tryCatch action handler) state = .ok value after := by
  show EStateM.tryCatch action handler state = _
  delta EStateM.tryCatch
  simp only [h]

theorem tryCatch_of_error {action : EStateM ε σ α} {state after : σ} {failure : ε}
    (h : action state = .error failure after) (handler : ε → EStateM ε σ α) :
    (tryCatch action handler) state = handler failure after := by
  show EStateM.tryCatch action handler state = _
  delta EStateM.tryCatch
  simp only [h]
  rfl

/-- What comes behind an answer has a value only if the answer has one. -/
theorem exists_of_bind_eq_ok {answer : Except ε α} {next : α → Except ε β} {value : β}
    (h : (answer >>= next) = .ok value) : ∃ first, answer = .ok first ∧ next first = .ok value := by
  cases answer with
  | ok first => exact ⟨first, rfl, h⟩
  | error failure => exact nomatch h

/-- What comes behind an answer fails if the answer does, or by itself. -/
theorem bind_eq_error_iff {answer : Except ε α} {next : α → Except ε β} {failure : ε} :
    (answer >>= next) = .error failure ↔
      answer = .error failure ∨ ∃ first, answer = .ok first ∧ next first = .error failure := by
  cases answer <;> simp [bind, Except.bind]

/-- An answer that is only put into another form is given just if the answer is. -/
theorem exists_bind_ok_iff {answer : Except ε α} (form : α → β) :
    (∃ value, (answer >>= fun first => .ok (form first)) = .ok value) ↔
      ∃ first, answer = .ok first := by
  cases answer <;> simp [bind, Except.bind]

theorem bind_ok_eq_error_iff {answer : Except ε α} (form : α → β) {failure : ε} :
    (answer >>= fun first => .ok (form first)) = .error failure ↔ answer = .error failure := by
  rw [bind_eq_error_iff]
  simp

/-- The state that an action leaves, however it ended. -/
def stateAfter : EStateM.Result ε σ α → σ
  | .ok _ state => state
  | .error _ state => state

/-- What an action gave, without the state that it left. -/
def outcome : EStateM.Result ε σ α → Except ε α
  | .ok value _ => .ok value
  | .error failure _ => .error failure

/-- Why an action failed, if it did. -/
def failure? : EStateM.Result ε σ α → Option ε
  | .ok _ _ => none
  | .error failure _ => some failure

/-! ## Series of questions

Questions that are numbered and asked in this order, up to the first that has no answer. -/

section Series

variable {ask : Nat → Except ε α} {count : Nat}

theorem mapM_range_succ (ask : Nat → Except ε α) (count : Nat) :
    (List.range (count + 1)).mapM ask = (do
      let values ← (List.range count).mapM ask
      let value ← ask count
      pure (values ++ [value])) := by
  simp [List.range_succ, List.mapM_append]

/-- If a series is answered, the answers are those of its questions. -/
theorem of_mapM_range_eq_ok {values : List α} (h : (List.range count).mapM ask = .ok values) :
    values.length = count ∧ ∀ i < count, ∃ value, ask i = .ok value ∧ values[i]? = some value := by
  induction count generalizing values with
  | zero =>
    cases h
    simp
  | succ count ih =>
    rw [mapM_range_succ] at h
    obtain ⟨earlier, hearlier, h⟩ := exists_of_bind_eq_ok h
    obtain ⟨last, hlast, h⟩ := exists_of_bind_eq_ok h
    cases h
    obtain ⟨hlength, hanswers⟩ := ih hearlier
    refine ⟨by simp [hlength], fun i hi => ?_⟩
    rcases Nat.lt_succ_iff_lt_or_eq.mp hi with hbefore | rfl
    · obtain ⟨value, hvalue, hplace⟩ := hanswers i hbefore
      exact ⟨value, hvalue, by rw [List.getElem?_append_left (by omega), hplace]⟩
    · exact ⟨last, hlast, by rw [List.getElem?_append_right (by omega), hlength, Nat.sub_self]; rfl⟩

/-- If a series fails, the first question without an answer decides how. -/
theorem exists_of_mapM_range_eq_error {failure : ε}
    (h : (List.range count).mapM ask = .error failure) :
    ∃ i < count, ask i = .error failure ∧ ∀ j < i, ∃ value, ask j = .ok value := by
  induction count with
  | zero => cases h
  | succ count ih =>
    rw [mapM_range_succ, bind_eq_error_iff] at h
    rcases h with hearlier | ⟨earlier, hearlier, h⟩
    · obtain ⟨i, hi, hfirst⟩ := ih hearlier
      exact ⟨i, by omega, hfirst⟩
    · rcases bind_eq_error_iff.mp h with hlast | ⟨last, -, hpure⟩
      · refine ⟨count, by omega, hlast, fun j hj => ?_⟩
        obtain ⟨value, hvalue, -⟩ := (of_mapM_range_eq_ok hearlier).2 j hj
        exact ⟨value, hvalue⟩
      · cases hpure

/-- A series is answered just if each of its questions is. -/
theorem exists_mapM_range_eq_ok_iff :
    (∃ values, (List.range count).mapM ask = .ok values) ↔
      ∀ i < count, ∃ value, ask i = .ok value := by
  constructor
  · rintro ⟨values, h⟩ i hi
    obtain ⟨value, hvalue, -⟩ := (of_mapM_range_eq_ok h).2 i hi
    exact ⟨value, hvalue⟩
  · intro h
    cases hseries : (List.range count).mapM ask with
    | ok values => exact ⟨values, rfl⟩
    | error failure =>
      obtain ⟨i, hi, hfailed, -⟩ := exists_of_mapM_range_eq_error hseries
      obtain ⟨value, hvalue⟩ := h i hi
      cases hfailed.symm.trans hvalue

/-- A series fails as its first question without an answer does. -/
theorem mapM_range_eq_error_iff {failure : ε} :
    (List.range count).mapM ask = .error failure ↔
      ∃ i < count, ask i = .error failure ∧ ∀ j < i, ∃ value, ask j = .ok value := by
  constructor
  · exact exists_of_mapM_range_eq_error
  · rintro ⟨i, hi, hfailed, hbefore⟩
    cases hseries : (List.range count).mapM ask with
    | ok values =>
      obtain ⟨value, hvalue, -⟩ := (of_mapM_range_eq_ok hseries).2 i hi
      cases hfailed.symm.trans hvalue
    | error other =>
      obtain ⟨k, -, hother, hbefore'⟩ := exists_of_mapM_range_eq_error hseries
      -- both are first, so they are the same question
      rcases Nat.lt_trichotomy i k with hlt | rfl | hgt
      · obtain ⟨value, hvalue⟩ := hbefore' i hlt
        cases hfailed.symm.trans hvalue
      · cases hfailed.symm.trans hother
        rfl
      · obtain ⟨value, hvalue⟩ := hbefore k hgt
        cases hother.symm.trans hvalue

/-- A series asks nothing but its questions. -/
theorem mapM_range_congr {other : Nat → Except ε α} (h : ∀ i < count, ask i = other i) :
    (List.range count).mapM ask = (List.range count).mapM other := by
  induction count with
  | zero => rfl
  | succ count ih =>
    rw [mapM_range_succ, mapM_range_succ, ih fun i hi => h i (by omega), h count (by omega)]

end Series

end SerialConsole.Failing
