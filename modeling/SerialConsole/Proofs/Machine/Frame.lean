import SerialConsole.Proofs.Machine.EventLoop
import SerialConsole.Proofs.Machine.Operands

/-!
# Values underneath

Commands count from the top of the stack, so values that lie underneath do not matter to them. Two
machines are compared that agree but for such values (`Machine.Raised`): what one of them decides on,
the other decides on too, and the change that both make keeps them so. `runTokens_frame` is the
consequence for any number of tokens, by an induction over the tokens. The one thing that can come in
between is that the higher stack is full, so the room above the values has to be enough for the
deepest point of the run.
-/

namespace SerialConsole

open Failing

variable {ρ α β : Type}

/-! ## Answers that another answer covers -/

/-- Every value that one answer gives, another gives too. -/
def Grants (answer other : Except Fault α) : Prop :=
  ∀ value, answer = .ok value → other = .ok value

theorem Grants.refl (answer : Except Fault α) : Grants answer answer := fun _ h => h

theorem grants_bind {answer other : Except Fault α} {next : α → Except Fault β}
    {next' : α → Except Fault β} (h : Grants answer other)
    (hnext : ∀ value, Grants (next value) (next' value)) :
    Grants (answer >>= next) (other >>= next') := by
  intro result hresult
  cases hanswer : answer with
  | error fault =>
    rw [hanswer] at hresult
    cases hresult
  | ok value =>
    rw [hanswer] at hresult
    rw [h value hanswer]
    exact hnext value result hresult

/-! ## Machines with values underneath -/

/-- A machine that is another one with values underneath its stack. What was noted may differ, since
notices show the stack. -/
structure Machine.Raised (base : List Cell) (machine high : Machine ρ) : Prop where
  values : high.stack.toList = base ++ machine.stack.toList
  others : high = { machine with stack := high.stack, journal := high.journal }

section Raised

variable {base : List Cell} {machine high : Machine ρ}

theorem Machine.Raised.depth (h : machine.Raised base high) :
    high.stack.depth = base.length + machine.stack.depth := by
  rw [← DataStack.length_toList, h.values, List.length_append, DataStack.length_toList]

/-- A look that finds something on the lower stack finds the same on the higher one. -/
theorem Machine.Raised.grants_peek (h : machine.Raised base high) (n : Nat) :
    Grants (machine.stack.peek n) (high.stack.peek n) := by
  intro value hvalue
  have hn : n < machine.stack.fromTop.length := by
    rw [DataStack.length_fromTop]
    exact DataStack.lt_depth_of_peek hvalue
  have hfromTop : high.stack.fromTop = machine.stack.fromTop ++ base.reverse := by
    rw [DataStack.fromTop, h.values, List.reverse_append]
    rfl
  rw [DataStack.peek_eq] at hvalue ⊢
  rwa [hfromTop, List.getElem?_append_left hn]

/-- What a command decides on with the lower stack, it decides on with the higher one. -/
theorem Builtin.grants_effect (h : machine.Raised base high) (command : Builtin) :
    Grants (command.effect machine) (command.effect high) := by
  have hdictionary : high.dictionary = machine.dictionary := by rw [h.others]
  have hmemory : high.memory = machine.memory := by rw [h.others]
  have hrom : high.rom = machine.rom := by rw [h.others]
  have hpeek := h.grants_peek
  cases command with
  | newline => exact Grants.refl _
  | words =>
    simp only [Builtin.effect, hdictionary]
    exact Grants.refl _
  | unary op => exact grants_bind (hpeek 0) fun _ => Grants.refl _
  | binary op =>
    exact grants_bind (hpeek 0) fun _ => grants_bind (hpeek 1) fun _ => Grants.refl _
  | dump =>
    simp only [Builtin.effect, hmemory]
    exact grants_bind (hpeek 0) fun _ => grants_bind (hpeek 1) fun _ => Grants.refl _
  | radioInit =>
    refine grants_bind (hpeek 0) fun _ => grants_bind (Grants.refl _) fun _ => ?_
    refine grants_bind (hpeek 1) fun _ => grants_bind (Grants.refl _) fun _ => ?_
    exact grants_bind (hpeek 2) fun _ => Grants.refl _
  | radioPower => exact grants_bind (hpeek 0) fun _ => Grants.refl _
  | romFetch =>
    simp only [Builtin.effect, hrom]
    exact grants_bind (hpeek 0) fun _ => Grants.refl _
  | romStore =>
    simp only [Builtin.effect, hrom]
    refine grants_bind (hpeek 0) fun _ => grants_bind (Grants.refl _) fun _ => ?_
    exact grants_bind (hpeek 1) fun _ => Grants.refl _

theorem grants_mapError {answer other : Except Fault α} (h : Grants answer other)
    (rename : Fault → Fault) : Grants (answer.mapError rename) (other.mapError rename) := by
  intro value hvalue
  cases hanswer : answer with
  | error fault =>
    rw [hanswer] at hvalue
    cases hvalue
  | ok given =>
    rw [hanswer] at hvalue
    rw [h given hanswer]
    exact hvalue

/-- What a token decides on with the lower stack, it decides on with the higher one, as long as the
higher one has room for what the token leaves. -/
theorem Token.grants_effect (h : machine.Raised base high) (token : Token)
    (hroom : (base.length + machine.stack.depth : Int) + token.growth ≤ DataStack.deviceCapacity) :
    Grants (token.effect machine) (token.effect high) := by
  have hdepth := h.depth
  cases token with
  | literal value =>
    have hfree : high.stack.depth < DataStack.deviceCapacity := by
      have hone : (literal value).growth = 1 := rfl
      omega
    intro effect hdecided
    rw [Token.effect, if_pos hfree]
    rwa [Token.effect, if_pos (by omega)] at hdecided
  | word name =>
    have hdictionary : high.dictionary = machine.dictionary := by rw [h.others]
    simp only [Token.effect, hdictionary]
    cases machine.dictionary.find? name with
    | none => exact Grants.refl _
    | some entry =>
      apply grants_mapError
      unfold Entry.effect
      refine grants_bind ?_ fun _ => ?_
      · intro _ henough
        unfold DataStack.require at henough ⊢
        split at henough
        case isFalse => cases henough
        case isTrue hthere => exact if_pos (by omega)
      · cases entry.action with
        | builtin command => exact command.grants_effect h
        | procedure steps => exact Grants.refl _

/-- The same effect keeps the values underneath, if it takes no more than the lower stack has and the
higher one has room for what it leaves. -/
theorem Machine.Raised.on [Radio ρ] (h : machine.Raised base high) {effect : Effect} {arity : Nat}
    {growth : Int} (hfits : effect.Fits machine.stack arity growth)
    (hroom : (base.length + machine.stack.depth : Int) + growth ≤ DataStack.deviceCapacity) :
    (effect.on machine).Raised base (effect.on high) where
  values := by
    have hdepth := h.depth
    have hthere := hfits.there
    have hgrows := hfits.grows
    have hhigh : effect.left? = none ∨ high.stack.depth - arity < DataStack.deviceCapacity := by
      cases hleft : effect.left? with
      | none => exact .inl rfl
      | some value =>
        have hone : effect.left?.toList.length = 1 := by rw [hleft]; rfl
        exact .inr (by omega)
    have hsplit : high.stack.depth - arity = base.length + (machine.stack.depth - arity) := by omega
    show (high.stack.replace effect.taken effect.left?).toList
      = base ++ (machine.stack.replace effect.taken effect.left?).toList
    rw [hfits.taken, DataStack.toList_replace _ _ _ hhigh, DataStack.toList_replace _ _ _ hfits.room,
      h.values, hsplit, List.take_length_add_append, List.append_assoc]
  others := by
    rw [h.others]
    simp only [Effect.on]

end Raised

/-! ## Whole runs -/

namespace Machine

variable [Radio ρ]

/-- The depth of the stack at the deepest point of a run. -/
def peakDepth (machine : Machine ρ) : List Token → Nat
  | [] => machine.stack.depth
  | token :: rest =>
    match MachineM.run token machine with
    | .ok _ next => max machine.stack.depth (next.peakDepth rest)
    | .error _ _ => machine.stack.depth

theorem depth_le_peakDepth (machine : Machine ρ) (tokens : List Token) :
    machine.stack.depth ≤ machine.peakDepth tokens := by
  cases tokens with
  | nil => exact Nat.le_refl _
  | cons token rest =>
    unfold peakDepth
    split
    · exact Nat.le_max_left _ _
    · exact Nat.le_refl _

theorem peakDepth_cons_of_ok {machine next : Machine ρ} {token : Token}
    (h : MachineM.run token machine = .ok () next) (rest : List Token) :
    machine.peakDepth (token :: rest) = max machine.stack.depth (next.peakDepth rest) := by
  rw [peakDepth, h]

variable {features : Dictionary.Features} {base : List Cell}

/-- A token that does not fail does the same with values underneath. -/
theorem Raised.run {machine high next : Machine ρ} (h : machine.Raised base high)
    (hstandard : machine.dictionary = .standard features) {token : Token}
    (hrun : MachineM.run token machine = .ok () next)
    (hroom : base.length + next.stack.depth ≤ DataStack.deviceCapacity) :
    ∃ next', MachineM.run token high = .ok () next' ∧ next.Raised base next' ∧
      next'.printedSince high = next.printedSince machine := by
  have hnative : machine.dictionary.Native := hstandard ▸ Dictionary.native_standard features
  have hdictionary : high.dictionary = machine.dictionary := by rw [h.others]
  have hnative' : high.dictionary.Native := hdictionary ▸ hnative
  have hgrowth := (MachineM.stack_of_run hstandard hrun).1
  rcases MachineM.run_cases hnative token with ⟨effect, journal, hdecided, hlow⟩ | ⟨_, _, -, hlow⟩
  · rw [hlow] at hrun
    cases hrun
    have hdoes := MachineM.run_does hnative' token
    rw [Token.grants_effect h token (by omega) effect hdecided] at hdoes
    obtain ⟨journal', hhigh⟩ := hdoes
    have hon := h.on (Token.fits hstandard hdecided) (by omega)
    have hothers : ({ effect.on high with journal := journal' } : Machine ρ)
        = { effect.on machine with stack := (effect.on high).stack, journal := journal' } := by
      rw [hon.others]
    exact ⟨_, hhigh, ⟨hon.values, hothers⟩, by rw [printedSince_eq rfl, printedSince_eq rfl]⟩
  · rw [hlow] at hrun
    cases hrun

/-- Tokens that run to their end do the same with values underneath, if the room above these is
enough for the deepest point of the run. -/
theorem Raised.runTokens (tokens : List Token) {machine high : Machine ρ}
    (h : machine.Raised base high) (hstandard : machine.dictionary = .standard features)
    (hok : (machine.runTokens tokens).fault? = none)
    (hroom : base.length + machine.peakDepth tokens ≤ DataStack.deviceCapacity) :
    (high.runTokens tokens).fault? = none ∧
      (high.runTokens tokens).texts = (machine.runTokens tokens).texts ∧
      (machine.runTokens tokens).machine.Raised base (high.runTokens tokens).machine := by
  induction tokens generalizing machine high with
  | nil => exact ⟨rfl, rfl, h⟩
  | cons token rest ih =>
    cases hrun : MachineM.run token machine with
    | error fault after =>
      rw [runTokens_cons_of_error hrun] at hok
      cases hok
    | ok _ next =>
      rw [runTokens_cons_of_ok hrun] at hok ⊢
      rw [peakDepth_cons_of_ok hrun] at hroom
      -- the next stack is part of the run, so there is room for it too
      have hnext := next.depth_le_peakDepth rest
      obtain ⟨next', hrun', hraised, hprinted⟩ := h.run hstandard hrun (by omega)
      have hnative : machine.dictionary.Native := hstandard ▸ Dictionary.native_standard features
      have hstandard' : next.dictionary = .standard features :=
        (MachineM.dictionary_of_run hnative hrun).trans hstandard
      obtain ⟨hok', htexts, hlast⟩ := ih hraised hstandard' hok (by omega)
      rw [runTokens_cons_of_ok hrun']
      exact ⟨hok', by rw [hprinted, htexts], hlast⟩

/-- The event loop over a queue of tokens shows the events of running them one by one. -/
theorem drain_eq_events {machine : Machine ρ} (hnative : machine.dictionary.Native)
    (tokens : List Token) :
    { machine with pending := tokens, printed := "" }.drain.1
      = (machine.runTokens tokens).events := by
  obtain ⟨noted, hdrain⟩ := drainWithin_eq tokens machine hnative machine.journal
  rw [drain, hdrain _ (by show tokens.length < Limits.device.input + tokens.length + 2; omega)]

/-- What lies underneath does not matter. Take tokens that run to their end from some stack, and put
values underneath that stack such that the deepest point of the run still fits. Then the tokens run
to their end again, print the same and show the same events, and leave the machine as before: the
same radio, node, slots and files, and the same stack on top of the values. -/
theorem runTokens_frame {machine : Machine ρ} (hstandard : machine.dictionary = .standard features)
    {tokens : List Token} (hok : (machine.runTokens tokens).fault? = none)
    (hroom : base.length + machine.peakDepth tokens ≤ DataStack.deviceCapacity)
    {stack : DataStack DataStack.deviceCapacity}
    (hstack : stack.toList = base ++ machine.stack.toList) :
    let low := machine.runTokens tokens
    let high := { machine with stack }.runTokens tokens
    high.fault? = none ∧ high.texts = low.texts ∧
      { machine with stack, pending := tokens, printed := "" }.drain.1
        = { machine with pending := tokens, printed := "" }.drain.1 ∧
      high.machine
        = { low.machine with stack := high.machine.stack, journal := high.machine.journal } ∧
      high.machine.stack.toList = base ++ low.machine.stack.toList := by
  intro low high
  have hnative : machine.dictionary.Native := hstandard ▸ Dictionary.native_standard features
  have hraised : machine.Raised base { machine with stack } := ⟨hstack, rfl⟩
  obtain ⟨hok', htexts, hlast⟩ := hraised.runTokens tokens hstandard hok hroom
  have hevents : high.events = low.events := by
    rw [Outcome.events, Outcome.events, htexts, hok', hok]
  refine ⟨hok', htexts, ?_, hlast.others, hlast.values⟩
  have hnative' : ({ machine with stack } : Machine ρ).dictionary.Native := hnative
  rw [drain_eq_events hnative, ← hevents]
  exact drain_eq_events hnative' tokens

/-- A sum is stored, shown and kept with two values underneath as it is without them. -/
theorem runTokens_frame_store :
    let machine : Machine QueuedRadio := { radio := {} }
    let tokens := Token.ofLine "3 4 + 9 rom! words 9 rom@"
    let stack := (DataStack.empty.put 1).put 2
    let low := machine.runTokens tokens
    let high := { machine with stack }.runTokens tokens
    low.fault? = none ∧ machine.peakDepth tokens = 2 ∧ stack.toList = [1, 2] ∧
      high.fault? = none ∧ high.texts = low.texts ∧
      high.machine
        = { low.machine with stack := high.machine.stack, journal := high.machine.journal } ∧
      high.machine.stack.toList = [1, 2] ++ low.machine.stack.toList := by
  intro machine tokens stack low high
  have hok : low.fault? = none := by decide +kernel
  have hpeak : machine.peakDepth tokens = 2 := by decide +kernel
  have hstack : stack.toList = [1, 2] ++ machine.stack.toList := by decide +kernel
  have hstandard : machine.dictionary = .standard .standard := rfl
  have hroom : [1, 2].length + machine.peakDepth tokens ≤ DataStack.deviceCapacity := by
    rw [hpeak]
    decide
  obtain ⟨hok', htexts, -, hothers, hvalues⟩ := runTokens_frame hstandard hok hroom hstack
  exact ⟨hok, hpeak, hstack, hok', htexts, hothers, hvalues⟩

end Machine

end SerialConsole
