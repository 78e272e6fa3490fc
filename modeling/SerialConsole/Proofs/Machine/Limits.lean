import SerialConsole.Proofs.Machine.Output

/-!
# Limits that are not reached

A machine gives up a line that nests its procedures too deep or queues too much input, so that every
request is answered. Nothing else depends on where these limits are set.

* `Action.fits` says whether all procedures that come to wait for one another find room; it follows
  the calls of each procedure. `Action.runWithin_of_fits` says that more room changes nothing then.
* `Machine.attend_of_roomier` says so for any sequence of requests: as long as every token finds room
  and no line is given up for its input, the account is the same under all roomier limits.
* `Machine.attend_of_native` needs no such condition: the console's own commands neither nest nor
  queue input, so a machine without procedures gives the same account under all limits.
-/

namespace SerialConsole

open Failing

variable {ρ : Type}

/-! ## Procedures -/

/-- The commands that a procedure calls, each with the machine that it is called on, given how to run
a command by name. -/
def Procedure.calls (call : String → MachineM ρ Unit) :
    Procedure → Machine ρ → List (String × Machine ρ)
  | done, _ => []
  | fail _, _ => []
  | print text next, machine => next.calls call (machine.print text)
  | push value next, machine =>
    let result := MachineM.push value machine
    (next (outcome result)).calls call (stateAfter result)
  | pop next, machine =>
    let result := MachineM.pop machine
    (next (outcome result)).calls call (stateAfter result)
  | inspect next, machine => (next machine.stack.toList).calls call machine
  | Procedure.call name next, machine =>
    let result := call name machine
    (name, machine) :: (next (outcome result)).calls call (stateAfter result)
  | enter line next, machine => next.calls call (machine.enter line)
  | clear next, machine => next.calls call machine.clear

/-- How commands are run matters to a procedure only where it calls one. -/
theorem Procedure.run_congr {call call' : String → MachineM ρ Unit} (procedure : Procedure)
    (machine : Machine ρ)
    (h : ∀ called ∈ procedure.calls call machine, call' called.1 called.2 = call called.1 called.2) :
    procedure.run call' machine = procedure.run call machine := by
  induction procedure generalizing machine with
  | done => rfl
  | fail fault => rfl
  | print text next ih => exact bind_congr_of_ok (MachineM.print_eq text machine) (ih _ h)
  | push value next ih => exact bind_congr_of_ok (MachineM.attempt_eq _ machine) (ih _ _ h)
  | pop next ih => exact bind_congr_of_ok (MachineM.attempt_eq _ machine) (ih _ _ h)
  | inspect next ih => exact bind_congr_of_ok (MachineM.get_eq machine) (ih _ _ h)
  | call name next ih =>
    obtain ⟨hhere, hlater⟩ := List.forall_mem_cons.mp h
    rw [Procedure.run, Procedure.run, bind_of_ok (MachineM.attempt_eq _ machine),
      bind_of_ok (MachineM.attempt_eq _ machine), hhere]
    exact ih _ _ hlater
  | enter line next ih => exact bind_congr_of_ok (MachineM.modify_eq _ machine) (ih _ h)
  | clear next ih => exact bind_congr_of_ok (MachineM.modify_eq _ machine) (ih _ h)

/-! ## Room for procedures that wait -/

section Room

variable [Radio ρ]

/-- Whether a command that is run by name finds room, given which actions do. -/
def fitsByName (fits : Action → Machine ρ → Bool) (name : String) (machine : Machine ρ) : Bool :=
  match machine.dictionary.find? name with
  | none => true
  | some entry =>
    if entry.arity ≤ machine.stack.depth then
      fits entry.action (machine.note (.invoked name machine.stack.text))
    else true

/-- Whether all procedures that come to wait for one another in an action find room. -/
def Action.fits : Nat → Action → Machine ρ → Bool
  | _, .builtin _, _ => true
  | 0, .procedure _, _ => false
  | room + 1, .procedure steps, machine =>
    (steps.calls (callWithin room) machine).all fun called =>
      fitsByName (Action.fits room) called.1 called.2

/-- More room changes nothing for a command that finds room, if it changes nothing for actions. -/
theorem callWithin_of_fits {room roomier : Nat}
    (hactions : ∀ (action : Action) (machine : Machine ρ), action.fits room machine →
      action.runWithin roomier machine = action.runWithin room machine)
    {name : String} {machine : Machine ρ} (h : fitsByName (Action.fits room) name machine) :
    callWithin roomier name machine = callWithin room name machine := by
  unfold fitsByName at h
  cases hfind : machine.dictionary.find? name with
  | none => rw [callWithin_of_unknown hfind, callWithin_of_unknown hfind]
  | some entry =>
    let started := machine.note (.invoked name machine.stack.text)
    have hstarted : (do MachineM.require entry.arity; entry.action.runWithin roomier) started
        = (do MachineM.require entry.arity; entry.action.runWithin room) started := by
      by_cases hthere : entry.arity ≤ machine.stack.depth
      · have henough : entry.arity ≤ started.stack.depth := hthere
        simp only [hfind, if_pos hthere] at h
        exact bind_congr_of_ok (MachineM.require_of_le henough) (hactions _ _ h)
      · have hshort : ¬entry.arity ≤ started.stack.depth := hthere
        rw [bind_of_error (MachineM.require_of_not_le hshort),
          bind_of_error (MachineM.require_of_not_le hshort)]
    rw [callWithin_of_known hfind, callWithin_of_known hfind]
    simp only [MachineM.inWord, EStateM.adaptExcept]
    rw [hstarted]

/-- An action that finds room does the same with more of it. -/
theorem Action.runWithin_of_fits {room roomier : Nat} (hle : room ≤ roomier) (action : Action)
    (machine : Machine ρ) (h : action.fits room machine) :
    action.runWithin roomier machine = action.runWithin room machine := by
  induction room generalizing roomier action machine with
  | zero =>
    cases action with
    | builtin command => rfl
    | procedure steps => exact nomatch h
  | succ room ih =>
    obtain ⟨roomier, rfl⟩ := Nat.exists_eq_add_of_le' (Nat.le_of_add_left_le hle)
    cases action with
    | builtin command => rfl
    | procedure steps =>
      refine steps.run_congr machine fun called hcalled => ?_
      have hfits := List.all_eq_true.mp h called hcalled
      exact callWithin_of_fits (ih (Nat.le_of_succ_le_succ hle)) hfits

/-- Whether a token finds room. -/
def Ran.fits (room : Nat) (ran : Ran ρ) : Bool :=
  match ran.token with
  | .literal _ => true
  | .word name => fitsByName (Action.fits room) name ran.machine

theorem MachineM.runWithin_of_fits {room roomier : Nat} (hle : room ≤ roomier) {token : Token}
    {machine : Machine ρ} (h : Ran.fits room ⟨token, machine⟩) :
    runWithin roomier token machine = runWithin room token machine := by
  cases token with
  | literal value => rfl
  | word name => exact callWithin_of_fits (Action.runWithin_of_fits hle) h

-- A procedure that waits for another one needs room for both.
example :
    let hail : Entry := ⟨"hail", 0, .procedure (.print "hi" .done)⟩
    let greet : Entry := ⟨"greet", 0, .procedure (.call "hail" fun _ => .enter "nl" .done)⟩
    let machine : Machine QueuedRadio :=
      { dictionary := ⟨[hail, greet], by decide⟩, radio := {} }
    Ran.fits 2 ⟨.word "greet", machine⟩ = true ∧ Ran.fits 1 ⟨.word "greet", machine⟩ = false := by
  decide

end Room

/-! ## Requests within limits -/

namespace Machine

variable [Radio ρ]

/-- More room and more input change nothing on the way to an event, if every token finds room and the
event is not that too much was queued. -/
theorem traceWithin_of_roomier {room roomier : Nat} (hle : room ≤ roomier) (fuel more : Nat)
    {machine : Machine ρ} (hruns : ∀ ran ∈ (machine.traceWithin room fuel).1, ran.fits room)
    (hevent : (machine.traceWithin room fuel).2.1 ≠ .failed runaway) :
    machine.traceWithin roomier (fuel + more) = machine.traceWithin room fuel := by
  fun_induction traceWithin room fuel machine with
  | case1 machine => exact absurd rfl hevent
  | case2 fuel machine hflushed hidle =>
    rw [Nat.succ_eq_add_one, Nat.add_right_comm, traceWithin_of_idle _ _ hflushed hidle]
  | case3 fuel machine hflushed token rest hpending _ next hrun ih =>
    obtain ⟨hhere, hlater⟩ := List.forall_mem_cons.mp hruns
    have hrun' := (MachineM.runWithin_of_fits hle hhere).trans hrun
    rw [Nat.succ_eq_add_one, Nat.add_right_comm, traceWithin_of_ok _ hflushed hpending hrun',
      ih hlater hevent]
    rfl
  | case4 fuel machine hflushed token rest hpending fault after hrun =>
    have hrun' := (MachineM.runWithin_of_fits hle (hruns _ List.mem_cons_self)).trans hrun
    rw [Nat.succ_eq_add_one, Nat.add_right_comm, traceWithin_of_error _ hflushed hpending hrun']
  | case5 fuel machine hprinted =>
    rw [Nat.succ_eq_add_one, Nat.add_right_comm, traceWithin_of_printed _ _ hprinted]

/-- Requests were answered without coming to a limit: every token found room, and no line was given up
for queuing too much. -/
structure Account.WithinLimits (limits : Limits) (account : Account ρ) : Prop where
  nesting : ∀ ran ∈ account.runs, ran.fits limits.nesting
  input : .event (.failed runaway) ∉ account.answers

variable {limits roomier : Limits} {machine : Machine ρ}

/-- A request sees the limits only through the loop and through a token that it runs itself. -/
theorem perform_congr (request : Request)
    (hexecute : request = .execute → machine.executeUnder roomier = machine.executeUnder limits)
    (hrun : ∀ token, (machine.perform limits request).runs = [⟨token, machine⟩] →
      MachineM.runWithin roomier.nesting token machine
        = MachineM.runWithin limits.nesting token machine) :
    machine.perform roomier request = machine.perform limits request := by
  cases request with
  | execute => rw [perform, perform, hexecute rfl]
  | run token => rw [perform, perform, hrun token rfl]
  | call name =>
    have hcall : callWithin roomier.nesting name machine = callWithin limits.nesting name machine :=
      hrun (.word name) rfl
    rw [perform, perform, hcall]
  | enter _ | push _ | pop | print _ | echo _ | pollRadio | clear => rfl

theorem perform_of_roomier (hnesting : limits.nesting ≤ roomier.nesting)
    (hinput : limits.input ≤ roomier.input) (request : Request)
    (h : (machine.perform limits request).WithinLimits limits) :
    machine.perform roomier request = machine.perform limits request := by
  apply perform_congr
  · rintro rfl
    obtain ⟨more, hmore⟩ := Nat.exists_eq_add_of_le hinput
    have hfuel : roomier.input + machine.pending.length + 1
        = limits.input + machine.pending.length + 1 + more := by omega
    have hevent : (machine.executeUnder limits).2.1 ≠ .failed runaway := by
      intro hfailed
      apply h.input
      rw [← hfailed]
      exact List.mem_singleton_self _
    rw [executeUnder, hfuel]
    exact traceWithin_of_roomier hnesting _ more h.nesting hevent
  · intro token hruns
    have hfits : Ran.fits limits.nesting ⟨token, machine⟩ := by
      apply h.nesting
      rw [hruns]
      exact List.mem_singleton_self _
    exact MachineM.runWithin_of_fits hnesting hfits

/-- Once the limits are large enough, it does not matter how large they are: requests that are
answered without coming to a limit are answered in the same way, by the same runs and with the same
machine at the end, under all limits that are not narrower. -/
theorem attend_of_roomier (hnesting : limits.nesting ≤ roomier.nesting)
    (hinput : limits.input ≤ roomier.input) (requests : List Request)
    (h : (machine.attend limits requests).WithinLimits limits) :
    machine.attend roomier requests = machine.attend limits requests := by
  induction requests generalizing machine with
  | nil => rfl
  | cons request rest ih =>
    have hfirst : (machine.perform limits request).WithinLimits limits :=
      ⟨fun ran hran => h.nesting ran (List.mem_append_left _ hran),
        fun hrunaway => h.input (List.mem_append_left _ hrunaway)⟩
    have hrest : ((machine.perform limits request).machine.attend limits rest).WithinLimits limits :=
      ⟨fun ran hran => h.nesting ran (List.mem_append_right _ hran),
        fun hrunaway => h.input (List.mem_append_right _ hrunaway)⟩
    rw [attend, attend, perform_of_roomier hnesting hinput request hfirst, ih hrest]

/-! ## Machines without procedures -/

/-- The console's own commands queue nothing, so the loop runs no more tokens than wait. -/
theorem traceWithin_of_native (hnative : machine.dictionary.Native) (room room' : Nat)
    {fuel fuel' : Nat} (hfuel : machine.pending.length < fuel)
    (hfuel' : machine.pending.length < fuel') :
    machine.traceWithin room fuel = machine.traceWithin room' fuel' := by
  generalize hpending : machine.pending = tokens at hfuel hfuel'
  induction tokens generalizing machine fuel fuel' with
  | nil =>
    obtain ⟨fuel, rfl⟩ := Nat.exists_eq_add_one_of_ne_zero (Nat.ne_zero_of_lt hfuel)
    obtain ⟨fuel', rfl⟩ := Nat.exists_eq_add_one_of_ne_zero (Nat.ne_zero_of_lt hfuel')
    by_cases hflushed : machine.printed = ""
    · rw [traceWithin_of_idle _ _ hflushed hpending, traceWithin_of_idle _ _ hflushed hpending]
    · rw [traceWithin_of_printed _ _ hflushed, traceWithin_of_printed _ _ hflushed]
  | cons token rest ih =>
    obtain ⟨fuel, rfl⟩ := Nat.exists_eq_add_one_of_ne_zero (Nat.ne_zero_of_lt hfuel)
    obtain ⟨fuel', rfl⟩ := Nat.exists_eq_add_one_of_ne_zero (Nat.ne_zero_of_lt hfuel')
    by_cases hflushed : machine.printed = ""
    case neg => rw [traceWithin_of_printed _ _ hflushed, traceWithin_of_printed _ _ hflushed]
    case pos =>
      have hstarted : ({ machine with pending := rest } : Machine ρ).dictionary.Native := hnative
      have hrun := MachineM.runWithin_eq hstarted room token
      have hrun' := MachineM.runWithin_eq hstarted room' token
      rcases MachineM.run_cases hstarted token with
        ⟨effect, journal, -, hends⟩ | ⟨fault, journal, -, hends⟩
      case inl =>
        generalize hnext : { effect.on { machine with pending := rest } with journal } = next at hends
        have hdictionary : next.dictionary = machine.dictionary := by rw [← hnext]; rfl
        have hrest : next.pending = rest := by rw [← hnext]; rfl
        rw [traceWithin_of_ok _ hflushed hpending (hrun.trans hends),
          traceWithin_of_ok _ hflushed hpending (hrun'.trans hends),
          ih (hdictionary ▸ hnative) hrest (Nat.lt_of_succ_lt_succ hfuel)
            (Nat.lt_of_succ_lt_succ hfuel')]
      case inr =>
        rw [traceWithin_of_error _ hflushed hpending (hrun.trans hends),
          traceWithin_of_error _ hflushed hpending (hrun'.trans hends)]

/-- No limits show in the events of a machine without procedures. -/
theorem executeUnder_of_native (hnative : machine.dictionary.Native) (limits other : Limits) :
    machine.executeUnder limits = machine.executeUnder other := by
  unfold executeUnder
  exact traceWithin_of_native hnative _ _ (by omega) (by omega)

theorem kept_native (limits : Limits) :
    Kept limits fun _ (machine : Machine ρ) => machine.dictionary.Native where
  run {_ machine} token hnative := by
    rw [MachineM.runWithin_eq hnative]
    rcases MachineM.run_cases hnative token with ⟨_, _, -, hrun⟩ | ⟨_, _, -, hrun⟩
    · rw [hrun]
      exact hnative
    · rw [hrun]
      exact hnative
  books _ _ _ _ hnative := hnative

/-- A machine without procedures gives the same account under all limits. -/
theorem attend_of_native (hnative : machine.dictionary.Native) (limits other : Limits)
    (requests : List Request) : machine.attend limits requests = machine.attend other requests := by
  induction requests generalizing machine with
  | nil => rfl
  | cons request rest ih =>
    have hfirst : machine.perform limits request = machine.perform other request := by
      apply perform_congr
      · exact fun _ => executeUnder_of_native hnative limits other
      · intro token _
        rw [MachineM.runWithin_eq hnative, MachineM.runWithin_eq hnative]
    have hnext : (machine.perform other request).machine.dictionary.Native := by
      refine @Kept.perform _ _ _ _ [] _ (kept_native other) request hnative fun _ => ?_
      unfold Machine.pollRadio
      split
      · exact hnative
      · split <;> exact hnative
    rw [attend, attend, hfirst, ih hnext]

end Machine

end SerialConsole
