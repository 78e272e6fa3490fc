import SerialConsole.Proofs.Machine.EventLoop

/-!
# Requests to a machine

Everything that can be asked of a machine from outside, in any order. `Machine.Request` is one request
and `Machine.attend` answers a sequence of them. Beside the answers it keeps an account of the tokens
that were run, each with the machine that it was run on (`Ran`), so that what a machine has become can
be compared with what was done to it.

A machine gives up a line that nests its procedures too deep or queues too much input. Requests are
answered under any limits; `Machine.execute` and `MachineM.run` are what they come to under those of
the device.

Two rules carry what is known of single tokens over to sequences of requests: `Kept.attend` for what
stays true of one machine, with `Kept.throughout_attend` for every point on the way, and
`Mimics.attend` for two machines that answer alike.
-/

namespace SerialConsole

open Failing

variable {ρ : Type}

/-! ## Requests and answers -/

/-- Whether the token ran to its end. -/
def Ran.succeeds [Radio ρ] (ran : Ran ρ) : Bool :=
  (failure? (MachineM.run ran.token ran.machine)).isNone

/-- The machine behind the token, however it ended. -/
def Ran.after [Radio ρ] (ran : Ran ρ) : Machine ρ :=
  stateAfter (MachineM.run ran.token ran.machine)

namespace Machine

/-- Something that is asked of a machine. -/
inductive Request where
  | enter (line : String)
  | execute
  | run (token : Token)
  | call (name : String)
  | push (value : Cell)
  | pop
  | print (text : String)
  | echo (byte : UInt8)
  | pollRadio
  | clear
deriving DecidableEq, Repr

/-- What a machine answers. -/
inductive Answer where
  | done
  | event (event : Event)
  | ended (result : Except Fault Unit)
  | popped (result : Except Fault Cell)

/-- What comes of requests: the tokens that were run, the answers, and the machine behind them. -/
structure Account (ρ : Type) where
  runs : List (Ran ρ) := []
  answers : List Answer
  machine : Machine ρ

variable [Radio ρ]

/-- Answers one request. -/
def perform (limits : Limits) (machine : Machine ρ) : Request → Account ρ
  | .enter line => { answers := [.done], machine := machine.enter line }
  | .execute =>
    let found := machine.executeUnder limits
    { runs := found.1, answers := [.event found.2.1], machine := found.2.2 }
  | .run token =>
    let result := MachineM.runWithin limits.nesting token machine
    { runs := [⟨token, machine⟩], answers := [.ended (outcome result)]
      machine := stateAfter result }
  | .call name =>
    let result := callWithin limits.nesting name machine
    { runs := [⟨.word name, machine⟩], answers := [.ended (outcome result)]
      machine := stateAfter result }
  | .push value =>
    let result := MachineM.push value machine
    { answers := [.ended (outcome result)], machine := stateAfter result }
  | .pop =>
    let result := MachineM.pop machine
    { answers := [.popped (outcome result)], machine := stateAfter result }
  | .print text => { answers := [.done], machine := machine.print text }
  | .echo byte => { answers := [.done], machine := machine.echo byte }
  | .pollRadio => { answers := [.done], machine := machine.pollRadio }
  | .clear => { answers := [.done], machine := machine.clear }

/-- Answers requests one after the other. -/
def attend (limits : Limits) (machine : Machine ρ) : List Request → Account ρ
  | [] => { answers := [], machine }
  | request :: rest =>
    let first := machine.perform limits request
    let later := first.machine.attend limits rest
    { runs := first.runs ++ later.runs, answers := first.answers ++ later.answers
      machine := later.machine }

end Machine

/-! ## What stays true of one machine -/

namespace Machine

/-- An action on the stack alone leaves everything else. -/
theorem stateAfter_onStack {α : Type} (operation : DataStack DataStack.deviceCapacity →
    Except Fault (α × DataStack DataStack.deviceCapacity)) (machine : Machine ρ) :
    ∃ stack, stateAfter (MachineM.onStack operation machine) = { machine with stack } := by
  unfold MachineM.onStack
  split
  · exact ⟨_, rfl⟩
  · exact ⟨machine.stack, rfl⟩

/-- What relates the tokens that were run to the machine behind them holds at every point: before each
of the tokens, and at the end. -/
structure Account.Throughout (I : List (Ran ρ) → Machine ρ → Prop) (account : Account ρ) : Prop where
  before : ∀ past ran later, account.runs = past ++ ran :: later → I past ran.machine
  last : I account.runs account.machine

theorem Account.Throughout.of_mem {I : List (Ran ρ) → Machine ρ → Prop} {account : Account ρ}
    (h : account.Throughout I) {ran : Ran ρ} (hran : ran ∈ account.runs) :
    ∃ past, I past ran.machine := by
  obtain ⟨past, later, hruns⟩ := List.append_of_mem hran
  exact ⟨past, h.before past ran later hruns⟩

theorem Account.Throughout.imp {I J : List (Ran ρ) → Machine ρ → Prop} {account : Account ρ}
    (h : account.Throughout I) (himp : ∀ past machine, I past machine → J past machine) :
    account.Throughout J where
  before past ran later hruns := himp _ _ (h.before past ran later hruns)
  last := himp _ _ h.last

section Kept

variable [Radio ρ]

/-- A relation between what was run and what a machine has become, which every token keeps, and
which does not depend on the stack, the queue and the printed text. -/
structure Kept (limits : Limits) (I : List (Ran ρ) → Machine ρ → Prop) : Prop where
  run : ∀ {past machine} (token : Token), I past machine →
    I (past ++ [⟨token, machine⟩]) (stateAfter (MachineM.runWithin limits.nesting token machine))
  books : ∀ {past machine} stack pending printed journal, I past machine →
    I past { machine with stack, pending, printed, journal }

variable {limits : Limits} {I : List (Ran ρ) → Machine ρ → Prop} {past : List (Ran ρ)}
  {machine : Machine ρ}

theorem Kept.abandonLine (hkept : Kept limits I) (h : I past machine) (fault : Fault) :
    I past (machine.abandonLine fault) := by
  have hdropped := hkept.books machine.stack [] machine.printed
    (.lineAbandoned fault machine.pending.length :: machine.journal) h
  exact hdropped

theorem Kept.traceWithin (hkept : Kept limits I) (fuel : Nat) (h : I past machine) :
    I (past ++ (machine.traceWithin limits.nesting fuel).1)
      (machine.traceWithin limits.nesting fuel).2.2 := by
  fun_induction Machine.traceWithin limits.nesting fuel machine generalizing past with
  | case1 machine =>
    rw [List.append_nil]
    exact hkept.abandonLine h runaway
  | case2 fuel machine => rwa [List.append_nil]
  | case3 fuel machine hflushed token rest hpending _ next hrun ih =>
    have hstarted := hkept.books machine.stack rest machine.printed machine.journal h
    have hnext := hkept.run token hstarted
    rw [hrun] at hnext
    have hlast := ih hnext
    rwa [List.append_assoc] at hlast
  | case4 fuel machine hflushed token rest hpending fault after hrun =>
    have hstarted := hkept.books machine.stack rest machine.printed machine.journal h
    have hnext := hkept.run token hstarted
    rw [hrun] at hnext
    exact hkept.abandonLine hnext fault
  | case5 fuel machine =>
    rw [List.append_nil]
    exact hkept.books machine.stack machine.pending "" machine.journal h

/-- A request keeps what every token keeps, if it is not a poll that changes it. -/
theorem Kept.perform (hkept : Kept limits I) (request : Request) (h : I past machine)
    (hpoll : request = .pollRadio → I past machine.pollRadio) :
    I (past ++ (machine.perform limits request).runs) (machine.perform limits request).machine := by
  cases request with
  | execute => exact hkept.traceWithin (limits.input + machine.pending.length + 1) h
  | run token => exact hkept.run token h
  | call name => exact hkept.run (.word name) h
  | push value =>
    obtain ⟨stack, hafter⟩ := stateAfter_onStack
      (fun stack => (stack.push value).map ((), ·)) machine
    show I (past ++ []) (stateAfter (MachineM.onStack _ machine))
    rw [List.append_nil, hafter]
    exact hkept.books _ _ _ _ h
  | pop =>
    obtain ⟨stack, hafter⟩ := stateAfter_onStack DataStack.pop machine
    show I (past ++ []) (stateAfter (MachineM.onStack _ machine))
    rw [List.append_nil, hafter]
    exact hkept.books _ _ _ _ h
  | pollRadio =>
    rw [Machine.perform, List.append_nil]
    exact hpoll rfl
  | enter _ | print _ | echo _ | clear =>
    rw [Machine.perform, List.append_nil]
    exact hkept.books _ _ _ _ h

/-- Requests keep what every token and every poll keeps. -/
theorem Kept.attend (hkept : Kept limits I)
    (hpoll : ∀ {past machine}, I past machine → I past machine.pollRadio)
    (requests : List Request) (h : I past machine) :
    I (past ++ (machine.attend limits requests).runs) (machine.attend limits requests).machine := by
  induction requests generalizing past machine with
  | nil =>
    rw [Machine.attend, List.append_nil]
    exact h
  | cons request rest ih =>
    have hrest := ih (hkept.perform request h fun _ => hpoll h)
    rwa [List.append_assoc] at hrest

/-- What every token keeps is kept together with the fact that it held before every token. -/
theorem Kept.throughout (hkept : Kept limits I) :
    Kept limits fun past machine => Account.Throughout I ⟨past, [], machine⟩ where
  run := by
    intro past machine token h
    refine ⟨fun before ran later hruns => ?_, hkept.run token h.last⟩
    -- the last token that was run is the new one, and the others were run before
    change past ++ [_] = before ++ ran :: later at hruns
    rcases List.eq_nil_or_concat later with rfl | ⟨rest, last, rfl⟩
    · obtain ⟨rfl, hran⟩ := List.append_inj' hruns rfl
      cases hran
      exact h.last
    · rw [List.concat_eq_append, ← List.cons_append, ← List.append_assoc] at hruns
      obtain ⟨hpast, -⟩ := List.append_inj' hruns rfl
      exact h.before before ran rest hpast
  books := fun stack pending printed journal h =>
    ⟨h.before, hkept.books stack pending printed journal h.last⟩

/-- What every token and every poll keeps holds at every point of the requests. -/
theorem Kept.throughout_attend (hkept : Kept limits I)
    (hpoll : ∀ {past machine}, I past machine → I past machine.pollRadio)
    (requests : List Request) (h : I [] machine) :
    (machine.attend limits requests).Throughout I := by
  have hstart : Account.Throughout I ⟨[], [], machine⟩ := by
    refine ⟨fun before ran later hruns => ?_, h⟩
    exact absurd hruns (by simp)
  have hlast := hkept.throughout.attend (fun h => ⟨h.before, hpoll h.last⟩) requests hstart
  rw [List.nil_append] at hlast
  exact ⟨hlast.before, hlast.last⟩

end Kept

/-! ## Machines that answer alike -/

/-- What requests read and change apart from the tokens that they run. -/
structure LooksLike (machine other : Machine ρ) : Prop where
  stack : machine.stack = other.stack
  radio : machine.radio = other.radio
  nodeId : machine.nodeId = other.nodeId
  pending : machine.pending = other.pending
  printed : machine.printed = other.printed

/-- What only tokens read and change. -/
structure Inside where
  dictionary : Dictionary
  memory : AddressSpace
  rom : RomStorage

/-- The inside of a machine. -/
def inside (machine : Machine ρ) : Inside := ⟨machine.dictionary, machine.memory, machine.rom⟩

/-- Machines that look alike and whose insides are related. -/
structure Twins (S : Inside → Inside → Prop) (machine other : Machine ρ) : Prop
    extends LooksLike machine other where
  inside : S machine.inside other.inside

/-- Two actions end in the same way and leave related machines. -/
inductive EndsAlike {α : Type} (R : Machine ρ → Machine ρ → Prop) :
    EStateM.Result Fault (Machine ρ) α → EStateM.Result Fault (Machine ρ) α → Prop where
  | ok (value : α) {machine other : Machine ρ} (h : R machine other) :
    EndsAlike R (.ok value machine) (.ok value other)
  | error (fault : Fault) {machine other : Machine ρ} (h : R machine other) :
    EndsAlike R (.error fault machine) (.error fault other)

section Twins

variable {S : Inside → Inside → Prop} {machine other : Machine ρ}

theorem EndsAlike.outcome_eq {α : Type} {R : Machine ρ → Machine ρ → Prop}
    {result result' : EStateM.Result Fault (Machine ρ) α} (h : EndsAlike R result result') :
    outcome result = outcome result' := by
  cases h <;> rfl

theorem EndsAlike.stateAfter {α : Type} {R : Machine ρ → Machine ρ → Prop}
    {result result' : EStateM.Result Fault (Machine ρ) α} (h : EndsAlike R result result') :
    R (Failing.stateAfter result) (Failing.stateAfter result') := by
  cases h <;> assumption

theorem Twins.abandonLine (h : Twins S machine other) (fault : Fault) :
    Twins S (machine.abandonLine fault) (other.abandonLine fault) :=
  ⟨⟨h.stack, h.radio, h.nodeId, rfl, h.printed⟩, h.inside⟩

theorem Twins.onStack {α : Type} (h : Twins S machine other)
    (operation : DataStack DataStack.deviceCapacity →
      Except Fault (α × DataStack DataStack.deviceCapacity)) :
    EndsAlike (Twins S) (MachineM.onStack operation machine)
      (MachineM.onStack operation other) := by
  unfold MachineM.onStack
  rw [h.stack]
  split
  · exact .ok _ ⟨⟨rfl, h.radio, h.nodeId, h.pending, h.printed⟩, h.inside⟩
  · exact .error _ h

variable [Radio ρ]

/-- Two decisions that are the same but for what becomes of the storages, and that leave the insides of
the machines related. -/
inductive DecidesAlike (S : Inside → Inside → Prop) (machine other : Machine ρ) :
    Except Fault Effect → Except Fault Effect → Prop where
  | error (fault : Fault) : DecidesAlike S machine other (.error fault) (.error fault)
  | ok (effect : Effect) {rom? rom?' : Option RomStorage}
    (inside : S ⟨machine.dictionary, machine.memory, rom?.getD machine.rom⟩
      ⟨other.dictionary, other.memory, rom?'.getD other.rom⟩) :
    DecidesAlike S machine other (.ok { effect with rom? }) (.ok { effect with rom? := rom?' })

/-- Twins that decide alike end alike, and stay twins. -/
theorem Twins.endsAlike_of_does (h : Twins S machine other) {action : MachineM ρ Unit}
    {decision decision' : Except Fault Effect} (hdoes : action.Does machine decision)
    (hdoes' : action.Does other decision') (halike : DecidesAlike S machine other decision decision') :
    EndsAlike (Twins S) (action machine) (action other) := by
  cases halike with
  | error fault =>
    obtain ⟨journal, hrun⟩ := hdoes
    obtain ⟨journal', hrun'⟩ := hdoes'
    rw [hrun, hrun']
    exact .error fault ⟨⟨h.stack, h.radio, h.nodeId, h.pending, h.printed⟩, h.inside⟩
  | ok effect hinside =>
    obtain ⟨journal, hrun⟩ := hdoes
    obtain ⟨journal', hrun'⟩ := hdoes'
    rw [hrun, hrun']
    refine .ok () ⟨⟨?_, ?_, ?_, h.pending, ?_⟩, hinside⟩
    · exact congrArg (·.replace effect.taken effect.left?) h.stack
    · exact congrArg effect.onRadio h.radio
    · exact congrArg ((effect.config?.map RadioConfig.node).getD ·) h.nodeId
    · exact congrArg (· ++ effect.text) h.printed

theorem Twins.pollRadio (h : Twins S machine other) :
    Twins S machine.pollRadio other.pollRadio := by
  unfold Machine.pollRadio
  rw [h.nodeId, h.radio]
  split
  · exact h
  · split
    · exact ⟨⟨h.stack, rfl, rfl, h.pending, h.printed⟩, h.inside⟩
    · refine ⟨⟨h.stack, rfl, rfl, h.pending, ?_⟩, h.inside⟩
      exact congrArg (· ++ _) h.printed

/-- Tokens end alike on twins, as long as what is run has a property. -/
def Mimics (limits : Limits) (Q : Ran ρ → Prop) (S : Inside → Inside → Prop) : Prop :=
  ∀ {machine other : Machine ρ} {token : Token}, Twins S machine other → Q ⟨token, machine⟩ →
    EndsAlike (Twins S) (MachineM.runWithin limits.nesting token machine)
      (MachineM.runWithin limits.nesting token other)

variable {limits : Limits} {Q : Ran ρ → Prop}

theorem Mimics.traceWithin (hmimics : Mimics limits Q S) (fuel : Nat) (h : Twins S machine other)
    (hruns : ∀ ran ∈ (machine.traceWithin limits.nesting fuel).1, Q ran) :
    (machine.traceWithin limits.nesting fuel).2.1 = (other.traceWithin limits.nesting fuel).2.1 ∧
      Twins S (machine.traceWithin limits.nesting fuel).2.2
        (other.traceWithin limits.nesting fuel).2.2 := by
  fun_induction Machine.traceWithin limits.nesting fuel machine generalizing other with
  | case1 machine => exact ⟨rfl, h.abandonLine runaway⟩
  | case2 fuel machine hflushed hidle =>
    rw [h.printed] at hflushed
    rw [h.pending] at hidle
    rw [traceWithin_of_idle _ _ hflushed hidle]
    exact ⟨rfl, h⟩
  | case3 fuel machine hflushed token rest hpending _ next hrun ih =>
    have hstarted : Twins S { machine with pending := rest } { other with pending := rest } :=
      ⟨⟨h.stack, h.radio, h.nodeId, rfl, h.printed⟩, h.inside⟩
    have hends := hmimics hstarted (hruns _ List.mem_cons_self)
    rw [h.printed] at hflushed
    rw [h.pending] at hpending
    rw [hrun] at hends
    generalize hrun' : MachineM.runWithin limits.nesting token { other with pending := rest }
      = result at hends
    cases hends with
    | ok _ hnext =>
      rw [traceWithin_of_ok _ hflushed hpending hrun']
      exact ih hnext fun ran hran => hruns ran (List.mem_cons_of_mem _ hran)
  | case4 fuel machine hflushed token rest hpending fault after hrun =>
    have hstarted : Twins S { machine with pending := rest } { other with pending := rest } :=
      ⟨⟨h.stack, h.radio, h.nodeId, rfl, h.printed⟩, h.inside⟩
    have hends := hmimics hstarted (hruns _ List.mem_cons_self)
    rw [h.printed] at hflushed
    rw [h.pending] at hpending
    rw [hrun] at hends
    generalize hrun' : MachineM.runWithin limits.nesting token { other with pending := rest }
      = result at hends
    cases hends with
    | error _ hafter =>
      rw [traceWithin_of_error _ hflushed hpending hrun']
      exact ⟨rfl, hafter.abandonLine fault⟩
  | case5 fuel machine hprinted =>
    rw [h.printed] at hprinted
    rw [traceWithin_of_printed _ _ hprinted]
    exact ⟨by rw [h.printed], ⟨h.stack, h.radio, h.nodeId, h.pending, rfl⟩, h.inside⟩

/-- Twins answer a request alike and stay twins. -/
theorem Mimics.perform (hmimics : Mimics limits Q S) (request : Request)
    (h : Twins S machine other) (hruns : ∀ ran ∈ (machine.perform limits request).runs, Q ran) :
    (machine.perform limits request).answers = (other.perform limits request).answers ∧
      Twins S (machine.perform limits request).machine (other.perform limits request).machine := by
  cases request with
  | enter line =>
    refine ⟨rfl, ⟨h.stack, h.radio, h.nodeId, ?_, h.printed⟩, h.inside⟩
    exact congrArg (· ++ _) h.pending
  | execute =>
    have hfuel : limits.input + machine.pending.length + 1
        = limits.input + other.pending.length + 1 := by rw [h.pending]
    obtain ⟨hevent, hnext⟩ := hmimics.traceWithin (limits.input + machine.pending.length + 1) h hruns
    simp only [Machine.perform, executeUnder, ← hfuel, hevent]
    exact ⟨trivial, hnext⟩
  | run token =>
    have hends := hmimics h (hruns ⟨token, machine⟩ List.mem_cons_self)
    exact ⟨congrArg (fun result => [Answer.ended result]) hends.outcome_eq, hends.stateAfter⟩
  | call name =>
    have hends := hmimics h (hruns ⟨.word name, machine⟩ List.mem_cons_self)
    exact ⟨congrArg (fun result => [Answer.ended result]) hends.outcome_eq, hends.stateAfter⟩
  | push value =>
    have hends := h.onStack fun stack => (stack.push value).map ((), ·)
    exact ⟨congrArg (fun result => [Answer.ended result]) hends.outcome_eq, hends.stateAfter⟩
  | pop =>
    have hends := h.onStack DataStack.pop
    exact ⟨congrArg (fun result => [Answer.popped result]) hends.outcome_eq, hends.stateAfter⟩
  | print text =>
    refine ⟨rfl, ⟨h.stack, h.radio, h.nodeId, h.pending, ?_⟩, h.inside⟩
    exact congrArg (· ++ _) h.printed
  | echo byte =>
    refine ⟨rfl, ⟨h.stack, h.radio, h.nodeId, h.pending, ?_⟩, h.inside⟩
    exact congrArg (· ++ _) h.printed
  | pollRadio => exact ⟨rfl, h.pollRadio⟩
  | clear =>
    refine ⟨rfl, ⟨?_, h.radio, h.nodeId, rfl, h.printed⟩, h.inside⟩
    exact congrArg DataStack.clear h.stack

/-- Twins answer requests alike and stay twins. -/
theorem Mimics.attend (hmimics : Mimics limits Q S) (requests : List Request)
    (h : Twins S machine other) (hruns : ∀ ran ∈ (machine.attend limits requests).runs, Q ran) :
    (machine.attend limits requests).answers = (other.attend limits requests).answers ∧
      Twins S (machine.attend limits requests).machine
        (other.attend limits requests).machine := by
  induction requests generalizing machine other with
  | nil => exact ⟨rfl, h⟩
  | cons request rest ih =>
    obtain ⟨hanswer, hnext⟩ := hmimics.perform request h fun ran hran =>
      hruns ran (List.mem_append_left _ hran)
    obtain ⟨hanswers, hlast⟩ := ih hnext fun ran hran => hruns ran (List.mem_append_right _ hran)
    exact ⟨by simp only [Machine.attend, hanswer, hanswers], hlast⟩

end Twins

end Machine

end SerialConsole
