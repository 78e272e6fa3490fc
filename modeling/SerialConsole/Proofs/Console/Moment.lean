import Mathlib.Logic.Function.Iterate
import SerialConsole.Proofs.Console.Prompt

/-!
# A session step by step

A session is a loop: the break flag is looked at, the machine is asked for an event, the event is
shown, and when there is none left an act of the far end is awaited. `Moment` is a session between two
of these steps, and `Moment.step` takes the next one. What can be said about every moment of a session
is said of one step and carried over by `Moment.Leads.invariant`.

`exists_moment_eq_run` ties the steps to `Console.run`: the moments of a session end, and they end
with the console that `run` gives. The fuel of `settle` is the only thing between the two, and each
event uses up a token of the machine, so there is always enough of it (`leads_settleWithin`).
-/

namespace SerialConsole

namespace Console

/-! ## Moments -/

/-- What a console does next. -/
inductive Place where
  /-- It looks at the break flag. -/
  | looking
  /-- It asks its machine for the next event. -/
  | interpreting
  /-- It writes the text of an event. -/
  | showing (text : String)
  /-- It waits for the far end. -/
  | reading
  /-- Nothing: the session has ended. -/
  | ended
deriving DecidableEq, Repr

/-- A session between two of its steps. -/
structure Moment where
  console : Console
  place : Place
  /-- What the far end is still going to do. -/
  script : List Act

/-- The next event of a console's machine, and the console behind it. -/
def ask (console : Console) : Event × Console :=
  let polled := console.machine.pollRadio
  (polled.execute.1,
    { console.record (.interpreted polled.pending.length) with machine := polled.execute.2 })

/-- What a console makes of an act before it looks at the break flag again. -/
def hear (console : Console) : Act → Console
  | .line text => console.accept text
  | .signal .interrupt =>
    let console := console.record (.bufferSet "")
    { console with terminal := console.terminal.requestBreak }
  | .signal _ | .endOfInput => { console with status := .finished }
  | .readFailure cause => { console with status := .failed cause }
  | .interrupt => { console with terminal := console.terminal.requestBreak }
  | .interruptAfter writes =>
    { console with terminal := console.terminal.plan (.interruptAfter writes) }
  | .failWrite nth cause =>
    { console with terminal := console.terminal.plan (.failWrite nth cause) }
  | .failOpen _ => console

namespace Moment

/-- The place of a console that goes on only if its session does. -/
def placeOf (console : Console) (next : Place) : Place :=
  if console.status = .running then next else .ended

/-- The place behind an event. -/
def placeAfter (event : Event) : Place :=
  match eventText? event with
  | some text => .showing text
  | none => .reading

/-- One step of a session. -/
def step (now : Moment) : Moment :=
  match now.place with
  | .looking =>
    let console := now.console.takeBreak
    { now with console, place := placeOf console .interpreting }
  | .interpreting =>
    let (event, console) := now.console.ask
    { now with console, place := placeAfter event }
  | .showing text =>
    let console := now.console.write text
    { now with console, place := placeOf console .looking }
  | .reading =>
    match now.script with
    | [] => now
    | act :: rest =>
      let console := now.console.hear act
      { console, place := placeOf console (if act.isPrompted then .looking else .reading)
        script := rest }
  | .ended => now

/-- One moment comes some steps behind another. -/
def Leads (now later : Moment) : Prop := ∃ steps, step^[steps] now = later

theorem Leads.refl (now : Moment) : now.Leads now := ⟨0, rfl⟩

theorem Leads.trans {now next later : Moment} (h : now.Leads next) (hrest : next.Leads later) :
    now.Leads later := by
  obtain ⟨first, rfl⟩ := h
  obtain ⟨second, rfl⟩ := hrest
  exact ⟨second + first, Function.iterate_add_apply step second first now⟩

theorem Leads.of_step {now later : Moment} (h : now.step.Leads later) : now.Leads later := by
  obtain ⟨steps, rfl⟩ := h
  exact ⟨steps + 1, Function.iterate_succ_apply step steps now⟩

/-- What every step keeps holds at every moment. -/
theorem Leads.invariant {P : Moment → Prop} {now later : Moment} (h : now.Leads later)
    (hnow : P now) (hstep : ∀ moment, now.Leads moment → P moment → P moment.step) : P later := by
  obtain ⟨steps, rfl⟩ := h
  induction steps with
  | zero => exact hnow
  | succ steps ih =>
    rw [Function.iterate_succ_apply']
    exact hstep _ ⟨steps, rfl⟩ ih

end Moment

/-! ## Machines on the way -/

end Console

/-- A host's machine with nothing printed that is not yet shown. -/
structure Machine.Ready (setup : Host.Setup) (machine : Machine QueuedRadio) : Prop
    extends machine.OnHost setup where
  flushed : machine.printed = ""

namespace Machine.Ready

variable {setup : Host.Setup} {machine : Machine QueuedRadio}

theorem start (setup : Host.Setup) : (Host.machine setup).Ready setup :=
  ⟨onHost_start setup, by rw [Host.machine]⟩

theorem enter (h : machine.Ready setup) (line : String) : (machine.enter line).Ready setup :=
  ⟨⟨h.dictionary, h.memory, h.silent, h.rom⟩, h.flushed⟩

theorem clear (h : machine.Ready setup) : machine.clear.Ready setup :=
  ⟨⟨h.dictionary, h.memory, h.silent, h.rom⟩, h.flushed⟩

theorem execute (h : machine.Ready setup) : machine.execute.2.Ready setup :=
  ⟨h.toOnHost.execute, (execute_flushed h.native h.flushed).1⟩

/-- Every event but the stop uses up a token. -/
theorem length_pending_execute_lt (h : machine.Ready setup) (hgoes : machine.execute.1 ≠ .stopped) :
    machine.execute.2.pending.length < machine.pending.length :=
  (execute_flushed h.native h.flushed).2.1 hgoes

end Machine.Ready

namespace Console

@[simp] theorem machine_write (console : Console) (text : String) :
    (console.write text).machine = console.machine := by
  unfold write
  split <;> rfl

theorem machine_takeBreak (console : Console) :
    console.takeBreak.machine
      = if console.terminal.breakRequested then console.machine.clear else console.machine := by
  unfold takeBreak
  split
  · rw [machine_write]
  · rfl

section Ready

variable {setup : Host.Setup} {console : Console}

theorem ready_takeBreak (h : console.machine.Ready setup) :
    console.takeBreak.machine.Ready setup := by
  rw [machine_takeBreak]
  split
  · exact h.clear
  · exact h

/-- A break can only shorten the queue. -/
theorem length_pending_takeBreak_le (console : Console) :
    console.takeBreak.machine.pending.length ≤ console.machine.pending.length := by
  rw [machine_takeBreak]
  split
  · exact Nat.zero_le _
  · exact Nat.le_refl _

/-- A host's machine is asked without anything coming in over the radio. -/
theorem ask_eq (h : console.machine.Ready setup) :
    console.ask
      = (console.machine.execute.1,
          { console.record (.interpreted console.machine.pending.length) with
            machine := console.machine.execute.2 }) := by
  unfold ask
  rw [h.pollRadio]

theorem ready_ask (h : console.machine.Ready setup) : console.ask.2.machine.Ready setup := by
  rw [ask_eq h]
  exact h.execute

theorem ready_hear (h : console.machine.Ready setup) (act : Act) :
    (console.hear act).machine.Ready setup := by
  unfold hear
  split
  case h_1 line =>
    unfold accept
    split
    · exact h.enter line
    · exact h.enter line
  all_goals exact h

end Ready

/-- What one step keeps of the machine. -/
theorem Moment.ready_step {setup : Host.Setup} {now : Moment}
    (h : now.console.machine.Ready setup) : now.step.console.machine.Ready setup := by
  unfold step
  split
  case h_1 => exact ready_takeBreak h
  case h_2 => exact ready_ask h
  case h_3 text _ =>
    show (now.console.write text).machine.Ready setup
    rwa [machine_write]
  case h_4 =>
    split
    case h_1 => exact h
    case h_2 act rest _ => exact ready_hear h act
  case h_5 => exact h

/-! ## The moments of a run -/

theorem settleWithin_succ (fuel : Nat) (console : Console) :
    settleWithin (fuel + 1) console
      = if console.takeBreak.status = .running then
          match eventText? console.takeBreak.ask.1 with
          | none => console.takeBreak.ask.2
          | some text =>
            if (console.takeBreak.ask.2.write text).status = .running then
              settleWithin fuel (console.takeBreak.ask.2.write text)
            else console.takeBreak.ask.2.write text
        else console.takeBreak := rfl

theorem feed_eq {console : Console} (hrunning : console.status = .running) (act : Act) :
    console.feed act = if act.isPrompted then (console.hear act).settle else console.hear act := by
  unfold feed
  rw [if_pos hrunning]
  cases act with
  | signal signal => cases signal <;> simp [hear, Act.isPrompted]
  | _ => simp [hear, Act.isPrompted]

theorem feed_of_ended {console : Console} (hended : console.status ≠ .running) (act : Act) :
    console.feed act = console := by
  unfold feed
  rw [if_neg hended]

theorem foldl_feed_of_ended {console : Console} (hended : console.status ≠ .running)
    (script : List Act) : script.foldl feed console = console := by
  induction script with
  | nil => rfl
  | cons act rest ih => rw [List.foldl_cons, feed_of_ended hended, ih]

namespace Moment

variable {setup : Host.Setup} {console : Console}

theorem placeOf_running (h : console.status = .running) (next : Place) :
    placeOf console next = next := if_pos h

theorem placeOf_ended (h : console.status ≠ .running) (next : Place) :
    placeOf console next = .ended := if_neg h

theorem step_looking (console : Console) (script : List Act) :
    step ⟨console, .looking, script⟩
      = ⟨console.takeBreak, placeOf console.takeBreak .interpreting, script⟩ := rfl

theorem step_interpreting (console : Console) (script : List Act) :
    step ⟨console, .interpreting, script⟩ = ⟨console.ask.2, placeAfter console.ask.1, script⟩ := rfl

theorem step_showing (console : Console) (text : String) (script : List Act) :
    step ⟨console, .showing text, script⟩
      = ⟨console.write text, placeOf (console.write text) .looking, script⟩ := rfl

theorem step_reading (console : Console) (act : Act) (rest : List Act) :
    step ⟨console, .reading, act :: rest⟩
      = ⟨console.hear act,
          placeOf (console.hear act) (if act.isPrompted then .looking else .reading), rest⟩ := rfl

/-- Settling goes by steps from a look at the break flag to the next prompt, if there is more fuel
than there are tokens. -/
theorem leads_settleWithin (fuel : Nat) (hready : console.machine.Ready setup)
    (hfuel : console.machine.pending.length < fuel) (script : List Act) :
    Leads ⟨console, .looking, script⟩
      ⟨settleWithin fuel console, placeOf (settleWithin fuel console) .reading, script⟩ := by
  induction fuel generalizing console with
  | zero => omega
  | succ fuel ih =>
    have hlooked := ready_takeBreak hready
    have hshorter := length_pending_takeBreak_le console
    rw [settleWithin_succ]
    refine .of_step ?_
    rw [step_looking]
    generalize console.takeBreak = looked at hlooked hshorter ⊢
    by_cases hgoes : looked.status = .running
    case neg =>
      rw [if_neg hgoes, placeOf_ended hgoes, placeOf_ended hgoes]
      exact .refl _
    case pos =>
      have hkept : looked.ask.2.status = .running := hgoes
      rw [if_pos hgoes, placeOf_running hgoes]
      refine .of_step ?_
      rw [step_interpreting, placeAfter]
      cases htext : eventText? looked.ask.1 with
      | none =>
        show Leads ⟨looked.ask.2, .reading, script⟩ ⟨_, placeOf looked.ask.2 .reading, script⟩
        rw [placeOf_running hkept]
        exact .refl _
      | some text =>
        have hready := ready_ask hlooked
        -- the text came of an event, and the event used up a token
        have hfewer : looked.ask.2.machine.pending.length < fuel := by
          have hevent : looked.ask.1 ≠ .stopped := by
            intro hstopped
            rw [eventText?_eq_none.mpr hstopped] at htext
            exact nomatch htext
          rw [ask_eq hlooked] at hevent ⊢
          have := hlooked.length_pending_execute_lt hevent
          show looked.machine.execute.2.pending.length < fuel
          omega
        refine .of_step ?_
        dsimp only
        rw [step_showing]
        rw [← machine_write _ text] at hready hfewer
        generalize looked.ask.2.write text = written at hready hfewer ⊢
        by_cases hrest : written.status = .running
        case neg =>
          rw [if_neg hrest, placeOf_ended hrest, placeOf_ended hrest]
          exact .refl _
        case pos =>
          rw [if_pos hrest, placeOf_running hrest]
          exact ih hready hfewer

/-- An act is answered by steps from one prompt to the next. -/
theorem leads_feed (hready : console.machine.Ready setup) (hrunning : console.status = .running)
    (act : Act) (rest : List Act) :
    Leads ⟨console, .reading, act :: rest⟩
      ⟨console.feed act, placeOf (console.feed act) .reading, rest⟩ := by
  refine .of_step ?_
  rw [step_reading, feed_eq hrunning]
  by_cases hprompted : act.isPrompted
  case neg =>
    rw [if_neg hprompted, if_neg hprompted]
    exact .refl _
  case pos =>
    have hkept : (console.hear act).status = .running := by
      rcases Act.isPrompted_iff.mp hprompted with ⟨line, rfl⟩ | rfl
      · show (console.accept line).status = .running
        unfold accept
        split <;> exact hrunning
      · exact hrunning
    rw [if_pos hprompted, if_pos hprompted, placeOf_running hkept]
    exact leads_settleWithin _ (ready_hear hready act) (by omega) rest

theorem Leads.ready {now later : Moment} (h : now.Leads later)
    (hready : now.console.machine.Ready setup) : later.console.machine.Ready setup :=
  h.invariant (P := fun moment => moment.console.machine.Ready setup) hready fun _ _ => ready_step

/-- Acts are answered by steps, as far as the session goes. -/
theorem leads_foldl_feed (hready : console.machine.Ready setup) (acts : List Act) :
    ∃ left, Leads ⟨console, placeOf console .reading, acts⟩
      ⟨acts.foldl feed console, placeOf (acts.foldl feed console) .reading, left⟩ := by
  induction acts generalizing console with
  | nil => exact ⟨[], .refl _⟩
  | cons act rest ih =>
    by_cases hrunning : console.status = .running
    case neg =>
      rw [foldl_feed_of_ended hrunning]
      exact ⟨act :: rest, .refl _⟩
    case pos =>
      have hfed := leads_feed hready hrunning act rest
      obtain ⟨left, hrest⟩ := ih (hfed.ready hready)
      rw [placeOf_running hrunning]
      exact ⟨left, hfed.trans hrest⟩

end Moment

/-! ## From first contact to the end -/

/-- A console that has shown its banner. -/
def contact (setup : Host.Setup) (terminal : Terminal) : Console :=
  let console : Console := { machine := Host.machine setup, terminal }
  ((console.record (.opened "cmder")).record .interruptsReported).write banner

/-- The console that looks at the break flag for the first time: the self test is entered, if there
is one and the banner did not fail. -/
def greet (setup : Host.Setup) (terminal : Terminal) : Console :=
  let console := contact setup terminal
  if console.status = .running ∧ setup.selfTest then
    { console with machine := console.machine.enter selfTestLine }
  else console

theorem start_eq (setup : Host.Setup) (terminal : Terminal) :
    start setup terminal
      = if (greet setup terminal).status = .running then (greet setup terminal).settle
        else greet setup terminal := by
  have hstart : start setup terminal
      = if (contact setup terminal).status = .running then
          if setup.selfTest then
            { contact setup terminal with
              machine := (contact setup terminal).machine.enter selfTestLine }.settle
          else (contact setup terminal).settle
        else contact setup terminal := rfl
  rw [hstart, greet]
  by_cases hrunning : (contact setup terminal).status = .running
  · by_cases htest : setup.selfTest <;> simp [hrunning, htest]
  · simp [hrunning]

theorem ready_greet (setup : Host.Setup) (terminal : Terminal) :
    (greet setup terminal).machine.Ready setup := by
  have hcontact : (contact setup terminal).machine.Ready setup := by
    rw [contact, machine_write]
    exact Machine.Ready.start setup
  unfold greet
  dsimp only
  split
  · exact hcontact.enter selfTestLine
  · exact hcontact

/-- A session ends with its script. -/
theorem status_feed_endOfInput_ne (console : Console) :
    (console.feed .endOfInput).status ≠ .running := by
  unfold feed
  split
  · exact Status.noConfusion
  · assumption

theorem run_of_contact {setup : Host.Setup} {script : List Act}
    (h : ∀ cause rest, script = .failOpen cause :: rest → False) :
    run setup script
      = ((script.dropWhile Act.isPlan).foldl feed
          (start setup ((script.takeWhile Act.isPlan).foldl Terminal.plan {}))).feed .endOfInput := by
  unfold run
  split
  · exact absurd rfl (h _ _)
  · rfl

namespace Moment

/-- The first moment of a session. -/
def opening (setup : Host.Setup) (script : List Act) : Moment :=
  match script with
  | .failOpen cause :: _ => ⟨refused setup cause, .ended, []⟩
  | _ =>
    let console := greet setup ((script.takeWhile Act.isPlan).foldl Terminal.plan {})
    ⟨console, placeOf console .looking, script.dropWhile Act.isPlan ++ [.endOfInput]⟩

/-- A moment of the session that a script makes on a host. -/
def Reached (setup : Host.Setup) (script : List Act) (now : Moment) : Prop :=
  (opening setup script).Leads now

theorem ready_opening (setup : Host.Setup) (script : List Act) :
    (opening setup script).console.machine.Ready setup := by
  unfold opening
  split
  · exact Machine.Ready.start setup
  · exact ready_greet setup _

/-- First contact goes by steps up to the first prompt. -/
theorem leads_start (setup : Host.Setup) (terminal : Terminal) (script : List Act) :
    Leads ⟨greet setup terminal, placeOf (greet setup terminal) .looking, script⟩
      ⟨start setup terminal, placeOf (start setup terminal) .reading, script⟩ := by
  have hready := ready_greet setup terminal
  rw [start_eq]
  generalize greet setup terminal = console at hready ⊢
  by_cases hrunning : console.status = .running
  case neg =>
    rw [if_neg hrunning, placeOf_ended hrunning, placeOf_ended hrunning]
    exact .refl _
  case pos =>
    rw [if_pos hrunning, placeOf_running hrunning]
    exact leads_settleWithin _ hready (by omega) script

/-- The moments of a session end with the console that a run gives. -/
theorem exists_moment_eq_run (setup : Host.Setup) (script : List Act) :
    ∃ last, Reached setup script last ∧ last.place = .ended ∧ last.console = run setup script := by
  unfold Reached opening
  split
  case h_1 cause rest => exact ⟨_, .refl _, rfl, rfl⟩
  case h_2 hcontact =>
    rw [run_of_contact hcontact]
    generalize (script.takeWhile Act.isPlan).foldl Terminal.plan {} = terminal
    generalize script.dropWhile Act.isPlan = acts
    have hstart := leads_start setup terminal (acts ++ [.endOfInput])
    have hready := hstart.ready (ready_greet setup terminal)
    obtain ⟨left, hrest⟩ := leads_foldl_feed hready (acts ++ [.endOfInput])
    rw [List.foldl_append] at hrest
    exact ⟨_, hstart.trans hrest, placeOf_ended (status_feed_endOfInput_ne _) .reading, rfl⟩

end Moment

end Console

end SerialConsole
