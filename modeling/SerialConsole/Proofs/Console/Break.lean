import SerialConsole.Proofs.Console.Moment
import SerialConsole.Proofs.Text.Numeral

/-!
# A break comes first

The break flag can go up at any write, the report of a break included, and while a line is awaited;
the console looks at it only before it asks for an event. `break_answered_first` says that this is
often enough. Once a break is asked for no token runs and nothing is written until the break is
reported, over an empty machine; and no break is reported that nobody asked for.

* `Unanswered` reads off a transcript whether a break is owed, and the flag is up exactly then;
* `Moment.Guarded` is what holds at every moment of a session, with a case for each place
  (`Heeds`): at the interpreter's turn a raised flag finds an empty queue, and a text that is about
  to be written finds the flag down;
* `Machine.Ready.eventText?_execute_ne` keeps the report apart from all that commands print: no text
  of theirs begins with a question mark.
-/

namespace SerialConsole

open Failing

/-! ## Breaks asked for -/

/-- Whether an occurrence asks for a break: the flag goes up, or a signal takes the place of a line. -/
def Occurrence.isAlarm : Occurrence → Bool
  | breakRequested | bufferSet _ => true
  | _ => false

namespace Console

/-- A break was asked for and has not been reported since. -/
def Unanswered (seen : List Occurrence) : Prop :=
  ∃ front alarm back,
    seen = front ++ alarm :: back ∧ alarm.isAlarm ∧ .wrote breakText ∉ back

theorem not_unanswered_nil : ¬ Unanswered [] := by
  rintro ⟨front, alarm, back, hsplit, -⟩
  exact absurd hsplit.symm (List.append_ne_nil_of_right_ne_nil front (List.cons_ne_nil alarm back))

/-- What one more occurrence does to a break that is owed. -/
theorem unanswered_concat {seen : List Occurrence} {occurrence : Occurrence} :
    Unanswered (seen ++ [occurrence])
      ↔ occurrence.isAlarm ∨ (occurrence ≠ .wrote breakText ∧ Unanswered seen) := by
  constructor
  · rintro ⟨front, alarm, back, hsplit, halarm, hback⟩
    -- either the new occurrence is the alarm, or it is the last of those behind the alarm
    rcases List.eq_nil_or_concat back with rfl | ⟨earlier, last, rfl⟩
    · obtain ⟨-, hlast⟩ := List.append_inj' hsplit rfl
      cases hlast
      exact .inl halarm
    · have hsplit' : seen ++ [occurrence] = (front ++ alarm :: earlier) ++ [last] := by
        rw [hsplit, List.concat_eq_append, List.append_assoc, List.cons_append]
      obtain ⟨hseen, hlast⟩ := List.append_inj' hsplit' rfl
      cases hlast
      rw [List.concat_eq_append, List.mem_append, List.mem_singleton, not_or] at hback
      exact .inr ⟨fun h => hback.2 h.symm, front, alarm, earlier, hseen, halarm, hback.1⟩
  · rintro (halarm | ⟨hother, front, alarm, back, rfl, halarm, hback⟩)
    · exact ⟨seen, occurrence, [], rfl, halarm, List.not_mem_nil⟩
    · refine ⟨front, alarm, back ++ [occurrence], by simp, halarm, ?_⟩
      rw [List.mem_append, List.mem_singleton, not_or]
      exact ⟨hback, fun h => hother h.symm⟩

/-! ## Every occurrence -/

/-- Every occurrence stands to what was seen before it as it should. -/
def Each (P : List Occurrence → Occurrence → Prop) (transcript : List Occurrence) : Prop :=
  ∀ before occurrence, before ++ [occurrence] <+: transcript → P before occurrence

section Each

variable {P : List Occurrence → Occurrence → Prop}

theorem each_nil : Each P [] := by
  intro before occurrence hstart
  exact absurd (List.prefix_nil.mp hstart) (List.concat_ne_nil occurrence before)

theorem Each.concat {seen : List Occurrence} (h : Each P seen) {occurrence : Occurrence}
    (hlast : P seen occurrence) : Each P (seen ++ [occurrence]) := by
  intro before other hstart
  rcases List.prefix_concat_iff.mp hstart with hall | hearlier
  · obtain ⟨rfl, hother⟩ := List.append_inj' hall rfl
    cases hother
    exact hlast
  · exact h before other hearlier

end Each

end Console

/-! ## What commands print -/

namespace Text

/-- A text that does not begin with a question mark. -/
def Unmarked (text : String) : Prop := text.toList.head? ≠ some '?'

theorem unmarked_empty : Unmarked "" := by
  unfold Unmarked
  decide

theorem unmarked_newline : Unmarked "\n" := by
  unfold Unmarked
  decide

/-- A row begins with the digits of its address. -/
theorem unmarked_row (base : UInt32) (bytes : List (Option UInt8)) (rest : String) :
    Unmarked (Listing.rowText base bytes ++ rest) := by
  unfold Unmarked Listing.rowText hexWord
  have hlength := length_hexDigits 8 base.toNat
  cases hdigits : hexDigits 8 base.toNat with
  | nil => simp [hdigits] at hlength
  | cons digit digits =>
    obtain ⟨value, rfl⟩ := exists_digitChar_of_mem_hexDigits (hdigits ▸ List.mem_cons_self)
    simp

end Text

theorem Listing.unmarked_listing {memory : AddressSpace} {start : UInt32} {count : Cell}
    {text : String} (h : listing memory start count = .ok text) : Text.Unmarked text := by
  obtain ⟨texts, hrows, htext⟩ := exists_of_bind_eq_ok h
  cases htext
  cases hcount : count.toInt.toNat with
  | zero =>
    rw [hcount] at hrows
    cases hrows
    exact Text.unmarked_empty
  | succ more =>
    rw [hcount] at hrows
    obtain ⟨bytes, -, hrest⟩ := exists_of_bind_eq_ok hrows
    obtain ⟨rest, -, htexts⟩ := exists_of_bind_eq_ok hrest
    cases htexts
    rw [String.join_cons]
    exact Text.unmarked_row _ bytes (String.join rest)

theorem Dictionary.unmarked_listing (dictionary : Dictionary) :
    Text.Unmarked dictionary.listing := by
  unfold Text.Unmarked Dictionary.listing
  cases dictionary.entries with
  | nil => decide
  | cons entry rest => simp [String.join_cons]

/-- No command prints a text that begins with a question mark. -/
theorem Builtin.decides_unmarked {ρ : Type} (command : Builtin) (machine : Machine ρ) :
    Decides (fun effect => Text.Unmarked effect.text) (command.effect machine) := by
  refine (command.decides_yields machine).imp fun effect hyields => ?_
  cases command with
  | newline => exact hyields ▸ Text.unmarked_newline
  | words => exact hyields ▸ machine.dictionary.unmarked_listing
  | dump =>
    obtain ⟨start, count, text, htext, rfl⟩ := hyields
    exact Listing.unmarked_listing htext
  | romStore =>
    obtain ⟨_, _, _, -, rfl⟩ := hyields
    exact Text.unmarked_empty
  | _ =>
    obtain ⟨_, rfl⟩ := hyields
    exact Text.unmarked_empty

/-- Nothing that comes of a host's machine is written as the report of a break. -/
theorem Machine.Ready.eventText?_execute_ne {setup : Host.Setup} {machine : Machine QueuedRadio}
    (h : machine.Ready setup) : Console.eventText? machine.execute.1 ≠ some Console.breakText := by
  have hbreak : ¬ Text.Unmarked Console.breakText := fun h => h rfl
  cases hevent : machine.execute.1 with
  | stopped => exact nofun
  | failed fault =>
    -- the report of a fault begins with an escape
    intro htext
    have hlist := congrArg String.toList (Option.some.inj htext)
    simp [Console.faultText, Console.breakText] at hlist
  | printed text =>
    obtain ⟨token, effect, earlier, hdictionary, hdecided, rfl⟩ :=
      (execute_flushed h.native h.flushed).2.2 text hevent
    have hnative : earlier.dictionary.Native := hdictionary ▸ h.native
    have hunmarked := Token.decides (P := fun effect => Text.Unmarked effect.text) hnative
      (fun _ => Text.unmarked_empty) (fun command => command.decides_unmarked earlier) token
    rw [hdecided] at hunmarked
    intro htext
    exact hbreak (Option.some.inj htext ▸ hunmarked)

/-! ## What each occurrence must be -/

namespace Console

/-- A moment at which a break is reported: the flag is up when the console looks at it, and the step
writes the report over an empty machine. -/
structure Moment.Answers (now : Moment) : Prop where
  looking : now.place = .looking
  raised : now.console.terminal.breakRequested = true
  reported : now.console.terminal.transcript ++ [.wrote breakText]
    <+: now.step.console.terminal.transcript
  stack : now.step.console.machine.stack.toList = []
  idle : now.step.console.machine.pending = []
  flushed : now.step.console.machine.printed = ""

/-- How an occurrence of a session must stand to what was seen before it: the report of a break is
written if one is owed and only then, at a moment that answers it, and the interpreter finds no token
while one is owed. -/
def Allowed (setup : Host.Setup) (script : List Act) (before : List Occurrence) : Occurrence → Prop
  | .wrote text => (text = breakText ↔ Unanswered before) ∧
    (text = breakText → ∃ now, Moment.Reached setup script now ∧
      now.console.terminal.transcript = before ∧ now.Answers)
  | .interpreted waiting => Unanswered before → waiting = 0
  | _ => True

end Console

/-! ## Terminals -/

namespace Terminal

open Console

/-- A terminal whose flag is up exactly when a break is owed, and on which every occurrence is as it
should be. -/
structure Orderly (P : List Occurrence → Occurrence → Prop) (terminal : Terminal) : Prop where
  tells : terminal.breakRequested = true ↔ Unanswered terminal.transcript
  each : Each P terminal.transcript

section Orderly

variable {P : List Occurrence → Occurrence → Prop} {terminal : Terminal}

/-- An occurrence that neither asks for a break nor reports one. -/
theorem Orderly.record (h : terminal.Orderly P) {occurrence : Occurrence}
    (hallowed : P terminal.transcript occurrence) (halarm : ¬ occurrence.isAlarm)
    (hreport : occurrence ≠ .wrote breakText) : (terminal.record occurrence).Orderly P where
  tells := by
    show terminal.breakRequested = true ↔ Unanswered (terminal.transcript ++ [occurrence])
    rw [unanswered_concat, h.tells]
    exact ⟨fun howed => .inr ⟨hreport, howed⟩, fun howed => (howed.resolve_left halarm).2⟩
  each := h.each.concat hallowed

theorem orderly_requestBreak (h : Each P terminal.transcript)
    (hallowed : P terminal.transcript .breakRequested) : terminal.requestBreak.Orderly P where
  tells := by
    show true = true ↔ Unanswered (terminal.transcript ++ [.breakRequested])
    rw [unanswered_concat]
    exact ⟨fun _ => .inl rfl, fun _ => rfl⟩
  each := h.concat hallowed

/-- A plan changes neither the flag nor what was seen. -/
theorem Orderly.plan (h : terminal.Orderly P) (act : Act) : (terminal.plan act).Orderly P := by
  unfold Terminal.plan
  split <;> exact ⟨h.tells, h.each⟩

theorem Orderly.foldl_plan (h : terminal.Orderly P) (hdown : terminal.breakRequested = false)
    (acts : List Act) :
    (acts.foldl Terminal.plan terminal).Orderly P ∧
      (acts.foldl Terminal.plan terminal).breakRequested = false := by
  induction acts generalizing terminal with
  | nil => exact ⟨h, hdown⟩
  | cons act rest ih =>
    apply ih (h.plan act)
    unfold Terminal.plan
    split <;> exact hdown

/-- A text that was written is the next thing seen, and an interrupt can strike behind it. -/
theorem write_cases {text : String} {written : Terminal}
    (h : terminal.write text = .ok written) :
    (written.transcript = terminal.transcript ++ [.wrote text] ∧
        written.breakRequested = terminal.breakRequested) ∨
      (written.transcript = terminal.transcript ++ [.wrote text] ++ [.breakRequested] ∧
        written.breakRequested = true) := by
  unfold Terminal.write at h
  split at h
  case h_1 => cases h
  case h_2 =>
    dsimp only at h
    split at h
    case isTrue =>
      cases h
      exact .inr ⟨rfl, rfl⟩
    case isFalse =>
      cases h
      exact .inl ⟨rfl, rfl⟩

theorem prefix_of_write {text : String} {written : Terminal}
    (h : terminal.write text = .ok written) :
    terminal.transcript ++ [.wrote text] <+: written.transcript := by
  rcases write_cases h with ⟨htranscript, -⟩ | ⟨htranscript, -⟩
  · exact htranscript ▸ List.prefix_rfl
  · exact htranscript ▸ List.prefix_append _ _

/-- A terminal stays orderly when a text is written. The report of a break starts with the flag
down; any other text leaves the flag as it is, unless an interrupt strikes behind it. -/
theorem orderly_of_write {text : String} {written : Terminal}
    (hwrite : terminal.write text = .ok written) (heach : Each P terminal.transcript)
    (hallowed : P terminal.transcript (.wrote text))
    (hbreak : ∀ before, P before .breakRequested)
    (htells : terminal.breakRequested = true
      ↔ text ≠ breakText ∧ Unanswered terminal.transcript) : written.Orderly P := by
  have hafter := heach.concat hallowed
  rcases write_cases hwrite with ⟨htranscript, hflag⟩ | ⟨htranscript, hflag⟩
  · constructor
    · rw [hflag, htells, htranscript, unanswered_concat]
      simp [Occurrence.isAlarm]
    · rw [htranscript]
      exact hafter
  · constructor
    · rw [hflag, htranscript, unanswered_concat]
      exact iff_of_true rfl (.inl rfl)
    · rw [htranscript]
      exact hafter.concat (hbreak _)

end Orderly

end Terminal

/-! ## Every moment -/

namespace Console

/-- What a console has to heed at each place. Only when the session is over may a break be owed with
the flag down: its report failed. -/
def Heeds (setup : Host.Setup) (script : List Act) (console : Console) : Place → Prop
  | .looking | .reading => console.terminal.Orderly (Allowed setup script)
  | .interpreting => console.terminal.Orderly (Allowed setup script) ∧
    (console.terminal.breakRequested = true → console.machine.pending = [])
  | .showing text => console.terminal.Orderly (Allowed setup script) ∧
    console.terminal.breakRequested = false ∧ text ≠ breakText
  | .ended => Each (Allowed setup script) console.terminal.transcript

/-- What holds at every moment of a session. -/
structure Moment.Guarded (setup : Host.Setup) (script : List Act) (now : Moment) : Prop where
  ready : now.console.machine.Ready setup
  heeds : now.console.Heeds setup script now.place

section Heeds

variable {setup : Host.Setup} {script : List Act} {console : Console}

/-- Whether the session goes on or not. -/
theorem heeds_placeOf {place : Place}
    (horderly : Each (Allowed setup script) console.terminal.transcript)
    (hgoes : console.status = .running → console.Heeds setup script place) :
    console.Heeds setup script (Moment.placeOf console place) := by
  unfold Moment.placeOf
  split
  case isTrue hrunning => exact hgoes hrunning
  case isFalse => exact horderly

theorem write_of_ok {text : String} {written : Terminal}
    (h : console.terminal.write text = .ok written) :
    console.write text = { console with terminal := written } := by
  rw [write, h]

theorem write_of_error {text cause : String} (h : console.terminal.write text = .error cause) :
    console.write text = { console with status := .failed cause } := by
  rw [write, h]

/-- Writing a text that is not the report of a break. -/
theorem heeds_write {text : String} (h : console.Heeds setup script (.showing text)) :
    (console.write text).Heeds setup script (Moment.placeOf (console.write text) .looking) := by
  obtain ⟨horderly, hdown, htext⟩ := h
  have howed : ¬ Unanswered console.terminal.transcript := by
    rw [← horderly.tells, hdown]
    exact Bool.false_ne_true
  cases hwrite : console.terminal.write text with
  | error cause =>
    rw [write_of_error hwrite]
    exact horderly.each
  | ok written =>
    have hwritten : written.Orderly (Allowed setup script) := by
      apply Terminal.orderly_of_write hwrite horderly.each
      · exact ⟨iff_of_false htext howed, fun h => absurd h htext⟩
      · exact fun _ => True.intro
      · rw [hdown]
        exact iff_of_false Bool.false_ne_true fun h => howed h.2
    rw [write_of_ok hwrite]
    exact heeds_placeOf hwritten.each fun _ => hwritten

/-- A console that is about to report a break: the machine is cleared and the flag taken down. -/
def answering (console : Console) : Console :=
  { console with
    machine := console.machine.clear
    terminal := { console.terminal with breakRequested := false } }

theorem takeBreak_of_down (h : console.terminal.breakRequested = false) :
    console.takeBreak = console := by
  unfold takeBreak
  rw [h]
  rfl

theorem takeBreak_of_raised (h : console.terminal.breakRequested = true) :
    console.takeBreak = console.answering.write breakText := by
  unfold takeBreak
  rw [h]
  rfl

theorem Moment.answers_of_write {written : Terminal} (hready : console.machine.Ready setup)
    (hraised : console.terminal.breakRequested = true)
    (hwrite : console.answering.terminal.write breakText = .ok written) (rest : List Act) :
    Moment.Answers ⟨console, .looking, rest⟩ := by
  have hstep : (Moment.step ⟨console, .looking, rest⟩).console
      = { console.answering with terminal := written } := by
    rw [step_looking, takeBreak_of_raised hraised, write_of_ok hwrite]
  constructor
  case looking => rfl
  case raised => exact hraised
  case reported =>
    have hreported := Terminal.prefix_of_write hwrite
    rw [hstep]
    exact hreported
  case stack =>
    rw [hstep]
    exact DataStack.toList_clear console.machine.stack
  case idle => rw [hstep]; rfl
  case flushed =>
    rw [hstep]
    exact hready.flushed

/-- Looking at the flag. A raised flag is answered here and nowhere else. -/
theorem heeds_takeBreak {rest : List Act} (hready : console.machine.Ready setup)
    (hreached : Moment.Reached setup script ⟨console, .looking, rest⟩)
    (horderly : console.terminal.Orderly (Allowed setup script)) :
    console.takeBreak.Heeds setup script (Moment.placeOf console.takeBreak .interpreting) := by
  cases hflag : console.terminal.breakRequested with
  | false =>
    rw [takeBreak_of_down hflag]
    apply heeds_placeOf horderly.each
    intro _
    exact ⟨horderly, fun hraised => absurd (hflag.symm.trans hraised) Bool.false_ne_true⟩
  | true =>
    rw [takeBreak_of_raised hflag]
    cases hwrite : console.answering.terminal.write breakText with
    | error cause =>
      rw [write_of_error hwrite]
      exact horderly.each
    | ok written =>
      have hanswers := Moment.answers_of_write hready hflag hwrite rest
      have hwritten : written.Orderly (Allowed setup script) := by
        apply Terminal.orderly_of_write hwrite horderly.each
        · exact ⟨iff_of_true rfl (horderly.tells.mp hflag), fun _ => ⟨_, hreached, rfl, hanswers⟩⟩
        · exact fun _ => True.intro
        · exact iff_of_false Bool.false_ne_true fun h => h.1 rfl
      rw [write_of_ok hwrite]
      exact heeds_placeOf hwritten.each fun _ => ⟨hwritten, fun _ => rfl⟩

/-- Asking for an event. With the flag up there is no token to run, so a text can only come while it
is down. -/
theorem heeds_ask (hready : console.machine.Ready setup)
    (h : console.Heeds setup script .interpreting) :
    console.ask.2.Heeds setup script (Moment.placeAfter console.ask.1) := by
  obtain ⟨horderly, hidle⟩ := h
  have hasked : (console.terminal.record (.interpreted console.machine.pending.length)).Orderly
      (Allowed setup script) := by
    apply horderly.record
    · intro howed
      rw [hidle (horderly.tells.mpr howed)]
      rfl
    · exact Bool.false_ne_true
    · exact Occurrence.noConfusion
  have hevent := hready.eventText?_execute_ne
  rw [ask_eq hready, Moment.placeAfter]
  cases htext : eventText? console.machine.execute.1 with
  | none => exact hasked
  | some text =>
    refine ⟨hasked, ?_, fun h => hevent (h ▸ htext)⟩
    -- a raised flag means an empty queue, and then the event is the stop
    show console.terminal.breakRequested = false
    by_contra hraised
    rw [Bool.not_eq_false] at hraised
    rw [Machine.execute_of_idle hready.flushed (hidle hraised)] at htext
    exact Option.some_ne_none text htext.symm

theorem orderly_hear (h : console.terminal.Orderly (Allowed setup script)) (act : Act) :
    (console.hear act).terminal.Orderly (Allowed setup script) := by
  have hbreak := Terminal.orderly_requestBreak h.each True.intro
  unfold hear
  split
  case h_1 line =>
    unfold accept
    split
    · exact h
    · exact h.record True.intro Bool.false_ne_true Occurrence.noConfusion
  case h_2 =>
    have hset : Each (Allowed setup script) (console.terminal.transcript ++ [.bufferSet ""]) :=
      h.each.concat True.intro
    exact Terminal.orderly_requestBreak hset True.intro
  case h_6 => exact hbreak
  case h_7 writes => exact h.plan (.interruptAfter writes)
  case h_8 nth cause => exact h.plan (.failWrite nth cause)
  all_goals exact h

/-- Waiting for the far end. -/
theorem heeds_hear (h : console.terminal.Orderly (Allowed setup script)) (act : Act) :
    (console.hear act).Heeds setup script
      (Moment.placeOf (console.hear act) (if act.isPrompted then .looking else .reading)) := by
  have hheard := orderly_hear h act
  apply heeds_placeOf hheard.each
  intro _
  split
  · exact hheard
  · exact hheard

end Heeds

namespace Moment

variable {setup : Host.Setup} {script : List Act}

/-- One step keeps the guard. -/
theorem Guarded.step {now : Moment} (hreached : Reached setup script now)
    (h : now.Guarded setup script) : now.step.Guarded setup script := by
  refine ⟨ready_step h.ready, ?_⟩
  obtain ⟨console, place, rest⟩ := now
  -- the machine is looked after by `ready_step`; what is left depends on the place alone
  have hheeds := h.heeds
  cases place with
  | looking => exact heeds_takeBreak h.ready hreached hheeds
  | interpreting => exact heeds_ask h.ready hheeds
  | showing text => exact heeds_write hheeds
  | reading =>
    cases rest with
    | nil => exact hheeds
    | cons act rest => exact heeds_hear hheeds act
  | ended => exact hheeds

/-- The banner is written before the flag is looked at for the first time, and can already raise
it. -/
theorem heeds_greet {terminal : Terminal} (horderly : terminal.Orderly (Allowed setup script))
    (hdown : terminal.breakRequested = false) :
    (greet setup terminal).Heeds setup script (placeOf (greet setup terminal) .looking) := by
  have hopened : (terminal.record (.opened "cmder")).Orderly (Allowed setup script) :=
    horderly.record True.intro Bool.false_ne_true Occurrence.noConfusion
  have hreported : ((terminal.record (.opened "cmder")).record .interruptsReported).Orderly
      (Allowed setup script) :=
    hopened.record True.intro Bool.false_ne_true Occurrence.noConfusion
  have hbanner : banner ≠ breakText := by decide
  have hcontact : (contact setup terminal).Heeds setup script
      (placeOf (contact setup terminal) .looking) := heeds_write ⟨hreported, hdown, hbanner⟩
  unfold greet
  dsimp only
  split
  case isTrue htest =>
    rw [placeOf_running htest.1] at hcontact
    have hentered : (contact setup terminal).terminal.Orderly (Allowed setup script) := hcontact
    exact heeds_placeOf hentered.each fun _ => hentered
  case isFalse => exact hcontact

theorem guarded_opening (setup : Host.Setup) (script : List Act) :
    (opening setup script).Guarded setup script := by
  refine ⟨ready_opening setup script, ?_⟩
  unfold opening
  split
  case h_1 cause rest => exact each_nil.concat True.intro
  case h_2 =>
    have horderly : Terminal.Orderly (Allowed setup script) {} :=
      ⟨iff_of_false Bool.false_ne_true not_unanswered_nil, each_nil⟩
    obtain ⟨hplanned, hdown⟩ := horderly.foldl_plan rfl (script.takeWhile Act.isPlan)
    exact heeds_greet hplanned hdown

/-- The guard holds at every moment of a session. -/
theorem Reached.guarded {now : Moment} (h : Reached setup script now) :
    now.Guarded setup script :=
  h.invariant (guarded_opening setup script) fun _ => Guarded.step

end Moment

/-- A break comes first. In every session, on every host and for every script:

* once a break is asked for, the next text that is written is the report of a break, and a report is
  written only if one was asked for since the last report;
* while a break is owed, the interpreter is given control only with no token waiting;
* every report is written at a moment of the session at which the flag is up, and the stack, the
  queue and the printed text are empty behind it;
* and the moments of the session do end with the console that the run gives. -/
theorem break_answered_first (setup : Host.Setup) (script : List Act) :
    let transcript := (run setup script).terminal.transcript
    (∀ before text, before ++ [.wrote text] <+: transcript →
        (text = breakText ↔ Unanswered before)) ∧
      (∀ before waiting, before ++ [.interpreted waiting] <+: transcript →
        Unanswered before → waiting = 0) ∧
      (∀ before, before ++ [.wrote breakText] <+: transcript →
        ∃ now, Moment.Reached setup script now ∧ now.console.terminal.transcript = before ∧
          now.Answers) ∧
      ∃ last, Moment.Reached setup script last ∧ last.place = .ended ∧
        last.console = run setup script := by
  intro transcript
  obtain ⟨last, hreached, hended, hlast⟩ := Moment.exists_moment_eq_run setup script
  have heach : Each (Allowed setup script) transcript := by
    have hheeds := hreached.guarded.heeds
    rw [hended, hlast] at hheeds
    exact hheeds
  refine ⟨fun before text hwrote => (heach _ _ hwrote).1, fun before waiting hasked => ?_,
    fun before hwrote => (heach _ _ hwrote).2 rfl, last, hreached, hended, hlast⟩
  exact heach before (.interpreted waiting) hasked

-- A line is broken off behind its first text, and the report of that break is struck again: the flag
-- stays up over the prompt, and the line that is read there is dropped.
example :
    (run { imagePath := "rom.bin", noise := fun _ => 0 }
        [.interruptAfter 2, .interruptAfter 3, .line "nl nl nl", .line "nl"]).terminal.transcript
      = [.opened "cmder", .interruptsReported, .wrote "\n[cmder]\n", .interpreted 0,
        .remembered "nl nl nl", .interpreted 3, .wrote "\n", .breakRequested,
        .wrote "?BREAK\n", .breakRequested, .interpreted 0,
        .remembered "nl", .wrote "?BREAK\n", .interpreted 0] := by
  decide +kernel

end Console

end SerialConsole
