import SerialConsole.Machine.Execution
import SerialConsole.Proofs.Machine.Token

/-!
# The event loop and the tokens of a line

A machine hands out events: it runs tokens until one of them prints or fails, empties what was
printed before it runs another, and drops the line at a fault. Beside it stands the plain meaning of
a line, `Machine.runTokens`: every token is run right after the one before it, up to the first that
fails. `drainWithin_eq` says that the loop shows exactly this and ends by itself; it is an
induction over the queue that needs of the tokens only what `MachineM.run_does` says.
-/

namespace SerialConsole

open Failing

variable {ρ : Type}

/-! ## Tokens one by one -/

/-- What comes of tokens that are run one right after the other. -/
structure Outcome (ρ : Type) where
  /-- What each token that ran to its end printed. -/
  texts : List String
  /-- Why the next token failed, if there was one left and it did. -/
  fault? : Option Fault
  /-- The machine behind the last token that ran to its end. -/
  machine : Machine ρ

/-- The events that show an outcome: every text that is not empty, the fault, the stop. -/
def Outcome.events (outcome : Outcome ρ) : List Event :=
  (outcome.texts.filter (· ≠ "")).map .printed ++ outcome.fault?.toList.map .failed ++ [.stopped]

/-- Nothing is shown of texts that are all empty. -/
theorem Outcome.events_of_silent {texts : List String} (h : ∀ text ∈ texts, text = "")
    (fault? : Option Fault) (machine : Machine ρ) :
    (Outcome.mk texts fault? machine).events = fault?.toList.map .failed ++ [.stopped] := by
  have hnone : texts.filter (· ≠ "") = [] := by
    rw [List.filter_eq_nil_iff]
    intro text htext
    simp [h text htext]
  simp only [Outcome.events, hnone, List.map_nil, List.nil_append]

/-- Goes on from the machine that an outcome leaves, unless the outcome has a fault. -/
def Outcome.andThen (outcome : Outcome ρ) (next : Machine ρ → Outcome ρ) : Outcome ρ :=
  match outcome.fault? with
  | some _ => outcome
  | none =>
    { next outcome.machine with texts := outcome.texts ++ (next outcome.machine).texts }

namespace Machine

/-- What was printed since an earlier state of the machine. -/
def printedSince (machine earlier : Machine ρ) : String :=
  String.ofList (machine.printed.toList.drop earlier.printed.toList.length)

theorem printedSince_eq {machine earlier : Machine ρ} {text : String}
    (h : machine.printed = earlier.printed ++ text) : machine.printedSince earlier = text := by
  rw [printedSince, h, String.toList_append, List.drop_left, String.ofList_toList]

theorem enter_of_idle {machine : Machine ρ} (hidle : machine.pending = [])
    (hflushed : machine.printed = "") (line : String) :
    machine.enter line
      = { machine with
          pending := Token.ofLine line, printed := "", journal := machine.journal } := by
  simp only [enter, hidle, hflushed, List.nil_append]

variable [Radio ρ]

/-- Runs tokens one right after the other, up to the first that fails. -/
def runTokens (machine : Machine ρ) : List Token → Outcome ρ
  | [] => { texts := [], fault? := none, machine }
  | token :: rest =>
    match MachineM.run token machine with
    | .ok _ next =>
      let outcome := next.runTokens rest
      { outcome with texts := next.printedSince machine :: outcome.texts }
    | .error fault _ => { texts := [], fault? := some fault, machine }

theorem runTokens_cons_of_ok {machine next : Machine ρ} {token : Token}
    (h : MachineM.run token machine = .ok () next) (rest : List Token) :
    machine.runTokens (token :: rest) = { next.runTokens rest with
      texts := next.printedSince machine :: (next.runTokens rest).texts } := by
  rw [runTokens, h]

theorem runTokens_cons_of_error {machine after : Machine ρ} {token : Token} {fault : Fault}
    (h : MachineM.run token machine = .error fault after) (rest : List Token) :
    machine.runTokens (token :: rest) = { texts := [], fault? := some fault, machine } := by
  rw [runTokens, h]

/-- Two lists of tokens one behind the other. -/
theorem runTokens_append (machine : Machine ρ) (front back : List Token) :
    machine.runTokens (front ++ back) = (machine.runTokens front).andThen (·.runTokens back) := by
  induction front generalizing machine with
  | nil => rfl
  | cons token rest ih =>
    rw [List.cons_append]
    cases hrun : MachineM.run token machine with
    | ok _ next =>
      rw [runTokens_cons_of_ok hrun, runTokens_cons_of_ok hrun, ih next]
      simp only [Outcome.andThen]
      split <;> rfl
    | error fault after =>
      rw [runTokens_cons_of_error hrun, runTokens_cons_of_error hrun]
      rfl

/-- Every token accounts for one text or for the fault. -/
theorem length_texts_runTokens (tokens : List Token) (machine : Machine ρ) :
    (machine.runTokens tokens).texts.length + (machine.runTokens tokens).fault?.toList.length
      ≤ tokens.length := by
  induction tokens generalizing machine with
  | nil => simp [runTokens]
  | cons token rest ih =>
    cases hrun : MachineM.run token machine with
    | ok _ next =>
      have hrest := ih next
      rw [runTokens_cons_of_ok hrun]
      simp only [List.length_cons]
      omega
    | error fault after =>
      rw [runTokens_cons_of_error hrun]
      simp

theorem length_events_runTokens (tokens : List Token) (machine : Machine ρ) :
    (machine.runTokens tokens).events.length ≤ tokens.length + 1 := by
  have hcount := length_texts_runTokens tokens machine
  have hshown := List.length_filter_le (· ≠ "") (machine.runTokens tokens).texts
  simp only [Outcome.events, List.length_append, List.length_map, List.length_singleton]
  omega

/-! ## One event -/

section Trace

variable {machine : Machine ρ} {token : Token} {rest : List Token} (room fuel : Nat)

theorem traceWithin_of_printed (h : machine.printed ≠ "") :
    machine.traceWithin room (fuel + 1)
      = ([], .printed machine.printed, { machine with printed := "" }) := by
  rw [traceWithin, if_neg h]

theorem traceWithin_of_idle (hflushed : machine.printed = "") (hidle : machine.pending = []) :
    machine.traceWithin room (fuel + 1) = ([], .stopped, machine) := by
  rw [traceWithin, if_pos hflushed]
  simp only [hidle]

/-- A token that runs to its end is not an event: the loop goes on from where it ended. -/
theorem traceWithin_of_ok {room : Nat} {next : Machine ρ} (hflushed : machine.printed = "")
    (hpending : machine.pending = token :: rest)
    (hrun : MachineM.runWithin room token { machine with pending := rest } = .ok () next) :
    machine.traceWithin room (fuel + 1)
      = (⟨token, { machine with pending := rest }⟩ :: (next.traceWithin room fuel).1,
          (next.traceWithin room fuel).2) := by
  rw [traceWithin, if_pos hflushed]
  simp only [hpending, hrun]
  rfl

theorem traceWithin_of_error {room : Nat} {after : Machine ρ} {fault : Fault}
    (hflushed : machine.printed = "") (hpending : machine.pending = token :: rest)
    (hrun : MachineM.runWithin room token { machine with pending := rest } = .error fault after) :
    machine.traceWithin room (fuel + 1)
      = ([⟨token, { machine with pending := rest }⟩], .failed fault, after.abandonLine fault) := by
  rw [traceWithin, if_pos hflushed]
  simp only [hpending, hrun]

end Trace

theorem execute_of_printed {machine : Machine ρ} (h : machine.printed ≠ "") :
    machine.execute = (.printed machine.printed, { machine with printed := "" }) := by
  rw [execute, executeUnder, traceWithin_of_printed _ _ h]

theorem execute_of_idle {machine : Machine ρ} (hflushed : machine.printed = "")
    (hidle : machine.pending = []) : machine.execute = (.stopped, machine) := by
  rw [execute, executeUnder, traceWithin_of_idle _ _ hflushed hidle]

/-- The loop goes on behind a token that queues nothing as if it were asked anew. -/
theorem execute_of_ok {machine next : Machine ρ} {token : Token} {rest : List Token}
    (hflushed : machine.printed = "") (hpending : machine.pending = token :: rest)
    (hrun : MachineM.run token { machine with pending := rest } = .ok () next)
    (hrest : next.pending = rest) : machine.execute = next.execute := by
  -- one token less waits, which is just what the step has used up
  have hfuel : Limits.device.input + machine.pending.length
      = Limits.device.input + next.pending.length + 1 := by
    rw [hpending, hrest, List.length_cons, Nat.add_assoc]
  rw [execute, executeUnder, traceWithin_of_ok _ hflushed hpending hrun, hfuel]
  rfl

theorem execute_of_error {machine after : Machine ρ} {token : Token} {rest : List Token}
    {fault : Fault} (hflushed : machine.printed = "") (hpending : machine.pending = token :: rest)
    (hrun : MachineM.run token { machine with pending := rest } = .error fault after) :
    machine.execute = (.failed fault, after.abandonLine fault) := by
  rw [execute, executeUnder, traceWithin_of_error _ hflushed hpending hrun]

/-- The next event of a machine with nothing printed. Nothing is left printed behind it; unless it is
the stop, it has used up a token; and a text is what one token was decided to print. -/
theorem execute_flushed {machine : Machine ρ} (hnative : machine.dictionary.Native)
    (hflushed : machine.printed = "") :
    machine.execute.2.printed = "" ∧
      (machine.execute.1 ≠ .stopped →
        machine.execute.2.pending.length < machine.pending.length) ∧
      ∀ text, machine.execute.1 = .printed text →
        ∃ (token : Token) (effect : Effect) (earlier : Machine ρ),
          earlier.dictionary = machine.dictionary ∧ token.effect earlier = .ok effect ∧
            effect.text = text := by
  generalize hpending : machine.pending = tokens
  induction tokens generalizing machine with
  | nil =>
    rw [execute_of_idle hflushed hpending]
    exact ⟨hflushed, fun h => absurd rfl h, fun text h => nomatch h⟩
  | cons token rest ih =>
    have hstarted : ({ machine with pending := rest } : Machine ρ).dictionary.Native := hnative
    rcases MachineM.run_cases hstarted token with
      ⟨effect, journal, hdecided, hrun⟩ | ⟨fault, journal, -, hrun⟩
    case inr =>
      rw [execute_of_error hflushed hpending hrun]
      exact ⟨hflushed, fun _ => Nat.succ_pos _, fun text h => nomatch h⟩
    case inl =>
      rw [execute_of_ok hflushed hpending hrun rfl]
      generalize hnext : { effect.on { machine with pending := rest } with journal } = next
      have hdictionary : next.dictionary = machine.dictionary := by rw [← hnext]; rfl
      have hrest : next.pending = rest := by rw [← hnext]; rfl
      have hprinted : next.printed = effect.text := by
        rw [← hnext]
        show machine.printed ++ effect.text = effect.text
        rw [hflushed, String.empty_append]
      by_cases hsilent : effect.text = ""
      · obtain ⟨hempty, hfewer, htext⟩ :=
          ih (hdictionary ▸ hnative) (hprinted.trans hsilent) hrest
        refine ⟨hempty, fun hgoes => Nat.lt_succ_of_lt (hfewer hgoes), ?_⟩
        rwa [hdictionary] at htext
      · -- the loop stops here to show what the token printed
        rw [execute_of_printed (by rwa [hprinted]), hprinted]
        refine ⟨rfl, fun _ => ?_, fun text h => ?_⟩
        · show next.pending.length < _
          rw [hrest]
          exact Nat.lt_succ_self _
        · cases h
          exact ⟨token, effect, _, rfl, hdecided, rfl⟩

/-! ## All events -/

theorem drainWithin_of_idle {machine : Machine ρ} (hflushed : machine.printed = "")
    (hidle : machine.pending = []) (calls : Nat) :
    machine.drainWithin (calls + 1) = ([.stopped], machine) := by
  rw [drainWithin, execute_of_idle hflushed hidle]

theorem drainWithin_of_event {machine next : Machine ρ} {event : Event}
    (h : machine.execute = (event, next)) (hgoes : event ≠ .stopped) (calls : Nat) :
    machine.drainWithin (calls + 1)
      = (event :: (next.drainWithin calls).1, (next.drainWithin calls).2) := by
  rw [drainWithin, h]
  cases event with
  | stopped => exact absurd rfl hgoes
  | printed text => rfl
  | failed fault => rfl

theorem drainWithin_congr {machine other : Machine ρ} (h : machine.execute = other.execute)
    (calls : Nat) : machine.drainWithin (calls + 1) = other.drainWithin (calls + 1) := by
  rw [drainWithin, drainWithin, h]

/-- The loop over a queue of tokens shows what comes of running them one by one, and leaves the
machine that they leave; it ends by itself within one event more than there are tokens. -/
theorem drainWithin_eq (tokens : List Token) (machine : Machine ρ)
    (hnative : machine.dictionary.Native) (journal : List Notice) :
    ∃ noted, ∀ calls, tokens.length < calls →
      { machine with pending := tokens, printed := "", journal }.drainWithin calls
        = ((machine.runTokens tokens).events,
            { (machine.runTokens tokens).machine with
              pending := [], printed := "", journal := noted }) := by
  induction tokens generalizing machine journal with
  | nil =>
    refine ⟨journal, fun calls hcalls => ?_⟩
    obtain ⟨spare, rfl⟩ := Nat.exists_eq_add_of_lt hcalls
    rw [drainWithin_of_idle rfl rfl]
    rfl
  | cons token rest ih =>
    -- the loop has taken the token off the queue when it runs it; the token cannot tell
    let waiting : Machine ρ := { machine with pending := token :: rest, printed := "", journal }
    let started : Machine ρ := { machine with pending := rest, printed := "", journal }
    have hsame : token.effect started = token.effect machine :=
      Token.effect_congr ⟨rfl, rfl, rfl, rfl⟩ token
    have hstarted : started.dictionary.Native := hnative
    have hloop := MachineM.run_does hstarted token
    rcases MachineM.run_cases hnative token with
      ⟨effect, first, hdecided, hplain⟩ | ⟨fault, _, hdecided, hplain⟩
    case inr =>
      rw [hsame, hdecided] at hloop
      obtain ⟨noted, hloop⟩ := hloop
      have hexecute : waiting.execute = (.failed fault, _) := execute_of_error rfl rfl hloop
      refine ⟨.lineAbandoned fault rest.length :: noted, fun calls hcalls => ?_⟩
      obtain ⟨spare, rfl⟩ : ∃ spare, calls = spare + 1 + 1 := ⟨calls - 2, by simp at hcalls; omega⟩
      rw [drainWithin_of_event hexecute (by simp), drainWithin_of_idle rfl rfl,
        runTokens_cons_of_error hplain]
      rfl
    case inl =>
      rw [hsame, hdecided] at hloop
      obtain ⟨second, hloop⟩ := hloop
      let next : Machine ρ := { effect.on machine with journal := first }
      have hafter : { effect.on started with journal := second }
          = { next with pending := rest, printed := effect.text, journal := second } := by
        simp [Effect.on, started, next]
      have hskip : waiting.execute
          = { next with pending := rest, printed := effect.text, journal := second }.execute :=
        execute_of_ok rfl rfl (hloop.trans (by rw [hafter])) rfl
      have htext : next.printedSince machine = effect.text := printedSince_eq rfl
      obtain ⟨noted, hrest⟩ := ih next hnative second
      refine ⟨noted, fun calls hcalls => ?_⟩
      obtain ⟨spare, rfl⟩ := Nat.exists_eq_add_of_lt (Nat.zero_lt_of_lt hcalls)
      rw [Nat.zero_add, drainWithin_congr hskip, runTokens_cons_of_ok hplain]
      rw [List.length_cons] at hcalls
      -- what the token printed is an event of its own before the next token runs
      by_cases hsilent : effect.text = ""
      · rw [hsilent, hrest _ (by omega)]
        simp [Outcome.events, htext, hsilent, next]
      · rw [drainWithin_of_event (execute_of_printed hsilent) (by simp), hrest _ (by omega)]
        simp [Outcome.events, htext, hsilent, next]

/-- A line on an idle machine, however many events are asked for beyond those there are. -/
theorem drainWithin_enter {machine : Machine ρ} (hnative : machine.dictionary.Native)
    (hidle : machine.pending = []) (hflushed : machine.printed = "") (line : String) :
    ∃ noted, ∀ calls, (Token.ofLine line).length < calls →
      (machine.enter line).drainWithin calls
        = ((machine.runTokens (Token.ofLine line)).events,
            { (machine.runTokens (Token.ofLine line)).machine with
              pending := [], printed := "", journal := noted }) := by
  rw [enter_of_idle hidle hflushed]
  exact drainWithin_eq (Token.ofLine line) machine hnative machine.journal

/-- Asking for one event more than there are tokens is enough to see the stop. -/
theorem drainWithin_enter_eq_runLine {machine : Machine ρ} (hnative : machine.dictionary.Native)
    (hidle : machine.pending = []) (hflushed : machine.printed = "") (line : String) {calls : Nat}
    (hcalls : (Token.ofLine line).length < calls) :
    (machine.enter line).drainWithin calls = machine.runLine line := by
  obtain ⟨noted, hdrain⟩ := drainWithin_enter hnative hidle hflushed line
  have hlength : (machine.enter line).pending.length = (Token.ofLine line).length := by
    rw [enter_of_idle hidle hflushed]
  rw [runLine, drain, hdrain calls hcalls, hdrain _ (by omega)]

theorem runLine_eq {machine : Machine ρ} (hnative : machine.dictionary.Native)
    (hidle : machine.pending = []) (hflushed : machine.printed = "") (line : String) :
    ∃ noted, machine.runLine line
      = ((machine.runTokens (Token.ofLine line)).events,
          { (machine.runTokens (Token.ofLine line)).machine with
            pending := [], printed := "", journal := noted }) := by
  obtain ⟨noted, hdrain⟩ := drainWithin_enter hnative hidle hflushed line
  refine ⟨noted, ?_⟩
  rw [← drainWithin_enter_eq_runLine hnative hidle hflushed line (Nat.lt_succ_self _)]
  exact hdrain _ (Nat.lt_succ_self _)

/-- A line on an idle machine means its tokens one by one: the events are the texts that tokens
printed, in order, then the fault of the first token that failed, then the stop, and the machine is
as the tokens before that fault left it. There is at most one event more than there are tokens, so
asking for so many is enough to see the stop. -/
theorem runLine_eq_runTokens {features : Dictionary.Features} {machine : Machine ρ}
    (hstandard : machine.dictionary = .standard features) (hidle : machine.pending = [])
    (hflushed : machine.printed = "") (line : String) :
    let tokens := Token.ofLine line
    let outcome := machine.runTokens tokens
    outcome.events.length ≤ tokens.length + 1 ∧
      (∀ calls, tokens.length < calls →
        (machine.enter line).drainWithin calls = machine.runLine line) ∧
      ∃ journal, machine.runLine line
        = (outcome.events, { outcome.machine with pending := [], printed := "", journal }) := by
  intro tokens outcome
  have hnative : machine.dictionary.Native := hstandard ▸ Dictionary.native_standard features
  refine ⟨length_events_runTokens tokens machine, ?_, runLine_eq hnative hidle hflushed line⟩
  intro calls hcalls
  exact drainWithin_enter_eq_runLine hnative hidle hflushed line hcalls

/-- A line that prints, fails at a division and is dropped there. -/
theorem runLine_eq_runTokens_division :
    let machine : Machine QueuedRadio := { radio := {} }
    let outcome := machine.runTokens (Token.ofLine "7 nl 0 5 / nl")
    (machine.runLine "7 nl 0 5 / nl").1
        = [.printed "\n", .failed ⟨.divisionByZero, some "/", ""⟩, .stopped] ∧
      ∃ journal, machine.runLine "7 nl 0 5 / nl"
        = (outcome.events, { outcome.machine with pending := [], printed := "", journal }) := by
  intro machine outcome
  have hevents : (machine.runLine "7 nl 0 5 / nl").1
      = [.printed "\n", .failed ⟨.divisionByZero, some "/", ""⟩, .stopped] := by decide +kernel
  have hstandard : machine.dictionary = .standard .standard := rfl
  exact ⟨hevents, (runLine_eq_runTokens hstandard rfl rfl "7 nl 0 5 / nl").2.2⟩

/-! ## Machines that are alike run alike -/

/-- Tokens print the same and fail in the same way on machines that are alike, and leave them
alike. -/
theorem runTokens_alike (tokens : List Token) {machine other : Machine ρ}
    (halike : machine.Alike other) (hnative : machine.dictionary.Native) :
    (machine.runTokens tokens).texts = (other.runTokens tokens).texts ∧
      (machine.runTokens tokens).fault? = (other.runTokens tokens).fault? ∧
      (machine.runTokens tokens).machine.Alike (other.runTokens tokens).machine := by
  induction tokens generalizing machine other with
  | nil => exact ⟨rfl, rfl, halike⟩
  | cons token rest ih =>
    have hother : other.dictionary.Native := halike.dictionary ▸ hnative
    have hthere := MachineM.run_does hother token
    rw [← Token.effect_congr halike token] at hthere
    rcases MachineM.run_cases hnative token with
      ⟨effect, first, hdecided, hhere⟩ | ⟨fault, _, hdecided, hhere⟩
    case inr =>
      rw [hdecided] at hthere
      obtain ⟨_, hthere⟩ := hthere
      rw [runTokens_cons_of_error hhere, runTokens_cons_of_error hthere]
      exact ⟨rfl, rfl, halike⟩
    case inl =>
      rw [hdecided] at hthere
      obtain ⟨second, hthere⟩ := hthere
      have hon := halike.on effect
      have hnext : Machine.Alike { effect.on machine with journal := first }
          { effect.on other with journal := second } :=
        ⟨hon.values, hon.dictionary, hon.memory, hon.rom⟩
      obtain ⟨htexts, hfault, hrest⟩ := ih hnext hnative
      rw [runTokens_cons_of_ok hhere, runTokens_cons_of_ok hthere]
      refine ⟨?_, hfault, hrest⟩
      rw [printedSince_eq rfl, printedSince_eq rfl, htexts]

/-- A line shows the same events on idle machines that are alike, and leaves them alike. -/
theorem runLine_alike {machine other : Machine ρ} (halike : machine.Alike other)
    (hnative : machine.dictionary.Native) (hidle : machine.pending = [])
    (hflushed : machine.printed = "") (hidle' : other.pending = []) (hflushed' : other.printed = "")
    (line : String) :
    (machine.runLine line).1 = (other.runLine line).1 ∧
      (machine.runLine line).2.Alike (other.runLine line).2 := by
  have hother : other.dictionary.Native := halike.dictionary ▸ hnative
  obtain ⟨first, hhere⟩ := runLine_eq hnative hidle hflushed line
  obtain ⟨second, hthere⟩ := runLine_eq hother hidle' hflushed' line
  obtain ⟨htexts, hfault, hrest⟩ := runTokens_alike (Token.ofLine line) halike hnative
  rw [hhere, hthere]
  refine ⟨?_, hrest.values, hrest.dictionary, hrest.memory, hrest.rom⟩
  rw [Outcome.events, Outcome.events, htexts, hfault]

end Machine

end SerialConsole
