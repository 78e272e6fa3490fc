import SerialConsole.Console.Session
import SerialConsole.Proofs.Machine.Requests

/-!
# A console at its prompt

A console that nobody interrupts at work shows all that its machine has to say and comes back to the
prompt. What it makes of an act there is said by the machine alone:

* `Machine.OnHost` is what stays true of a host's machine: its own commands, its memory, a radio
  without packets, and slots in step with the image;
* `Shows.settleWithin` says that settling drains the machine and shows every event;
* `Machine.respond` is the answer to an act at the prompt, and `Shows.feed` says that the console
  gives it.
-/

namespace SerialConsole

open Failing

/-! ## A host's machine -/

/-- What stays true of the machine that a console on this host starts with. -/
structure Machine.OnHost (setup : Host.Setup) (machine : Machine QueuedRadio) : Prop where
  dictionary : machine.dictionary = .standard setup.features
  memory : machine.memory = (Host.addressMap setup.noise).space
  silent : machine.radio.queue = []
  rom : machine.rom.InStep setup.imagePath RomBank.deviceSlots

/-- A write to a slot, or none, keeps the slots in step with the image. -/
theorem RomStorage.InStep.getD {path : String} {count : Nat} {storage : RomStorage}
    (hstep : storage.InStep path count) {effect : Effect}
    (hwrites : effect.WritesAtMostOnce storage) :
    (effect.rom?.getD storage).InStep path count := by
  rcases hwrites with hnone | ⟨index, value, rom, hsome, hstore⟩
  · rw [hnone]
    exact hstep
  · have hspared : Incident.Spares path storage (.store index value) := True.intro
    have hafter := hstep.after hspared
    rw [RomStorage.after, hstore] at hafter
    rw [hsome]
    exact hafter

namespace Machine

section OnHost

variable {setup : Host.Setup} {machine : Machine QueuedRadio}

theorem OnHost.native (h : machine.OnHost setup) : machine.dictionary.Native :=
  h.dictionary ▸ Dictionary.native_standard setup.features

theorem onHost_start (setup : Host.Setup) : (Host.machine setup).OnHost setup where
  dictionary := by rw [Host.machine]
  memory := by rw [Host.machine]
  silent := by rw [Host.machine]
  rom := RomStorage.inStep_opened setup.disk setup.imagePath RomBank.deviceSlots

/-- A token keeps a host's machine one, whether it fails or not. -/
theorem OnHost.run (h : machine.OnHost setup) (token : Token) :
    (stateAfter (MachineM.run token machine)).OnHost setup := by
  have hwrites := Token.decides_writesAtMostOnce h.native token
  rcases MachineM.run_cases h.native token with
    ⟨effect, journal, hdecided, hrun⟩ | ⟨fault, journal, -, hrun⟩
  · rw [hdecided] at hwrites
    rw [hrun]
    have hsilent := (effect.queue_onRadio machine.radio).trans h.silent
    exact ⟨h.dictionary, h.memory, hsilent, h.rom.getD hwrites⟩
  · rw [hrun]
    exact ⟨h.dictionary, h.memory, h.silent, h.rom⟩

theorem kept_onHost (setup : Host.Setup) :
    Kept .device fun _ (machine : Machine QueuedRadio) => machine.OnHost setup where
  run token h := h.run token
  books _ _ _ _ h := ⟨h.dictionary, h.memory, h.silent, h.rom⟩

theorem OnHost.execute (h : machine.OnHost setup) : machine.execute.2.OnHost setup :=
  @Kept.traceWithin _ _ _ _ [] _ (kept_onHost setup) _ h

theorem OnHost.drainWithin (h : machine.OnHost setup) (calls : Nat) :
    (machine.drainWithin calls).2.OnHost setup := by
  induction calls generalizing machine with
  | zero => exact h
  | succ calls ih =>
    have hnext := h.execute
    rw [Machine.drainWithin]
    split
    case h_1 hevent =>
      rw [hevent] at hnext
      exact hnext
    case h_2 hevent =>
      rw [hevent] at hnext
      exact ih hnext

theorem OnHost.pollRadio (h : machine.OnHost setup) : machine.pollRadio = machine :=
  pollRadio_of_empty h.silent

end OnHost

/-- A host's machine that has nothing left to do and nothing left to show. -/
structure AtPrompt (setup : Host.Setup) (machine : Machine QueuedRadio) : Prop
    extends machine.OnHost setup where
  idle : machine.pending = []
  flushed : machine.printed = ""

theorem atPrompt_start (setup : Host.Setup) : (Host.machine setup).AtPrompt setup where
  toOnHost := onHost_start setup
  idle := by rw [Host.machine]
  flushed := by rw [Host.machine]

section AtPrompt

variable {setup : Host.Setup} {machine : Machine QueuedRadio}

theorem AtPrompt.clear (h : machine.AtPrompt setup) : machine.clear.AtPrompt setup :=
  ⟨⟨h.dictionary, h.memory, h.silent, h.rom⟩, rfl, h.flushed⟩

theorem AtPrompt.runLine (h : machine.AtPrompt setup) (line : String) :
    (machine.runLine line).2.AtPrompt setup := by
  have hentered : (machine.enter line).OnHost setup :=
    ⟨h.dictionary, h.memory, h.silent, h.rom⟩
  have hhost : (machine.runLine line).2.OnHost setup := hentered.drainWithin _
  obtain ⟨journal, hline⟩ := runLine_eq h.native h.idle h.flushed line
  rw [hline] at hhost ⊢
  exact ⟨hhost, rfl, rfl⟩

end AtPrompt

end Machine

/-! ## Undisturbed consoles -/

namespace Console

/-- What the far end sees of events. -/
def shown (events : List Event) : List Occurrence :=
  (events.filterMap eventText?).map Occurrence.wrote

theorem eventText?_eq_none {event : Event} : eventText? event = none ↔ event = .stopped := by
  cases event <;> simp [eventText?]

theorem shown_stopped : shown [.stopped] = [] := rfl

theorem shown_cons {event : Event} {text : String} (h : eventText? event = some text)
    (events : List Event) : shown (event :: events) = .wrote text :: shown events := by
  rw [shown, List.filterMap_cons_some h]
  rfl

/-- A running console with a certain machine, on a terminal where nothing is planned, no break is
asked for, and the far end has seen certain occurrences. -/
def Shows (console : Console) (machine : Machine QueuedRadio) (seen : List Occurrence) : Prop :=
  ∃ transcript, console = { machine, terminal := { transcript } } ∧
    transcript.filter Occurrence.isVisible = seen

section Shows

variable {console : Console} {machine : Machine QueuedRadio} {seen : List Occurrence}

theorem Shows.running (h : console.Shows machine seen) : console.status = .running := by
  obtain ⟨transcript, rfl, -⟩ := h
  rfl

theorem Shows.machine_eq (h : console.Shows machine seen) : console.machine = machine := by
  obtain ⟨transcript, rfl, -⟩ := h
  rfl

theorem Shows.trace_eq (h : console.Shows machine seen) : console.terminal.trace = seen := by
  obtain ⟨transcript, rfl, htrace⟩ := h
  exact htrace

theorem Shows.withMachine (h : console.Shows machine seen) (next : Machine QueuedRadio) :
    { console with machine := next }.Shows next seen := by
  obtain ⟨transcript, rfl, htrace⟩ := h
  exact ⟨transcript, rfl, htrace⟩

theorem Shows.record (h : console.Shows machine seen) (occurrence : Occurrence) :
    (console.record occurrence).Shows machine
      (seen ++ [occurrence].filter Occurrence.isVisible) := by
  obtain ⟨transcript, rfl, htrace⟩ := h
  exact ⟨transcript ++ [occurrence], rfl, by rw [List.filter_append, htrace]⟩

theorem Shows.write (h : console.Shows machine seen) (text : String) :
    (console.write text).Shows machine (seen ++ [.wrote text]) := by
  obtain ⟨transcript, rfl, htrace⟩ := h
  exact ⟨transcript ++ [.wrote text], rfl, by rw [List.filter_append, htrace]; rfl⟩

/-- Without a break there is none to answer. -/
theorem Shows.takeBreak (h : console.Shows machine seen) : console.takeBreak = console := by
  obtain ⟨transcript, rfl, -⟩ := h
  rfl

/-- A break clears the machine and is reported. -/
theorem Shows.takeBreak_requestBreak (h : console.Shows machine seen) :
    Shows ({ console with terminal := console.terminal.requestBreak } : Console).takeBreak
      machine.clear (seen ++ [.wrote breakText]) := by
  obtain ⟨transcript, rfl, htrace⟩ := h
  refine ⟨transcript ++ [.breakRequested] ++ [.wrote breakText], rfl, ?_⟩
  rw [List.filter_append, List.filter_append, htrace]
  exact congrArg (· ++ _) (List.append_nil seen)

end Shows

/-! ## Settling -/

theorem settleWithin_congr {console other : Console} (h : console.takeBreak = other.takeBreak)
    (calls : Nat) : settleWithin (calls + 1) console = settleWithin (calls + 1) other := by
  rw [settleWithin, settleWithin, h]

section Settle

variable {console : Console} {setup : Host.Setup} {machine : Machine QueuedRadio}
  {seen : List Occurrence}

/-- Settling an undisturbed console drains its machine and shows every event of it. -/
theorem Shows.settleWithin (h : console.Shows machine seen) (hhost : machine.OnHost setup)
    (calls : Nat) :
    (console.settleWithin calls).Shows (machine.drainWithin calls).2
      (seen ++ shown (machine.drainWithin calls).1) := by
  induction calls generalizing console machine seen with
  | zero =>
    rw [Console.settleWithin, Machine.drainWithin]
    simpa [shown] using h
  | succ calls ih =>
    have hasked : (console.record (.interpreted machine.pending.length)).Shows machine seen := by
      simpa [Occurrence.isVisible] using h.record (.interpreted machine.pending.length)
    have hexecuted := hasked.withMachine machine.execute.2
    have hnext := hhost.execute
    rw [Console.settleWithin]
    simp only [h.takeBreak, h.running, if_true, h.machine_eq, hhost.pollRadio]
    cases hevent : machine.execute with
    | mk event next =>
      rw [hevent] at hexecuted hnext
      cases htext : eventText? event with
      | none =>
        obtain rfl := eventText?_eq_none.mp htext
        rw [Machine.drainWithin, hevent]
        simpa [htext, shown_stopped] using hexecuted
      | some text =>
        have hgoes : event ≠ .stopped := by
          rintro rfl
          cases htext
        have hwritten := hexecuted.write text
        have hrest := ih hwritten hnext
        rw [Machine.drainWithin_of_event hevent hgoes, shown_cons htext]
        simp only [if_pos hwritten.running]
        rwa [List.append_assoc] at hrest

/-- A console whose machine has nothing to do settles at once. -/
theorem Shows.settleWithin_of_idle (h : console.Shows machine seen)
    (hprompt : machine.AtPrompt setup) (calls : Nat) :
    (console.settleWithin (calls + 1)).Shows machine seen := by
  have hsettled := h.settleWithin hprompt.toOnHost (calls + 1)
  rwa [Machine.drainWithin_of_idle hprompt.flushed hprompt.idle, shown_stopped,
    List.append_nil] at hsettled

end Settle

/-! ## Acts at the prompt -/

/-- What a line leaves in the history. -/
def remembered (line : String) : List Occurrence :=
  if Text.trim line = "" then [] else [.remembered line]

/-- What the far end sees of a break at the prompt. -/
def broken : List Occurrence := [.bufferSet "", .wrote breakText]

end Console

/-- Whether an act is one of a person who goes on working: a line, or an interrupt instead of one. -/
def Act.isPrompted : Act → Bool
  | line _ | signal .interrupt => true
  | _ => false

theorem Act.isPrompted_iff {act : Act} :
    act.isPrompted ↔ (∃ text, act = .line text) ∨ act = .signal .interrupt := by
  unfold isPrompted
  split <;> simp_all

namespace Machine

/-- What the far end sees of an act at the prompt, and the machine at the next one. -/
def respond (machine : Machine QueuedRadio) : Act → List Occurrence × Machine QueuedRadio
  | .line text =>
    (Console.remembered text ++ Console.shown (machine.runLine text).1, (machine.runLine text).2)
  | .signal .interrupt => (Console.broken, machine.clear)
  | _ => ([], machine)

/-- What the far end sees of acts at one prompt after the other, and the machine at the last one. -/
def respondAll (machine : Machine QueuedRadio) : List Act → List Occurrence × Machine QueuedRadio
  | [] => ([], machine)
  | act :: rest =>
    ((machine.respond act).1 ++ ((machine.respond act).2.respondAll rest).1,
      ((machine.respond act).2.respondAll rest).2)

section Respond

variable {setup : Host.Setup} {machine : Machine QueuedRadio}

/-- Every act at the prompt leads to another prompt. -/
theorem AtPrompt.respond (h : machine.AtPrompt setup) (act : Act) :
    (machine.respond act).2.AtPrompt setup := by
  unfold Machine.respond
  split
  case h_1 text => exact h.runLine text
  case h_2 => exact h.clear
  case h_3 => exact h

theorem AtPrompt.respondAll (h : machine.AtPrompt setup) (acts : List Act) :
    (machine.respondAll acts).2.AtPrompt setup := by
  induction acts generalizing machine with
  | nil => exact h
  | cons act rest ih => exact ih (h.respond act)

end Respond

end Machine

namespace Console

section Feed

variable {console : Console} {setup : Host.Setup} {machine : Machine QueuedRadio}
  {seen : List Occurrence}

theorem Shows.accept (h : console.Shows machine seen) (line : String) :
    (console.accept line).Shows (machine.enter line) (seen ++ remembered line) := by
  have hentered := h.withMachine (console.machine.enter line)
  rw [h.machine_eq] at hentered
  rw [Console.accept, remembered, h.machine_eq]
  split
  · rwa [List.append_nil]
  · exact hentered.record (.remembered line)

theorem Shows.feed_line (h : console.Shows machine seen) (hprompt : machine.AtPrompt setup)
    (line : String) :
    (console.feed (.line line)).Shows (machine.respond (.line line)).2
      (seen ++ (machine.respond (.line line)).1) := by
  have haccepted := h.accept line
  have hhost : (machine.enter line).OnHost setup :=
    ⟨hprompt.dictionary, hprompt.memory, hprompt.silent, hprompt.rom⟩
  -- there is one call for every token and two to spare, one of which sees the stop
  have hcalls : (Token.ofLine line).length < (machine.enter line).pending.length + 2 := by
    rw [Machine.enter_of_idle hprompt.idle hprompt.flushed]
    exact Nat.lt_add_of_pos_right (by omega)
  have hsettled := haccepted.settleWithin hhost
    ((machine.enter line).pending.length + (machine.enter line).radio.queue.length + 2)
  rw [Machine.drainWithin_enter_eq_runLine hprompt.native hprompt.idle hprompt.flushed line
    (by omega), List.append_assoc] at hsettled
  rw [Console.feed, if_pos h.running]
  simp only [settle, haccepted.machine_eq]
  exact hsettled

theorem Shows.feed_interrupt (h : console.Shows machine seen) (hprompt : machine.AtPrompt setup) :
    (console.feed (.signal .interrupt)).Shows machine.clear (seen ++ broken) := by
  have hbuffer := h.record (.bufferSet "")
  have hbreak := hbuffer.takeBreak_requestBreak
  rw [Console.feed, if_pos h.running]
  simp only [settle]
  -- the first call takes the break and then goes on as if it had been taken before
  rw [← settleWithin_congr hbreak.takeBreak]
  have hsettled := hbreak.settleWithin_of_idle hprompt.clear
  rw [List.append_assoc] at hsettled
  exact hsettled _

/-- The console answers an act at the prompt as its machine does. -/
theorem Shows.feed (h : console.Shows machine seen) (hprompt : machine.AtPrompt setup) {act : Act}
    (hact : act.isPrompted) :
    (console.feed act).Shows (machine.respond act).2 (seen ++ (machine.respond act).1) := by
  rcases Act.isPrompted_iff.mp hact with ⟨text, rfl⟩ | rfl
  · exact h.feed_line hprompt text
  · exact h.feed_interrupt hprompt

theorem Shows.foldl_feed (acts : List Act) (h : console.Shows machine seen)
    (hprompt : machine.AtPrompt setup) (hacts : ∀ act ∈ acts, act.isPrompted) :
    (acts.foldl Console.feed console).Shows (machine.respondAll acts).2
      (seen ++ (machine.respondAll acts).1) := by
  induction acts generalizing console machine seen with
  | nil => simpa [Machine.respondAll] using h
  | cons act rest ih =>
    have hfed := h.feed hprompt (hacts act List.mem_cons_self)
    have hrest := ih hfed (hprompt.respond act) fun next hnext =>
      hacts next (List.mem_cons_of_mem act hnext)
    rw [List.append_assoc] at hrest
    exact hrest

end Feed

end Console

end SerialConsole
