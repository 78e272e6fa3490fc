import SerialConsole.Proofs.Console.Restart
import SerialConsole.Proofs.Text

/-!
# Sessions of lines

A session in which only lines are typed shows the interpreter and nothing else. `Machine.converse`
says what that is without a console, a loop or a break flag: each line is run on the machine that the
line before it left, and every event but the stop is one text. `run_lines_eq_converse` says that the
session shows exactly this behind its opening, and leaves the disk that the machine leaves.
-/

namespace SerialConsole

/-! ## The interpreter line by line -/

/-- What is seen of an event: a text as it is, and a fault in bold behind a question mark. -/
def Event.seen : Event → List Occurrence
  | .stopped => []
  | .printed text => [.wrote text]
  | .failed fault => [.wrote ("\x1b[1m?" ++ fault.message ++ "\x1b[0m\n")]

namespace Machine

/-- What is seen of lines that are run one after the other, and the machine behind the last of them.
A line is remembered if it has a token. -/
def converse (machine : Machine QueuedRadio) :
    List String → List Occurrence × Machine QueuedRadio
  | [] => ([], machine)
  | line :: rest =>
    let history := if Token.ofLine line = [] then [] else [.remembered line]
    let events := (machine.runLine line).1
    let (seen, last) := (machine.runLine line).2.converse rest
    (history ++ events.flatMap Event.seen ++ seen, last)

end Machine

namespace Console

theorem shown_eq_flatMap (events : List Event) : shown events = events.flatMap Event.seen := by
  induction events with
  | nil => rfl
  | cons event rest ih =>
    cases event with
    | stopped => exact ih
    | printed text => exact congrArg (_ :: ·) ih
    | failed fault => exact congrArg (_ :: ·) ih

/-- The history is kept by trimming, and agrees with the tokens on which lines are blank. -/
theorem remembered_eq (line : String) :
    remembered line = if Token.ofLine line = [] then [] else [.remembered line] := by
  have hblank : Text.trim line = "" ↔ Token.ofLine line = [] := by
    rw [Text.trim_eq_empty_iff, Token.ofLine, List.map_eq_nil_iff]
  simp only [remembered, hblank]

end Console

namespace Machine

theorem respondAll_lines (machine : Machine QueuedRadio) (lines : List String) :
    machine.respondAll (lines.map .line) = machine.converse lines := by
  induction lines generalizing machine with
  | nil => rfl
  | cons line rest ih =>
    rw [List.map_cons, respondAll, ih, converse]
    simp only [respond, Console.remembered_eq, Console.shown_eq_flatMap]

/-- A line at the prompt is worked through to the stop. -/
theorem AtPrompt.getLast?_runLine {setup : Host.Setup} {machine : Machine QueuedRadio}
    (h : machine.AtPrompt setup) (line : String) :
    (machine.runLine line).1.getLast? = some .stopped := by
  obtain ⟨journal, hline⟩ := runLine_eq h.native h.idle h.flushed line
  rw [hline, Outcome.events, List.getLast?_append]
  rfl

end Machine

/-! ## Whole sessions -/

namespace Console

/-- A session at the prompt ends with its script. -/
theorem status_of_prompted {setup : Host.Setup} (hself : setup.selfTest = false)
    {script : List Act} (hscript : ∀ act ∈ script, act.isPrompted) :
    (run setup script).status = .finished := by
  have hfed := (shows_start hself).foldl_feed script (Machine.atPrompt_start setup) hscript
  rw [run_of_prompted setup hscript, feed, if_pos hfed.running]

/-- A session of lines is a faithful front of the interpreter. It shows the opening and then, for each
line, the line in the history if it has a token, and one text for every event up to the stop of
running the line on the machine that the lines before it left; and it leaves the files that these
runs leave. Each of these runs does come to its stop. -/
theorem run_lines_eq_converse {setup : Host.Setup} (hself : setup.selfTest = false)
    (lines : List String) :
    let session := run setup (lines.map .line)
    let conversation := (Host.machine setup).converse lines
    session.status = .finished ∧
      session.terminal.trace
        = [.opened "cmder", .interruptsReported, .wrote "\n[cmder]\n"] ++ conversation.1 ∧
      session.machine.rom.disk = conversation.2.rom.disk ∧
      ∀ before line,
        (((Host.machine setup).converse before).2.runLine line).1.getLast? = some .stopped := by
  intro session conversation
  have hlines : ∀ act ∈ lines.map Act.line, act.isPrompted := by
    intro act hact
    obtain ⟨text, -, rfl⟩ := List.mem_map.mp hact
    rfl
  obtain ⟨hmachine, htrace⟩ := run_shows hself hlines
  rw [Machine.respondAll_lines] at hmachine htrace
  refine ⟨status_of_prompted hself hlines, htrace, by rw [hmachine], ?_⟩
  intro before line
  have hthere := (Machine.atPrompt_start setup).respondAll (before.map .line)
  rw [Machine.respondAll_lines] at hthere
  exact hthere.getLast?_runLine line

/-- A slot is written and read back on a later line; lines without a token leave no trace, and a
fault ends its line. -/
theorem run_lines_eq_converse_blank :
    let setup : Host.Setup := { imagePath := "rom.bin", noise := fun _ => 0 }
    let lines := ["7 3 rom!", "\u00a0\u3000", "nl 3 rom@ 7 - 1 / nl"]
    (run setup (lines.map .line)).terminal.trace
        = [.opened "cmder", .interruptsReported, .wrote "\n[cmder]\n", .remembered "7 3 rom!",
          .remembered "nl 3 rom@ 7 - 1 / nl", .wrote "\n",
          .wrote "\x1b[1m?DIVISION BY ZERO /\x1b[0m\n"] ∧
      let session := run setup (lines.map .line)
      let conversation := (Host.machine setup).converse lines
      session.status = .finished ∧
        session.terminal.trace
          = [.opened "cmder", .interruptsReported, .wrote "\n[cmder]\n"] ++ conversation.1 ∧
        session.machine.rom.disk = conversation.2.rom.disk ∧
        ∀ before line,
          (((Host.machine setup).converse before).2.runLine line).1.getLast? = some .stopped := by
  intro setup lines
  have hself : setup.selfTest = false := rfl
  refine ⟨?_, run_lines_eq_converse hself lines⟩
  decide +kernel

end Console

end SerialConsole
