import SerialConsole.Console.Host
import SerialConsole.Console.Terminal
import SerialConsole.Machine.Execution

/-!
# Console sessions

A console shows the events of a machine on a terminal and feeds it the lines that come back. Before
every event it looks at the break flag: if the flag is up, the machine is cleared and the break is
reported first. `Console.run` is a whole session, from the first contact to the end of the script.
-/

namespace SerialConsole

/-- How far a session has come. -/
inductive Console.Status where
  | running
  | finished
  | failed (cause : String)
deriving DecidableEq, Repr

/-- A console at work. -/
structure Console where
  machine : Machine QueuedRadio
  terminal : Terminal := {}
  status : Console.Status := .running

namespace Console

/-! ## What is written -/

/-- The first text of every session. -/
def banner : String := "\n[cmder]\n"

/-- The report of a break. -/
def breakText : String := "?BREAK\n"

/-- The line that a console enters to try itself out. -/
def selfTestLine : String := "0 2 dump nl 3 2 dump nl 0 ram+ 8 dump nl words"

/-- The report of a fault, in bold. -/
def faultText (fault : Fault) : String := "\x1b[1m?" ++ fault.message ++ "\x1b[0m\n"

/-- What is written for an event; a stop is silent. -/
def eventText? : Event → Option String
  | .stopped => none
  | .printed text => some text
  | .failed fault => some (faultText fault)

/-! ## Steps -/

/-- Records an occurrence on the terminal. -/
def record (console : Console) (occurrence : Occurrence) : Console :=
  { console with terminal := console.terminal.record occurrence }

/-- Writes a text; a failure ends the session. -/
def write (console : Console) (text : String) : Console :=
  match console.terminal.write text with
  | .ok terminal => { console with terminal }
  | .error cause => { console with status := .failed cause }

/-- Answers a raised break flag: the machine is cleared, the flag taken down and the break
reported. -/
def takeBreak (console : Console) : Console :=
  if console.terminal.breakRequested then
    { console with
      machine := console.machine.clear
      terminal := { console.terminal with breakRequested := false } }.write breakText
  else console

/-- Shows at most `fuel` events, until the machine stops or the session ends. -/
def settleWithin : Nat → Console → Console
  | 0, console => console
  | fuel + 1, console =>
    let console := console.takeBreak
    if console.status = .running then
      let machine := console.machine.pollRadio
      let console := console.record (.interpreted machine.pending.length)
      let (event, machine) := machine.execute
      let console := { console with machine }
      match eventText? event with
      | none => console
      | some text =>
        let console := console.write text
        if console.status = .running then settleWithin fuel console else console
    else console

/-- Shows events until the machine stops. Every event uses up a token, a packet or the printed text,
so there are no more of them than of these. -/
def settle (console : Console) : Console :=
  settleWithin (console.machine.pending.length + console.machine.radio.queue.length + 2) console

/-- Takes a line: it is entered, and remembered unless it is blank. -/
def accept (console : Console) (line : String) : Console :=
  let console := { console with machine := console.machine.enter line }
  if Text.trim line = "" then console else console.record (.remembered line)

/-- Answers one act of the far end. Nothing happens once the session has ended. -/
def feed (console : Console) (act : Act) : Console :=
  if console.status = .running then
    match act with
    | .line text => (console.accept text).settle
    | .signal .interrupt =>
      let console := console.record (.bufferSet "")
      { console with terminal := console.terminal.requestBreak }.settle
    | .signal _ | .endOfInput => { console with status := .finished }
    | .readFailure cause => { console with status := .failed cause }
    | .interrupt => { console with terminal := console.terminal.requestBreak }
    | .interruptAfter _ | .failWrite _ _ =>
      { console with terminal := console.terminal.plan act }
    | .failOpen _ => console
  else console

/-! ## Sessions -/

/-- First contact on a terminal: the banner, the self test if there is one, and whatever these lead
to before the first line is awaited. -/
def start (setup : Host.Setup) (terminal : Terminal) : Console :=
  let console : Console := { machine := Host.machine setup, terminal }
  let console := ((console.record (.opened "cmder")).record .interruptsReported).write banner
  if console.status = .running then
    if setup.selfTest then
      { console with machine := console.machine.enter selfTestLine }.settle
    else console.settle
  else console

/-- A session that its terminal refuses. -/
def refused (setup : Host.Setup) (cause : String) : Console :=
  { machine := Host.machine setup, terminal := Terminal.record {} (.opened "cmder"),
    status := .failed cause }

/-- Answers a script from first contact to its end. Plans at the front of the script hold from the
banner on. -/
def run (setup : Host.Setup) (script : List Act) : Console :=
  match script with
  | .failOpen cause :: _ => refused setup cause
  | _ =>
    let terminal := (script.takeWhile Act.isPlan).foldl Terminal.plan {}
    let console := (script.dropWhile Act.isPlan).foldl feed (start setup terminal)
    console.feed .endOfInput

/-! ## What a session leaves -/

/-- What goes to the error output under a setting: the notices shown, and why the session failed. -/
def errorOutput (console : Console) (setting : Option Notice.Level) : List String :=
  (console.machine.notices.filter (Notice.shownAt setting)).map Notice.line
    ++ (match console.status with
        | .failed cause => [cause]
        | _ => [])

end Console

end SerialConsole
