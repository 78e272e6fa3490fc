import SerialConsole.Cell
import SerialConsole.Disk
import SerialConsole.Fault
import SerialConsole.Radio
import SerialConsole.Text.Numeral

/-!
# Notices

What the console tells the person who runs it, beside the output on the line: one notice per
remarkable event, each with a level. A setting chooses the level down to which notices are shown.
-/

namespace SerialConsole

/-- How much a notice matters. -/
inductive Notice.Level where
  | error
  | warn
  | info
  | debug
  | trace
deriving DecidableEq, Repr

namespace Notice.Level

/-- The place of a level, the gravest first. -/
def rank : Notice.Level → Nat
  | error => 1
  | warn => 2
  | info => 3
  | debug => 4
  | trace => 5

/-- The level that a setting names; any other word shows nothing. -/
def ofSetting? : String → Option Notice.Level
  | "error" => some error
  | "warn" => some warn
  | "info" => some info
  | "debug" => some debug
  | "trace" => some trace
  | _ => none

/-- The name of a level, five characters wide. -/
def label : Notice.Level → String
  | error => "ERROR"
  | warn => " WARN"
  | info => " INFO"
  | debug => "DEBUG"
  | trace => "TRACE"

/-- The terminal's number for the colour of a level. -/
def colour : Notice.Level → String
  | error => "31"
  | warn => "33"
  | info => "32"
  | debug => "36"
  | trace => "38;5;8"

end Notice.Level

/-- A remarkable event. -/
inductive Notice where
  /-- A command is about to run; the stack is given as text. -/
  | invoked (name stack : String)
  /-- A fault ended a line before its last tokens. -/
  | lineAbandoned (fault : Fault) (dropped : Nat)
  | packetReceived (size : Nat)
  | radioConfigured (config : RadioConfig)
  | powerSet (level : Nat)
  | slotFetched (index : Nat) (value : Cell)
  | slotStored (index : Nat) (value : Cell)
  | imageLoaded (path : String)
  | imageCorrupt (path : String)
  | imageUnread (path : String) (cause : Disk.Failure)
  | imageUnwritten (path : String) (cause : Disk.Failure)
deriving DecidableEq, Repr

namespace Notice

/-- How much each notice matters. -/
def level : Notice → Level
  | lineAbandoned .. | imageCorrupt .. | imageUnwritten .. => .warn
  | imageLoaded .. | imageUnread .. => .info
  | radioConfigured .. | powerSet .. | slotFetched .. | slotStored .. => .debug
  | invoked .. | packetReceived .. => .trace

/-- The part of the console that a notice comes from. -/
def origin : Notice → String
  | invoked .. | lineAbandoned .. | packetReceived .. => "cmder::mach::runtime"
  | radioConfigured .. | powerSet .. | slotFetched .. | slotStored .. => "cmder::mach::command"
  | imageLoaded .. | imageCorrupt .. | imageUnread .. | imageUnwritten .. => "cmder::term::rom_file"

/-- What a notice says. -/
def text : Notice → String
  | invoked name stack => name ++ " " ++ stack
  | lineAbandoned fault dropped =>
    fault.message ++ "; " ++ Text.decimal dropped ++ " tokens dropped"
  | packetReceived size => Text.decimal size ++ " byte packet"
  | radioConfigured config =>
    "rf-init node " ++ Text.decimal config.node.toNat ++ " group " ++ Text.decimal config.group.toNat
      ++ " freq " ++ Text.decimal config.frequency.toNat
  | powerSet level => "rf-txpower " ++ Text.decimal level
  | slotFetched index value => "rom@ " ++ Text.decimal index ++ " -> " ++ Text.signed value.toInt
  | slotStored index value => "rom! " ++ Text.decimal index ++ " <- " ++ Text.signed value.toInt
  | imageLoaded path => "rom image " ++ path ++ " loaded"
  | imageCorrupt path => "rom image " ++ path ++ " is corrupt, starting blank"
  | imageUnread path cause | imageUnwritten path cause =>
    "rom image " ++ path ++ ": " ++ cause.message

/-- The line that shows a notice. -/
def line (notice : Notice) : String :=
  "\x1b[" ++ notice.level.colour ++ "m[" ++ notice.level.label ++ "]\x1b[0m " ++ notice.origin
    ++ ": " ++ notice.text

/-- Whether a notice is shown under a setting. -/
def shownAt (setting : Option Level) (notice : Notice) : Bool :=
  match setting with
  | some limit => notice.level.rank ≤ limit.rank
  | none => false

end Notice

end SerialConsole
