import SerialConsole.Console.Session

/-!
# The command line

A console on standard input and output. The first argument names the image file, and `CMDER_LOG`
sets the level of the notices on standard error.
-/

namespace SerialConsole.CommandLine

/-- What stands at a path of the file system whose last name is in a directory. -/
def probe (path : String) : IO (Option Disk.Node) := do
  match ← (IO.FS.readBinFile path).toBaseIO with
  | .ok bytes => return some (.file bytes.toList)
  | .error (.inappropriateType ..) => return some .directory
  | .error _ => return none

/-- The part of the file system that a path leads through. -/
def snapshot (text : String) : IO Disk := do
  let .ok path := Disk.Path.ofText text | return {}
  let mut disk : Disk := {}
  for length in List.range' 1 path.segments.length do
    let segments := path.segments.take length
    if let .ok location := disk.walk path.start segments then
      if location.names ≠ [] then
        let part := (if path.absolute then "/" else "") ++ "/".intercalate segments
        if let some node ← probe part then
          disk := disk.put location node
  return disk

/-- What the system says of a write that it refuses. -/
def cause : IO.Error → String
  | .permissionDenied _ code details | .resourceExhausted _ code details
  | .hardwareFault code details => details ++ " (os error " ++ toString code ++ ")"
  | error => toString error

/-- Makes the file at a path hold exactly the given bytes, or gives the cause of the refusal. -/
def writeImage (path : String) (bytes : List UInt8) : IO (Option String) := do
  let written ← (IO.FS.withFile path .write fun file => do
    file.write ⟨bytes.toArray⟩
    file.flush).toBaseIO
  match written with
  | .ok _ => return none
  | .error error => return some (cause error)

/-- Whether a slot was written since the journal of a console was started. -/
def hasStored (console : Console) : Bool :=
  console.machine.journal.any fun notice => notice matches .slotStored ..

/-- A console on another disk. -/
def onDisk (console : Console) (disk : Disk) : Console :=
  { console with machine := { console.machine with rom := { console.machine.rom with disk } } }

/-- Answers an act and keeps the image. Where the system refuses the image, the act is answered once
more on a disk that refuses it too. -/
def answer (path : String) (console : Console) (act : Act) : IO Console := do
  let next := console.feed act
  if hasStored next then
    if let .ok bytes := next.machine.rom.disk.read path then
      if let some cause ← writeImage path bytes then
        let disk := console.machine.rom.disk
        -- nothing was written, so the disk is the one before the act
        return onDisk ((onDisk console (disk.refuse path cause)).feed act) disk
  return next

/-- Brings out what a console has to say, and starts its transcript and journal afresh. -/
def flush (setting : Option Notice.Level) (console : Console) : IO Console := do
  let out ← IO.getStdout
  for occurrence in console.terminal.transcript do
    if let .wrote text := occurrence then
      out.putStr text
  out.flush
  for line in console.errorOutput setting do
    IO.eprintln line
  return { console with
    machine := { console.machine with journal := [] }
    terminal := { console.terminal with transcript := [] } }

/-- Feeds lines to a console until the session ends, and keeps its image. -/
partial def converse (setting : Option Notice.Level) (path : String) (console : Console) :
    IO Unit := do
  if console.status = .running then
    let line ← (← IO.getStdin).getLine
    let act : Act :=
      if line = "" then .endOfInput else .line (String.ofList (line.toList.takeWhile (· ≠ '\n')))
    converse setting path (← flush setting (← answer path console act))

end SerialConsole.CommandLine

open SerialConsole in
/-- Runs a console until its input ends. -/
def main (arguments : List String) : IO Unit := do
  let setting := (← IO.getEnv "CMDER_LOG").bind Notice.Level.ofSetting?
  let imagePath := Host.imagePath arguments
  let disk ← CommandLine.snapshot imagePath
  let noise ← IO.getRandomBytes (USize.ofNat Host.ramSize)
  let setup : Host.Setup := { imagePath, disk, noise := fun offset => noise.data.getD offset 0 }
  CommandLine.converse setting imagePath
    (← CommandLine.flush setting (Console.start setup {}))
