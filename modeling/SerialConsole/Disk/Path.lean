/-!
# Paths and locations

A path is text that says how to walk to a file: from the root or from the working directory, one
segment after another. A location is where such a walk stands. Locations are kept relative to a
directory that is known to exist, which is the root, the working directory or one of the directories
above it, so a walk can leave the working directory and nothing there is taken for granted.
-/

namespace SerialConsole

/-- Why a file could not be read or written. -/
inductive Disk.Failure where
  | notFound
  | notDirectory
  | isDirectory
  | nameTooLong
  | nulInName
  /-- The system takes no writes there, for a cause that it gives in its own words. -/
  | refused (cause : String)
deriving DecidableEq, Repr

/-- The text of a failure, with the number the system gives it. -/
def Disk.Failure.message : Disk.Failure → String
  | notFound => "No such file or directory (os error 2)"
  | notDirectory => "Not a directory (os error 20)"
  | isDirectory => "Is a directory (os error 21)"
  | nameTooLong => "File name too long (os error 36)"
  | nulInName => "file name contained an unexpected NUL byte"
  | refused cause => cause

namespace Disk

/-! ## Locations -/

/-- A directory that is always there: the root, or the one so many levels above the working
directory. The working directory itself is at level 0. -/
inductive Anchor where
  | root
  | above (levels : Nat)
deriving DecidableEq, Repr

/-- The directory that holds an anchor; the root holds itself. -/
def Anchor.parent : Anchor → Anchor
  | root => root
  | above levels => above (levels + 1)

/-- The names that lead from an anchor to a file or directory. -/
structure Location where
  anchor : Anchor
  names : List String
deriving DecidableEq, Repr

namespace Location

/-- The working directory. -/
def working : Location := ⟨.above 0, []⟩

/-- What a name stands for in a directory. -/
def child (location : Location) (name : String) : Location :=
  { location with names := location.names ++ [name] }

/-- The directory that holds a location. -/
def parent (location : Location) : Location :=
  match location.names with
  | [] => { location with anchor := location.anchor.parent }
  | _ => { location with names := location.names.dropLast }

/-- Where one segment of a path leads: `.` stays and `..` goes up. -/
def descend (location : Location) (segment : String) : Location :=
  if segment = "." then location
  else if segment = ".." then location.parent
  else location.child segment

end Location

/-! ## Paths -/

/-- A path, taken apart. Slashes in a row count as one. -/
structure Path where
  absolute : Bool
  segments : List String
  /-- A slash behind the last segment: the path can then only mean a directory. -/
  slashEnd : Bool
deriving DecidableEq, Repr

namespace Path

/-- The longest path that the system takes, in bytes. -/
def maxBytes : Nat := 4095

/-- The longest name in a directory, in bytes. -/
def maxNameBytes : Nat := 255

/-- The pieces of a text between its slashes; there is one more piece than slashes. -/
def pieces : List Char → List (List Char)
  | [] => [[]]
  | c :: rest =>
    if c = '/' then [] :: pieces rest
    else
      match pieces rest with
      | piece :: others => (c :: piece) :: others
      | [] => [[c]]

/-- The path that a text writes. Some texts write none: the empty one leads nowhere, and the system
refuses a NUL before it looks at anything else. -/
def ofText (text : String) : Except Failure Path :=
  let cs := text.toList
  if cs.contains '\x00' then .error .nulInName
  else if cs = [] then .error .notFound
  else if maxBytes < text.utf8ByteSize then .error .nameTooLong
  else
    .ok {
      absolute := cs.head? = some '/'
      segments := ((pieces cs).filter fun piece => !piece.isEmpty).map String.ofList
      slashEnd := cs.getLast? = some '/' }

/-- Where the walk along a path begins. -/
def start (path : Path) : Location :=
  if path.absolute then ⟨.root, []⟩ else .working

/-- Where a path leads if every directory on the way is there. -/
def target (path : Path) : Location := path.segments.foldl Location.descend path.start

end Path

end Disk

end SerialConsole
