import SerialConsole.Disk.Path

/-!
# Disks

The files and directories that a console can see. A path is followed one segment at a time, and
every segment is looked up in a directory that must exist. A file can be read wherever it stands, but
the system may take no writes there. A write replaces a whole file or changes nothing;
`Disk.read_of_write` says that what was written is what is read.
-/

namespace SerialConsole

/-- What stands at a location. -/
inductive Disk.Node where
  | file (bytes : List UInt8)
  | directory
deriving DecidableEq, Repr

/-- Files and directories by location, each location at most once. The anchors are there without
being listed. -/
structure Disk where
  entries : List (Disk.Location × Disk.Node) := []
  /-- Where the system takes no writes, and why. -/
  refusals : List (Disk.Location × String) := []
deriving DecidableEq, Repr

namespace Disk

/-! ## Walking -/

/-- What stands at a location. -/
def node? (disk : Disk) (location : Location) : Option Node :=
  if location.names = [] then some .directory else disk.entries.lookup location

/-- Fails unless a directory stands at a location. -/
def requireDirectory (disk : Disk) (location : Location) : Except Failure Unit :=
  match disk.node? location with
  | some .directory => .ok ()
  | some (.file _) => .error .notDirectory
  | none => .error .notFound

/-- Looks one segment up. Only a directory can be looked into, and a name that is too long is
refused whether or not something has it. -/
def follow (disk : Disk) (location : Location) (segment : String) : Except Failure Location := do
  disk.requireDirectory location
  if Path.maxNameBytes < segment.utf8ByteSize then .error .nameTooLong
  else .ok (location.descend segment)

/-- Where a walk along segments ends, whether or not something stands there. -/
def walk (disk : Disk) (start : Location) (segments : List String) : Except Failure Location :=
  segments.foldlM (follow disk) start

/-! ## Files -/

/-- Puts a node at a location, in place of what stood there. -/
def put (disk : Disk) (location : Location) (node : Node) : Disk :=
  { disk with
    entries := (location, node) :: disk.entries.filter fun entry => entry.1 ≠ location }

/-- The bytes of the file at a path. -/
def read (disk : Disk) (text : String) : Except Failure (List UInt8) := do
  let path ← Path.ofText text
  let location ← disk.walk path.start path.segments
  match disk.node? location with
  | some (.file bytes) => if path.slashEnd then .error .notDirectory else .ok bytes
  | some .directory => .error .isDirectory
  | none => .error .notFound

/-- Why the system takes no writes at a location, if it does not. -/
def refusal? (disk : Disk) (location : Location) : Option String := disk.refusals.lookup location

/-- Makes the file at a path hold exactly the given bytes. A path that ends in a slash is refused
once its last segment could be looked up, without looking it up. -/
def write (disk : Disk) (text : String) (bytes : List UInt8) : Except Failure Disk := do
  let path ← Path.ofText text
  if path.slashEnd then
    let location ← disk.walk path.start path.segments.dropLast
    disk.requireDirectory location
    .error .isDirectory
  else
    let location ← disk.walk path.start path.segments
    match disk.node? location, disk.refusal? location with
    | some .directory, _ => .error .isDirectory
    | _, some cause => .error (.refused cause)
    | _, none => .ok (disk.put location (.file bytes))

/-! ## A written file reads back -/

/-- Leaving a key out changes no look-up of another key. -/
theorem lookup_filter_ne (entries : List (Location × Node)) {location other : Location}
    (h : other ≠ location) :
    (entries.filter fun entry => entry.1 ≠ location).lookup other = entries.lookup other := by
  induction entries with
  | nil => rfl
  | cons entry rest ih =>
    rcases entry with ⟨key, node⟩
    by_cases here : key = location
    · rw [List.filter_cons_of_neg (by simp [here]), ih, List.lookup_cons, here,
        beq_false_of_ne h]
    · rw [List.filter_cons_of_pos (by simpa using here), List.lookup_cons, List.lookup_cons, ih]

theorem node?_put_self (disk : Disk) {location : Location} (node : Node)
    (h : location.names ≠ []) : (disk.put location node).node? location = some node := by
  simp [put, node?, h]

theorem node?_put_of_ne (disk : Disk) {location other : Location} (node : Node)
    (h : other ≠ location) : (disk.put location node).node? other = disk.node? other := by
  unfold node?
  split
  · rfl
  · simp only [put, List.lookup_cons, beq_false_of_ne h]
    exact lookup_filter_ne disk.entries h

/-- A segment is only looked up in a directory. -/
theorem node?_of_follow {disk : Disk} {location next : Location} {segment : String}
    (h : disk.follow location segment = .ok next) : disk.node? location = some .directory := by
  unfold follow requireDirectory at h
  cases found : disk.node? location with
  | none => simp [found, bind, Except.bind] at h
  | some node =>
    cases node with
    | file bytes => simp [found, bind, Except.bind] at h
    | directory => rfl

/-- Looking a segment up depends on the directory alone. -/
theorem follow_congr {disk other : Disk} {location : Location} (segment : String)
    (h : disk.node? location = other.node? location) :
    disk.follow location segment = other.follow location segment := by
  simp only [follow, requireDirectory, h]

/-- A walk that ends where no directory stands does not look there before, so it goes the same way
after something was put there. -/
theorem walk_put (disk : Disk) (node : Node) {location start : Location} (segments : List String)
    (h : disk.walk start segments = .ok location)
    (free : disk.node? location ≠ some .directory) :
    (disk.put location node).walk start segments = .ok location := by
  unfold walk at h ⊢
  induction segments generalizing start with
  | nil => exact h
  | cons segment rest ih =>
    rw [List.foldlM_cons] at h ⊢
    cases step : disk.follow start segment with
    | error failure => simp [step, bind, Except.bind] at h
    | ok next =>
      have apart : start ≠ location := fun same => free (same ▸ node?_of_follow step)
      rw [follow_congr segment (node?_put_of_ne disk node apart), step]
      rw [step] at h
      exact ih h

/-- What was written to a path is what a read of that path gives. -/
theorem read_of_write {disk written : Disk} {text : String} {bytes : List UInt8}
    (h : disk.write text bytes = .ok written) : written.read text = .ok bytes := by
  cases parsed : Path.ofText text with
  | error failure => simp [write, parsed, bind, Except.bind] at h
  | ok path =>
    cases slash : path.slashEnd with
    | true =>
      -- a path with a slash at its end is never written
      cases led : disk.walk path.start path.segments.dropLast with
      | error failure => simp [write, parsed, slash, led, bind, Except.bind] at h
      | ok location =>
        cases there : disk.requireDirectory location with
        | error failure => simp [write, parsed, slash, led, there, bind, Except.bind] at h
        | ok _ => simp [write, parsed, slash, led, there, bind, Except.bind] at h
    | false =>
      cases led : disk.walk path.start path.segments with
      | error failure => simp [write, parsed, slash, led, bind, Except.bind] at h
      | ok location =>
        have free : disk.node? location ≠ some .directory := by
          intro standing
          simp [write, parsed, slash, led, standing, bind, Except.bind] at h
        have taken : disk.refusal? location = none := by
          cases refused : disk.refusal? location with
          | none => rfl
          | some cause => simp [write, parsed, slash, led, refused, bind, Except.bind] at h
        have put_eq : disk.put location (.file bytes) = written := by
          simpa [write, parsed, slash, led, free, taken, bind, Except.bind] using h
        have inside : location.names ≠ [] := fun outermost => free (by simp [node?, outermost])
        have led_again : written.walk path.start path.segments = .ok location :=
          put_eq ▸ walk_put disk _ _ led free
        have holds : written.node? location = some (.file bytes) :=
          put_eq ▸ node?_put_self disk (.file bytes) inside
        simp [read, parsed, slash, led_again, holds, bind, Except.bind]

/-! ## The world around the console -/

/-- Makes the directories that names lead through from a location, where nothing stands yet. -/
def makeDirectories (disk : Disk) (location : Location) : List String → Disk
  | [] => disk
  | name :: rest =>
    let next := location.child name
    let disk := if (disk.node? next).isNone then disk.put next .directory else disk
    disk.makeDirectories next rest

/-- Puts a file or directory where a path leads, and makes the directories on the way. -/
def place (disk : Disk) (text : String) (node : Node) : Disk :=
  match Path.ofText text with
  | .error _ => disk
  | .ok path =>
    let target := path.target
    let outermost : Location := { target with names := [] }
    match node with
    | .directory => disk.makeDirectories outermost target.names
    | .file _ => (disk.makeDirectories outermost target.names.dropLast).put target node

/-- Removes what stands where a path leads, with everything beneath it. -/
def remove (disk : Disk) (text : String) : Disk :=
  match Path.ofText text with
  | .error _ => disk
  | .ok path =>
    { disk with
      entries := disk.entries.filter fun entry =>
        !(entry.1.anchor = path.target.anchor
          && path.target.names.isPrefixOf entry.1.names) }

/-- Takes no more writes where a path leads, and gives a cause for it. -/
def refuse (disk : Disk) (text cause : String) : Disk :=
  match Path.ofText text with
  | .error _ => disk
  | .ok path => { disk with refusals := (path.target, cause) :: disk.refusals }

/-- The names in the working directory and what stands there. -/
def listing (disk : Disk) : List (String × Node) :=
  disk.entries.filterMap fun (location, node) =>
    match location with
    | ⟨.above 0, [name]⟩ => some (name, node)
    | _ => none

end Disk

end SerialConsole
