import SerialConsole.Disk
import SerialConsole.Notice
import SerialConsole.Rom.Image

/-!
# Banks of persistent slots

A bank is a row of cells that commands read and write by index. A bank may be kept in an image file;
each write to a slot then writes the whole image, and a write that the disk refuses leaves the slot
as it was.
-/

namespace SerialConsole

/-- Persistent slots, and the path of the image that keeps them. -/
structure RomBank where
  slots : List Cell
  image? : Option String := none
deriving DecidableEq, Repr

/-- A bank together with the disk that its image is on. -/
structure RomStorage where
  bank : RomBank
  disk : Disk := {}
deriving DecidableEq, Repr

/-- Why a slot could not be read or written. -/
inductive RomFailure where
  | noSlot
  | unwritable (path : String) (cause : Disk.Failure)
deriving DecidableEq, Repr

namespace RomFailure

/-- The fault that a failure is reported as. -/
def fault : RomFailure → Fault
  | noSlot => Fault.ofKind .addressOutOfRange
  | unwritable _ _ => Fault.withDetail .internalError "ROM WRITE FAILED"

/-- What is noted of a failure beside the fault. -/
def notices : RomFailure → List Notice
  | noSlot => []
  | unwritable path cause => [.imageUnwritten path cause]

end RomFailure

namespace RomBank

/-- The number of slots on the device. -/
def deviceSlots : Nat := 64

/-- The bank of `count` zeros. -/
def blank (count : Nat) : RomBank := { slots := List.replicate count 0 }

/-- The number of slots. -/
def size (bank : RomBank) : Nat := bank.slots.length

/-- Whether there are no slots. -/
def isEmpty (bank : RomBank) : Bool := bank.slots.isEmpty

/-- The bank kept at a path: the image there, or zeros if there is none that reads as `count` slots;
and what is noted about it. -/
def load (disk : Disk) (path : String) (count : Nat) : RomBank × Notice :=
  let blank : RomBank := { slots := List.replicate count 0, image? := some path }
  match disk.read path with
  | .ok bytes =>
    match RomImage.decode? bytes count with
    | some slots => ({ blank with slots }, .imageLoaded path)
    | none => (blank, .imageCorrupt path)
  | .error cause => (blank, .imageUnread path cause)

/-- The value of a slot. -/
def fetch (bank : RomBank) (index : Nat) : Except RomFailure Cell :=
  match bank.slots[index]? with
  | some value => .ok value
  | none => .error .noSlot

end RomBank

/-- An action on the storage. What it did before it failed stays done. -/
abbrev RomM := EStateM RomFailure RomStorage

namespace RomStorage

/-- The value of a slot. -/
def fetch (index : Nat) : RomM Cell := fun storage =>
  match storage.bank.fetch index with
  | .ok value => .ok value storage
  | .error failure => .error failure storage

/-- Overwrites a slot in the bank alone. -/
def setSlot (index : Nat) (value : Cell) : RomM Unit :=
  modify fun storage =>
    { storage with bank := { storage.bank with slots := storage.bank.slots.set index value } }

/-- Writes the image of all slots; a bank without an image has nothing to write. -/
def save : RomM Unit := fun storage =>
  match storage.bank.image? with
  | none => .ok () storage
  | some path =>
    match storage.disk.write path (RomImage.encode storage.bank.slots) with
    | .ok disk => .ok () { storage with disk }
    | .error cause => .error (.unwritable path cause) storage

/-- Writes a slot and then the image. If the image cannot be written, the slot gets its old value
back. -/
def store (index : Nat) (value : Cell) : RomM Unit := do
  let previous ← fetch index
  setSlot index value
  try save
  catch failure =>
    setSlot index previous
    throw failure

end RomStorage

end SerialConsole
