import SerialConsole.Fault

/-!
# Address maps

What the device answers when a byte of its address space is read. An address space is any such
answer; regions, maps of regions and windows onto raw cells are three ways to give one. Addresses
have 32 bits, and a region that reaches past the last address does not continue at zero.
-/

namespace SerialConsole

/-- What reading a byte at each address gives. -/
abbrev AddressSpace := UInt32 → Except Fault UInt8

namespace AddressSpace

/-- An address that nothing is mapped at. -/
def outOfRange : Fault := Fault.ofKind .addressOutOfRange

/-- The address space that `read?` answers for; the rest of it is not mapped. -/
def ofRead? (read? : UInt32 → Option UInt8) : AddressSpace := fun address =>
  match read? address with
  | some byte => .ok byte
  | none => .error outOfRange

/-- The address space with nothing in it. -/
def unmapped : AddressSpace := fun _ => .error outOfRange

end AddressSpace

/-! ## Regions -/

/-- A block of bytes that begins at `base`. -/
structure Region where
  base : UInt32
  bytes : Array UInt8
deriving DecidableEq, Repr

namespace Region

/-- The region of `size` zeros. -/
def zeroed (base : UInt32) (size : Nat) : Region := ⟨base, Array.replicate size 0⟩

/-- The region whose byte at each offset below `size` is given. -/
def ofFn (base : UInt32) (size : Nat) (byte : Nat → UInt8) : Region :=
  ⟨base, Array.ofFn fun offset : Fin size => byte offset⟩

/-- The number of bytes. -/
def size (region : Region) : Nat := region.bytes.size

/-- Whether there are no bytes. -/
def isEmpty (region : Region) : Bool := region.bytes.isEmpty

/-- Overwrites the byte at an offset, if the region reaches that far. -/
def poke (region : Region) (offset : Nat) (byte : UInt8) : Region :=
  { region with bytes := region.bytes.setIfInBounds offset byte }

/-- The byte at an address of the region. -/
def read? (region : Region) (address : UInt32) : Option UInt8 :=
  if region.base ≤ address then region.bytes[address.toNat - region.base.toNat]? else none

/-- The address space that holds the region alone. -/
def space (region : Region) : AddressSpace := .ofRead? region.read?

end Region

/-! ## Maps -/

/-- Regions side by side; where they overlap, the earlier one answers. -/
structure AddressMap where
  regions : List Region
deriving DecidableEq, Repr

namespace AddressMap

/-- The byte that the first region at an address holds there. -/
def read? (map : AddressMap) (address : UInt32) : Option UInt8 :=
  map.regions.findSome? fun region => region.read? address

/-- The address space that the map describes. -/
def space (map : AddressMap) : AddressSpace := .ofRead? map.read?

end AddressMap

/-! ## Windows -/

/-- The first `size` of a row of raw cells, seen from `start` on. Unlike a region, a window owns no
bytes: the cells behind it are whatever the device has there. -/
structure Window where
  cells : Nat → UInt8
  start : UInt32
  size : Nat

namespace Window

/-- The address space that shows the window alone; cells beyond `size` are never looked at. -/
def space (window : Window) : AddressSpace := fun address =>
  if window.start ≤ address ∧ address.toNat - window.start.toNat < window.size then
    .ok (window.cells (address.toNat - window.start.toNat))
  else .error AddressSpace.outOfRange

end Window

end SerialConsole
