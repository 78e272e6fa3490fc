import SerialConsole.Arithmetic
import SerialConsole.Machine.Basic

/-!
# The host

What a console runs on when it runs on a desk instead of a device: flash that is erased apart from
the banner, RAM that comes up with noise, a radio without packets, and persistent slots in an image
file.
-/

namespace SerialConsole.Host

/-- What a console on this host is started with. -/
structure Setup where
  features : Dictionary.Features := .standard
  /-- Whether the console tries itself out before it waits for a line. -/
  selfTest : Bool := false
  imagePath : String
  disk : Disk := {}
  /-- The bytes that RAM comes up with. -/
  noise : Nat → UInt8

/-- The image that is used if none is named. -/
def defaultImage : String := "cmder-rom.bin"

/-- The image that the command line names first, or the default. -/
def imagePath (arguments : List String) : String := arguments.head?.getD defaultImage

/-- The number of bytes of flash. -/
def flashSize : Nat := 32768

/-- The number of bytes of RAM. -/
def ramSize : Nat := 8192

/-- The bytes at the start of flash. -/
def flashBanner : List UInt8 := "[cmder]\x00".toList.map fun c => UInt8.ofNat c.toNat

/-- The host's memory. -/
def addressMap (noise : Nat → UInt8) : AddressMap where
  regions := [
    Region.ofFn 0 flashSize fun offset => flashBanner.getD offset 0xff,
    Region.ofFn ramBase ramSize noise]

/-- The machine that a console starts with; its first notice is about the image. -/
def machine (setup : Setup) : Machine QueuedRadio :=
  let (bank, notice) := RomBank.load setup.disk setup.imagePath RomBank.deviceSlots
  { dictionary := .standard setup.features
    memory := (addressMap setup.noise).space
    radio := {}
    rom := { bank, disk := setup.disk }
    journal := [notice] }

end SerialConsole.Host
