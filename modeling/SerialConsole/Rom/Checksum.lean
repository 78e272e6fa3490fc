/-!
# Checksums

The CRC-32 of a byte string: the IEEE polynomial, taken with the lowest bit first, over a register
that starts at all ones and is inverted at the end.
-/

namespace SerialConsole.Checksum

/-- The IEEE polynomial, lowest bit first. -/
def polynomial : UInt32 := 0xEDB88320

/-- Shifts one bit out of the register and takes the polynomial off if that bit was set. -/
def shiftBit (register : UInt32) : UInt32 :=
  if register &&& 1 = 1 then (register >>> 1) ^^^ polynomial else register >>> 1

/-- Shifts one byte through the register. -/
def feed (register : UInt32) (byte : UInt8) : UInt32 :=
  Nat.repeat shiftBit 8 (register ^^^ byte.toUInt32)

/-- The register after a byte string. -/
def feedAll (register : UInt32) (bytes : List UInt8) : UInt32 :=
  bytes.foldl feed register

/-- The CRC-32 of a byte string. -/
def crc32 (bytes : List UInt8) : UInt32 :=
  ~~~ feedAll 0xFFFFFFFF bytes

end SerialConsole.Checksum
