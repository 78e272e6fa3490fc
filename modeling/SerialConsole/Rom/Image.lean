import SerialConsole.Cell
import SerialConsole.Rom.Checksum

/-!
# ROM images

The byte string that keeps the persistent slots: each slot as four bytes, lowest first, then the
CRC-32 of those bytes in the same order. An image is read back only if its length and its checksum
are right.
-/

namespace SerialConsole.RomImage

/-! ## Words as bytes -/

/-- The four bytes of a word, lowest first. -/
def wordBytes (word : UInt32) : List UInt8 :=
  [word.toUInt8, (word >>> 8).toUInt8, (word >>> 16).toUInt8, (word >>> 24).toUInt8]

/-- The word that four bytes make, lowest first. -/
def ofBytes (b₀ b₁ b₂ b₃ : UInt8) : UInt32 :=
  b₀.toUInt32 ||| (b₁.toUInt32 <<< 8) ||| (b₂.toUInt32 <<< 16) ||| (b₃.toUInt32 <<< 24)

/-- The words that a byte string holds; up to three bytes at its end make none. -/
def words : List UInt8 → List UInt32
  | b₀ :: b₁ :: b₂ :: b₃ :: rest => ofBytes b₀ b₁ b₂ b₃ :: words rest
  | _ => []

/-! ## Images -/

/-- The bytes of the slots alone. -/
def slotBytes (slots : List Cell) : List UInt8 :=
  slots.flatMap fun slot => wordBytes slot.toUInt32

/-- The image of the slots. -/
def encode (slots : List Cell) : List UInt8 :=
  slotBytes slots ++ wordBytes (Checksum.crc32 (slotBytes slots))

/-- The `count` slots that a byte string is the image of. -/
def decode? (bytes : List UInt8) (count : Nat) : Option (List Cell) :=
  if bytes.length = 4 * count + 4 ∧
      words (bytes.drop (4 * count)) = [Checksum.crc32 (bytes.take (4 * count))] then
    some ((words (bytes.take (4 * count))).map UInt32.toInt32)
  else none

end SerialConsole.RomImage
