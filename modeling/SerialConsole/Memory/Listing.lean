import SerialConsole.Cell
import SerialConsole.Memory.AddressMap
import SerialConsole.Text.Numeral

/-!
# Memory listings

A listing shows rows of sixteen bytes, each row as its address, the bytes in hexadecimal and the
bytes as characters:

    00000010:           63 64 65 66 67  68 69 6a 6b 6c 6d 6e 6f     cdefg hijklmno

The first row is the one that holds the start address, with the bytes before that address left
blank. All bytes are read before any text is given, so a bad address means no text at all.
-/

namespace SerialConsole.Listing

/-- The number of bytes in a row. -/
def rowSize : Nat := 16

/-- The number of bytes between two gaps of a row. -/
def blockSize : Nat := 8

/-- The address of the row that holds an address. -/
def rowAddress (address : UInt32) : UInt32 := address - address % 16

/-! ## Reading -/

/-- The bytes of a row, those at offsets below `skip` left out. The first byte that cannot be read
decides the fault. -/
def readRow (memory : AddressSpace) (base : UInt32) (skip : Nat) :
    Except Fault (List (Option UInt8)) :=
  (List.range rowSize).mapM fun offset =>
    if offset < skip then .ok none else some <$> memory (base + UInt32.ofNat offset)

/-! ## Writing -/

/-- The character that shows a byte: itself if it is printable ASCII. -/
def glyph (byte : UInt8) : Char :=
  if 0x20 ≤ byte ∧ byte ≤ 0x7e then Char.ofNat byte.toNat else '.'

/-- One column group of a row: each byte's text, with a blank before each block. -/
def column (text : Option UInt8 → List Char) (bytes : List (Option UInt8)) : List Char :=
  bytes.zipIdx.flatMap fun (byte, offset) =>
    (if offset % blockSize = 0 then [' '] else []) ++ text byte

/-- A byte in the hexadecimal group. -/
def hexText : Option UInt8 → List Char
  | some byte => Text.hexByte byte ++ [' ']
  | none => [' ', ' ', ' ']

/-- A byte in the character group. -/
def glyphText : Option UInt8 → List Char
  | some byte => [glyph byte]
  | none => [' ']

/-- The text of a row. -/
def rowText (base : UInt32) (bytes : List (Option UInt8)) : String :=
  String.ofList
    (Text.hexWord base ++ [':', ' '] ++ column hexText bytes ++ column glyphText bytes ++ ['\n'])

/-! ## Listings -/

/-- The texts of `count` rows from `base` on; addresses wrap. Only the first row leaves bytes out. -/
def rows (memory : AddressSpace) (base : UInt32) (skip : Nat) : Nat → Except Fault (List String)
  | 0 => .ok []
  | count + 1 => do
    let bytes ← readRow memory base skip
    let rest ← rows memory (base + 16) 0 count
    .ok (rowText base bytes :: rest)

/-- The listing of `count` rows from the row of `start` on; a negative count shows none. -/
def listing (memory : AddressSpace) (start : UInt32) (count : Cell) : Except Fault String := do
  let texts ← rows memory (rowAddress start) (start % 16).toNat count.toInt.toNat
  .ok (String.join texts)

end SerialConsole.Listing
