/-!
# Blanks and words

Which characters separate words, and how a line falls into the maximal runs of the others. Blanks
are the characters that Unicode gives the property White_Space.
-/

namespace SerialConsole.Text

/-- A character with the Unicode property White_Space. -/
def isBlank (c : Char) : Bool :=
  let n := c.toNat
  (0x0009 ≤ n && n ≤ 0x000d) || n == 0x0020 || n == 0x0085 || n == 0x00a0 || n == 0x1680
    || (0x2000 ≤ n && n ≤ 0x200a) || n == 0x2028 || n == 0x2029 || n == 0x202f || n == 0x205f
    || n == 0x3000

/-! ## Words of a line -/

/-- Puts a word in front of others, unless it is empty. -/
def consWord (word : List Char) (words : List (List Char)) : List (List Char) :=
  if word.isEmpty then words else word :: words

/-- The run of other characters that a text starts with, and the words behind that run. -/
def leadingRun : List Char → List Char × List (List Char)
  | [] => ([], [])
  | c :: rest =>
    let (run, words) := leadingRun rest
    if isBlank c then ([], consWord run words) else (c :: run, words)

/-- The maximal runs of characters that are not blank, in order. -/
def runs (cs : List Char) : List (List Char) :=
  consWord (leadingRun cs).1 (leadingRun cs).2

/-- The words of a line: what blanks separate. -/
def words (line : String) : List String :=
  (runs line.toList).map String.ofList

/-! ## Trimming -/

/-- A line without the blanks at its two ends. -/
def trim (line : String) : String :=
  String.ofList (((line.toList.dropWhile isBlank).reverse.dropWhile isBlank).reverse)

end SerialConsole.Text
