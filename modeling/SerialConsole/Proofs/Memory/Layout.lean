import Mathlib.Data.List.Induction
import SerialConsole.Memory.Listing
import SerialConsole.Proofs.Text.Numeral

/-!
# The layout of a row

Where each character of a row of a listing stands. A row has two groups of columns, one with the digits
of its bytes and one with their characters; both put a blank before each block of eight bytes
(`getElem?_column`). `Layout` says what this comes to, column by column, and leaves no column open;
`layout_rowText` says that rows are laid out so.
-/

namespace SerialConsole.Listing

/-! ## One group of columns -/

section Column

/-- What stands before the text of a byte: a blank if the byte begins a block. -/
def blockGap (offset : Nat) : List Char := if offset % 8 = 0 then [' '] else []

theorem length_blockGap (offset : Nat) :
    (blockGap offset).length = if offset % 8 = 0 then 1 else 0 := by
  unfold blockGap
  split <;> rfl

theorem column_append (text : Option UInt8 → List Char) (front back : List (Option UInt8)) :
    column text (front ++ back)
      = column text front
        ++ (back.zipIdx front.length).flatMap fun (byte, offset) => blockGap offset ++ text byte := by
  rw [column, List.zipIdx_append, List.flatMap_append, Nat.zero_add]
  rfl

variable {text : Option UInt8 → List Char}

theorem mem_column {bytes : List (Option UInt8)} {c : Char} (h : c ∈ column text bytes) :
    c = ' ' ∨ ∃ byte, c ∈ text byte := by
  obtain ⟨⟨byte, offset⟩, -, hc⟩ := List.mem_flatMap.mp h
  rcases List.mem_append.mp hc with hgap | hbyte
  · split at hgap
    · exact .inl (List.mem_singleton.mp hgap)
    · cases hgap
  · exact .inr ⟨byte, hbyte⟩

variable {width : Nat} (htext : ∀ byte, (text byte).length = width)

include htext

theorem length_column (bytes : List (Option UInt8)) :
    (column text bytes).length = width * bytes.length + (bytes.length + 7) / 8 := by
  induction bytes using List.reverseRecOn with
  | nil => simp [column]
  | append_singleton front byte ih =>
    rw [column_append, List.length_append, ih, List.zipIdx_singleton, List.flatMap_singleton,
      List.length_append, length_blockGap, htext, List.length_append, List.length_singleton,
      Nat.mul_succ]
    split <;> omega

/-- The columns of the bytes before an offset, those of the byte there, and the rest. -/
theorem exists_column_eq {bytes : List (Option UInt8)} {offset : Nat} {byte : Option UInt8}
    (h : bytes[offset]? = some byte) :
    ∃ before behind, column text bytes = before ++ (blockGap offset ++ (text byte ++ behind)) ∧
      before.length = width * offset + (offset + 7) / 8 := by
  obtain ⟨hoffset, rfl⟩ := List.getElem?_eq_some_iff.mp h
  have hfront : (bytes.take offset).length = offset := List.length_take_of_le (by omega)
  have hsplit : bytes.take offset ++ bytes[offset] :: bytes.drop (offset + 1) = bytes := by
    rw [← List.drop_eq_getElem_cons, List.take_append_drop]
  have hcolumn := column_append text (bytes.take offset) (bytes[offset] :: bytes.drop (offset + 1))
  rw [hsplit, hfront, List.zipIdx_cons, List.flatMap_cons, List.append_assoc] at hcolumn
  exact ⟨_, _, hcolumn, by rw [length_column htext, hfront]⟩

/-- The text of the byte at an offset stands behind as many blanks as blocks have begun. -/
theorem getElem?_column {bytes : List (Option UInt8)} {offset : Nat} {byte : Option UInt8}
    (hbyte : bytes[offset]? = some byte) {i : Nat} (hi : i < width) :
    (column text bytes)[1 + width * offset + offset / 8 + i]? = (text byte)[i]? := by
  obtain ⟨before, behind, hcolumn, hbefore⟩ := exists_column_eq htext hbyte
  have hgap := length_blockGap offset
  -- all that stands before the byte
  have hstart : (before ++ blockGap offset).length = 1 + width * offset + offset / 8 := by
    rw [List.length_append, hbefore, hgap]
    split <;> omega
  rw [hcolumn, ← List.append_assoc, List.getElem?_append_right (by omega), hstart,
    Nat.add_sub_cancel_left, List.getElem?_append_left (by rw [htext]; exact hi)]

/-- A blank stands before each block. -/
theorem getElem?_column_of_block {bytes : List (Option UInt8)} {offset : Nat}
    (hoffset : offset < bytes.length) (hblock : offset % 8 = 0) :
    (column text bytes)[width * offset + offset / 8]? = some ' ' := by
  obtain ⟨before, behind, hcolumn, hbefore⟩ :=
    exists_column_eq htext (List.getElem?_eq_getElem hoffset)
  have hgap : blockGap offset = [' '] := if_pos hblock
  have hstart : before.length = width * offset + offset / 8 := by omega
  rw [hcolumn, hgap, List.getElem?_append_right (by omega), hstart, Nat.sub_self]
  rfl

end Column

/-! ## Rows -/

theorem length_hexText (byte : Option UInt8) : (hexText byte).length = 3 := by
  cases byte <;> simp [hexText, Text.hexByte]

theorem length_glyphText (byte : Option UInt8) : (glyphText byte).length = 1 := by
  cases byte <;> rfl

/-- The character of a byte never breaks its row. -/
theorem glyph_ne_newline (byte : UInt8) : glyph byte ≠ '\n' := by
  have htable : ∀ n < 256, glyph (UInt8.ofNat n) ≠ '\n' := by decide +kernel
  have hbyte := htable byte.toNat byte.toNat_lt
  rwa [UInt8.ofNat_toNat] at hbyte

/-- Where the first digit of a byte stands in its row. -/
def digitPlace (offset : Nat) : Nat := 11 + 3 * offset + offset / 8

/-- Where the character of a byte stands in its row. -/
def glyphPlace (offset : Nat) : Nat := 61 + offset + offset / 8

/-- What a row of sixteen bytes looks like, where `none` is a byte that is left out. Places are
counted from 0, and every one of the 79 is accounted for. -/
structure Layout (address : UInt32) (bytes : List (Option UInt8)) (row : List Char) : Prop where
  length : row.length = 79
  newline : ∀ i, row[i]? = some '\n' ↔ i = 78
  address : ∀ i < 8, row[i]? = some (Nat.digitChar (address.toNat / 16 ^ (7 - i) % 16))
  colon : row[8]? = some ':' ∧ row[9]? = some ' '
  shown : ∀ offset byte, bytes[offset]? = some (some byte) →
    row[digitPlace offset]? = some (Nat.digitChar (byte.toNat / 16)) ∧
      row[digitPlace offset + 1]? = some (Nat.digitChar (byte.toNat % 16)) ∧
      row[glyphPlace offset]? = some
        (if 0x20 ≤ byte ∧ byte ≤ 0x7e then Char.ofNat byte.toNat else '.')
  leftOut : ∀ offset, bytes[offset]? = some none →
    row[digitPlace offset]? = some ' ' ∧ row[digitPlace offset + 1]? = some ' ' ∧
      row[glyphPlace offset]? = some ' '
  blank : ∀ i, 10 ≤ i → i < 78 →
    (∀ offset < 16, i ≠ digitPlace offset ∧ i ≠ digitPlace offset + 1 ∧ i ≠ glyphPlace offset) →
      row[i]? = some ' '

section Row

variable (address : UInt32) {bytes : List (Option UInt8)}

theorem getElem?_rowText_address {i : Nat} (hi : i < 8) :
    (rowText address bytes).toList[i]?
      = some (Nat.digitChar (address.toNat / 16 ^ (7 - i) % 16)) := by
  have hdigits : (Text.hexWord address).length = 8 := Text.length_hexDigits 8 _
  simp only [rowText, String.toList_ofList, List.append_assoc]
  rw [List.getElem?_append_left (by omega)]
  exact Text.getElem?_hexDigits hi

variable (hbytes : bytes.length = 16)

include hbytes

theorem length_columns :
    (column hexText bytes).length = 50 ∧ (column glyphText bytes).length = 18 := by
  rw [length_column length_hexText, length_column length_glyphText, hbytes]
  decide

theorem getElem?_rowText_digits {i : Nat} (hi : i < 50) :
    (rowText address bytes).toList[10 + i]? = (column hexText bytes)[i]? := by
  have hfront : (Text.hexWord address ++ [':', ' ']).length = 10 := by simp [Text.hexWord]
  simp only [rowText, String.toList_ofList, List.append_assoc]
  rw [← List.append_assoc, List.getElem?_append_right (by omega), hfront, Nat.add_sub_cancel_left,
    List.getElem?_append_left (by rw [(length_columns hbytes).1]; exact hi)]

theorem getElem?_rowText_glyphs {i : Nat} (hi : i < 18) :
    (rowText address bytes).toList[60 + i]? = (column glyphText bytes)[i]? := by
  have hfront : (Text.hexWord address ++ [':', ' '] ++ column hexText bytes).length = 60 := by
    simp [Text.hexWord, (length_columns hbytes).1]
  rw [rowText, String.toList_ofList, List.append_assoc, List.getElem?_append_right (by omega), hfront,
    Nat.add_sub_cancel_left, List.getElem?_append_left (by rw [(length_columns hbytes).2]; exact hi)]

theorem length_rowText : (rowText address bytes).toList.length = 79 := by
  obtain ⟨hdigits, hglyphs⟩ := length_columns hbytes
  simp [rowText, Text.hexWord, hdigits, hglyphs]

/-- Where the three characters of a byte among the digits stand, and the one among the characters. -/
theorem getElem?_rowText_byte {offset : Nat} {byte : Option UInt8}
    (hbyte : bytes[offset]? = some byte) :
    (∀ i < 3, (rowText address bytes).toList[digitPlace offset + i]? = (hexText byte)[i]?) ∧
      (rowText address bytes).toList[glyphPlace offset]? = (glyphText byte)[0]? := by
  have hoffset : offset < 16 := hbytes ▸ (List.getElem?_eq_some_iff.mp hbyte).1
  constructor
  · intro i hi
    rw [← getElem?_column length_hexText hbyte hi,
      ← getElem?_rowText_digits address hbytes (by omega)]
    congr 1
    unfold digitPlace
    omega
  · rw [← getElem?_column length_glyphText hbyte (by decide),
      ← getElem?_rowText_glyphs address hbytes (by omega)]
    congr 1
    unfold glyphPlace
    omega

/-- Every place between the address and the end is a blank before a block, or a place of a byte. -/
theorem getElem?_rowText_blank {i : Nat} (hlow : 10 ≤ i) (hhigh : i < 78)
    (hother : ∀ offset < 16,
      i ≠ digitPlace offset ∧ i ≠ digitPlace offset + 1 ∧ i ≠ glyphPlace offset) :
    (rowText address bytes).toList[i]? = some ' ' := by
  unfold digitPlace glyphPlace at hother
  by_cases hgroup : i < 60
  · -- 25 places for each block of digits
    obtain ⟨k, rfl⟩ : ∃ k, i = 10 + k := ⟨i - 10, by omega⟩
    rw [getElem?_rowText_digits address hbytes (by omega)]
    by_cases hgap : k % 25 = 0
    · rw [show k = 3 * (k / 25 * 8) + (k / 25 * 8) / 8 by omega]
      exact getElem?_column_of_block length_hexText (by omega) (by omega)
    · have hoffset : k / 25 * 8 + (k % 25 - 1) / 3 < bytes.length := by omega
      -- the first two of three places are those of digits
      have hthird := hother (k / 25 * 8 + (k % 25 - 1) / 3) (by omega)
      rw [show k = 1 + 3 * (k / 25 * 8 + (k % 25 - 1) / 3)
          + (k / 25 * 8 + (k % 25 - 1) / 3) / 8 + 2 by omega,
        getElem?_column length_hexText (List.getElem?_eq_getElem hoffset) (by decide)]
      cases bytes[k / 25 * 8 + (k % 25 - 1) / 3] <;> rfl
  · -- 9 places for each block of characters
    obtain ⟨k, rfl⟩ : ∃ k, i = 60 + k := ⟨i - 60, by omega⟩
    have hgap : k % 9 = 0 := by
      have hbyte := hother (k / 9 * 8 + (k % 9 - 1)) (by omega)
      omega
    rw [getElem?_rowText_glyphs address hbytes (by omega),
      show k = 1 * (k / 9 * 8) + (k / 9 * 8) / 8 by omega]
    exact getElem?_column_of_block length_glyphText (by omega) (by omega)

/-- What stands before the end of a row has no newline. -/
theorem exists_rowText_eq :
    ∃ front, (rowText address bytes).toList = front ++ ['\n'] ∧ front.length = 78 ∧
      '\n' ∉ front := by
  obtain ⟨hdigits, hglyphs⟩ := length_columns hbytes
  refine ⟨_, String.toList_ofList, by simp [Text.hexWord, hdigits, hglyphs], ?_⟩
  have hdigit : ∀ width n, '\n' ∉ Text.hexDigits width n := by
    intro width n hmem
    obtain ⟨digit, heq⟩ := Text.exists_digitChar_of_mem_hexDigits hmem
    exact Nat.digitChar_ne '\n' rfl heq.symm
  simp only [List.mem_append, not_or]
  refine ⟨⟨⟨hdigit 8 _, by decide⟩, fun hmem => ?_⟩, fun hmem => ?_⟩
  · rcases mem_column hmem with hblank | ⟨_ | byte, hbyte⟩
    · exact absurd hblank (by decide)
    · exact absurd hbyte (by decide)
    · simp [hexText, Text.hexByte, hdigit] at hbyte
  · rcases mem_column hmem with hblank | ⟨_ | byte, hbyte⟩
    · exact absurd hblank (by decide)
    · exact absurd hbyte (by decide)
    · exact glyph_ne_newline byte (List.mem_singleton.mp hbyte).symm

theorem getElem?_rowText_newline (i : Nat) :
    (rowText address bytes).toList[i]? = some '\n' ↔ i = 78 := by
  obtain ⟨front, hrow, hlength, hnone⟩ := exists_rowText_eq address hbytes
  rw [hrow]
  constructor
  · intro hi
    rcases Nat.lt_trichotomy i 78 with hlt | rfl | hgt
    · rw [List.getElem?_append_left (by omega)] at hi
      exact absurd (List.mem_of_getElem? hi) hnone
    · rfl
    · rw [List.getElem?_eq_none (by simp; omega)] at hi
      cases hi
  · rintro rfl
    rw [List.getElem?_append_right (by omega), hlength]
    rfl

theorem layout_rowText : Layout address bytes (rowText address bytes).toList where
  length := length_rowText address hbytes
  newline := getElem?_rowText_newline address hbytes
  address := fun i hi => getElem?_rowText_address address hi
  colon := by
    have hdigits : (Text.hexWord address).length = 8 := Text.length_hexDigits 8 _
    simp only [rowText, String.toList_ofList, List.append_assoc]
    constructor
    all_goals
      rw [List.getElem?_append_right (by omega), hdigits]
      rfl
  shown := by
    intro offset byte hbyte
    obtain ⟨hdigits, hglyph⟩ := getElem?_rowText_byte address hbytes hbyte
    have hcell : hexText (some byte)
        = [Nat.digitChar (byte.toNat / 16), Nat.digitChar (byte.toNat % 16), ' '] := by
      rw [hexText, Text.hexByte_eq]
      rfl
    rw [hcell] at hdigits
    exact ⟨hdigits 0 (by decide), hdigits 1 (by decide), hglyph⟩
  leftOut := by
    intro offset hbyte
    obtain ⟨hdigits, hglyph⟩ := getElem?_rowText_byte address hbytes hbyte
    exact ⟨hdigits 0 (by decide), hdigits 1 (by decide), hglyph⟩
  blank := fun _ hlow hhigh hother => getElem?_rowText_blank address hbytes hlow hhigh hother

end Row

end SerialConsole.Listing
