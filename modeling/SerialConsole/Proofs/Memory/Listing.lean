import SerialConsole.Proofs.Failing
import SerialConsole.Proofs.Memory.Layout

/-!
# What a listing shows

A listing from `start` on shows row after row of sixteen bytes, and in the first row only those from
`start` on. `address` and `Shown` say which bytes these are, without the loop that goes through them;
`listing_eq` says that the loop reads just these, in the order of rows and offsets. From it follow

* `listing_exact`: a listing is given just if all its bytes can be read, the first that cannot be read
  decides the fault, and each row is laid out as `Layout` says, so the bytes can be read back;
* `listing_composes_and_is_local`: a listing is that of its first rows and that of the others, and it
  depends on memory through the bytes that it shows and no others.
-/

namespace SerialConsole.Listing

open Failing

/-! ## Which bytes are shown -/

/-- The address of the byte at an offset of a row, counted from the row of `start` on. Rows begin at
multiples of 16, and addresses wrap. -/
def address (start : UInt32) (row offset : Nat) : UInt32 :=
  UInt32.ofNat (start.toNat / 16 * 16 + 16 * row + offset)

/-- Whether the byte at an offset of a row is shown: the first row leaves out those before `start`. -/
def Shown (start : UInt32) (row offset : Nat) : Prop :=
  offset < 16 ∧ (row = 0 → start.toNat % 16 ≤ offset)

instance (start : UInt32) (row offset : Nat) : Decidable (Shown start row offset) :=
  inferInstanceAs (Decidable (_ ∧ _))

/-- The address of a row, as the loop counts it. -/
theorem rowAddress_add (start : UInt32) (row : Nat) :
    rowAddress start + UInt32.ofNat (16 * row) = address start row 0 := by
  have hrow : rowAddress start = UInt32.ofNat (start.toNat / 16 * 16) := by
    have hsmall := start.toNat_lt
    have hmod : (start % 16).toNat = start.toNat % 16 := UInt32.toNat_mod start 16
    apply UInt32.toNat_inj.mp
    rw [rowAddress, UInt32.toNat_sub_of_le _ _ (by show (start % 16).toNat ≤ start.toNat; omega), hmod,
      UInt32.toNat_ofNat_of_lt' (by show _ < 4294967296; omega)]
    omega
  rw [hrow, ← UInt32.ofNat_add]
  rfl

theorem address_add (start : UInt32) (row offset : Nat) :
    address start row 0 + UInt32.ofNat offset = address start row offset := by
  rw [address, ← UInt32.ofNat_add]
  rfl

/-! ## Reading row by row -/

section Reading

variable (memory : AddressSpace) (start : UInt32)

/-- What the listing has at an offset of a row. -/
def cellAt (row offset : Nat) : Except Fault (Option UInt8) :=
  if Shown start row offset then some <$> memory (address start row offset) else .ok none

/-- One row of the listing. -/
def rowAt (row : Nat) : Except Fault String := do
  let bytes ← (List.range 16).mapM (cellAt memory start row)
  .ok (rowText (address start row 0) bytes)

theorem readRow_eq (row : Nat) :
    readRow memory (address start row 0) (if row = 0 then start.toNat % 16 else 0)
      = (List.range 16).mapM (cellAt memory start row) := by
  apply mapM_range_congr
  intro offset (hoffset : offset < 16)
  have hshown : Shown start row offset ↔
      ¬offset < if row = 0 then start.toNat % 16 else 0 := by
    unfold Shown
    split <;> omega
  simp only [cellAt, hshown, address_add, ite_not]

/-- The loop over the rows is a series of rows. -/
theorem rows_eq (base : UInt32) (skip count : Nat) :
    rows memory base skip count
      = (List.range count).mapM (fun row => do
          let bytes ← readRow memory (base + UInt32.ofNat (16 * row)) (if row = 0 then skip else 0)
          .ok (rowText (base + UInt32.ofNat (16 * row)) bytes)) := by
  induction count generalizing base skip with
  | zero => rfl
  | succ count ih =>
    have hnext : ∀ row, base + 16 + UInt32.ofNat (16 * row) = base + UInt32.ofNat (16 * (row + 1)) := by
      intro row
      rw [Nat.mul_succ, Nat.add_comm (16 * row), UInt32.ofNat_add, ← UInt32.add_assoc]
      rfl
    have hfirst : base + UInt32.ofNat (16 * 0) = base := UInt32.add_zero base
    rw [rows, ih, List.range_succ_eq_map, List.mapM_cons, List.mapM_map]
    -- only the first row leaves bytes out
    simp only [Function.comp_def, hnext, hfirst, Nat.succ_eq_add_one, Nat.add_one_ne_zero, ite_self,
      if_true, if_false, bind_assoc]
    rfl

/-- A listing is the series of its rows. -/
theorem listing_eq (count : Cell) :
    listing memory start count = (do
      let texts ← (List.range count.toInt.toNat).mapM (rowAt memory start)
      .ok (String.join texts)) := by
  have hskip : (start % 16).toNat = start.toNat % 16 := UInt32.toNat_mod start 16
  simp only [listing, rows_eq, rowAddress_add, hskip, readRow_eq]
  rfl

end Reading

section Rows

variable {memory : AddressSpace} {start : UInt32} {row offset : Nat}

theorem cellAt_eq_error_iff {fault : Fault} :
    cellAt memory start row offset = .error fault ↔
      Shown start row offset ∧ memory (address start row offset) = .error fault := by
  unfold cellAt
  split <;> cases memory (address start row offset) <;> simp_all [Functor.map, Except.map]

theorem exists_cellAt_eq_ok_iff :
    (∃ cell, cellAt memory start row offset = .ok cell) ↔
      (Shown start row offset → ∃ byte, memory (address start row offset) = .ok byte) := by
  unfold cellAt
  split <;> cases memory (address start row offset) <;> simp_all [Functor.map, Except.map]

/-- The bytes that a row shows, and what it leaves out. -/
structure Holds (memory : AddressSpace) (start : UInt32) (row : Nat) (bytes : List (Option UInt8)) :
    Prop where
  length : bytes.length = 16
  shown : ∀ offset, Shown start row offset →
    ∃ byte, memory (address start row offset) = .ok byte ∧ bytes[offset]? = some (some byte)
  leftOut : ∀ offset < 16, ¬Shown start row offset → bytes[offset]? = some none

theorem holds_of_mapM_cellAt {bytes : List (Option UInt8)}
    (h : (List.range 16).mapM (cellAt memory start row) = .ok bytes) :
    Holds memory start row bytes := by
  obtain ⟨hlength, hcells⟩ := of_mapM_range_eq_ok h
  refine ⟨hlength, fun offset hshown => ?_, fun offset hoffset hnot => ?_⟩
  · obtain ⟨cell, hcell, hplace⟩ := hcells offset hshown.1
    rw [cellAt, if_pos hshown] at hcell
    cases hbyte : memory (address start row offset) with
    | error fault =>
      rw [hbyte] at hcell
      cases hcell
    | ok byte =>
      rw [hbyte] at hcell
      cases hcell
      exact ⟨byte, rfl, hplace⟩
  · obtain ⟨cell, hcell, hplace⟩ := hcells offset hoffset
    rw [cellAt, if_neg hnot] at hcell
    cases hcell
    exact hplace

theorem exists_of_rowAt_eq_ok {text : String} (h : rowAt memory start row = .ok text) :
    ∃ bytes, Holds memory start row bytes ∧ text = rowText (address start row 0) bytes := by
  obtain ⟨bytes, hbytes, htext⟩ := exists_of_bind_eq_ok h
  exact ⟨bytes, holds_of_mapM_cellAt hbytes, (Except.ok.inj htext).symm⟩

/-- A row is given just if its bytes can be read. -/
theorem exists_rowAt_eq_ok_iff :
    (∃ text, rowAt memory start row = .ok text) ↔
      ∀ offset, Shown start row offset → ∃ byte, memory (address start row offset) = .ok byte := by
  rw [rowAt, exists_bind_ok_iff, exists_mapM_range_eq_ok_iff]
  simp only [exists_cellAt_eq_ok_iff]
  constructor
  · intro h offset hshown
    exact h offset hshown.1 hshown
  · intro h offset _ hshown
    exact h offset hshown

theorem rowAt_eq_error_iff {fault : Fault} :
    rowAt memory start row = .error fault ↔
      ∃ offset, Shown start row offset ∧ memory (address start row offset) = .error fault ∧
        ∀ earlier < offset, Shown start row earlier →
          ∃ byte, memory (address start row earlier) = .ok byte := by
  rw [rowAt, bind_ok_eq_error_iff, mapM_range_eq_error_iff]
  simp only [cellAt_eq_error_iff, exists_cellAt_eq_ok_iff]
  constructor
  · rintro ⟨offset, -, ⟨hshown, hfault⟩, hbefore⟩
    exact ⟨offset, hshown, hfault, hbefore⟩
  · rintro ⟨offset, hshown, hfault, hbefore⟩
    exact ⟨offset, hshown.1, ⟨hshown, hfault⟩, hbefore⟩

end Rows

/-! ## When a listing is given -/

section Listings

variable {memory : AddressSpace} {start : UInt32} {count : Cell}

/-- The fault of the first byte that cannot be read, in the order of rows and of offsets in a row. -/
def FirstFault (memory : AddressSpace) (start : UInt32) (rowCount : Nat) (fault : Fault) : Prop :=
  ∃ row < rowCount, ∃ offset, Shown start row offset ∧
    memory (address start row offset) = .error fault ∧
    ∀ row' offset', row' < row ∨ (row' = row ∧ offset' < offset) → Shown start row' offset' →
      ∃ byte, memory (address start row' offset') = .ok byte

/-- A listing is given just if all its bytes can be read. -/
theorem exists_listing_eq_ok_iff :
    (∃ text, listing memory start count = .ok text) ↔
      ∀ row < count.toInt.toNat, ∀ offset, Shown start row offset →
        ∃ byte, memory (address start row offset) = .ok byte := by
  rw [listing_eq, exists_bind_ok_iff, exists_mapM_range_eq_ok_iff]
  simp only [exists_rowAt_eq_ok_iff]

/-- A listing fails as the first byte does that cannot be read. -/
theorem listing_eq_error_iff {fault : Fault} :
    listing memory start count = .error fault ↔
      FirstFault memory start count.toInt.toNat fault := by
  rw [listing_eq, bind_ok_eq_error_iff, mapM_range_eq_error_iff]
  simp only [rowAt_eq_error_iff, exists_rowAt_eq_ok_iff]
  constructor
  · rintro ⟨row, hrow, ⟨offset, hshown, hfault, hinRow⟩, habove⟩
    refine ⟨row, hrow, offset, hshown, hfault, ?_⟩
    rintro row' offset' (hearlier | ⟨rfl, hearlier⟩) hshown'
    · exact habove row' hearlier offset' hshown'
    · exact hinRow offset' hearlier hshown'
  · rintro ⟨row, hrow, offset, hshown, hfault, hbefore⟩
    refine ⟨row, hrow, ⟨offset, hshown, hfault, ?_⟩, ?_⟩
    · exact fun earlier hearlier => hbefore row earlier (.inr ⟨rfl, hearlier⟩)
    · exact fun earlier hearlier offset' => hbefore earlier offset' (.inl hearlier)

end Listings

/-! ## Reading a listing back -/

section ReadingBack

/-- The byte that a text shows at an offset of a row, read from its two digits. -/
def readBack? (text : String) (row offset : Nat) : Option UInt8 :=
  (Text.numeral? 16 ((text.toList.drop (79 * row + digitPlace offset)).take 2)).map UInt8.ofNat

/-- Rows of one length stand one after the other. -/
theorem getElem?_join {texts : List String} (htexts : ∀ text ∈ texts, text.toList.length = 79)
    {row : Nat} {text : String} (hrow : texts[row]? = some text) {i : Nat} (hi : i < 79) :
    (String.join texts).toList[79 * row + i]? = text.toList[i]? := by
  induction texts generalizing row with
  | nil => cases hrow
  | cons first rest ih =>
    have hfirst := htexts first List.mem_cons_self
    rw [String.join_cons, String.toList_append]
    cases row with
    | zero =>
      cases hrow
      rw [List.getElem?_append_left (by omega), Nat.mul_zero, Nat.zero_add]
    | succ row =>
      rw [List.getElem?_append_right (by omega), hfirst,
        show 79 * (row + 1) + i - 79 = 79 * row + i by omega]
      exact ih (fun text htext => htexts text (List.mem_cons_of_mem first htext)) hrow

theorem take_two_drop {α : Type} {items : List α} {i : Nat} {first second : α}
    (hfirst : items[i]? = some first) (hsecond : items[i + 1]? = some second) :
    (items.drop i).take 2 = [first, second] := by
  obtain ⟨hi, rfl⟩ := List.getElem?_eq_some_iff.mp hfirst
  obtain ⟨hnext, rfl⟩ := List.getElem?_eq_some_iff.mp hsecond
  rw [List.drop_eq_getElem_cons hi, List.drop_eq_getElem_cons hnext]
  rfl

variable {texts : List String} (htexts : ∀ text ∈ texts, text.toList.length = 79) {row : Nat}
  {text : String} (hrow : texts[row]? = some text) {base : UInt32} {bytes : List (Option UInt8)}
  (hlayout : Layout base bytes text.toList) {offset : Nat}

include htexts hrow hlayout

/-- A byte that a row shows is read back from its digits. -/
theorem readBack?_of_shown {byte : UInt8} (hbyte : bytes[offset]? = some (some byte))
    (hoffset : offset < 16) : readBack? (String.join texts) row offset = some byte := by
  obtain ⟨hhigh, hlow, -⟩ := hlayout.shown offset byte hbyte
  have hplace : digitPlace offset + 1 < 79 := by
    unfold digitPlace
    omega
  rw [← getElem?_join htexts hrow (by omega)] at hhigh hlow
  rw [readBack?, take_two_drop hhigh hlow, ← Text.hexByte_eq, Text.numeral?_hexByte, Option.map_some,
    UInt8.ofNat_toNat]

/-- Nothing is read back where a row leaves out a byte. -/
theorem readBack?_of_leftOut (hbyte : bytes[offset]? = some none) (hoffset : offset < 16) :
    readBack? (String.join texts) row offset = none := by
  obtain ⟨hhigh, hlow, -⟩ := hlayout.leftOut offset hbyte
  have hplace : digitPlace offset + 1 < 79 := by
    unfold digitPlace
    omega
  rw [← getElem?_join htexts hrow (by omega)] at hhigh hlow
  rw [readBack?, take_two_drop hhigh hlow]
  rfl

end ReadingBack

section Exact

variable {memory : AddressSpace} {start : UInt32} {count : Cell} {text : String}

/-- The rows of a listing that is given. -/
theorem exists_rows_of_listing_eq_ok (h : listing memory start count = .ok text) :
    ∃ texts : List String, text = String.join texts ∧ texts.length = count.toInt.toNat ∧
      (∀ row ∈ texts, row.toList.length = 79) ∧
      ∀ row < count.toInt.toNat, ∃ shown bytes, texts[row]? = some shown ∧
        Layout (address start row 0) bytes shown.toList ∧ Holds memory start row bytes := by
  rw [listing_eq] at h
  obtain ⟨texts, htexts, htext⟩ := exists_of_bind_eq_ok h
  obtain ⟨hlength, hrows⟩ := of_mapM_range_eq_ok htexts
  have hlaidOut : ∀ row < count.toInt.toNat, ∃ shown bytes, texts[row]? = some shown ∧
      Layout (address start row 0) bytes shown.toList ∧ Holds memory start row bytes := by
    intro row hrow
    obtain ⟨shown, hshown, hplace⟩ := hrows row hrow
    obtain ⟨bytes, hbytes, rfl⟩ := exists_of_rowAt_eq_ok hshown
    exact ⟨_, bytes, hplace, layout_rowText _ hbytes.length, hbytes⟩
  refine ⟨texts, (Except.ok.inj htext).symm, hlength, fun shown hmem => ?_, hlaidOut⟩
  obtain ⟨row, hplace⟩ := List.getElem?_of_mem hmem
  have hrow : row < count.toInt.toNat := hlength ▸ (List.getElem?_eq_some_iff.mp hplace).1
  obtain ⟨shown', bytes, hplace', hlayout, -⟩ := hlaidOut row hrow
  cases hplace.symm.trans hplace'
  exact hlayout.length

/-- The bytes that a listing shows are read back from it, and no others. -/
theorem readBack?_of_listing_eq_ok (h : listing memory start count = .ok text) {row : Nat}
    (hrow : row < count.toInt.toNat) {offset : Nat} (hoffset : offset < 16) :
    (Shown start row offset → ∃ byte, memory (address start row offset) = .ok byte ∧
        readBack? text row offset = some byte) ∧
      (¬Shown start row offset → readBack? text row offset = none) := by
  obtain ⟨texts, rfl, -, hlengths, hrows⟩ := exists_rows_of_listing_eq_ok h
  obtain ⟨shown, bytes, hplace, hlayout, hbytes⟩ := hrows row hrow
  constructor
  · intro hshown
    obtain ⟨byte, hbyte, hcell⟩ := hbytes.shown offset hshown
    exact ⟨byte, hbyte, readBack?_of_shown hlengths hplace hlayout hcell hoffset⟩
  · intro hnot
    exact readBack?_of_leftOut hlengths hplace hlayout (hbytes.leftOut offset hoffset hnot) hoffset

end Exact

/-- A listing is exact. It is given just if every byte that it has to show can be read, and otherwise
its fault is that of the first of these bytes that cannot. The text is as many rows as were asked for,
none for a negative count. Each is laid out as `Layout` says behind its own address, with the bytes that
memory holds there; so they can be read back from the text, and it can be told which were left out. -/
theorem listing_exact (memory : AddressSpace) (start : UInt32) (count : Cell) :
    let rowCount := (max count.toInt 0).toNat
    ((∃ text, listing memory start count = .ok text) ↔
        ∀ row < rowCount, ∀ offset, Shown start row offset →
          ∃ byte, memory (address start row offset) = .ok byte) ∧
      (∀ fault, listing memory start count = .error fault ↔
        FirstFault memory start rowCount fault) ∧
      ∀ text, listing memory start count = .ok text →
        (∃ rows : List String, text = String.join rows ∧ rows.length = rowCount ∧
          ∀ row < rowCount, ∃ shown bytes, rows[row]? = some shown ∧
            Layout (address start row 0) bytes shown.toList ∧ Holds memory start row bytes) ∧
        ∀ row < rowCount, ∀ offset < 16,
          (Shown start row offset → ∃ byte, memory (address start row offset) = .ok byte ∧
            readBack? text row offset = some byte) ∧
          (¬Shown start row offset → readBack? text row offset = none) := by
  intro rowCount
  have hcount : rowCount = count.toInt.toNat := by
    show (max count.toInt 0).toNat = _
    omega
  rw [hcount]
  refine ⟨exists_listing_eq_ok_iff, fun fault => listing_eq_error_iff, fun text htext => ⟨?_, ?_⟩⟩
  · obtain ⟨rows, hjoin, hlength, -, hrows⟩ := exists_rows_of_listing_eq_ok htext
    exact ⟨rows, hjoin, hlength, hrows⟩
  · intro row hrow offset hoffset
    exact readBack?_of_listing_eq_ok htext hrow hoffset

-- The first row leaves out what stands before the start; behind the last address comes the first one,
-- where a region that ends with the address space has nothing.
example :
    listing (fun address => .ok (0x50 + address.toUInt8)) 0x13 1
        = .ok "00000010:           63 64 65 66 67  68 69 6a 6b 6c 6d 6e 6f     cdefg hijklmno\n" ∧
      listing (Region.zeroed 0xfffffff0 16).space 0xfffffff3 2 = .error AddressSpace.outOfRange := by
  decide +kernel

/-! ## Listings put together and compared -/

section Composition

variable (memory : AddressSpace) (start : UInt32)

theorem toNat_address (row offset : Nat) :
    (address start row offset).toNat = (start.toNat / 16 * 16 + 16 * row + offset) % 4294967296 :=
  UInt32.toNat_ofNat'

/-- Counting rows from a later row on comes to the same bytes, also past the last address. -/
theorem address_address (skipped row offset : Nat) :
    address (address start skipped 0) row offset = address start (skipped + row) offset := by
  apply UInt32.toNat_inj.mp
  rw [toNat_address, toNat_address, toNat_address]
  omega

theorem shown_address {skipped : Nat} (hskipped : 1 ≤ skipped) (row offset : Nat) :
    Shown (address start skipped 0) row offset ↔ Shown start (skipped + row) offset := by
  unfold Shown
  rw [toNat_address]
  omega

/-- The rows of a listing behind its first ones are those of the listing that begins there. -/
theorem rowAt_add {skipped : Nat} (hskipped : 1 ≤ skipped) (row : Nat) :
    rowAt memory start (skipped + row) = rowAt memory (address start skipped 0) row := by
  have hcells : cellAt memory start (skipped + row)
      = cellAt memory (address start skipped 0) row := by
    funext offset
    simp only [cellAt, shown_address start hskipped, address_address]
  simp only [rowAt, hcells, address_address]

/-- A listing is that of its first rows, followed by that of the other rows. -/
theorem listing_add {first second : Cell} (hfirst : 1 ≤ first.toInt) (hsecond : 0 ≤ second.toInt)
    (hboth : first.toInt + second.toInt ≤ 2147483647) :
    listing memory start (first + second) = (do
      let upper ← listing memory start first
      let lower ← listing memory (address start first.toInt.toNat 0) second
      .ok (upper ++ lower)) := by
  have hcount : (first + second).toInt.toNat = first.toInt.toNat + second.toInt.toNat := by
    rw [Int32.toInt_add, Int.bmod_def]
    omega
  have hrest : rowAt memory start ∘ (first.toInt.toNat + ·)
      = rowAt memory (address start first.toInt.toNat 0) := by
    funext row
    exact rowAt_add memory start (by omega) row
  rw [listing_eq, listing_eq, listing_eq, hcount, List.range_add, List.mapM_append, List.mapM_map,
    hrest]
  cases (List.range first.toInt.toNat).mapM (rowAt memory start) with
  | error fault => rfl
  | ok upper =>
    cases (List.range second.toInt.toNat).mapM (rowAt memory (address start first.toInt.toNat 0)) with
    | error fault => rfl
    | ok lower => exact congrArg Except.ok String.join_append

/-- A listing depends on memory through the bytes that it shows. -/
theorem listing_congr {other : AddressSpace} {count : Cell}
    (h : ∀ row < count.toInt.toNat, ∀ offset, Shown start row offset →
      memory (address start row offset) = other (address start row offset)) :
    listing memory start count = listing other start count := by
  have hrows : ∀ row < count.toInt.toNat, rowAt memory start row = rowAt other start row := by
    intro row hrow
    have hcells : cellAt memory start row = cellAt other start row := by
      funext offset
      by_cases hshown : Shown start row offset
      · rw [cellAt, cellAt, if_pos hshown, if_pos hshown, h row hrow offset hshown]
      · rw [cellAt, cellAt, if_neg hshown, if_neg hshown]
    rw [rowAt, rowAt, hcells]
  rw [listing_eq, listing_eq, mapM_range_congr hrows]

/-- Two memories have the same listing just if both can be read, and agree, at every byte shown. -/
theorem exists_common_listing_iff {other : AddressSpace} {count : Cell} :
    (∃ text, listing memory start count = .ok text ∧ listing other start count = .ok text) ↔
      ∀ row < count.toInt.toNat, ∀ offset, Shown start row offset →
        ∃ byte, memory (address start row offset) = .ok byte ∧
          other (address start row offset) = .ok byte := by
  constructor
  · -- what one text shows is read back alike, whichever memory it came from
    rintro ⟨text, hmemory, hother⟩ row hrow offset hshown
    obtain ⟨byte, hbyte, hback⟩ := (readBack?_of_listing_eq_ok hmemory hrow hshown.1).1 hshown
    obtain ⟨byte', hbyte', hback'⟩ := (readBack?_of_listing_eq_ok hother hrow hshown.1).1 hshown
    cases hback.symm.trans hback'
    exact ⟨byte, hbyte, hbyte'⟩
  · intro h
    have hgiven : ∃ text, listing memory start count = .ok text := by
      rw [exists_listing_eq_ok_iff]
      intro row hrow offset hshown
      obtain ⟨byte, hbyte, -⟩ := h row hrow offset hshown
      exact ⟨byte, hbyte⟩
    obtain ⟨text, htext⟩ := hgiven
    refine ⟨text, htext, ?_⟩
    rw [← htext]
    symm
    apply listing_congr
    intro row hrow offset hshown
    obtain ⟨byte, hbyte, hother⟩ := h row hrow offset hshown
    rw [hbyte, hother]

end Composition

/-- Listings are put together from rows, and compared by bytes. A listing of some rows and then others is
given just if both parts are, the second from the row behind the first part on, and is then one part
behind the other; otherwise it fails as the first part that fails. Two memories have the same listing
just if both can be read, and hold the same bytes, at every address that is shown. -/
theorem listing_composes_and_is_local :
    (∀ (memory : AddressSpace) (start : UInt32) (first second : Cell), 1 ≤ first.toInt →
      0 ≤ second.toInt → first.toInt + second.toInt ≤ 2 ^ 31 - 1 →
        let next := UInt32.ofNat (start.toNat / 16 * 16 + 16 * first.toInt.toNat)
        (∀ text, listing memory start (first + second) = .ok text ↔
          ∃ upper lower, listing memory start first = .ok upper ∧
            listing memory next second = .ok lower ∧ text = upper ++ lower) ∧
        ∀ fault, listing memory start (first + second) = .error fault ↔
          listing memory start first = .error fault ∨
            (∃ upper, listing memory start first = .ok upper) ∧
              listing memory next second = .error fault) ∧
      ∀ (memory other : AddressSpace) (start : UInt32) (count : Cell),
        (∃ text, listing memory start count = .ok text ∧ listing other start count = .ok text) ↔
          ∀ row < count.toInt.toNat, ∀ offset, Shown start row offset →
            ∃ byte, memory (address start row offset) = .ok byte ∧
              other (address start row offset) = .ok byte := by
  refine ⟨?_, fun memory other start count => exists_common_listing_iff memory start⟩
  intro memory start first second hfirst hsecond hboth next
  have hnext : next = address start first.toInt.toNat 0 := rfl
  rw [hnext, listing_add memory start hfirst hsecond hboth]
  constructor
  · intro text
    constructor
    · intro h
      obtain ⟨upper, hupper, h⟩ := exists_of_bind_eq_ok h
      obtain ⟨lower, hlower, h⟩ := exists_of_bind_eq_ok h
      exact ⟨upper, lower, hupper, hlower, (Except.ok.inj h).symm⟩
    · rintro ⟨upper, lower, hupper, hlower, rfl⟩
      rw [hupper, hlower]
      rfl
  · intro fault
    simp only [bind_eq_error_iff, reduceCtorEq, and_false, exists_false, or_false, exists_and_right]

/-- The second row of a listing at the end of the address space is the first row of one from zero on. -/
theorem listing_composes_and_is_local_wrapping :
    let memory : AddressSpace := fun address => .ok address.toUInt8
    let next := UInt32.ofNat ((0xfffffff3 : UInt32).toNat / 16 * 16 + 16 * (1 : Cell).toInt.toNat)
    next = 0 ∧
      listing memory 0xfffffff3 (1 + 1) = .ok
        ("fffffff0:           f3 f4 f5 f6 f7  f8 f9 fa fb fc fd fe ff     ..... ........\n" ++
          "00000000:  00 01 02 03 04 05 06 07  08 09 0a 0b 0c 0d 0e 0f  ........ ........\n") ∧
      ∀ text, listing memory 0xfffffff3 (1 + 1) = .ok text ↔
        ∃ upper lower, listing memory 0xfffffff3 1 = .ok upper ∧ listing memory next 1 = .ok lower ∧
          text = upper ++ lower := by
  intro memory next
  refine ⟨by decide, by decide +kernel, ?_⟩
  exact (listing_composes_and_is_local.1 memory 0xfffffff3 1 1 (by decide) (by decide) (by decide)).1

end SerialConsole.Listing
