import SerialConsole.Rom.Image

/-!
# Images read back

The bytes of a word give the word back, and four bytes are the bytes of the word that they make. So
the image of a row of slots gives the slots back (`decode?_encode`), and whatever reads as a row of
slots is their image and no other byte string (`encode_of_decode?`).
-/

namespace SerialConsole.RomImage

/-! ## Words -/

/-- Bit `i` of a word comes from byte `i / 8` of the four that make it. -/
theorem getLsbD_ofBytes (b₀ b₁ b₂ b₃ : UInt8) {i : Nat} (hi : i < 32) :
    (ofBytes b₀ b₁ b₂ b₃).toBitVec.getLsbD i
      = (b₀.toBitVec.getLsbD i || decide (8 ≤ i) && b₁.toBitVec.getLsbD (i - 8)
          || decide (16 ≤ i) && b₂.toBitVec.getLsbD (i - 16)
          || decide (24 ≤ i) && b₃.toBitVec.getLsbD (i - 24)) := by
  have h8 : (8 : UInt32).toBitVec % 32 = 8#32 := by decide
  have h16 : (16 : UInt32).toBitVec % 32 = 16#32 := by decide
  have h24 : (24 : UInt32).toBitVec % 32 = 24#32 := by decide
  simp only [ofBytes, UInt32.toBitVec_or, UInt32.toBitVec_shiftLeft, UInt8.toBitVec_toUInt32,
    h8, h16, h24, BitVec.shiftLeft_eq', BitVec.toNat_ofNat, BitVec.getLsbD_or,
    BitVec.getLsbD_shiftLeft, BitVec.getLsbD_setWidth, Nat.reducePow, Nat.reduceMod]
  grind

/-- Bit `i` of the byte that stands `amount` places up in a word. -/
theorem getLsbD_toUInt8_shiftRight (word : UInt32) {amount : UInt32} (h : amount < 32) (i : Nat) :
    (word >>> amount).toUInt8.toBitVec.getLsbD i
      = (decide (i < 8) && word.toBitVec.getLsbD (amount.toNat + i)) := by
  have hamount : amount.toNat % 32 = amount.toNat := Nat.mod_eq_of_lt h
  simp only [UInt32.toBitVec_toUInt8, UInt32.toBitVec_shiftRight, BitVec.getLsbD_setWidth,
    BitVec.ushiftRight_eq', BitVec.getLsbD_ushiftRight, BitVec.toNat_umod]
  simp [hamount]

/-- A word is made of its four bytes. -/
theorem ofBytes_wordBytes (word : UInt32) :
    ofBytes word.toUInt8 (word >>> 8).toUInt8 (word >>> 16).toUInt8 (word >>> 24).toUInt8 = word := by
  apply UInt32.toBitVec_inj.mp
  apply BitVec.eq_of_getLsbD_eq
  intro i hi
  rw [getLsbD_ofBytes _ _ _ _ hi, UInt32.toBitVec_toUInt8, BitVec.getLsbD_setWidth,
    getLsbD_toUInt8_shiftRight word (by decide), getLsbD_toUInt8_shiftRight word (by decide),
    getLsbD_toUInt8_shiftRight word (by decide)]
  simp only [UInt32.reduceToNat]
  -- each byte answers for its own eight places
  grind

/-- Four bytes are the bytes of the word that they make. -/
theorem wordBytes_ofBytes (b₀ b₁ b₂ b₃ : UInt8) :
    wordBytes (ofBytes b₀ b₁ b₂ b₃) = [b₀, b₁, b₂, b₃] := by
  simp only [wordBytes, List.cons.injEq, and_true]
  refine ⟨?_, ?_, ?_, ?_⟩
  · apply UInt8.toBitVec_inj.mp
    apply BitVec.eq_of_getLsbD_eq
    intro i hi
    rw [UInt32.toBitVec_toUInt8, BitVec.getLsbD_setWidth, getLsbD_ofBytes _ _ _ _ (by omega)]
    grind
  all_goals
    apply UInt8.toBitVec_inj.mp
    apply BitVec.eq_of_getLsbD_eq
    intro i hi
    rw [getLsbD_toUInt8_shiftRight _ (by decide)]
    simp only [UInt32.reduceToNat]
    rw [getLsbD_ofBytes _ _ _ _ (by omega)]
    -- the other three bytes have no bit at these places
    grind

@[simp] theorem length_wordBytes (word : UInt32) : (wordBytes word).length = 4 := rfl

@[simp] theorem words_wordBytes_append (word : UInt32) (rest : List UInt8) :
    words (wordBytes word ++ rest) = word :: words rest := by
  rw [wordBytes]
  simp only [List.cons_append, List.nil_append, words]
  rw [ofBytes_wordBytes]

theorem length_words (bytes : List UInt8) : (words bytes).length = bytes.length / 4 := by
  fun_induction words bytes with
  | case1 b₀ b₁ b₂ b₃ rest ih =>
    simp only [List.length_cons, ih]
    omega
  | case2 bytes hshort =>
    -- fewer than four bytes are left
    have hlt : bytes.length < 4 := by
      rcases bytes with _ | ⟨b₀, _ | ⟨b₁, _ | ⟨b₂, _ | ⟨b₃, rest⟩⟩⟩⟩
      · simp
      · simp
      · simp
      · simp
      · exact absurd rfl (hshort b₀ b₁ b₂ b₃ rest)
    rw [List.length_nil]
    omega

/-- If no byte is left over, the words of a byte string are all it holds. -/
theorem flatMap_wordBytes_words {bytes : List UInt8} (h : bytes.length % 4 = 0) :
    (words bytes).flatMap wordBytes = bytes := by
  fun_induction words bytes with
  | case1 b₀ b₁ b₂ b₃ rest ih =>
    have hrest : rest.length % 4 = 0 := by
      simp only [List.length_cons] at h
      omega
    rw [List.flatMap_cons, wordBytes_ofBytes, ih hrest]
    rfl
  | case2 bytes hshort =>
    rcases bytes with _ | ⟨b₀, _ | ⟨b₁, _ | ⟨b₂, _ | ⟨b₃, rest⟩⟩⟩⟩
    · rfl
    · simp at h
    · simp at h
    · simp at h
    · exact absurd rfl (hshort b₀ b₁ b₂ b₃ rest)

/-! ## Slots -/

@[simp] theorem slotBytes_cons (slot : Cell) (slots : List Cell) :
    slotBytes (slot :: slots) = wordBytes slot.toUInt32 ++ slotBytes slots := rfl

@[simp] theorem length_slotBytes (slots : List Cell) :
    (slotBytes slots).length = 4 * slots.length := by
  induction slots with
  | nil => rfl
  | cons slot slots ih =>
    rw [slotBytes_cons, List.length_append, length_wordBytes, ih, List.length_cons]
    omega

theorem words_slotBytes (slots : List Cell) :
    words (slotBytes slots) = slots.map Int32.toUInt32 := by
  induction slots with
  | nil => rfl
  | cons slot slots ih => rw [slotBytes_cons, words_wordBytes_append, ih, List.map_cons]

/-- Slots that were read from whole words are written as the bytes they were read from. -/
theorem slotBytes_map_words {bytes : List UInt8} (h : bytes.length % 4 = 0) :
    slotBytes ((words bytes).map UInt32.toInt32) = bytes := by
  have hwords := flatMap_wordBytes_words h
  simpa [slotBytes, List.flatMap_map] using hwords

/-! ## Images -/

@[simp] theorem length_encode (slots : List Cell) :
    (encode slots).length = 4 * slots.length + 4 := by
  simp [encode]

/-- The image of a row of slots reads as these slots. -/
theorem decode?_encode (slots : List Cell) : decode? (encode slots) slots.length = some slots := by
  have htake : (encode slots).take (4 * slots.length) = slotBytes slots := by
    rw [encode, List.take_left' (length_slotBytes slots)]
  have hdrop : (encode slots).drop (4 * slots.length)
      = wordBytes (Checksum.crc32 (slotBytes slots)) := by
    rw [encode, List.drop_left' (length_slotBytes slots)]
  have htrailer : words (wordBytes (Checksum.crc32 (slotBytes slots)))
      = [Checksum.crc32 (slotBytes slots)] := by
    have happend := words_wordBytes_append (Checksum.crc32 (slotBytes slots)) []
    rwa [List.append_nil] at happend
  have hcells : (slots.map Int32.toUInt32).map UInt32.toInt32 = slots := by
    simp [List.map_map, Function.comp_def]
  rw [decode?, htake, hdrop, if_pos ⟨length_encode slots, htrailer⟩, words_slotBytes, hcells]

/-- What reads as an image of `count` slots has `count` of them. -/
theorem length_of_decode? {bytes : List UInt8} {count : Nat} {slots : List Cell}
    (h : decode? bytes count = some slots) : slots.length = count := by
  unfold decode? at h
  split at h
  case isFalse => cases h
  case isTrue himage =>
    cases h
    rw [List.length_map, length_words, List.length_take, himage.1]
    omega

/-- What reads as a row of slots is the image of this row. -/
theorem encode_of_decode? {bytes : List UInt8} {count : Nat} {slots : List Cell}
    (h : decode? bytes count = some slots) : encode slots = bytes := by
  unfold decode? at h
  split at h
  case isFalse => cases h
  case isTrue himage =>
    obtain ⟨hlen, hcrc⟩ := himage
    cases h
    have hdata : (bytes.take (4 * count)).length % 4 = 0 := by
      rw [List.length_take]
      omega
    have htrailer : (bytes.drop (4 * count)).length % 4 = 0 := by
      rw [List.length_drop]
      omega
    -- the trailer holds the checksum of just these data, so writing the checksum gives it back
    have hback := flatMap_wordBytes_words htrailer
    rw [hcrc, List.flatMap_singleton] at hback
    rw [encode, slotBytes_map_words hdata, hback, List.take_append_drop]

theorem decode?_eq_some_iff {bytes : List UInt8} {count : Nat} {slots : List Cell} :
    decode? bytes count = some slots ↔ slots.length = count ∧ encode slots = bytes := by
  constructor
  · intro h
    exact ⟨length_of_decode? h, encode_of_decode? h⟩
  · rintro ⟨rfl, rfl⟩
    exact decode?_encode slots

/-- Reading and writing of images undo each other: every row of slots comes back from its image, a
byte string reads as a row of `count` slots only if the row has `count` slots and the string is its
image, and so the strings that read at all are just the images of `count` slots. -/
theorem image_codec_exact (bytes : List UInt8) (count : Nat) :
    (∀ slots, decode? (encode slots) slots.length = some slots) ∧
      (∀ slots, decode? bytes count = some slots ↔ slots.length = count ∧ encode slots = bytes) ∧
      ((decode? bytes count).isSome ↔ ∃ slots, slots.length = count ∧ encode slots = bytes) := by
  refine ⟨decode?_encode, fun slots => decode?_eq_some_iff, ?_⟩
  simp only [Option.isSome_iff_exists, decode?_eq_some_iff]

end SerialConsole.RomImage
