import Mathlib.Data.List.Basic
import SerialConsole.Proofs.Rom.Image
import SerialConsole.Rom.Bank

/-!
# What the checksum sees

The register of the checksum is linear over exclusive or and loses nothing when it is shifted. Two
things follow, and with them what the checksum can tell apart:

* `feedAll_four`: four bytes go through the register as the one word that they make, so four bytes
  that differ leave different registers;
* `feedAll_injective`: registers that differ still differ after any further bytes.

`eq_of_feedAll_eq` puts the two together: byte strings that differ within four neighbouring places
leave different registers. `feedAll_crc32` says that a byte string with its checksum behind it
leaves the same register whatever the string is. So one register runs through the data and the
trailer of an image, and it makes no difference in which of them an image was damaged.
-/

namespace SerialConsole.Checksum

open RomImage

/-! ## One shift -/

theorem and_one_eq_one_iff (register : UInt32) :
    register &&& 1 = 1 ↔ register.toBitVec.getLsbD 0 = true := by
  rw [← UInt32.toBitVec_inj, UInt32.toBitVec_and, UInt32.toBitVec_one,
    BitVec.and_one_eq_setWidth_ofBool_getLsbD]
  cases register.toBitVec.getLsbD 0 <;> decide

/-- Every bit moves down one place, and the polynomial is added if the lowest bit was set. -/
theorem getLsbD_shiftBit (register : UInt32) (i : Nat) :
    (shiftBit register).toBitVec.getLsbD i
      = (register.toBitVec.getLsbD (i + 1)
          ^^ (register.toBitVec.getLsbD 0 && polynomial.toBitVec.getLsbD i)) := by
  have hmoved : (register >>> 1).toBitVec.getLsbD i = register.toBitVec.getLsbD (i + 1) := by
    simp [UInt32.toBitVec_shiftRight, Nat.add_comm]
  unfold shiftBit
  simp only [and_one_eq_one_iff]
  split
  case isTrue hlow => rw [UInt32.toBitVec_xor, BitVec.getLsbD_xor, hmoved, hlow, Bool.true_and]
  case isFalse hlow =>
    rw [Bool.not_eq_true] at hlow
    rw [hmoved, hlow, Bool.false_and, Bool.xor_false]

theorem shiftBit_xor (x y : UInt32) : shiftBit (x ^^^ y) = shiftBit x ^^^ shiftBit y := by
  apply UInt32.toBitVec_inj.mp
  apply BitVec.eq_of_getLsbD_eq
  intro i _
  simp only [getLsbD_shiftBit, UInt32.toBitVec_xor, BitVec.getLsbD_xor]
  grind

/-- A shift loses nothing: the bit that fell out is the top bit afterwards, since the polynomial has
that bit and the moved register does not. -/
theorem shiftBit_injective {x y : UInt32} (h : shiftBit x = shiftBit y) : x = y := by
  have hbits := fun i => congrArg (fun register : UInt32 => register.toBitVec.getLsbD i) h
  simp only [getLsbD_shiftBit] at hbits
  have hlow : x.toBitVec.getLsbD 0 = y.toBitVec.getLsbD 0 := by
    have htop := hbits 31
    have hpoly : polynomial.toBitVec.getLsbD 31 = true := by decide
    have hbeyond : ∀ z : UInt32, z.toBitVec.getLsbD (31 + 1) = false := fun z =>
      BitVec.getLsbD_of_ge _ _ (Nat.le_refl 32)
    rwa [hpoly, hbeyond, hbeyond, Bool.false_xor, Bool.false_xor, Bool.and_true,
      Bool.and_true] at htop
  apply UInt32.toBitVec_inj.mp
  apply BitVec.eq_of_getLsbD_eq
  intro i _
  cases i with
  | zero => exact hlow
  | succ i =>
    have hnext := hbits i
    rw [hlow] at hnext
    exact Bool.xor_left_inj.mp hnext

/-! ## Many shifts -/

theorem repeat_shiftBit_xor (n : Nat) (x y : UInt32) :
    Nat.repeat shiftBit n (x ^^^ y) = Nat.repeat shiftBit n x ^^^ Nat.repeat shiftBit n y := by
  induction n with
  | zero => rfl
  | succ n ih => rw [Nat.repeat, Nat.repeat, Nat.repeat, ih, shiftBit_xor]

theorem repeat_shiftBit_add (m n : Nat) (x : UInt32) :
    Nat.repeat shiftBit (m + n) x = Nat.repeat shiftBit m (Nat.repeat shiftBit n x) := by
  induction m with
  | zero => rw [Nat.zero_add, Nat.repeat]
  | succ m ih => rw [Nat.add_right_comm, Nat.repeat, Nat.repeat, ih]

theorem repeat_shiftBit_injective (n : Nat) {x y : UInt32}
    (h : Nat.repeat shiftBit n x = Nat.repeat shiftBit n y) : x = y := by
  induction n with
  | zero => exact h
  | succ n ih => exact ih (shiftBit_injective h)

/-- As long as only zeros fall out, the bits just move down. -/
theorem getLsbD_repeat_shiftBit_of_clear {x : UInt32} {n : Nat}
    (hclear : ∀ i < n, x.toBitVec.getLsbD i = false) (i : Nat) :
    (Nat.repeat shiftBit n x).toBitVec.getLsbD i = x.toBitVec.getLsbD (n + i) := by
  induction n generalizing i with
  | zero => rw [Nat.zero_add, Nat.repeat]
  | succ n ih =>
    have hbefore := ih fun i hi => hclear i (by omega)
    have hnext : n + 1 + i = n + (i + 1) := by omega
    rw [Nat.repeat, getLsbD_shiftBit, hbefore, hbefore, hclear (n + 0) (by omega),
      Bool.false_and, Bool.xor_false, hnext]

/-! ## Bytes -/

/-- A byte that stands `n` places up in a word. -/
def movedUp (byte : UInt8) (n : Nat) : UInt32 := .ofBitVec (byte.toBitVec.setWidth 32 <<< n)

theorem getLsbD_movedUp (byte : UInt8) (n : Nat) {i : Nat} (hi : i < 32) :
    (movedUp byte n).toBitVec.getLsbD i = (decide (n ≤ i) && byte.toBitVec.getLsbD (i - n)) := by
  simp only [movedUp, BitVec.getLsbD_shiftLeft, BitVec.getLsbD_setWidth]
  grind

theorem repeat_shiftBit_movedUp (byte : UInt8) {n : Nat} (hn : n ≤ 24) :
    Nat.repeat shiftBit n (movedUp byte n) = byte.toUInt32 := by
  have hclear : ∀ i < n, (movedUp byte n).toBitVec.getLsbD i = false := by
    intro i hi
    rw [getLsbD_movedUp byte n (by omega), decide_eq_false (by omega), Bool.false_and]
  apply UInt32.toBitVec_inj.mp
  apply BitVec.eq_of_getLsbD_eq
  intro i hi
  rw [getLsbD_repeat_shiftBit_of_clear hclear, UInt8.toBitVec_toUInt32, BitVec.getLsbD_setWidth]
  by_cases hinside : n + i < 32
  · rw [getLsbD_movedUp byte n hinside]
    grind
  · -- so far up neither the word nor the byte has a bit
    grind

/-- A byte that is fed after some shifts could have been added before them, further up. -/
theorem feed_repeat_shiftBit (x : UInt32) (byte : UInt8) {n : Nat} (hn : n ≤ 24) :
    feed (Nat.repeat shiftBit n x) byte = Nat.repeat shiftBit (8 + n) (x ^^^ movedUp byte n) := by
  rw [feed, ← repeat_shiftBit_movedUp byte hn, ← repeat_shiftBit_xor, repeat_shiftBit_add]

/-- Four bytes go through the register as the one word that they make. -/
theorem feedAll_four (register : UInt32) (b₀ b₁ b₂ b₃ : UInt8) :
    feedAll register [b₀, b₁, b₂, b₃]
      = Nat.repeat shiftBit 32 (register ^^^ ofBytes b₀ b₁ b₂ b₃) := by
  have hword : register ^^^ movedUp b₀ 0 ^^^ movedUp b₁ 8 ^^^ movedUp b₂ 16 ^^^ movedUp b₃ 24
      = register ^^^ ofBytes b₀ b₁ b₂ b₃ := by
    apply UInt32.toBitVec_inj.mp
    apply BitVec.eq_of_getLsbD_eq
    intro i hi
    simp only [UInt32.toBitVec_xor, BitVec.getLsbD_xor]
    rw [getLsbD_ofBytes _ _ _ _ hi, getLsbD_movedUp _ _ hi, getLsbD_movedUp _ _ hi,
      getLsbD_movedUp _ _ hi, getLsbD_movedUp _ _ hi]
    grind
  show feed (feed (feed (feed (Nat.repeat shiftBit 0 register) b₀) b₁) b₂) b₃ = _
  rw [feed_repeat_shiftBit _ _ (by omega), feed_repeat_shiftBit _ _ (by omega),
    feed_repeat_shiftBit _ _ (by omega), feed_repeat_shiftBit _ _ (by omega), ← hword]

/-! ## Byte strings -/

theorem feedAll_append (register : UInt32) (bytes more : List UInt8) :
    feedAll register (bytes ++ more) = feedAll (feedAll register bytes) more :=
  List.foldl_append

theorem feed_injective {x y : UInt32} (byte : UInt8) (h : feed x byte = feed y byte) : x = y :=
  (UInt32.xor_left_inj _).mp (repeat_shiftBit_injective 8 h)

/-- Registers that differ still differ after any bytes. -/
theorem feedAll_injective {x y : UInt32} (bytes : List UInt8)
    (h : feedAll x bytes = feedAll y bytes) : x = y := by
  induction bytes generalizing x y with
  | nil => exact h
  | cons byte rest ih => exact feed_injective byte (ih h)

/-- Four bytes that leave the same register are the same. -/
theorem eq_of_feedAll_eq_of_length_eq_four {register : UInt32} {bytes other : List UInt8}
    (hbytes : bytes.length = 4) (hother : other.length = 4)
    (h : feedAll register bytes = feedAll register other) : bytes = other := by
  obtain ⟨b₀, b₁, b₂, b₃, rfl⟩ := List.length_eq_four.mp hbytes
  obtain ⟨c₀, c₁, c₂, c₃, rfl⟩ := List.length_eq_four.mp hother
  rw [feedAll_four, feedAll_four] at h
  have hword := (UInt32.xor_right_inj _).mp (repeat_shiftBit_injective 32 h)
  rw [← wordBytes_ofBytes, hword, wordBytes_ofBytes]

/-- A byte string with its checksum behind it leaves a register that does not depend on the
string. -/
theorem feedAll_crc32 (data : List UInt8) :
    feedAll 0xFFFFFFFF (data ++ wordBytes (crc32 data)) = 0xDEBB20E3 := by
  have hones : ∀ register : UInt32, register ^^^ ~~~register = 0xFFFFFFFF := by
    intro register
    rw [UInt32.xor_not, UInt32.xor_self]
    decide
  rw [feedAll_append, wordBytes, feedAll_four, ofBytes_wordBytes, crc32, hones]
  decide +kernel

/-- The check value that is published with this checksum, of the digits 1 to 9. -/
example : crc32 [0x31, 0x32, 0x33, 0x34, 0x35, 0x36, 0x37, 0x38, 0x39] = 0xCBF43926 := by
  decide +kernel

/-! ## Differences within a window -/

/-- Byte strings that hold the same bytes outside the `width` places from `start` on. -/
def SameOutside (start width : Nat) (bytes other : List UInt8) : Prop :=
  ∀ i, i < start ∨ start + width ≤ i → bytes[i]? = other[i]?

/-- A window may be moved back until it ends with the string. -/
theorem SameOutside.moveBack {start width : Nat} {bytes other : List UInt8}
    (h : SameOutside start width bytes other) (hlen : bytes.length = other.length) :
    SameOutside (min start (bytes.length - width)) width bytes other := by
  intro i hi
  by_cases hinside : i < bytes.length
  · apply h
    omega
  · rw [List.getElem?_eq_none (by omega), List.getElem?_eq_none (by omega)]

/-- Byte strings that leave the same register and differ within four neighbouring places at most are
the same. -/
theorem eq_of_feedAll_eq {register : UInt32} {bytes other : List UInt8} {start : Nat}
    (hlen : bytes.length = other.length) (hfour : 4 ≤ bytes.length)
    (houtside : SameOutside start 4 bytes other)
    (h : feedAll register bytes = feedAll register other) : bytes = other := by
  have hback := houtside.moveBack hlen
  generalize hfrom : min start (bytes.length - 4) = first at hback
  have hbefore : bytes.take first = other.take first := by
    apply List.ext_getElem?
    intro i
    by_cases hi : i < first
    · rw [List.getElem?_take_of_lt hi, List.getElem?_take_of_lt hi, hback i (.inl hi)]
    · rw [List.getElem?_take_eq_none (by omega), List.getElem?_take_eq_none (by omega)]
  have hbehind : (bytes.drop first).drop 4 = (other.drop first).drop 4 := by
    apply List.ext_getElem?
    intro i
    rw [List.drop_drop, List.drop_drop, List.getElem?_drop, List.getElem?_drop]
    exact hback _ (.inr (by omega))
  -- the registers agree before the window, so whatever the window holds must make up for it
  have hsplit : ∀ string : List UInt8, feedAll register string
      = feedAll (feedAll (feedAll register (string.take first)) ((string.drop first).take 4))
          ((string.drop first).drop 4) := by
    intro string
    rw [← feedAll_append, ← feedAll_append, List.take_append_drop, List.take_append_drop]
  rw [hsplit bytes, hsplit other, hbefore, hbehind] at h
  have hwindow := eq_of_feedAll_eq_of_length_eq_four (by simp; omega) (by simp; omega)
    (feedAll_injective _ h)
  rw [← List.take_append_drop first bytes, ← List.take_append_drop first other, hbefore,
    ← List.take_append_drop 4 (bytes.drop first), ← List.take_append_drop 4 (other.drop first),
    hwindow, hbehind]

end SerialConsole.Checksum

/-! ## Damaged images -/

namespace SerialConsole.RomImage

open Checksum

/-- All images leave the same register. -/
theorem feedAll_encode (slots : List Cell) : feedAll 0xFFFFFFFF (encode slots) = 0xDEBB20E3 :=
  feedAll_crc32 (slotBytes slots)

/-- An image that was changed within four neighbouring bytes, wherever they stand, does not read as
slots any more, and a bank that is loaded from it is blank. -/
theorem local_corruption_detected {slots : List Cell} {bytes : List UInt8} {start : Nat}
    (hlen : bytes.length = (encode slots).length) (hchanged : bytes ≠ encode slots)
    (hlocal : SameOutside start 4 bytes (encode slots)) :
    decode? bytes slots.length = none ∧
      ∀ (disk : Disk) (path : String), disk.read path = .ok bytes →
        (RomBank.load disk path slots.length).1
          = { slots := List.replicate slots.length 0, image? := some path } := by
  have hunread : decode? bytes slots.length = none := by
    rw [Option.eq_none_iff_forall_ne_some]
    intro read hread
    -- what reads as slots is an image too, and so leaves the register that images leave
    have himage := encode_of_decode? hread
    have hregister : feedAll 0xFFFFFFFF bytes = feedAll 0xFFFFFFFF (encode slots) := by
      rw [← himage, feedAll_encode, feedAll_encode]
    have hfour : 4 ≤ bytes.length := by
      rw [hlen, length_encode]
      omega
    exact hchanged (eq_of_feedAll_eq hlen hfour hlocal hregister)
  refine ⟨hunread, ?_⟩
  intro disk path hread
  simp only [RomBank.load, hread, hunread]

/-- Two bytes are changed, the last of the data and the second of the trailer. -/
theorem local_corruption_detected_straddling :
    let bytes := ((encode [7, -1]).set 7 0x12).set 9 0x34
    let disk := Disk.place {} "rom.bin" (.file bytes)
    bytes.length = (encode [7, -1]).length ∧ bytes ≠ encode [7, -1] ∧
      SameOutside 6 4 bytes (encode [7, -1]) ∧ decode? bytes 2 = none ∧
      (RomBank.load disk "rom.bin" 2).1.slots = [0, 0] := by
  intro bytes disk
  have hlen : bytes.length = (encode [7, -1]).length := by simp [bytes]
  have hchanged : bytes ≠ encode [7, -1] := by decide +kernel
  have hlocal : SameOutside 6 4 bytes (encode [7, -1]) := by
    intro i hi
    rw [List.getElem?_set_ne (by omega), List.getElem?_set_ne (by omega)]
  have hread : disk.read "rom.bin" = .ok bytes := by decide +kernel
  obtain ⟨hunread, hblank⟩ := local_corruption_detected hlen hchanged hlocal
  have hbank := hblank disk "rom.bin" hread
  rw [List.length_cons, List.length_singleton] at hunread hbank
  refine ⟨hlen, hchanged, hlocal, hunread, ?_⟩
  rw [hbank]
  rfl

end SerialConsole.RomImage
