import Mathlib.Data.Nat.Digits.Lemmas
import SerialConsole.Text.Numeral

/-!
# Numerals and the numbers that they write

A numeral is a row of digits of a base, and the number that it writes is the one with these digits.
`Numeral` says so without a reader, so that readers and writers can be measured against it:

* `numeral?_eq_some_iff`: the reader takes just the numerals of a base, each for its number;
* `Numeral.zeros`: leading zeros do not change the number;
* `numeral_toDigits` and `numeral_hexDigits`: the writers write numerals.
-/

namespace SerialConsole.Text

/-! ## Digits -/

/-- A character writes a digit of a base up to sixteen; letters may stand in either case. -/
def IsDigit (base : Nat) (c : Char) (digit : Nat) : Prop :=
  digit < base ∧ (c = Nat.digitChar digit ∨ c = (Nat.digitChar digit).toUpper)

instance (base : Nat) (c : Char) (digit : Nat) : Decidable (IsDigit base c digit) :=
  inferInstanceAs (Decidable (_ ∧ _))

theorem isDigit_digitChar {base digit : Nat} (h : digit < base) :
    IsDigit base (Nat.digitChar digit) digit := ⟨h, .inl rfl⟩

/-- Digits are ASCII characters. -/
theorem digit?_of_le {c : Char} (h : 128 ≤ c.toNat) : digit? c = none := by
  have hlarge : ∀ last : Char, last.toNat < 128 → ¬c ≤ last := by
    intro last hlast hle
    have hle' : c.toNat ≤ last.toNat := hle
    omega
  rw [digit?, if_neg fun hdigit => hlarge '9' (by decide) hdigit.2,
    if_neg fun hlower => hlarge 'f' (by decide) hlower.2,
    if_neg fun hupper => hlarge 'F' (by decide) hupper.2]

theorem digit?_eq_some_iff {c : Char} {digit : Nat} :
    digit? c = some digit ↔ IsDigit 16 c digit := by
  -- both sides are tables: of 128 characters, and of 16 digits in two cases
  have hread : ∀ n < 128, ∀ d ∈ digit? (Char.ofNat n), IsDigit 16 (Char.ofNat n) d := by decide
  have hwritten : ∀ d < 16, digit? (Nat.digitChar d) = some d ∧
      digit? (Nat.digitChar d).toUpper = some d := by decide
  constructor
  · intro h
    by_cases hascii : c.toNat < 128
    · have hd := hread c.toNat hascii
      rw [Char.ofNat_toNat] at hd
      exact hd digit h
    · rw [digit?_of_le (by omega)] at h
      cases h
  · rintro ⟨hlt, rfl | rfl⟩
    · exact (hwritten digit hlt).1
    · exact (hwritten digit hlt).2

/-! ## Numerals -/

/-- One or more digits of a base, the highest first, and the number that they write. -/
def Numeral (base : Nat) (cs : List Char) (n : Nat) : Prop :=
  cs ≠ [] ∧ ∃ digits, List.Forall₂ (IsDigit base) cs digits ∧ n = Nat.ofDigits base digits.reverse

theorem Numeral.exists_isDigit {base n : Nat} {cs : List Char} (h : Numeral base cs n) {c : Char}
    (hc : c ∈ cs) : ∃ digit, IsDigit base c digit := by
  obtain ⟨-, digits, hdigits, -⟩ := h
  induction hdigits with
  | nil => cases hc
  | cons hfirst _ ih =>
    rcases List.mem_cons.mp hc with rfl | hrest
    · exact ⟨_, hfirst⟩
    · exact ih hrest

theorem numeral_singleton {base digit : Nat} {c : Char} (h : IsDigit base c digit) :
    Numeral base [c] digit := ⟨by simp, [digit], by simpa using h, by simp⟩

/-- One more digit at the end. -/
theorem Numeral.concat {base n digit : Nat} {cs : List Char} {c : Char} (h : Numeral base cs n)
    (hc : IsDigit base c digit) : Numeral base (cs ++ [c]) (base * n + digit) := by
  obtain ⟨-, digits, hdigits, rfl⟩ := h
  refine ⟨by simp, digits ++ [digit], List.rel_append hdigits (by simpa using hc), ?_⟩
  rw [List.reverse_append, List.reverse_singleton, List.singleton_append, Nat.ofDigits_cons]
  exact Nat.add_comm _ _

/-- Any number of zeros may stand in front. -/
theorem Numeral.zeros {base n : Nat} {cs : List Char} (h : Numeral base cs n) (count : Nat) :
    Numeral base (List.replicate count '0' ++ cs) n := by
  obtain ⟨hsome, digits, hdigits, rfl⟩ := h
  -- a base with a digit has the digit zero
  have hbase : 0 < base := by
    cases hdigits with
    | nil => exact absurd rfl hsome
    | cons hfirst _ => exact Nat.lt_of_le_of_lt (Nat.zero_le _) hfirst.1
  have hzeros : List.Forall₂ (IsDigit base) (List.replicate count '0') (List.replicate count 0) := by
    have hzero : IsDigit base '0' 0 := isDigit_digitChar hbase
    rw [List.forall₂_iff_get]
    simpa using fun _ _ => hzero
  refine ⟨by simp [hsome], List.replicate count 0 ++ digits, List.rel_append hzeros hdigits, ?_⟩
  rw [List.reverse_append, List.reverse_replicate, Nat.ofDigits_append_replicate_zero]

/-! ## Reading -/

section Reading

variable {base : Nat}

theorem appendDigit?_eq_some_iff (hbase : base ≤ 16) {value n : Nat} {c : Char} :
    appendDigit? base value c = some n ↔ ∃ digit, IsDigit base c digit ∧ n = digit + base * value := by
  unfold appendDigit?
  cases hdigit : digit? c with
  | none =>
    simp only [reduceCtorEq, false_iff, not_exists]
    rintro digit ⟨⟨hlt, hchar⟩, -⟩
    have hread := digit?_eq_some_iff.mpr ⟨Nat.lt_of_lt_of_le hlt hbase, hchar⟩
    rw [hdigit] at hread
    cases hread
  | some d =>
    have hchar := (digit?_eq_some_iff.mp hdigit).2
    simp only [Option.ite_none_right_eq_some, Option.some.injEq]
    constructor
    · rintro ⟨hlt, rfl⟩
      exact ⟨d, ⟨hlt, hchar⟩, Nat.add_comm _ _⟩
    · rintro ⟨digit, ⟨hlt, hwritten⟩, rfl⟩
      have hread := digit?_eq_some_iff.mpr ⟨Nat.lt_of_lt_of_le hlt hbase, hwritten⟩
      rw [hdigit] at hread
      cases hread
      exact ⟨hlt, Nat.add_comm _ _⟩

/-- Digits behind a number that was already read. -/
theorem foldlM_appendDigit?_eq_some_iff (hbase : base ≤ 16) {cs : List Char} {value n : Nat} :
    cs.foldlM (appendDigit? base) value = some n ↔
      ∃ digits, List.Forall₂ (IsDigit base) cs digits ∧
        n = digits.foldl (fun value digit => digit + base * value) value := by
  induction cs generalizing value with
  | nil => simp [eq_comm]
  | cons c rest ih =>
    rw [List.foldlM_cons, Option.bind_eq_bind, Option.bind_eq_some_iff]
    simp only [appendDigit?_eq_some_iff hbase, ih]
    constructor
    · rintro ⟨_, ⟨digit, hdigit, rfl⟩, digits, hdigits, rfl⟩
      exact ⟨digit :: digits, .cons hdigit hdigits, rfl⟩
    · rintro ⟨_, hall, rfl⟩
      cases hall with
      | cons hdigit hdigits => exact ⟨_, ⟨_, hdigit, rfl⟩, _, hdigits, rfl⟩

/-- The reader takes just the numerals, each for the number that it writes. -/
theorem numeral?_eq_some_iff (hbase : base ≤ 16) {cs : List Char} {n : Nat} :
    numeral? base cs = some n ↔ Numeral base cs n := by
  have hvalue : ∀ digits : List Nat, Nat.ofDigits base digits.reverse
      = digits.foldl (fun value digit => digit + base * value) 0 := by
    intro digits
    rw [Nat.ofDigits_eq_foldr, List.foldr_reverse]
    rfl
  cases cs with
  | nil => simp [numeral?, Numeral]
  | cons c rest =>
    simp only [numeral?, foldlM_appendDigit?_eq_some_iff hbase, Numeral, hvalue, ne_eq,
      reduceCtorEq, not_false_eq_true, true_and]

end Reading

/-! ## Writing -/

theorem numeral_toDigits {base : Nat} (hbase : 1 < base) (n : Nat) :
    Numeral base (Nat.toDigits base n) n := by
  induction n using Nat.strongRecOn with
  | ind n ih =>
    by_cases hlt : n < base
    · rw [Nat.toDigits_of_lt_base hlt]
      exact numeral_singleton (isDigit_digitChar hlt)
    · rw [Nat.toDigits_of_base_le hbase (by omega)]
      have hhigher := ih (n / base) (Nat.div_lt_self (by omega) hbase)
      have hall := hhigher.concat (isDigit_digitChar (Nat.mod_lt n (by omega)))
      rwa [Nat.div_add_mod] at hall

/-- Digits of a fixed width write what is left of a number in that width. -/
theorem numeral_hexDigits (width n : Nat) :
    Numeral 16 (hexDigits (width + 1) n) (n % 16 ^ (width + 1)) := by
  induction width generalizing n with
  | zero => simpa [hexDigits] using numeral_singleton (isDigit_digitChar (Nat.mod_lt n (by decide)))
  | succ width ih =>
    have hall := (ih (n / 16)).concat (isDigit_digitChar (Nat.mod_lt n (by decide)))
    have hvalue : 16 * (n / 16 % 16 ^ (width + 1)) + n % 16 = n % 16 ^ (width + 2) := by
      rw [Nat.pow_succ 16 (width + 1), Nat.mul_comm (16 ^ (width + 1)) 16, Nat.mod_mul,
        Nat.add_comm]
    rw [hvalue] at hall
    exact hall

theorem hexByte_eq (byte : UInt8) :
    hexByte byte = [Nat.digitChar (byte.toNat / 16), Nat.digitChar (byte.toNat % 16)] := by
  have hsmall := byte.toNat_lt
  have hhigh : byte.toNat / 16 % 16 = byte.toNat / 16 := by omega
  rw [hexByte, hexDigits, hexDigits, hexDigits, hhigh]
  rfl

/-- The two digits of a byte are read as the byte. -/
theorem numeral?_hexByte (byte : UInt8) : numeral? 16 (hexByte byte) = some byte.toNat := by
  have hsmall : byte.toNat < 16 ^ (1 + 1) := byte.toNat_lt
  have hnumeral := numeral_hexDigits 1 byte.toNat
  rw [Nat.mod_eq_of_lt hsmall] at hnumeral
  exact (numeral?_eq_some_iff (by decide)).mpr hnumeral

theorem exists_digitChar_of_mem_hexDigits {c : Char} {width n : Nat} (h : c ∈ hexDigits width n) :
    ∃ digit, c = Nat.digitChar digit := by
  induction width generalizing n with
  | zero => exact absurd h List.not_mem_nil
  | succ width ih =>
    rw [hexDigits, List.mem_append, List.mem_singleton] at h
    rcases h with hhigher | rfl
    · exact ih hhigher
    · exact ⟨_, rfl⟩

/-- The digit at each place of a fixed width. -/
theorem getElem?_hexDigits {width n i : Nat} (hi : i < width) :
    (hexDigits width n)[i]? = some (Nat.digitChar (n / 16 ^ (width - 1 - i) % 16)) := by
  induction width generalizing n with
  | zero => omega
  | succ width ih =>
    rw [hexDigits]
    by_cases hlast : i < width
    · rw [List.getElem?_append_left (by simpa using hlast), ih hlast, Nat.div_div_eq_div_mul,
        ← Nat.pow_succ', show (width - 1 - i).succ = width + 1 - 1 - i by omega]
    · have hi' : i = width := by omega
      subst hi'
      rw [List.getElem?_append_right (by simp)]
      simp

end SerialConsole.Text
