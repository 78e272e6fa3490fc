import Mathlib.Data.Int.ModEq
import SerialConsole.Proofs.Text
import SerialConsole.Proofs.Text.Numeral
import SerialConsole.Token

/-!
# The grammar of tokens

Which texts are numbers, and what is read when tokens are written out. `Writes` is the grammar of
numbers: an optional sign, and then decimal digits or the mark of a hexadecimal number and its digits.

* `number?_eq_some_iff`: the reader takes just the texts of the grammar, each for the cell that the
  grammar gives it;
* `ofText_follows_grammar`: so a text is a number or, unchanged, a name;
* `reading_undoes_writing`: tokens that were read from a text and written out are read again as they
  were.
-/

namespace SerialConsole.Token

/-! ## The grammar -/

/-- What stands before the magnitude of a number. -/
def sign (negative : Bool) : List Char := if negative then ['-'] else []

/-- The marks that a hexadecimal number can have. -/
def hexMarks : List (List Char) := [['0', 'x'], ['0', 'X'], ['$']]

/-- The texts that write a cell. A decimal number writes the cell that has just its value, so it
has to be in the range of cells. A hexadecimal number can have any magnitude of 32 bits, and writes
the cell that is equal to it, or to its opposite behind a sign, modulo 2 ^ 32. -/
inductive Writes : List Char → Cell → Prop
  | decimal (negative : Bool) {digits : List Char} {magnitude : Nat} {value : Cell}
      (hdigits : Text.Numeral 10 digits magnitude)
      (hvalue : value.toInt = withSign negative magnitude) :
      Writes (sign negative ++ digits) value
  | hexadecimal (negative : Bool) {mark digits : List Char} {magnitude : Nat} {value : Cell}
      (hmark : mark ∈ hexMarks) (hdigits : Text.Numeral 16 digits magnitude)
      (hsize : magnitude ≤ 2 ^ 32 - 1)
      (hvalue : value.toInt ≡ withSign negative magnitude [ZMOD 2 ^ 32]) :
      Writes (sign negative ++ (mark ++ digits)) value

/-! ## Sign and mark -/

theorem sign_append_of_splitSign {cs body : List Char} {negative : Bool}
    (h : splitSign cs = (negative, body)) : cs = sign negative ++ body := by
  unfold splitSign at h
  split at h <;> cases h <;> rfl

theorem splitSign_sign_append (negative : Bool) {body : List Char} (h : body.head? ≠ some '-') :
    splitSign (sign negative ++ body) = (negative, body) := by
  cases negative with
  | true => rfl
  | false =>
    show splitSign body = (false, body)
    unfold splitSign
    split
    · exact absurd rfl h
    · rfl

theorem hexBody?_eq_some_iff {cs digits : List Char} :
    hexBody? cs = some digits ↔ ∃ mark ∈ hexMarks, cs = mark ++ digits := by
  constructor
  · intro h
    unfold hexBody? at h
    split at h <;> cases h
    · exact ⟨['0', 'x'], by decide, rfl⟩
    · exact ⟨['0', 'X'], by decide, rfl⟩
    · exact ⟨['$'], by decide, rfl⟩
  · rintro ⟨mark, hmark, rfl⟩
    simp only [hexMarks, List.mem_cons, List.not_mem_nil, or_false] at hmark
    rcases hmark with rfl | rfl | rfl <;> rfl

/-- A character that is no digit does not stand in a numeral. -/
theorem not_mem_of_numeral {base n : Nat} {cs : List Char} {c : Char}
    (h : Text.Numeral base cs n) (hc : ∀ digit < base, ¬Text.IsDigit base c digit) : c ∉ cs := by
  intro hmem
  obtain ⟨digit, hdigit⟩ := h.exists_isDigit hmem
  exact hc digit hdigit.1 hdigit

theorem head?_ne_of_numeral {n : Nat} {digits : List Char} (h : Text.Numeral 10 digits n) :
    digits.head? ≠ some '-' := by
  intro hhead
  exact not_mem_of_numeral h (by decide) (List.mem_of_head? hhead)

/-- Decimal digits bear no mark of a hexadecimal number. -/
theorem hexBody?_of_numeral {n : Nat} {digits : List Char} (h : Text.Numeral 10 digits n) :
    hexBody? digits = none := by
  rw [Option.eq_none_iff_forall_ne_some]
  intro rest hrest
  obtain ⟨mark, hmark, rfl⟩ := hexBody?_eq_some_iff.mp hrest
  simp only [hexMarks, List.mem_cons, List.not_mem_nil, or_false] at hmark
  rcases hmark with rfl | rfl | rfl
  · exact not_mem_of_numeral (c := 'x') h (by decide) (by simp)
  · exact not_mem_of_numeral (c := 'X') h (by decide) (by simp)
  · exact not_mem_of_numeral (c := '$') h (by decide) (by simp)

theorem head?_ne_of_hexMark {mark : List Char} (h : mark ∈ hexMarks) (digits : List Char) :
    (mark ++ digits).head? ≠ some '-' := by
  simp only [hexMarks, List.mem_cons, List.not_mem_nil, or_false] at h
  rcases h with rfl | rfl | rfl <;> simp

/-! ## Magnitudes -/

theorem ofInt_eq_iff_modEq {z : Int} {value : Cell} :
    Int32.ofInt z = value ↔ value.toInt ≡ z [ZMOD 2 ^ 32] := by
  have hlow := value.le_toInt
  have hhigh := value.toInt_lt
  rw [Int32.ofInt_eq_iff_bmod_eq_toInt, Int.ModEq, Int.bmod_def]
  omega

theorem decimalCell?_eq_some_iff {negative : Bool} {digits : List Char} {value : Cell} :
    decimalCell? negative digits = some value ↔
      ∃ magnitude, Text.Numeral 10 digits magnitude ∧
        value.toInt = withSign negative magnitude := by
  simp only [← Text.numeral?_eq_some_iff (show 10 ≤ 16 by decide)]
  unfold decimalCell?
  cases Text.numeral? 10 digits with
  | none => simp
  | some magnitude =>
    have hlow := value.le_toInt
    have hhigh := value.toInt_lt
    simp only [Option.some.injEq, exists_eq_left', Option.ite_none_right_eq_some,
      ofInt_eq_iff_modEq, Int.ModEq]
    omega

theorem hexCell?_eq_some_iff {negative : Bool} {digits : List Char} {value : Cell} :
    hexCell? negative digits = some value ↔
      ∃ magnitude, Text.Numeral 16 digits magnitude ∧ magnitude ≤ 2 ^ 32 - 1 ∧
        value.toInt ≡ withSign negative magnitude [ZMOD 2 ^ 32] := by
  simp only [← Text.numeral?_eq_some_iff (show 16 ≤ 16 by decide)]
  unfold hexCell?
  cases Text.numeral? 16 digits with
  | none => simp
  | some magnitude =>
    simp only [Option.some.injEq, exists_eq_left', Option.ite_none_right_eq_some,
      ofInt_eq_iff_modEq]
    exact and_congr_left fun _ => by omega

/-! ## Numbers and names -/

/-- The reader of numbers takes just the texts of the grammar, each for its cell. -/
theorem number?_eq_some_iff {text : String} {value : Cell} :
    number? text = some value ↔ Writes text.toList value := by
  constructor
  · intro h
    unfold number? at h
    cases hsign : splitSign text.toList with
    | mk negative body =>
      rw [sign_append_of_splitSign hsign]
      simp only [hsign] at h
      split at h
      case h_1 digits hmarked =>
        obtain ⟨mark, hmark, rfl⟩ := hexBody?_eq_some_iff.mp hmarked
        obtain ⟨magnitude, hdigits, hsize, hvalue⟩ := hexCell?_eq_some_iff.mp h
        exact .hexadecimal negative hmark hdigits hsize hvalue
      case h_2 =>
        obtain ⟨magnitude, hdigits, hvalue⟩ := decimalCell?_eq_some_iff.mp h
        exact .decimal negative hdigits hvalue
  · intro h
    unfold number?
    generalize text.toList = cs at h
    cases h with
    | decimal negative hdigits hvalue =>
      simp only [splitSign_sign_append negative (head?_ne_of_numeral hdigits),
        hexBody?_of_numeral hdigits]
      exact decimalCell?_eq_some_iff.mpr ⟨_, hdigits, hvalue⟩
    | hexadecimal negative hmark hdigits hsize hvalue =>
      simp only [splitSign_sign_append negative (head?_ne_of_hexMark hmark _),
        hexBody?_eq_some_iff.mpr ⟨_, hmark, rfl⟩]
      exact hexCell?_eq_some_iff.mpr ⟨_, hdigits, hsize, hvalue⟩

theorem ofText_eq_literal_iff {text : String} {value : Cell} :
    ofText text = literal value ↔ Writes text.toList value := by
  rw [← number?_eq_some_iff, ofText]
  cases number? text <;> simp

theorem ofText_eq_word_iff {text name : String} :
    ofText text = word name ↔ name = text ∧ ∀ value, ¬Writes text.toList value := by
  simp only [← number?_eq_some_iff, ofText]
  cases number? text with
  | none => simp [eq_comm]
  | some value => simp

/-- A text is read by the grammar: it is a number just if it is written as one, for the cell that
it writes, and any other text is the name that it is. Zeros in front of the digits of a number make no
difference. -/
theorem ofText_follows_grammar (text : String) :
    (∀ value, ofText text = literal value ↔ Writes text.toList value) ∧
      (∀ name, ofText text = word name ↔ name = text ∧ ∀ value, ¬Writes text.toList value) ∧
      ∀ base digits magnitude zeros, Text.Numeral base digits magnitude →
        Text.Numeral base (List.replicate zeros '0' ++ digits) magnitude :=
  ⟨fun _ => ofText_eq_literal_iff, fun _ => ofText_eq_word_iff, fun _ _ _ zeros h => h.zeros zeros⟩

-- The least cell can be typed in decimal and as its pattern, and the pattern may be negated; decimal
-- numbers have a smaller range than patterns.
example :
    ofText "-2147483648" = literal (-2147483648) ∧ ofText "0x80000000" = literal (-2147483648) ∧
      ofText "-0X80000000" = literal (-2147483648) ∧ ofText "-$ffffFFFF" = literal 1 ∧
      ofText "2147483648" = word "2147483648" ∧ ofText "0x100000000" = word "0x100000000" ∧
      ofText "000000000042" = literal 42 ∧ ofText "0x" = word "0x" ∧ ofText "--1" = word "--1" := by
  decide +kernel

/-! ## Numbers written out -/

/-- The sign and the magnitude of an integer make it up. -/
theorem withSign_natAbs (z : Int) : withSign (decide (z < 0)) z.natAbs = z := by
  unfold withSign
  split
  case isTrue h =>
    have hneg : z < 0 := by simpa using h
    omega
  case isFalse h =>
    have hnonneg : ¬z < 0 := by simpa using h
    omega

/-- A cell that is written in decimal is read as itself. -/
theorem ofText_signed (value : Cell) : ofText (Text.signed value.toInt) = literal value := by
  have hsign : (if value.toInt < 0 then ['-'] else []) = sign (decide (value.toInt < 0)) := by
    simp [sign]
  rw [ofText_eq_literal_iff, Text.toList_signed, hsign]
  exact .decimal _ (Text.numeral_toDigits (by decide) _) (withSign_natAbs _).symm

/-- The pattern of a cell can be typed in hexadecimal. -/
theorem ofText_pattern {mark : List Char} (hmark : mark ∈ hexMarks) {value : Cell}
    {digits : List Char} (hdigits : Text.Numeral 16 digits value.toUInt32.toNat) :
    ofText (String.ofList mark ++ String.ofList digits) = literal value := by
  have hsize := value.toUInt32.toNat_lt
  have hbits : Int32.ofInt (value.toUInt32.toNat : Int) = value := by
    apply Int32.toBitVec_inj.mp
    rw [Int32.toBitVec_ofInt, BitVec.ofInt_natCast]
    exact (BitVec.ofNat_toNat 32 value.toBitVec).trans (BitVec.setWidth_eq _)
  rw [ofText_eq_literal_iff, String.toList_append, String.toList_ofList, String.toList_ofList]
  exact .hexadecimal false hmark hdigits (by omega) (ofInt_eq_iff_modEq.mp hbits)

/-! ## Lines -/

/-- A line of words that are joined by single blanks is read word by word. -/
theorem ofLine_intercalate {texts : List String} (h : ∀ text ∈ texts, Text.IsWord text) :
    ofLine (" ".intercalate texts) = texts.map ofText := by
  rw [ofLine, Text.words_intercalate h]

/-- What a text was read as is written out as a text that is read alike. -/
theorem ofText_text_ofText (source : String) : ofText (ofText source).text = ofText source := by
  cases htoken : ofText source with
  | literal value => exact ofText_signed value
  | word name =>
    obtain ⟨rfl, -⟩ := ofText_eq_word_iff.mp htoken
    exact htoken

/-- A word is written out as a word. -/
theorem isWord_text_ofText {source : String} (h : Text.IsWord source) :
    Text.IsWord (ofText source).text := by
  cases htoken : ofText source with
  | literal value => exact Text.isWord_signed value.toInt
  | word name =>
    obtain ⟨rfl, -⟩ := ofText_eq_word_iff.mp htoken
    exact h

/-- Tokens that were read from a line and are written out with single blanks between them are read
again as they were. -/
theorem ofLine_intercalate_text (line : String) :
    ofLine (" ".intercalate ((ofLine line).map text)) = ofLine line := by
  have hwords : ∀ written ∈ (ofLine line).map text, Text.IsWord written := by
    intro written hwritten
    simp only [ofLine, List.map_map, List.mem_map] at hwritten
    obtain ⟨source, hsource, rfl⟩ := hwritten
    exact isWord_text_ofText (Text.isWord_of_mem_words hsource)
  rw [ofLine_intercalate hwords, ofLine, List.map_map, List.map_map]
  exact List.map_congr_left fun source _ => ofText_text_ofText source

/-- Reading undoes writing. The tokens of a line come back when they are written out and read again,
and so does the token of a text, and every number. Besides, every cell can be typed as its pattern in
hexadecimal, behind either mark, with digits in either case and any zeros in front; the plain digits of
the pattern are such. -/
theorem reading_undoes_writing :
    (∀ line, ofLine (" ".intercalate ((ofLine line).map text)) = ofLine line) ∧
      (∀ source, ofText (ofText source).text = ofText source) ∧
      (∀ value, ofText (literal value).text = literal value) ∧
      (∀ (value : Cell) (digits : List Char), Text.Numeral 16 digits value.toUInt32.toNat →
        ofText ("0x" ++ String.ofList digits) = literal value ∧
          ofText ("$" ++ String.ofList digits) = literal value) ∧
      ∀ value : Cell,
        Text.Numeral 16 (Nat.toDigits 16 value.toUInt32.toNat) value.toUInt32.toNat := by
  refine ⟨ofLine_intercalate_text, ofText_text_ofText, ofText_signed, ?_, ?_⟩
  · intro value digits hdigits
    have hlong : ['0', 'x'] ∈ hexMarks := by decide
    have hshort : ['$'] ∈ hexMarks := by decide
    exact ⟨ofText_pattern hlong hdigits, ofText_pattern hshort hdigits⟩
  · intro value
    exact Text.numeral_toDigits (by decide) _

end SerialConsole.Token
