import SerialConsole.Proofs.Text
import SerialConsole.Proofs.Text.Numeral
import SerialConsole.Radio

/-!
# Packets read back from their lines

A line that shows a packet shows all of it. The payload is written without its length, and only a
sign divides the first two numbers, but every field ends where a character follows that cannot
belong to it: the payload has no blanks, and the marks before a number have no digits. A reader that
looks for nothing but these places (`Packet.ofText?`) gets every packet back (`ofText?_text`), so
different packets have different lines (`line_determines_packet`).
-/

namespace SerialConsole

namespace Text

/-! ## Numbers behind their marks -/

/-- Marks that can stand before a number: there are some, none is a digit, and a minus sign is among
them just if the number is negative. -/
structure Announces (marks : List Char) (z : Int) : Prop where
  ne_nil : marks ≠ []
  noDigit : ∀ c ∈ marks, c.isDigit = false
  minus : '-' ∈ marks ↔ z < 0

/-- The digits before marks end there. -/
theorem Announces.head?_append {marks : List Char} {z : Int} (h : Announces marks z)
    (back : List Char) : ∀ c ∈ (marks ++ back).head?, c.isDigit = false := by
  intro c hc
  rw [List.head?_append_of_ne_nil _ h.ne_nil] at hc
  exact h.noDigit c (List.mem_of_head? hc)

/-- The next number of a text, and what stands behind it. The marks before its digits make it
negative if there is a minus sign among them. -/
def nextInteger? (cs : List Char) : Option (Int × List Char) :=
  let (marks, numeral) := cs.span fun c => !c.isDigit
  let (digits, behind) := numeral.span Char.isDigit
  (numeral? 10 digits).map fun (n : Nat) => (if '-' ∈ marks then -(n : Int) else n, behind)

/-- A number is read as it was written, as far as its digits go. -/
theorem nextInteger?_append {marks back : List Char} {z : Int} (hmarks : Announces marks z)
    (hback : ∀ c ∈ back.head?, c.isDigit = false) :
    nextInteger? (marks ++ (Nat.toDigits 10 z.natAbs ++ back)) = some (z, back) := by
  have hdigits : ∀ c ∈ Nat.toDigits 10 z.natAbs, c.isDigit := fun c => isDigit_of_mem_toDigits
  -- the marks end at the first digit, of which there is one at least
  have hfirst : ∀ c ∈ (Nat.toDigits 10 z.natAbs ++ back).head?, (!c.isDigit) = false := by
    intro c hc
    rw [List.head?_append_of_ne_nil _ Nat.toDigits_ne_nil] at hc
    simp [hdigits c (List.mem_of_head? hc)]
  have hmarked : (marks ++ (Nat.toDigits 10 z.natAbs ++ back)).span (fun c => !c.isDigit)
      = (marks, Nat.toDigits 10 z.natAbs ++ back) :=
    span_append (by simpa using hmarks.noDigit) hfirst
  have hended : (Nat.toDigits 10 z.natAbs ++ back).span Char.isDigit
      = (Nat.toDigits 10 z.natAbs, back) := span_append hdigits hback
  have hnumeral : numeral? 10 (Nat.toDigits 10 z.natAbs) = some z.natAbs :=
    (numeral?_eq_some_iff (by decide)).mpr (numeral_toDigits (by decide) _)
  have hvalue : (if '-' ∈ marks then -(z.natAbs : Int) else z.natAbs) = z := by
    rw [if_congr hmarks.minus rfl rfl]
    split <;> omega
  simp only [nextInteger?, hmarked, hended, hnumeral, Option.map_some, hvalue]

/-! ## Payloads -/

/-- The bytes that digits write, two for each byte. -/
def bytes? : List Char → Option (List UInt8)
  | [] => some []
  | high :: low :: rest =>
    match numeral? 16 [high, low], bytes? rest with
    | some n, some bytes => some (UInt8.ofNat n :: bytes)
    | _, _ => none
  | _ => none

theorem bytes?_flatMap_hexByte (bytes : List UInt8) :
    bytes? (bytes.flatMap hexByte) = some bytes := by
  induction bytes with
  | nil => rfl
  | cons byte rest ih =>
    have hbyte := numeral?_hexByte byte
    rw [hexByte_eq] at hbyte
    rw [List.flatMap_cons, hexByte_eq, List.cons_append, List.cons_append, List.nil_append, bytes?,
      hbyte, ih]
    simp

/-- A written payload is not broken up. -/
theorem ne_of_mem_payload {c : Char} {bytes : List UInt8} (h : c ∈ bytes.flatMap hexByte) :
    c ≠ ' ' ∧ c ≠ '\n' := by
  obtain ⟨byte, -, hc⟩ := List.mem_flatMap.mp h
  obtain ⟨digit, rfl⟩ := exists_digitChar_of_mem_hexDigits hc
  exact ⟨Nat.digitChar_ne ' ' rfl, Nat.digitChar_ne '\n' rfl⟩

end Text

namespace Packet

/-! ## Lines -/

/-- The packet that a line shows: behind the name of the radio, the payload up to a blank and then
three numbers. -/
def ofText? (line : String) : Option Packet := do
  let (payload, numbers) := (line.toList.drop 3).span (· != ' ')
  let data ← Text.bytes? payload
  let (rssi, numbers) ← Text.nextInteger? numbers
  let (afc, numbers) ← Text.nextInteger? numbers
  let (lna, _) ← Text.nextInteger? numbers
  return { data, rssi := Int16.ofInt rssi, afc := Int16.ofInt afc, lna := UInt8.ofNat lna.toNat }

/-- The marks before the signal strength. -/
def rssiMarks (packet : Packet) : List Char :=
  [' ', '('] ++ if packet.rssi.toInt < 0 then ['-'] else []

/-- The mark before the frequency correction. -/
def afcMarks (packet : Packet) : List Char :=
  if packet.afc.toInt < 0 then ['-'] else ['+']

variable (packet : Packet)

theorem announces_rssiMarks : Text.Announces packet.rssiMarks packet.rssi.toInt where
  ne_nil := by simp [rssiMarks]
  noDigit := by
    unfold rssiMarks
    split <;> simp
  minus := by simp [rssiMarks]

theorem announces_afcMarks : Text.Announces packet.afcMarks packet.afc.toInt where
  ne_nil := by
    unfold afcMarks
    split <;> decide
  noDigit := by
    unfold afcMarks
    split <;> simp
  minus := by
    unfold afcMarks
    split <;> simp_all

/-- A line as its payload and its numbers, each behind its marks. -/
theorem toList_text :
    packet.text.toList
      = ['R', 'F', ' '] ++ (packet.data.flatMap Text.hexByte
        ++ (packet.rssiMarks ++ (Nat.toDigits 10 packet.rssi.toInt.natAbs
        ++ (packet.afcMarks ++ (Nat.toDigits 10 packet.afc.toInt.natAbs
        ++ ([':'] ++ (Nat.toDigits 10 packet.lna.toNat ++ [')']))))))) := by
  have hafc : (if packet.afc < 0 then "" else "+").toList
      ++ (if packet.afc.toInt < 0 then ['-'] else []) = packet.afcMarks := by
    have hiff : packet.afc < 0 ↔ packet.afc.toInt < 0 := Int16.lt_iff_toInt_lt
    simp only [hiff, afcMarks]
    split <;> rfl
  simp only [text, String.toList_append, String.toList_ofList, Text.toList_signed, Text.decimal,
    rssiMarks, ← hafc, List.append_assoc]
  rfl

/-- Every packet is read back from its line. -/
theorem ofText?_text : ofText? packet.text = some packet := by
  have hcolon : Text.Announces [':'] packet.lna.toNat := ⟨by decide, by simp, by simp⟩
  have hpayload : ∀ back, (packet.data.flatMap Text.hexByte ++ (packet.rssiMarks ++ back)).span
      (· != ' ') = (packet.data.flatMap Text.hexByte, packet.rssiMarks ++ back) := by
    intro back
    refine Text.span_append (fun c hc => by simpa using (Text.ne_of_mem_payload hc).1) ?_
    simp [rssiMarks]
  -- the marks of each number end the one before it
  have hrssi := fun back => Text.nextInteger?_append packet.announces_rssiMarks
    (packet.announces_afcMarks.head?_append back)
  have hafc := fun back => Text.nextInteger?_append packet.announces_afcMarks
    (hcolon.head?_append back)
  have hend : ∀ c ∈ [')'].head?, c.isDigit = false := by simp
  have hlna := Text.nextInteger?_append hcolon hend
  rw [Int.natAbs_natCast] at hlna
  have hname : ∀ back, (['R', 'F', ' '] ++ back).drop 3 = back := fun back => rfl
  rw [ofText?, toList_text, hname]
  simp only [hpayload, Text.bytes?_flatMap_hexByte, hrssi, hafc, hlna, Option.bind_eq_bind,
    Option.bind_some, Option.pure_def, Int16.ofInt_toInt, Int.toNat_natCast, UInt8.ofNat_toNat]

/-- A line is not broken. -/
theorem newline_notMem_text : '\n' ∉ packet.text.toList := by
  have hdigits : ∀ n, '\n' ∉ Nat.toDigits 10 n := fun n hmem =>
    absurd (Text.isDigit_of_mem_toDigits hmem) (by decide)
  have hpayload : '\n' ∉ packet.data.flatMap Text.hexByte := fun hmem =>
    (Text.ne_of_mem_payload hmem).2 rfl
  have hrssi : '\n' ∉ packet.rssiMarks := by
    unfold rssiMarks
    split <;> decide
  have hafc : '\n' ∉ packet.afcMarks := by
    unfold afcMarks
    split <;> decide
  simp [toList_text, hdigits, hpayload, hrssi, hafc]

/-- The line that shows a packet determines it. Payload, signal strength, frequency correction and
gain can be read back from the line, so no two packets have the same one; and it is one line. -/
theorem line_determines_packet :
    (∀ packet, ofText? packet.text = some packet) ∧
      (∀ packet other : Packet, packet.text = other.text ↔ packet = other) ∧
      ∀ packet : Packet, '\n' ∉ packet.text.toList := by
  refine ⟨ofText?_text, fun packet other => ⟨fun h => ?_, congrArg text⟩, newline_notMem_text⟩
  have hread : some packet = some other := by
    rw [← ofText?_text packet, h, ofText?_text other]
  exact Option.some.inj hread

-- Two negative numbers have one character between them, and an empty payload leaves two blanks.
example :
    text { data := [], rssi := -32768, afc := -1, lna := 0 } = "RF  (-32768-1:0)" ∧
      ofText? "RF 00ff10 (12+3:255)"
        = some { data := [0, 255, 16], rssi := 12, afc := 3, lna := 255 } := by
  decide +kernel

end Packet

end SerialConsole
