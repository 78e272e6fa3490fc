import SerialConsole.Memory.Listing

/-!
# What an address map answers

A map asks its regions in order, and the first that has a byte at an address answers. `Region.Covers`
says when a region has one, by comparing addresses as numbers: what would stand behind the last address
is nowhere. From this it follows which changes of a map cannot be seen, neither by reading bytes nor in
a listing:

* regions that do not overlap may stand in any order (`AddressMap.read?_of_perm`);
* a region may be cut in two (`AddressMap.read?_of_cut`);
* a window onto raw cells shows what a region of the same bytes does (`Window.space_eq`).
-/

namespace SerialConsole

/-! ## Regions -/

namespace Region

/-- Whether a region has a byte at an address. The end of the region is not wrapped. -/
def Covers (region : Region) (address : UInt32) : Prop :=
  region.base.toNat ≤ address.toNat ∧ address.toNat < region.base.toNat + region.size

instance (region : Region) (address : UInt32) : Decidable (region.Covers address) :=
  inferInstanceAs (Decidable (_ ∧ _))

section Read

variable {region : Region} {address : UInt32}

theorem read?_eq_some_iff {byte : UInt8} :
    region.read? address = some byte ↔ region.Covers address ∧
      region.bytes[address.toNat - region.base.toNat]? = some byte := by
  simp only [read?, Covers, UInt32.le_iff_toNat_le]
  split
  case isTrue hlow =>
    constructor
    · intro hbyte
      have hinside : address.toNat - region.base.toNat < region.size :=
        (Array.getElem?_eq_some_iff.mp hbyte).1
      exact ⟨⟨hlow, by omega⟩, hbyte⟩
    · exact fun h => h.2
  case isFalse hbelow =>
    constructor
    · intro hbyte
      cases hbyte
    · exact fun h => absurd h.1.1 hbelow

theorem read?_eq_none_iff : region.read? address = none ↔ ¬region.Covers address := by
  simp only [read?, Covers, UInt32.le_iff_toNat_le]
  split
  case isTrue hlow =>
    rw [Array.getElem?_eq_none_iff]
    show region.size ≤ _ ↔ _
    omega
  case isFalse hbelow => simp [hbelow]

end Read

/-- A region that is cut in two answers as its parts do, the front one first. The back part has to begin
at an address. -/
theorem read?_cut {base : UInt32} {front : Array UInt8} (h : base.toNat + front.size < 4294967296)
    (back : Array UInt8) (address : UInt32) :
    read? ⟨base, front ++ back⟩ address
      = (read? ⟨base, front⟩ address).or (read? ⟨base + UInt32.ofNat front.size, back⟩ address) := by
  have hcut : (base + UInt32.ofNat front.size).toNat = base.toNat + front.size := by
    rw [UInt32.toNat_add, UInt32.toNat_ofNat']
    omega
  simp only [read?, UInt32.le_iff_toNat_le, hcut]
  by_cases hlow : base.toNat ≤ address.toNat
  · rw [if_pos hlow, if_pos hlow, Array.getElem?_append]
    by_cases hfront : address.toNat - base.toNat < front.size
    · rw [if_pos hfront, Array.getElem?_eq_getElem hfront, Option.some_or]
    · have hbehind : front[address.toNat - base.toNat]? = none := Array.getElem?_eq_none (by omega)
      rw [if_neg hfront, hbehind, Option.none_or, if_pos (by omega), Nat.sub_sub]
  · rw [if_neg hlow, if_neg hlow, if_neg (by omega)]
    rfl

/-- Regions that have no address in common. -/
def Disjoint (region other : Region) : Prop :=
  ∀ address, ¬(region.Covers address ∧ other.Covers address)

theorem Disjoint.symm {region other : Region} (h : region.Disjoint other) :
    other.Disjoint region := fun address hboth => h address hboth.symm

/-- If regions overlap, they do so at the later one's base. -/
theorem disjoint_iff {region other : Region} :
    region.Disjoint other ↔
      min (region.base.toNat + region.size) (other.base.toNat + other.size)
        ≤ max region.base.toNat other.base.toNat := by
  unfold Disjoint Covers
  constructor
  · intro h
    have hregion := h region.base
    have hother := h other.base
    omega
  · intro h address
    omega

instance (region other : Region) : Decidable (region.Disjoint other) :=
  decidable_of_iff _ disjoint_iff.symm

end Region

/-! ## Maps -/

namespace AddressMap

variable {map : AddressMap} {address : UInt32}

/-- The byte comes from the first region that covers the address. -/
theorem read?_eq_some_iff {byte : UInt8} :
    map.read? address = some byte ↔ ∃ earlier region later,
      map.regions = earlier ++ region :: later ∧ (∀ other ∈ earlier, ¬other.Covers address) ∧
        region.Covers address ∧ region.bytes[address.toNat - region.base.toNat]? = some byte := by
  rw [read?, List.findSome?_eq_some_iff]
  simp only [Region.read?_eq_some_iff, Region.read?_eq_none_iff]
  constructor
  · rintro ⟨earlier, region, later, hregions, hbyte, hearlier⟩
    exact ⟨earlier, region, later, hregions, hearlier, hbyte⟩
  · rintro ⟨earlier, region, later, hregions, hearlier, hbyte⟩
    exact ⟨earlier, region, later, hregions, hbyte, hearlier⟩

theorem read?_eq_none_iff :
    map.read? address = none ↔ ∀ region ∈ map.regions, ¬region.Covers address := by
  rw [read?, List.findSome?_eq_none_iff]
  simp only [Region.read?_eq_none_iff]

/-- Among regions that do not overlap it does not matter which is first. -/
theorem read?_of_disjoint {regions : List Region} (h : regions.Pairwise Region.Disjoint)
    {byte : UInt8} :
    read? ⟨regions⟩ address = some byte ↔
      ∃ region ∈ regions, region.read? address = some byte := by
  constructor
  · exact List.exists_of_findSome?_eq_some
  · rintro ⟨region, hregion, hbyte⟩
    have hcovers := (Region.read?_eq_some_iff.mp hbyte).1
    obtain ⟨earlier, later, rfl⟩ := List.append_of_mem hregion
    rw [read?, List.findSome?_eq_some_iff]
    refine ⟨earlier, region, later, rfl, hbyte, fun other hother => ?_⟩
    rw [Region.read?_eq_none_iff]
    intro hcovers'
    -- an earlier region at the same address would overlap with this one
    have hapart := (List.pairwise_append.mp h).2.2 other hother region List.mem_cons_self
    exact hapart address ⟨hcovers', hcovers⟩

theorem read?_of_perm {regions reordered : List Region} (h : regions.Pairwise Region.Disjoint)
    (hperm : regions.Perm reordered) : read? ⟨regions⟩ address = read? ⟨reordered⟩ address := by
  have hreordered : reordered.Pairwise Region.Disjoint :=
    (hperm.pairwise_iff Region.Disjoint.symm).mp h
  apply Option.ext
  intro byte
  rw [read?_of_disjoint h, read?_of_disjoint hreordered]
  simp only [hperm.mem_iff]

theorem read?_of_cut (earlier later : List Region) {base : UInt32} {front : Array UInt8}
    (h : base.toNat + front.size < 4294967296) (back : Array UInt8) :
    read? ⟨earlier ++ ⟨base, front ++ back⟩ :: later⟩ address
      = read? ⟨earlier ++ ⟨base, front⟩ :: ⟨base + UInt32.ofNat front.size, back⟩ :: later⟩
          address := by
  simp only [read?, List.findSome?_append, List.findSome?_cons, Region.read?_cut h]
  cases Region.read? ⟨base, front⟩ address <;> rfl

end AddressMap

/-! ## Address spaces -/

namespace AddressSpace

variable {read? : UInt32 → Option UInt8} {address : UInt32}

theorem ofRead?_eq_ok_iff {byte : UInt8} :
    ofRead? read? address = .ok byte ↔ read? address = some byte := by
  unfold ofRead?
  cases read? address <;> simp

/-- There is only one way in which a read fails. -/
theorem ofRead?_eq_error_iff {fault : Fault} :
    ofRead? read? address = .error fault ↔
      fault = ⟨.addressOutOfRange, none, ""⟩ ∧ read? address = none := by
  unfold ofRead?
  cases read? address with
  | some byte => simp
  | none => simp [outOfRange, Fault.ofKind, eq_comm]

/-- Address spaces that cannot be told apart, neither byte by byte nor in a listing. -/
structure Alike (memory other : AddressSpace) : Prop where
  reads : ∀ address, memory address = other address
  listings : ∀ start count,
    Listing.listing memory start count = Listing.listing other start count

theorem alike_of_reads {memory other : AddressSpace} (h : ∀ address, memory address = other address) :
    Alike memory other := by
  obtain rfl : memory = other := funext h
  exact ⟨fun _ => rfl, fun _ _ => rfl⟩

theorem alike_ofRead? {other : UInt32 → Option UInt8} (h : ∀ address, read? address = other address) :
    Alike (ofRead? read?) (ofRead? other) := by
  apply alike_of_reads
  intro address
  simp only [ofRead?, h address]

end AddressSpace

/-- A window and a region compare an address with their bounds alike. -/
theorem Window.space_eq {cells : Nat → UInt8} {bytes : Array UInt8}
    (h : ∀ i byte, bytes[i]? = some byte → cells i = byte) (start address : UInt32) :
    space ⟨cells, start, bytes.size⟩ address = Region.space ⟨start, bytes⟩ address := by
  simp only [space, Region.space, AddressSpace.ofRead?, Region.read?]
  by_cases hlow : start ≤ address
  · by_cases hhigh : address.toNat - start.toNat < bytes.size
    · have hbyte := Array.getElem?_eq_getElem hhigh
      rw [if_pos ⟨hlow, hhigh⟩, if_pos hlow, h _ _ hbyte, hbyte]
    · rw [if_neg fun hboth => hhigh hboth.2, if_pos hlow, Array.getElem?_eq_none (by omega)]
  · rw [if_neg fun hboth => hlow hboth.1, if_neg hlow]

/-- How memory is laid out shows in nothing but the bytes. A map answers with the byte of the first
region that covers an address, at its distance from the region's base, and is out of range just if no
region covers the address. So regions that do not overlap can be put in any order, and any region can be
cut in two where the second part still begins at an address: no byte and no listing changes. A window
onto raw cells cannot be told from a region of their bytes. -/
theorem AddressMap.layout_does_not_show :
    (∀ (map : AddressMap) (address : UInt32),
      (∀ byte, map.space address = .ok byte ↔ ∃ earlier region later,
        map.regions = earlier ++ region :: later ∧ (∀ other ∈ earlier, ¬other.Covers address) ∧
          region.Covers address ∧ region.bytes[address.toNat - region.base.toNat]? = some byte) ∧
      ∀ fault, map.space address = .error fault ↔
        fault = ⟨.addressOutOfRange, none, ""⟩ ∧
          ∀ region ∈ map.regions, ¬region.Covers address) ∧
      (∀ regions reordered : List Region, regions.Pairwise Region.Disjoint →
        regions.Perm reordered →
          AddressSpace.Alike (AddressMap.space ⟨regions⟩) (AddressMap.space ⟨reordered⟩)) ∧
      (∀ (earlier later : List Region) (base : UInt32) (front back : Array UInt8),
        base.toNat + front.size < UInt32.size →
          AddressSpace.Alike (AddressMap.space ⟨earlier ++ ⟨base, front ++ back⟩ :: later⟩)
            (AddressMap.space
              ⟨earlier ++ ⟨base, front⟩ :: ⟨base + UInt32.ofNat front.size, back⟩ :: later⟩)) ∧
      ∀ (cells : Nat → UInt8) (start : UInt32) (bytes : Array UInt8),
        (∀ i byte, bytes[i]? = some byte → cells i = byte) →
          AddressSpace.Alike (Window.space ⟨cells, start, bytes.size⟩)
            (Region.space ⟨start, bytes⟩) := by
  refine ⟨fun map address => ⟨fun byte => ?_, fun fault => ?_⟩, ?_, ?_, ?_⟩
  · exact AddressSpace.ofRead?_eq_ok_iff.trans read?_eq_some_iff
  · rw [space, AddressSpace.ofRead?_eq_error_iff, read?_eq_none_iff]
  · intro regions reordered hdisjoint hperm
    exact AddressSpace.alike_ofRead? fun _ => read?_of_perm hdisjoint hperm
  · intro earlier later base front back hfits
    exact AddressSpace.alike_ofRead? fun _ => read?_of_cut earlier later hfits back
  · intro cells start bytes hcells
    exact AddressSpace.alike_of_reads (Window.space_eq hcells start)

/-- A region that reaches past the last address, put before another and cut in two: its third byte is
nowhere, and address zero is still the other region's. -/
theorem AddressMap.layout_does_not_show_top :
    let low : Region := ⟨0, #[1, 2]⟩
    let high : Region := ⟨0xfffffffe, #[3, 4, 5]⟩
    let map : AddressMap := ⟨[low, high]⟩
    map.space 0xffffffff = .ok 4 ∧ map.space 0 = .ok 1 ∧
      [low, high].Pairwise Region.Disjoint ∧
      AddressSpace.Alike map.space (AddressMap.space ⟨[high, low]⟩) ∧
      AddressSpace.Alike map.space
        (AddressMap.space ⟨[low, ⟨0xfffffffe, #[3]⟩, ⟨0xffffffff, #[4, 5]⟩]⟩) ∧
      AddressSpace.Alike (Window.space ⟨fun i => UInt8.ofNat (i + 3), 0xfffffffe, 3⟩) high.space := by
  intro low high map
  have hdisjoint : [low, high].Pairwise Region.Disjoint := by decide
  have hcells : ∀ i byte, high.bytes[i]? = some byte → UInt8.ofNat (i + 3) = byte := by
    intro i byte hbyte
    obtain ⟨hi, rfl⟩ := Array.getElem?_eq_some_iff.mp hbyte
    match i, hi with
    | 0, _ | 1, _ | 2, _ => rfl
  obtain ⟨-, hreorder, hcut, hwindow⟩ := layout_does_not_show
  exact ⟨rfl, rfl, hdisjoint, hreorder _ _ hdisjoint (.swap high low []),
    hcut [low] [] 0xfffffffe #[3] #[4, 5] (by decide), hwindow _ 0xfffffffe high.bytes hcells⟩

end SerialConsole
