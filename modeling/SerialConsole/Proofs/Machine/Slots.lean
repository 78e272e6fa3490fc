import SerialConsole.Proofs.Machine.Names

/-!
# Slots

The commands `index rom@` and `value index rom!` read and write the slots of a machine. Where the slots
are kept does not show: a bank that writes its image with every change and a bank in memory alone make
a machine do the same, as long as the disk takes the image. And both are no more than an array, which
`Ran.write?` changes and nothing else.

* `Builtin.effect_romFetch` and its neighbours say what the two commands are decided to do with a slot
  that is there and with one that is not;
* `kept_written` is the array: the slots are always the first ones with the successful writes carried
  out in order (`replay`);
* `mimics_mirrored` is the simulation: a token does the same to two machines whose banks hold the same
  slots, unless the image of one of them cannot be written.
-/

namespace SerialConsole

open Failing

variable {ρ : Type}

/-! ## One slot -/

/-- A cell that is the index of one of `count` slots. -/
def Cell.IsSlot (count : Nat) (index : Cell) : Prop := 0 ≤ index.toInt ∧ index.toInt < count

instance (count : Nat) (index : Cell) : Decidable (index.IsSlot count) :=
  inferInstanceAs (Decidable (_ ∧ _))

theorem slotIndex_of_isSlot {count : Nat} {index : Cell} (h : index.IsSlot count) :
    slotIndex index = .ok index.toInt.toNat ∧ index.toInt.toNat < count := by
  obtain ⟨hlow, hhigh⟩ := h
  exact ⟨if_pos hlow, by omega⟩

/-- A negative index is refused as such; one that is too large is one of a slot that is not there. -/
theorem slotIndex_of_not_isSlot {count : Nat} {index : Cell} (h : ¬index.IsSlot count) :
    slotIndex index = .error (Fault.ofKind .addressOutOfRange) ∨
      slotIndex index = .ok index.toInt.toNat ∧ count ≤ index.toInt.toNat := by
  by_cases hlow : 0 ≤ index.toInt
  · have hhigh : ¬index.toInt < count := fun hhigh => h ⟨hlow, hhigh⟩
    exact .inr ⟨if_pos hlow, by omega⟩
  · exact .inl (if_neg hlow)

namespace RomStorage

variable {index : Nat} {value : Cell} {storage next : RomStorage}

/-- A write that succeeds changes a slot that is there, wherever the slots are kept. -/
theorem bank_of_store (h : store index value storage = .ok () next) :
    index < storage.bank.slots.length ∧ next.bank = (storage.withSlot index value).bank := by
  rw [store_eq] at h
  split at h
  case isFalse => cases h
  case isTrue hindex =>
    split at h
    · cases h
      exact ⟨hindex, rfl⟩
    · split at h
      · cases h
        exact ⟨hindex, rfl⟩
      · cases h

/-- A write to a slot that is there succeeds, or the image cannot be written. -/
theorem store_of_lt (value : Cell) (h : index < storage.bank.slots.length) :
    (∃ next, store index value storage = .ok () next) ∨
      ∃ path cause, storage.bank.image? = some path ∧
        store index value storage = .error (.unwritable path cause) storage := by
  rw [store_eq, if_pos h]
  cases himage : storage.bank.image? with
  | none => exact .inl ⟨_, rfl⟩
  | some path =>
    cases hwrite : storage.disk.write path
        (RomImage.encode (storage.withSlot index value).bank.slots) with
    | ok disk => exact .inl ⟨{ storage.withSlot index value with disk }, by simp only [hwrite]⟩
    | error cause => exact .inr ⟨path, cause, rfl, by simp only [hwrite]⟩

theorem store_of_le (value : Cell) (h : storage.bank.slots.length ≤ index) :
    store index value storage = .error .noSlot storage := by
  rw [store_eq, if_neg (by omega)]

end RomStorage

namespace Builtin

variable {machine : Machine ρ} {index value : Cell} {below : List Cell}

/-- A fetch of a slot that is there. -/
theorem effect_romFetch (hvalues : machine.stack.fromTop = index :: below)
    (hslot : index.IsSlot machine.rom.bank.slots.length) :
    ∃ value, machine.rom.bank.slots[index.toInt.toNat]? = some value ∧
      romFetch.effect machine = .ok { taken := 1, left? := some value } := by
  have htop : machine.stack.peek 0 = .ok index := DataStack.peek_of_fromTop hvalues rfl
  obtain ⟨hindex, hthere⟩ := slotIndex_of_isSlot hslot
  refine ⟨_, List.getElem?_eq_getElem hthere, ?_⟩
  simp only [effect, htop, bind, Except.bind, hindex, RomBank.fetch,
    List.getElem?_eq_getElem hthere]

/-- A fetch of a slot that is not there. -/
theorem effect_romFetch_of_not (hvalues : machine.stack.fromTop = index :: below)
    (hslot : ¬index.IsSlot machine.rom.bank.slots.length) :
    romFetch.effect machine = .error (Fault.ofKind .addressOutOfRange) := by
  have htop : machine.stack.peek 0 = .ok index := DataStack.peek_of_fromTop hvalues rfl
  rcases slotIndex_of_not_isSlot hslot with hindex | ⟨hindex, hmissing⟩
  · simp only [effect, htop, bind, Except.bind, hindex]
  · simp only [effect, htop, bind, Except.bind, hindex, RomBank.fetch,
      List.getElem?_eq_none hmissing]
    rfl

/-- A store is decided on as the storage takes it. -/
theorem effect_romStore_eq (hvalues : machine.stack.fromTop = index :: value :: below) :
    romStore.effect machine = (do
      let index ← slotIndex index
      match RomStorage.store index value machine.rom with
      | .ok _ rom => .ok { taken := 2, rom? := some rom }
      | .error failure _ => .error failure.fault) := by
  have htop : machine.stack.peek 0 = .ok index := DataStack.peek_of_fromTop hvalues rfl
  have hbeneath : machine.stack.peek 1 = .ok value := DataStack.peek_of_fromTop hvalues rfl
  simp only [effect, htop, hbeneath]
  rfl

/-- A store to a slot that is not there. -/
theorem effect_romStore_of_not (hvalues : machine.stack.fromTop = index :: value :: below)
    (hslot : ¬index.IsSlot machine.rom.bank.slots.length) :
    romStore.effect machine = .error (Fault.ofKind .addressOutOfRange) := by
  rw [effect_romStore_eq hvalues]
  rcases slotIndex_of_not_isSlot hslot with hindex | ⟨hindex, hmissing⟩
  · simp only [bind, Except.bind, hindex]
  · simp only [bind, Except.bind, hindex, RomStorage.store_of_le value hmissing]
    rfl

/-- A store that is decided on changes the slot that the stack says. -/
theorem slots_of_romStore {effect : Effect}
    (hvalues : machine.stack.fromTop = index :: value :: below)
    (h : romStore.effect machine = .ok effect) :
    index.IsSlot machine.rom.bank.slots.length ∧ ∃ rom,
      effect = { taken := 2, rom? := some rom } ∧
        rom.bank = (machine.rom.withSlot index.toInt.toNat value).bank := by
  by_cases hslot : index.IsSlot machine.rom.bank.slots.length
  case neg =>
    rw [effect_romStore_of_not hvalues hslot] at h
    cases h
  refine ⟨hslot, ?_⟩
  rw [effect_romStore_eq hvalues, (slotIndex_of_isSlot hslot).1] at h
  -- what the storage gave is what the effect leaves
  cases hstore : RomStorage.store index.toInt.toNat value machine.rom with
  | error failure rom =>
    simp only [bind, Except.bind, hstore] at h
    cases h
  | ok _ rom =>
    simp only [bind, Except.bind, hstore] at h
    cases h
    exact ⟨rom, rfl, (RomStorage.bank_of_store hstore).2⟩

/-- A store to a slot that is there is decided on, or the image cannot be written. -/
theorem effect_romStore (hvalues : machine.stack.fromTop = index :: value :: below)
    (hslot : index.IsSlot machine.rom.bank.slots.length) :
    (∃ effect, romStore.effect machine = .ok effect) ∨
      machine.rom.bank.image? ≠ none ∧
        romStore.effect machine = .error (Fault.withDetail .internalError "ROM WRITE FAILED") := by
  obtain ⟨hindex, hthere⟩ := slotIndex_of_isSlot hslot
  rw [effect_romStore_eq hvalues, hindex]
  rcases RomStorage.store_of_lt value hthere with ⟨rom, hstore⟩ | ⟨path, cause, himage, hstore⟩
  · exact .inl ⟨{ taken := 2, rom? := some rom }, by simp only [bind, Except.bind, hstore]⟩
  · refine .inr ⟨himage ▸ nofun, ?_⟩
    simp only [bind, Except.bind, hstore]
    rfl

end Builtin

/-! ## The slots as an array -/

section Array

variable [Radio ρ]

/-- The slot that a run of `rom!` writes, and the value that it puts there, if it succeeds. -/
def Ran.write? (ran : Ran ρ) : Option (Nat × Cell) :=
  if ran.token = .word "rom!" ∧ ran.succeeds = true then
    match ran.machine.stack.fromTop with
    | index :: value :: _ => some (index.toInt.toNat, value)
    | _ => none
  else none

/-- Slots with the successful writes of some runs carried out in order. -/
def replay (slots : List Cell) (runs : List (Ran ρ)) : List Cell :=
  (runs.filterMap Ran.write?).foldl (fun slots write => slots.set write.1 write.2) slots

theorem replay_concat (slots : List Cell) (past : List (Ran ρ)) (ran : Ran ρ) :
    replay slots (past ++ [ran]) = match ran.write? with
      | some write => (replay slots past).set write.1 write.2
      | none => replay slots past := by
  unfold replay
  rw [List.filterMap_append, List.foldl_append]
  cases hwrite : ran.write? <;> simp [hwrite]

/-- Writes leave the number of slots. -/
theorem length_replay (slots : List Cell) (runs : List (Ran ρ)) :
    (replay slots runs).length = slots.length := by
  unfold replay
  induction runs.filterMap Ran.write? generalizing slots with
  | nil => rfl
  | cons write rest ih => rw [List.foldl_cons, ih, List.length_set]

/-- A run of `rom!` that succeeds writes the slot on top of the stack with the value beneath it. -/
theorem Ran.write?_of_effect {features : Dictionary.Features} {machine : Machine ρ} {effect : Effect}
    (hstandard : machine.dictionary = .standard features)
    (h : (Token.word "rom!").effect machine = .ok effect) :
    ∃ write rom, Ran.write? (⟨.word "rom!", machine⟩ : Ran ρ) = some write ∧
      effect.rom? = some rom ∧ rom.bank = (machine.rom.withSlot write.1 write.2).bank := by
  have hnative : machine.dictionary.Native := hstandard ▸ Dictionary.native_standard features
  have hsuccess : Ran.succeeds (⟨.word "rom!", machine⟩ : Ran ρ) = true :=
    (Ran.succeeds_iff hnative).mpr ⟨effect, h⟩
  obtain ⟨values, below, hlength, hvalues, hdecided⟩ := Token.effect_of_name hstandard .romStore h
  obtain ⟨index, value, rfl⟩ := List.length_eq_two.mp hlength
  obtain ⟨-, rom, rfl, hbank⟩ := Builtin.slots_of_romStore hvalues hdecided
  refine ⟨(index.toInt.toNat, value), rom, ?_, rfl, hbank⟩
  rw [Ran.write?, if_pos ⟨rfl, hsuccess⟩]
  simp only [hvalues, List.cons_append]

/-- The bank behind a token: the write that is the token's own was carried out, and no other. -/
theorem Ran.bank_after {features : Dictionary.Features} {ran : Ran ρ}
    (hstandard : ran.machine.dictionary = .standard features) :
    ran.after.rom.bank = match ran.write? with
      | some write => (ran.machine.rom.withSlot write.1 write.2).bank
      | none => ran.machine.rom.bank := by
  have hnative : ran.machine.dictionary.Native := hstandard ▸ Dictionary.native_standard features
  rcases ran.after_cases hnative with
    ⟨effect, journal, hdecided, hsuccess, hafter⟩ | ⟨journal, hfailed, hafter⟩
  · rw [hafter]
    show (effect.rom?.getD ran.machine.rom).bank = _
    -- `rom!` is the only token whose effect has a new bank
    by_cases hname : ran.token = .word "rom!"
    · obtain ⟨token, machine⟩ := ran
      obtain rfl : token = .word "rom!" := hname
      obtain ⟨write, rom, hwrite, hrom, hbank⟩ := Ran.write?_of_effect hstandard hdecided
      rw [hrom, hwrite]
      exact hbank
    · have hnone : effect.rom? = none :=
        (Token.onlyBy_of_effect hstandard hdecided).rom hname
      have hwrite : ran.write? = none := if_neg fun hboth => hname hboth.1
      rw [hnone, hwrite]
      rfl
  · have hwrite : ran.write? = none := if_neg (by simp [hfailed])
    rw [hafter, hwrite]

namespace Machine

/-- A machine with the standard commands whose slots are the first ones with the successful writes
carried out, and whose bank is kept where it was. -/
structure Written (features : Dictionary.Features) (bank : RomBank) (runs : List (Ran ρ))
    (machine : Machine ρ) : Prop where
  dictionary : machine.dictionary = .standard features
  slots : machine.rom.bank.slots = replay bank.slots runs
  image : machine.rom.bank.image? = bank.image?

theorem kept_written (limits : Limits) (features : Dictionary.Features) (bank : RomBank) :
    Kept limits (Written features bank : List (Ran ρ) → Machine ρ → Prop) where
  run := by
    intro past machine token h
    have hnative : machine.dictionary.Native := h.dictionary ▸ Dictionary.native_standard features
    rw [MachineM.runWithin_eq hnative]
    let ran : Ran ρ := ⟨token, machine⟩
    have hbank := ran.bank_after h.dictionary
    refine ⟨?_, ?_, ?_⟩
    · rcases ran.after_cases hnative with ⟨_, _, -, -, hafter⟩ | ⟨_, -, hafter⟩
      · exact (congrArg Machine.dictionary hafter).trans h.dictionary
      · exact (congrArg Machine.dictionary hafter).trans h.dictionary
    · show ran.after.rom.bank.slots = replay bank.slots (past ++ [ran])
      rw [hbank, replay_concat, ← h.slots]
      cases ran.write? <;> rfl
    · show ran.after.rom.bank.image? = bank.image?
      rw [hbank, ← h.image]
      cases ran.write? <;> rfl
  books := fun _ _ _ _ h => ⟨h.dictionary, h.slots, h.image⟩

/-- A poll reads and changes nothing that only tokens read and change. -/
theorem inside_pollRadio (machine : Machine ρ) : machine.pollRadio.inside = machine.inside := by
  unfold Machine.pollRadio
  split
  · rfl
  · split <;> rfl

theorem Written.pollRadio {features : Dictionary.Features} {bank : RomBank} {runs : List (Ran ρ)}
    {machine : Machine ρ} (h : machine.Written features bank runs) :
    machine.pollRadio.Written features bank runs := by
  have hinside := machine.inside_pollRadio
  have hdictionary : machine.pollRadio.dictionary = machine.dictionary :=
    congrArg Inside.dictionary hinside
  have hrom : machine.pollRadio.rom = machine.rom := congrArg Inside.rom hinside
  exact ⟨hdictionary ▸ h.dictionary, hrom ▸ h.slots, hrom ▸ h.image⟩

end Machine

/-- The two commands of the slots do what they would do to an array of `count` cells. A write succeeds
just if a value and an index of the array are there. A read puts the cell in the place of its index,
and is out of range just if the index is. Nothing but a write changes a cell. -/
structure Ran.OnArray (count : Nat) (ran : Ran ρ) : Prop where
  stored : ran.token = .word "rom!" → (ran.succeeds = true ↔
    ∃ index value below, ran.machine.stack.fromTop = index :: value :: below ∧
      0 ≤ index.toInt ∧ index.toInt < count)
  fetched : ran.token = .word "rom@" → ∀ index below,
    ran.machine.stack.fromTop = index :: below → 0 ≤ index.toInt → index.toInt < count →
      ran.succeeds = true ∧ ∃ value,
        ran.machine.rom.bank.slots[index.toInt.toNat]? = some value ∧
          ran.after.stack.fromTop = value :: below
  outOfRange : ran.token = .word "rom@" → ∀ index below,
    ran.machine.stack.fromTop = index :: below →
      (failure? (MachineM.run ran.token ran.machine)
          = some ⟨.addressOutOfRange, some "rom@", ""⟩ ↔
        index.toInt < 0 ∨ count ≤ index.toInt)
  unchanged : ran.token ≠ .word "rom!" → ran.after.rom.bank.slots = ran.machine.rom.bank.slots

/-- A run of `rom!` whose image, if there is one, was written. -/
def Ran.Saves (ran : Ran ρ) : Prop :=
  ran.token = .word "rom!" → failure? (MachineM.run ran.token ran.machine)
    ≠ some ⟨.internalError, some "rom!", "ROM WRITE FAILED"⟩

instance (ran : Ran ρ) : Decidable ran.Saves := inferInstanceAs (Decidable (_ → _))

section OnArray

variable {features : Dictionary.Features} {machine : Machine ρ} {index value : Cell}
  {below : List Cell}

/-- How a write to a slot that is there ends. -/
theorem MachineM.failure?_romStore (hstandard : machine.dictionary = .standard features)
    (hrom : features.rom = true) (hvalues : machine.stack.fromTop = index :: value :: below)
    (hslot : index.IsSlot machine.rom.bank.slots.length) :
    failure? (run (.word "rom!") machine) = none ∨ machine.rom.bank.image? ≠ none ∧
      failure? (run (.word "rom!") machine)
        = some ⟨.internalError, some "rom!", "ROM WRITE FAILED"⟩ := by
  have henough := DataStack.le_depth_of_fromTop [index, value] hvalues
  have hended := failure?_name hstandard .romStore hrom henough
  rcases Builtin.effect_romStore hvalues hslot with ⟨effect, hok⟩ | ⟨himage, herror⟩
  · rw [hok] at hended
    exact .inl hended
  · rw [herror] at hended
    exact .inr ⟨himage, hended⟩

/-- How a read ends with its index there. -/
theorem MachineM.failure?_romFetch (hstandard : machine.dictionary = .standard features)
    (hrom : features.rom = true) (hvalues : machine.stack.fromTop = index :: below) :
    failure? (run (.word "rom@") machine)
      = if index.IsSlot machine.rom.bank.slots.length then none
        else some ⟨.addressOutOfRange, some "rom@", ""⟩ := by
  have henough := DataStack.le_depth_of_fromTop [index] hvalues
  have hended := failure?_name hstandard .romFetch hrom henough
  by_cases hslot : index.IsSlot machine.rom.bank.slots.length
  · obtain ⟨value, -, hok⟩ := Builtin.effect_romFetch hvalues hslot
    rw [hok] at hended
    rw [if_pos hslot]
    exact hended
  · rw [Builtin.effect_romFetch_of_not hvalues hslot] at hended
    rw [if_neg hslot]
    exact hended

/-- A read that succeeds puts the cell in the place of its index. -/
theorem Ran.fromTop_after_romFetch (hstandard : machine.dictionary = .standard features)
    (hvalues : machine.stack.fromTop = index :: below)
    (hslot : index.IsSlot machine.rom.bank.slots.length)
    (hsuccess : Ran.succeeds (⟨.word "rom@", machine⟩ : Ran ρ) = true) :
    ∃ value, machine.rom.bank.slots[index.toInt.toNat]? = some value ∧
      (Ran.after (⟨.word "rom@", machine⟩ : Ran ρ)).stack.fromTop = value :: below := by
  have hnative : machine.dictionary.Native := hstandard ▸ Dictionary.native_standard features
  have hdepth := DataStack.le_depth_of_fromTop [index] hvalues
  have hbound := machine.stack.depth_le
  obtain ⟨value, hvalue, hok⟩ := Builtin.effect_romFetch hvalues hslot
  refine ⟨value, hvalue, ?_⟩
  let ran : Ran ρ := ⟨.word "rom@", machine⟩
  rcases ran.after_cases hnative with
    ⟨effect, journal, hdecided, -, hafter⟩ | ⟨journal, hfailed, -⟩
  · obtain rfl : effect = { taken := 1, left? := some value } := by
      obtain ⟨_, _, -, -, hsame⟩ := Token.effect_of_name hstandard .romFetch hdecided
      rw [hok] at hsame
      exact (Except.ok.inj hsame).symm
    show ran.after.stack.fromTop = value :: below
    rw [hafter]
    show (machine.stack.replace 1 (some value)).fromTop = value :: below
    rw [DataStack.fromTop_replace _ _ _ (.inr (by simp at hdepth; omega)), hvalues]
    rfl
  · rw [hfailed] at hsuccess
    cases hsuccess

theorem Ran.onArray {count : Nat} {ran : Ran ρ}
    (hstandard : ran.machine.dictionary = .standard features) (hrom : features.rom = true)
    (hcount : ran.machine.rom.bank.slots.length = count)
    (hsaves : ran.machine.rom.bank.image? ≠ none → ran.Saves) : ran.OnArray count := by
  obtain ⟨token, machine⟩ := ran
  have hnative : machine.dictionary.Native := hstandard ▸ Dictionary.native_standard features
  obtain rfl : machine.rom.bank.slots.length = count := hcount
  constructor
  case stored =>
    rintro rfl
    constructor
    · intro hsuccess
      obtain ⟨effect, hdecided⟩ := (Ran.succeeds_iff hnative).mp hsuccess
      obtain ⟨values, below, hlength, hvalues, hstored⟩ :=
        Token.effect_of_name hstandard .romStore hdecided
      obtain ⟨index, value, rfl⟩ := List.length_eq_two.mp hlength
      exact ⟨index, value, below, hvalues, (Builtin.slots_of_romStore hvalues hstored).1⟩
    · rintro ⟨index, value, below, hvalues, hslot⟩
      rw [Ran.succeeds]
      rcases MachineM.failure?_romStore hstandard hrom hvalues hslot with hnone | ⟨himage, hfailed⟩
      · rw [hnone]
        rfl
      · exact absurd hfailed (hsaves himage rfl)
  case fetched =>
    rintro rfl index below hvalues hlow hhigh
    have hslot : index.IsSlot machine.rom.bank.slots.length := ⟨hlow, hhigh⟩
    have hsuccess : Ran.succeeds (⟨.word "rom@", machine⟩ : Ran ρ) = true := by
      rw [Ran.succeeds, MachineM.failure?_romFetch hstandard hrom hvalues, if_pos hslot]
      rfl
    exact ⟨hsuccess, Ran.fromTop_after_romFetch hstandard hvalues hslot hsuccess⟩
  case outOfRange =>
    rintro rfl index below hvalues
    rw [MachineM.failure?_romFetch hstandard hrom hvalues]
    by_cases hslot : index.IsSlot machine.rom.bank.slots.length
    · rw [if_pos hslot]
      obtain ⟨hlow, hhigh⟩ := hslot
      refine ⟨fun hfailed => ?_, fun hout => by omega⟩
      cases hfailed
    · rw [if_neg hslot]
      refine ⟨fun _ => ?_, fun _ => rfl⟩
      by_contra hin
      exact hslot ⟨by omega, by omega⟩
  case unchanged =>
    intro hname
    have hwrite : Ran.write? (⟨token, machine⟩ : Ran ρ) = none := if_neg fun hboth => hname hboth.1
    have hbank := Ran.bank_after hstandard
    rw [hwrite] at hbank
    exact congrArg RomBank.slots hbank

end OnArray

end Array

/-! ## A bank and its mirror -/

/-- Two machines of the standard commands with the same memory and the same slots, of which the second
keeps its slots in memory alone. -/
structure Mirrored (features : Dictionary.Features) (kept mirror : Machine.Inside) : Prop where
  standard : kept.dictionary = .standard features
  dictionary : mirror.dictionary = kept.dictionary
  memory : mirror.memory = kept.memory
  slots : mirror.rom.bank.slots = kept.rom.bank.slots
  image : mirror.rom.bank.image? = none

/-- Two decisions that are the same but for the banks, which hold the same slots. -/
inductive Mirrors (kept mirror : RomStorage) : Except Fault Effect → Except Fault Effect → Prop where
  | error (fault : Fault) : Mirrors kept mirror (.error fault) (.error fault)
  | ok (effect : Effect) (rom? mirror? : Option RomStorage)
    (slots : (mirror?.getD mirror).bank.slots = (rom?.getD kept).bank.slots)
    (image : (mirror?.getD mirror).bank.image? = none) :
    Mirrors kept mirror (.ok { effect with rom? }) (.ok { effect with rom? := mirror? })

section Mirrored

open Machine

variable {features : Dictionary.Features} {machine other : Machine ρ}

/-- Commands that do not write decide alike on the same slots. -/
theorem Builtin.effect_of_mirrored (h : Twins (Mirrored features) machine other) {command : Builtin}
    (hcommand : command ≠ .romStore) : command.effect other = command.effect machine := by
  have hdictionary : other.dictionary = machine.dictionary := h.inside.dictionary
  have hmemory : other.memory = machine.memory := h.inside.memory
  have hslots : other.rom.bank.slots = machine.rom.bank.slots := h.inside.slots
  cases command with
  | romStore => exact absurd rfl hcommand
  | _ => simp only [Builtin.effect, RomBank.fetch, h.stack, hdictionary, hmemory, hslots]

/-- A store writes the same slot of both banks, or fails on both alike, or on the first because of
its image. -/
theorem Builtin.mirrors_romStore (h : Twins (Mirrored features) machine other)
    (henough : romStore.operands ≤ machine.stack.depth) :
    romStore.effect machine = .error (Fault.withDetail .internalError "ROM WRITE FAILED") ∨
      Mirrors machine.rom other.rom (romStore.effect machine) (romStore.effect other) := by
  have hslots : other.rom.bank.slots = machine.rom.bank.slots := h.inside.slots
  obtain ⟨values, below, hlength, hvalues⟩ := DataStack.exists_fromTop henough
  obtain ⟨index, value, rfl⟩ := List.length_eq_two.mp hlength
  have hmirror : other.stack.fromTop = [index, value] ++ below := h.stack ▸ hvalues
  by_cases hslot : index.IsSlot machine.rom.bank.slots.length
  · -- the mirror has no image that could fail to be written, so there the write succeeds
    have hthere : index.IsSlot other.rom.bank.slots.length := hslots ▸ hslot
    obtain ⟨effect', hok'⟩ | ⟨himage, -⟩ := Builtin.effect_romStore hmirror hthere
    case inr => exact absurd h.inside.image himage
    obtain ⟨-, rom', rfl, hbank'⟩ := Builtin.slots_of_romStore hmirror hok'
    obtain ⟨effect, hok⟩ | ⟨-, herror⟩ := Builtin.effect_romStore hvalues hslot
    case inr => exact .inl herror
    obtain ⟨-, rom, rfl, hbank⟩ := Builtin.slots_of_romStore hvalues hok
    rw [hok, hok']
    refine .inr (.ok { taken := 2 } (some rom) (some rom') ?_ ?_)
    · show rom'.bank.slots = rom.bank.slots
      rw [hbank, hbank', RomStorage.slots_withSlot, RomStorage.slots_withSlot, hslots]
    · show rom'.bank.image? = none
      rw [hbank', RomStorage.image?_withSlot]
      exact h.inside.image
  · have hmissing : ¬index.IsSlot other.rom.bank.slots.length := hslots ▸ hslot
    rw [Builtin.effect_romStore_of_not hvalues hslot,
      Builtin.effect_romStore_of_not hmirror hmissing]
    exact .inr (.error _)

/-- What is not `rom!` is decided alike on the same slots. -/
theorem Token.effect_of_mirrored (h : Twins (Mirrored features) machine other) {token : Token}
    (htoken : token ≠ .word "rom!") : token.effect other = token.effect machine := by
  have hdictionary : other.dictionary = machine.dictionary := h.inside.dictionary
  have hstandard : machine.dictionary = .standard features := h.inside.standard
  cases token with
  | literal value => simp only [Token.effect, h.stack]
  | word name =>
    simp only [Token.effect, hdictionary]
    cases hfind : machine.dictionary.find? name with
    | none => rfl
    | some entry =>
      have hentry := List.mem_of_find?_eq_some hfind
      rw [hstandard] at hentry
      obtain ⟨command, -, rfl⟩ := Dictionary.named hentry
      -- the name tells the command, so it is not the one that writes
      have hcommand : command ≠ .romStore := by
        rintro rfl
        exact htoken (congrArg Token.word (Dictionary.name_of_find? hfind).symm)
      simp only [Entry.effect, Dictionary.own, ← h.stack, Builtin.effect_of_mirrored h hcommand]

variable [Radio ρ]

/-- A write is decided alike on the same slots, unless its image cannot be written. -/
theorem Token.mirrors_romStore (h : Twins (Mirrored features) machine other)
    (hsaves : Ran.Saves (⟨.word "rom!", machine⟩ : Ran ρ)) :
    Mirrors machine.rom other.rom ((word "rom!").effect machine) ((word "rom!").effect other) := by
  have hstandard : machine.dictionary = .standard features := h.inside.standard
  have hdictionary : other.dictionary = machine.dictionary := h.inside.dictionary
  have hnative : machine.dictionary.Native := hstandard ▸ Dictionary.native_standard features
  cases hfind : machine.dictionary.find? "rom!" with
  | none =>
    rw [effect_of_unknown hfind, effect_of_unknown (hdictionary ▸ hfind)]
    exact .error _
  | some entry =>
    have hentry := List.mem_of_find?_eq_some hfind
    rw [hstandard] at hentry
    obtain ⟨command, -, rfl⟩ := Dictionary.named hentry
    obtain rfl : command = .romStore :=
      Dictionary.name_injective (Dictionary.name_of_find? hfind)
    rcases Nat.lt_or_ge machine.stack.depth Builtin.romStore.operands with hshort | henough
    · rw [effect_of_short hfind hshort, effect_of_short (hdictionary ▸ hfind) (h.stack ▸ hshort)]
      exact .error _
    · have hended := MachineM.failure?_run hnative (word "rom!")
      rw [effect_of_enough hfind rfl henough] at hended ⊢
      rw [effect_of_enough (hdictionary ▸ hfind) rfl (h.stack ▸ henough)]
      rcases Builtin.mirrors_romStore h henough with herror | hmirrors
      · rw [herror] at hended
        exact absurd hended (hsaves rfl)
      · -- the name that a fault gets is the same on both sides
        generalize Builtin.romStore.effect machine = decision at hmirrors
        generalize Builtin.romStore.effect other = decision' at hmirrors
        cases hmirrors with
        | error fault => exact .error _
        | ok effect rom? mirror? hslots himage => exact .ok effect rom? mirror? hslots himage

/-- Every token is decided alike on the same slots, unless it is a write whose image cannot be
written. -/
theorem Token.mirrors (h : Twins (Mirrored features) machine other) {token : Token}
    (hsaves : Ran.Saves (⟨token, machine⟩ : Ran ρ)) :
    Mirrors machine.rom other.rom (token.effect machine) (token.effect other) := by
  by_cases htoken : token = .word "rom!"
  · subst htoken
    exact mirrors_romStore h hsaves
  · rw [Token.effect_of_mirrored h htoken]
    cases hdecided : token.effect machine with
    | error fault => exact .error fault
    | ok effect =>
      have hnone : effect.rom? = none :=
        (Token.onlyBy_of_effect h.inside.standard hdecided).rom htoken
      have hsame : effect = { effect with rom? := none } := by rw [← hnone]
      rw [hsame]
      exact .ok effect none none h.inside.slots h.inside.image

/-- Twins whose decisions mirror one another end alike. -/
theorem Machine.Twins.endsAlike (h : Twins (Mirrored features) machine other) {token : Token}
    (hmirrors : Mirrors machine.rom other.rom (token.effect machine) (token.effect other)) :
    EndsAlike (Twins (Mirrored features)) (MachineM.run token machine)
      (MachineM.run token other) := by
  have hstandard : machine.dictionary = .standard features := h.inside.standard
  have hdictionary : other.dictionary = machine.dictionary := h.inside.dictionary
  have hnative : machine.dictionary.Native := hstandard ▸ Dictionary.native_standard features
  refine h.endsAlike_of_does (MachineM.run_does hnative token)
    (MachineM.run_does (hdictionary ▸ hnative) token) ?_
  generalize token.effect machine = decision at hmirrors ⊢
  generalize token.effect other = decision' at hmirrors ⊢
  cases hmirrors with
  | error fault => exact .error fault
  | ok effect rom? mirror? hslots himage =>
    exact .ok effect
      ⟨h.inside.standard, h.inside.dictionary, h.inside.memory, hslots, himage⟩

/-- A token does the same to a machine and its mirror, as long as the image is written. -/
theorem Machine.mimics_mirrored (limits : Limits) (features : Dictionary.Features) :
    Mimics limits (Ran.Saves : Ran ρ → Prop) (Mirrored features) := by
  intro machine other token h hsaves
  have hstandard : machine.dictionary = .standard features := h.inside.standard
  have hdictionary : other.dictionary = machine.dictionary := h.inside.dictionary
  have hnative : machine.dictionary.Native := hstandard ▸ Dictionary.native_standard features
  rw [MachineM.runWithin_eq hnative, MachineM.runWithin_eq (hdictionary ▸ hnative)]
  exact h.endsAlike (Token.mirrors h hsaves)

end Mirrored

namespace Machine

variable [Radio ρ]

/-- The slots of a machine are an array throughout its requests, as long as an image that has to be
written with them is written. -/
theorem attend_onArray {features : Dictionary.Features} (start : Machine ρ)
    (hstandard : start.dictionary = .standard features) (limits : Limits) (requests : List Request)
    (hsaves : start.rom.bank.image? ≠ none →
      ∀ ran ∈ (start.attend limits requests).runs, ran.Saves) :
    (start.attend limits requests).Throughout (fun runs machine =>
        machine.rom.bank.slots = replay start.rom.bank.slots runs ∧
          machine.rom.bank.slots.length = start.rom.bank.slots.length) ∧
      (features.rom = true → ∀ ran ∈ (start.attend limits requests).runs,
        ran.OnArray start.rom.bank.slots.length) := by
  have hwritten : (start.attend limits requests).Throughout (Written features start.rom.bank) :=
    (kept_written limits features start.rom.bank).throughout_attend Written.pollRadio requests
      ⟨hstandard, rfl, rfl⟩
  -- the successful writes overwrite slots, so there are always as many
  have hlength : ∀ (runs : List (Ran ρ)) (machine : Machine ρ),
      machine.Written features start.rom.bank runs →
        machine.rom.bank.slots.length = start.rom.bank.slots.length := by
    intro runs machine h
    rw [h.slots, length_replay]
  refine ⟨hwritten.imp fun runs machine h => ⟨h.slots, hlength runs machine h⟩, ?_⟩
  intro hrom ran hran
  obtain ⟨past, hthen⟩ := hwritten.of_mem hran
  have himage := hthen.image
  exact Ran.onArray hthen.dictionary hrom (hlength past ran.machine hthen) fun hsome =>
    hsaves (himage ▸ hsome) ran hran

/-- Where the slots are kept does not show, and they are an array. Take two machines with the standard
commands that differ in their banks alone: one has opened the image at `path`, the other holds the same
slots in memory. As long as the first can write its image, both answer every sequence of requests
alike, with the same stack, radio, node, pending tokens and printed text behind it. On both, at every
point, the slots are those of the start with the successful writes carried out in order, as many as
there were; and the commands of the slots do what they would do to an array (`Ran.OnArray`). -/
theorem slots_like_array (limits : Limits) (features : Dictionary.Features) (machine : Machine ρ)
    (disk other : Disk) (path : String) (count : Nat) (requests : List Request) :
    let file : Machine ρ :=
      { machine with dictionary := .standard features, rom := .opened disk path count }
    let slots := file.rom.bank.slots
    let ram : Machine ρ :=
      { machine with dictionary := .standard features, rom := { bank := { slots }, disk := other } }
    let onFile := file.attend limits requests
    let onRam := ram.attend limits requests
    (∀ ran ∈ onFile.runs, ran.Saves) →
      onFile.answers = onRam.answers ∧ onFile.machine.LooksLike onRam.machine ∧
        ∀ account ∈ [onFile, onRam],
          account.Throughout (fun runs machine =>
            machine.rom.bank.slots = replay slots runs ∧ machine.rom.bank.slots.length = count) ∧
          (features.rom = true → ∀ ran ∈ account.runs, ran.OnArray count) := by
  intro file slots ram onFile onRam hsaves
  have hcount : slots.length = count := RomBank.length_slots_load disk path count
  have hstart : Twins (Mirrored features) file ram :=
    ⟨⟨rfl, rfl, rfl, rfl, rfl⟩, ⟨rfl, rfl, rfl, rfl, rfl⟩⟩
  obtain ⟨hanswers, htwins⟩ :=
    Mimics.attend (mimics_mirrored limits features) requests hstart hsaves
  refine ⟨hanswers, htwins.toLooksLike, ?_⟩
  intro account haccount
  simp only [List.mem_cons, List.not_mem_nil, or_false] at haccount
  rcases haccount with rfl | rfl
  · have harray := attend_onArray file rfl limits requests fun _ => hsaves
    rwa [show file.rom.bank.slots.length = count from hcount] at harray
  · have harray := attend_onArray ram rfl limits requests fun himage => absurd rfl himage
    rwa [show ram.rom.bank.slots.length = count from hcount] at harray

/-- Two slots: a write, a read of what was written, and a read of a slot that is not there. -/
theorem slots_like_array_two_slots :
    let requests : List Request := [.enter "7 1 rom! 1 rom@ 9 rom@", .execute, .pop, .pop]
    let file : Machine QueuedRadio := { radio := {}, rom := .opened {} "rom.bin" 2 }
    let ram : Machine QueuedRadio := { radio := {}, rom := { bank := { slots := [0, 0] } } }
    (∀ ran ∈ (file.attend .device requests).runs, ran.Saves) ∧
      (file.attend .device requests).answers = (ram.attend .device requests).answers ∧
      (file.attend .device requests).machine.rom.bank.slots = [0, 7] := by
  intro requests file ram
  have hsaves : ∀ ran ∈ (file.attend .device requests).runs, ran.Saves := by decide +kernel
  have hslots : (file.attend .device requests).machine.rom.bank.slots = [0, 7] := by decide +kernel
  have hlike := slots_like_array .device .standard file {} {} "rom.bin" 2 requests hsaves
  exact ⟨hsaves, hlike.1, hslots⟩

end Machine

end SerialConsole
