import SerialConsole.Proofs.Machine.Names

/-!
# How the radio is set up

Two commands talk to the radio: `node group frequency rf-init` sets it up, and `level rf-txpower` sets
its power. Their operands are cells, and what the radio gets are words of 8 and 16 bits, so a command
first sees to it that nothing is lost (`Cell.InRange`). It does so from the top of the stack down,
against the order in which the operands were written.

What the radio was told can be read off the account of the tokens that were run: it is what the last
successful command was given (`lastSuccess?`), or nothing if there was none. The machine keeps the node
beside the radio, and both always agree. `radio_follows_commands` says so for every point of every
sequence of requests, with the exact conditions under which the two commands succeed.
-/

namespace SerialConsole

open Failing

variable {ρ : Type}

/-! ## Operands in range -/

/-- A cell that is a number from 0 to `limit`. -/
def Cell.InRange (limit : Nat) (value : Cell) : Prop := 0 ≤ value.toInt ∧ value.toInt ≤ limit

instance (limit : Nat) (value : Cell) : Decidable (value.InRange limit) :=
  inferInstanceAs (Decidable (_ ∧ _))

theorem narrow_of_inRange {limit : Nat} {value : Cell} (h : value.InRange limit) (detail : String) :
    narrow limit detail value = .ok value.toInt.toNat := if_pos h

theorem narrow_of_not_inRange {limit : Nat} {value : Cell} (h : ¬value.InRange limit)
    (detail : String) :
    narrow limit detail value = .error (Fault.withDetail .illegalFunctionCall detail) := if_neg h

/-- A cell in the range of a byte is that byte. -/
theorem Cell.InRange.toNat_byte {limit : Nat} {value : Cell} (h : value.InRange limit)
    (hlimit : limit < 256) : ((UInt8.ofNat value.toInt.toNat).toNat : Int) = value.toInt := by
  obtain ⟨hlow, hhigh⟩ := h
  rw [UInt8.toNat_ofNat_of_lt' (by show value.toInt.toNat < 256; omega)]
  omega

/-- A cell in the range of a word of 16 bits is that word. -/
theorem Cell.InRange.toNat_word {limit : Nat} {value : Cell} (h : value.InRange limit)
    (hlimit : limit < 65536) : ((UInt16.ofNat value.toInt.toNat).toNat : Int) = value.toInt := by
  obtain ⟨hlow, hhigh⟩ := h
  rw [UInt16.toNat_ofNat_of_lt' (by show value.toInt.toNat < 65536; omega)]
  omega

/-- The operand of `rf-init` that is refused: the first one out of range, from the top of the stack. -/
def refusedOperand? (node group frequency : Cell) : Option String :=
  if ¬frequency.InRange 65535 then some "FREQUENCY"
  else if ¬group.InRange 255 then some "GROUP"
  else if ¬node.InRange 255 then some "NODE ID"
  else none

theorem refusedOperand?_eq_none_iff (node group frequency : Cell) :
    refusedOperand? node group frequency = none ↔
      node.InRange 255 ∧ group.InRange 255 ∧ frequency.InRange 65535 := by
  by_cases hfrequency : frequency.InRange 65535 <;> by_cases hgroup : group.InRange 255 <;>
    by_cases hnode : node.InRange 255 <;> simp [refusedOperand?, hfrequency, hgroup, hnode]

/-! ## What the two commands are decided to do -/

namespace Builtin

variable {machine : Machine ρ} {below : List Cell}

/-- A set-up with its operands there fails because of the first operand out of range, or gives the
radio all three as they are. -/
theorem effect_radioInit {node group frequency : Cell}
    (hvalues : machine.stack.fromTop = frequency :: group :: node :: below) :
    radioInit.effect machine
      = match refusedOperand? node group frequency with
        | some detail => .error (Fault.withDetail .illegalFunctionCall detail)
        | none => .ok {
            taken := 3
            config? := some ⟨UInt8.ofNat node.toInt.toNat, UInt8.ofNat group.toInt.toNat,
              UInt16.ofNat frequency.toInt.toNat⟩ } := by
  have hfirst : machine.stack.peek 0 = .ok frequency := DataStack.peek_of_fromTop hvalues rfl
  have hsecond : machine.stack.peek 1 = .ok group := DataStack.peek_of_fromTop hvalues rfl
  have hthird : machine.stack.peek 2 = .ok node := DataStack.peek_of_fromTop hvalues rfl
  have hlooked : radioInit.effect machine = (do
      let frequency ← narrow 65535 "FREQUENCY" frequency
      let group ← narrow 255 "GROUP" group
      let node ← narrow 255 "NODE ID" node
      .ok { taken := 3
            config? := some ⟨UInt8.ofNat node, UInt8.ofNat group, UInt16.ofNat frequency⟩ }) := by
    simp only [effect, hfirst, hsecond, hthird]
    rfl
  rw [hlooked]
  -- an operand is looked at only if those above it are in range, so each refusal is a case of its own
  by_cases hfrequency : frequency.InRange 65535
  case neg =>
    rw [narrow_of_not_inRange hfrequency, refusedOperand?, if_pos hfrequency]
    rfl
  by_cases hgroup : group.InRange 255
  case neg =>
    rw [narrow_of_inRange hfrequency, narrow_of_not_inRange hgroup, refusedOperand?,
      if_neg (not_not.mpr hfrequency), if_pos hgroup]
    rfl
  by_cases hnode : node.InRange 255
  case neg =>
    rw [narrow_of_inRange hfrequency, narrow_of_inRange hgroup, narrow_of_not_inRange hnode,
      refusedOperand?, if_neg (not_not.mpr hfrequency), if_neg (not_not.mpr hgroup), if_pos hnode]
    rfl
  rw [narrow_of_inRange hfrequency, narrow_of_inRange hgroup, narrow_of_inRange hnode,
    (refusedOperand?_eq_none_iff node group frequency).mpr ⟨hnode, hgroup, hfrequency⟩]
  rfl

theorem effect_radioPower {level : Cell} (hvalues : machine.stack.fromTop = level :: below) :
    radioPower.effect machine
      = if level.InRange 31 then
          .ok { taken := 1, power? := some (UInt8.ofNat level.toInt.toNat) }
        else .error (Fault.withDetail .illegalFunctionCall "LEVEL 0..31") := by
  have htop : machine.stack.peek 0 = .ok level := DataStack.peek_of_fromTop hvalues rfl
  have hlooked : radioPower.effect machine = (do
      let level ← narrow 31 "LEVEL 0..31" level
      .ok { taken := 1, power? := some (UInt8.ofNat level) }) := by
    simp only [effect, htop]
    rfl
  rw [hlooked]
  by_cases hlevel : level.InRange 31
  · rw [narrow_of_inRange hlevel, if_pos hlevel]
    rfl
  · rw [narrow_of_not_inRange hlevel, if_neg hlevel]
    rfl

end Builtin

/-! ## What stands on the stack and what the radio is told -/

/-- A set-up that is, number for number, what stands on a stack. -/
def RadioConfig.ReadOff (stack : DataStack DataStack.deviceCapacity) (config : RadioConfig) : Prop :=
  ∃ node group frequency below, stack.fromTop = frequency :: group :: node :: below ∧
    (config.node.toNat : Int) = node.toInt ∧ (config.group.toNat : Int) = group.toInt ∧
    (config.frequency.toNat : Int) = frequency.toInt

/-- A level that is the number on top of a stack, and not too high. -/
def PowerReadOff (stack : DataStack DataStack.deviceCapacity) (level : UInt8) : Prop :=
  level.toNat ≤ 31 ∧ ∃ value below, stack.fromTop = value :: below ∧ (level.toNat : Int) = value.toInt

namespace Token

variable {features : Dictionary.Features} {machine : Machine ρ} {effect : Effect}

/-- A set-up that was decided on is what the stack says. -/
theorem setUp_of_effect (hstandard : machine.dictionary = .standard features)
    (h : (word "rf-init").effect machine = .ok effect) :
    ∃ config, effect.config? = some config ∧ config.ReadOff machine.stack := by
  obtain ⟨values, below, hlength, hvalues, hdecided⟩ := effect_of_name hstandard .radioInit h
  obtain ⟨frequency, group, node, rfl⟩ := List.length_eq_three.mp hlength
  rw [Builtin.effect_radioInit hvalues] at hdecided
  cases hrefused : refusedOperand? node group frequency with
  | some detail =>
    rw [hrefused] at hdecided
    cases hdecided
  | none =>
    rw [hrefused] at hdecided
    cases hdecided
    -- nothing was refused, so every operand fits the word that it becomes
    obtain ⟨hnode, hgroup, hfrequency⟩ := (refusedOperand?_eq_none_iff _ _ _).mp hrefused
    exact ⟨_, rfl, node, group, frequency, below, hvalues, hnode.toNat_byte (by decide),
      hgroup.toNat_byte (by decide), hfrequency.toNat_word (by decide)⟩

/-- A power that was decided on is what the stack says. -/
theorem power_of_effect (hstandard : machine.dictionary = .standard features)
    (h : (word "rf-txpower").effect machine = .ok effect) :
    ∃ level, effect.power? = some level ∧ PowerReadOff machine.stack level := by
  obtain ⟨values, below, hlength, hvalues, hdecided⟩ := effect_of_name hstandard .radioPower h
  obtain ⟨level, rfl⟩ := List.length_eq_one_iff.mp hlength
  rw [Builtin.effect_radioPower hvalues] at hdecided
  split at hdecided
  case isFalse => cases hdecided
  case isTrue hlevel =>
    cases hdecided
    have hsame := hlevel.toNat_byte (by decide)
    have hhigh : level.toInt ≤ 31 := hlevel.2
    exact ⟨_, rfl, by omega, level, below, hvalues, hsame⟩

end Token

/-! ## What the last successful command leaves -/

/-- The last run of a command that succeeded. -/
def lastSuccess? [Radio ρ] (name : String) (runs : List (Ran ρ)) : Option (Ran ρ) :=
  runs.reverse.find? fun ran => ran.token = .word name && ran.succeeds

/-- One more run is the last success, or leaves it. -/
theorem lastSuccess?_concat [Radio ρ] (name : String) (past : List (Ran ρ)) (ran : Ran ρ) :
    lastSuccess? name (past ++ [ran])
      = if ran.token = .word name ∧ ran.succeeds = true then some ran
        else lastSuccess? name past := by
  unfold lastSuccess?
  rw [List.reverse_append, List.reverse_singleton, List.singleton_append, List.find?_cons]
  split <;> simp_all

namespace Machine

/-- The radio and the machine are set up as a run of `rf-init` says, or as they were made. -/
def SetUpBy (machine : Machine QueuedRadio) : Option (Ran QueuedRadio) → Prop
  | none => machine.radio.config? = none ∧ machine.nodeId = 0
  | some ran => ∃ config, machine.radio.config? = some config ∧ machine.nodeId = config.node ∧
    config.ReadOff ran.machine.stack

/-- The power is as a run of `rf-txpower` says, or was never set. -/
def PoweredBy (machine : Machine QueuedRadio) : Option (Ran QueuedRadio) → Prop
  | none => machine.radio.power? = none
  | some ran => ∃ level, machine.radio.power? = some level ∧ PowerReadOff ran.machine.stack level

/-- A machine with the standard commands whose radio is as the last successful ones say. -/
structure FollowsCommands (features : Dictionary.Features) (runs : List (Ran QueuedRadio))
    (machine : Machine QueuedRadio) : Prop where
  dictionary : machine.dictionary = .standard features
  setUp : machine.SetUpBy (lastSuccess? "rf-init" runs)
  powered : machine.PoweredBy (lastSuccess? "rf-txpower" runs)

section FollowsCommands

variable {machine other : Machine QueuedRadio} {last? : Option (Ran QueuedRadio)}

theorem SetUpBy.congr (h : machine.SetUpBy last?)
    (hconfig : other.radio.config? = machine.radio.config?) (hnode : other.nodeId = machine.nodeId) :
    other.SetUpBy last? := by
  unfold SetUpBy at h ⊢
  rwa [hconfig, hnode]

theorem PoweredBy.congr (h : machine.PoweredBy last?)
    (hpower : other.radio.power? = machine.radio.power?) : other.PoweredBy last? := by
  unfold PoweredBy at h ⊢
  rwa [hpower]

variable {features : Dictionary.Features} {past : List (Ran QueuedRadio)} {token : Token}
  {effect : Effect}

/-- A token that succeeds: `rf-init` sets up the radio and the node together, and no other token
touches either of them. -/
theorem SetUpBy.on (h : machine.SetUpBy (lastSuccess? "rf-init" past))
    (hstandard : machine.dictionary = .standard features)
    (hdecided : token.effect machine = .ok effect)
    (hsucceeds : Ran.succeeds (⟨token, machine⟩ : Ran QueuedRadio) = true) :
    (effect.on machine).SetUpBy (lastSuccess? "rf-init" (past ++ [⟨token, machine⟩])) := by
  rw [lastSuccess?_concat]
  by_cases hname : token = .word "rf-init"
  · rw [if_pos ⟨hname, hsucceeds⟩]
    subst hname
    obtain ⟨config, hconfig, hread⟩ := Token.setUp_of_effect hstandard hdecided
    refine ⟨config, ?_, ?_, hread⟩
    · show (effect.onRadio machine.radio).config? = some config
      rw [effect.config?_onRadio, hconfig]
      rfl
    · show (effect.config?.map RadioConfig.node).getD machine.nodeId = config.node
      rw [hconfig]
      rfl
  · rw [if_neg fun hboth => hname hboth.1]
    have hnone : effect.config? = none :=
      (Token.onlyBy_of_effect hstandard hdecided).config hname
    refine h.congr ?_ ?_
    · show (effect.onRadio machine.radio).config? = _
      rw [effect.config?_onRadio, hnone]
      rfl
    · show (effect.config?.map RadioConfig.node).getD machine.nodeId = _
      rw [hnone]
      rfl

/-- A token that succeeds: `rf-txpower` sets the power, and no other token touches it. -/
theorem PoweredBy.on (h : machine.PoweredBy (lastSuccess? "rf-txpower" past))
    (hstandard : machine.dictionary = .standard features)
    (hdecided : token.effect machine = .ok effect)
    (hsucceeds : Ran.succeeds (⟨token, machine⟩ : Ran QueuedRadio) = true) :
    (effect.on machine).PoweredBy (lastSuccess? "rf-txpower" (past ++ [⟨token, machine⟩])) := by
  rw [lastSuccess?_concat]
  by_cases hname : token = .word "rf-txpower"
  · rw [if_pos ⟨hname, hsucceeds⟩]
    subst hname
    obtain ⟨level, hpower, hread⟩ := Token.power_of_effect hstandard hdecided
    refine ⟨level, ?_, hread⟩
    show (effect.onRadio machine.radio).power? = some level
    rw [effect.power?_onRadio, hpower]
    rfl
  · rw [if_neg fun hboth => hname hboth.1]
    have hnone : effect.power? = none :=
      (Token.onlyBy_of_effect hstandard hdecided).power hname
    refine h.congr ?_
    show (effect.onRadio machine.radio).power? = _
    rw [effect.power?_onRadio, hnone]
    rfl

/-- Every token keeps the radio as the last successful commands say; one that fails is no success
and leaves the radio. -/
theorem kept_followsCommands (limits : Limits) (features : Dictionary.Features) :
    Kept limits (FollowsCommands features) where
  run := by
    intro past machine token h
    have hnative : machine.dictionary.Native := h.dictionary ▸ Dictionary.native_standard features
    rw [MachineM.runWithin_eq hnative]
    let ran : Ran QueuedRadio := ⟨token, machine⟩
    show ran.after.FollowsCommands features (past ++ [ran])
    rcases ran.after_cases hnative with
      ⟨effect, journal, hdecided, hsuccess, hafter⟩ | ⟨journal, hfailed, hafter⟩
    · rw [hafter]
      exact ⟨h.dictionary, h.setUp.on h.dictionary hdecided hsuccess,
        h.powered.on h.dictionary hdecided hsuccess⟩
    · have hlast : ∀ name, lastSuccess? name (past ++ [ran]) = lastSuccess? name past := by
        intro name
        rw [lastSuccess?_concat, if_neg]
        rintro ⟨-, hsuccess⟩
        rw [hfailed] at hsuccess
        cases hsuccess
      rw [hafter]
      exact ⟨h.dictionary, hlast "rf-init" ▸ h.setUp, hlast "rf-txpower" ▸ h.powered⟩
  books := fun _ _ _ _ h => ⟨h.dictionary, h.setUp, h.powered⟩

theorem FollowsCommands.pollRadio (h : machine.FollowsCommands features past) :
    machine.pollRadio.FollowsCommands features past := by
  obtain ⟨queue, printed, journal, hpolled⟩ := machine.pollRadio_changes
  rw [hpolled]
  exact ⟨h.dictionary, h.setUp, h.powered⟩

end FollowsCommands

end Machine

/-! ## When the two commands succeed -/

/-- The two commands of the radio check what they are given. A set-up succeeds just if three values
are there and all are in range; otherwise the fault names the first that is not, from the top of the
stack down. A power succeeds just if a value is there that is in range. -/
structure Ran.ChecksOperands [Radio ρ] (ran : Ran ρ) : Prop where
  setUp : ran.token = .word "rf-init" → (ran.succeeds = true ↔
    ∃ node group frequency below, ran.machine.stack.fromTop = frequency :: group :: node :: below ∧
      node.InRange 255 ∧ group.InRange 255 ∧ frequency.InRange 65535)
  refused : ran.token = .word "rf-init" → ∀ node group frequency below,
    ran.machine.stack.fromTop = frequency :: group :: node :: below →
      failure? (MachineM.run ran.token ran.machine)
        = (refusedOperand? node group frequency).map fun detail =>
            ⟨.illegalFunctionCall, some "rf-init", detail⟩
  power : ran.token = .word "rf-txpower" → (ran.succeeds = true ↔
    ∃ level below, ran.machine.stack.fromTop = level :: below ∧ level.InRange 31)

section ChecksOperands

variable [Radio ρ] {features : Dictionary.Features} {machine : Machine ρ}

/-- How `rf-init` ends with its operands there. -/
theorem MachineM.failure?_radioInit (hstandard : machine.dictionary = .standard features)
    (hradio : features.radio = true) {node group frequency : Cell} {below : List Cell}
    (hvalues : machine.stack.fromTop = frequency :: group :: node :: below) :
    failure? (run (.word "rf-init") machine)
      = (refusedOperand? node group frequency).map fun detail =>
          ⟨.illegalFunctionCall, some "rf-init", detail⟩ := by
  have henough := DataStack.le_depth_of_fromTop [frequency, group, node] hvalues
  refine (failure?_name hstandard .radioInit hradio henough).trans ?_
  rw [Builtin.effect_radioInit hvalues]
  cases refusedOperand? node group frequency <;> rfl

/-- How `rf-txpower` ends with its operand there. -/
theorem MachineM.failure?_radioPower (hstandard : machine.dictionary = .standard features)
    (hradio : features.radio = true) {level : Cell} {below : List Cell}
    (hvalues : machine.stack.fromTop = level :: below) :
    failure? (run (.word "rf-txpower") machine)
      = if level.InRange 31 then none
        else some ⟨.illegalFunctionCall, some "rf-txpower", "LEVEL 0..31"⟩ := by
  have henough := DataStack.le_depth_of_fromTop [level] hvalues
  refine (failure?_name hstandard .radioPower hradio henough).trans ?_
  rw [Builtin.effect_radioPower hvalues]
  by_cases hlevel : level.InRange 31
  · rw [if_pos hlevel, if_pos hlevel]
  · rw [if_neg hlevel, if_neg hlevel]
    rfl

theorem Ran.checksOperands {ran : Ran ρ} (hstandard : ran.machine.dictionary = .standard features)
    (hradio : features.radio = true) : ran.ChecksOperands := by
  obtain ⟨token, machine⟩ := ran
  have hnative : machine.dictionary.Native := hstandard ▸ Dictionary.native_standard features
  constructor
  case setUp =>
    rintro rfl
    constructor
    · -- a success had its three operands there, and none of them was refused
      intro hsuccess
      obtain ⟨effect, hdecided⟩ := (Ran.succeeds_iff hnative).mp hsuccess
      obtain ⟨values, below, hlength, hvalues, -⟩ :=
        Token.effect_of_name hstandard .radioInit hdecided
      obtain ⟨frequency, group, node, rfl⟩ := List.length_eq_three.mp hlength
      rw [Ran.succeeds, MachineM.failure?_radioInit hstandard hradio hvalues] at hsuccess
      refine ⟨node, group, frequency, below, hvalues, ?_⟩
      exact (refusedOperand?_eq_none_iff node group frequency).mp (by simpa using hsuccess)
    · rintro ⟨node, group, frequency, below, hvalues, hrange⟩
      rw [Ran.succeeds, MachineM.failure?_radioInit hstandard hradio hvalues,
        (refusedOperand?_eq_none_iff node group frequency).mpr hrange]
      rfl
  case refused =>
    rintro rfl node group frequency below hvalues
    exact MachineM.failure?_radioInit hstandard hradio hvalues
  case power =>
    rintro rfl
    constructor
    · intro hsuccess
      obtain ⟨effect, hdecided⟩ := (Ran.succeeds_iff hnative).mp hsuccess
      obtain ⟨values, below, hlength, hvalues, -⟩ :=
        Token.effect_of_name hstandard .radioPower hdecided
      obtain ⟨level, rfl⟩ := List.length_eq_one_iff.mp hlength
      rw [Ran.succeeds, MachineM.failure?_radioPower hstandard hradio hvalues] at hsuccess
      refine ⟨level, below, hvalues, ?_⟩
      by_contra hlevel
      rw [if_neg hlevel] at hsuccess
      cases hsuccess
    · rintro ⟨level, below, hvalues, hlevel⟩
      rw [Ran.succeeds, MachineM.failure?_radioPower hstandard hradio hvalues, if_pos hlevel]
      rfl

end ChecksOperands

namespace Machine

/-- The radio is as the last successful commands say. Take a new machine with the standard commands on
a radio that only this machine sets up, and ask of it what you like, in any order. At every point,
before each token that is run and at the end, either no `rf-init` has succeeded, the radio is not set
up and the node is 0; or the radio is set up with the node, group and frequency that stood third, second
and first on the stack at the last `rf-init` that succeeded, as whole numbers, and the node is the
machine's own. Likewise the power is that of the last successful `rf-txpower`, at most 31. When the two
commands succeed and what a refused set-up names says `Ran.ChecksOperands`. -/
theorem radio_follows_commands (limits : Limits) (features : Dictionary.Features)
    (memory : AddressSpace) (rom : RomStorage) (queue : List Packet) (requests : List Request) :
    let start : Machine QueuedRadio :=
      { dictionary := .standard features, memory, radio := { queue }, rom }
    let account := start.attend limits requests
    account.Throughout (fun runs machine => machine.SetUpBy (lastSuccess? "rf-init" runs) ∧
        machine.PoweredBy (lastSuccess? "rf-txpower" runs)) ∧
      (features.radio = true → ∀ ran ∈ account.runs, ran.ChecksOperands) := by
  intro start account
  have hstart : start.FollowsCommands features [] := ⟨rfl, ⟨rfl, rfl⟩, rfl⟩
  have hfollows : account.Throughout (FollowsCommands features) :=
    (kept_followsCommands limits features).throughout_attend FollowsCommands.pollRadio requests hstart
  refine ⟨hfollows.imp fun _ _ h => ⟨h.setUp, h.powered⟩, fun hradio ran hran => ?_⟩
  obtain ⟨past, hthen⟩ := hfollows.of_mem hran
  exact Ran.checksOperands hthen.dictionary hradio

/-- The second set-up is refused because of its frequency, though its node is out of range as well, and
the radio stays as the first one left it. -/
theorem radio_follows_commands_refused :
    let start : Machine QueuedRadio := { radio := {} }
    let account := start.attend .device
      [.enter "5 6 868 rf-init 31 rf-txpower", .execute, .enter "300 6 -1 rf-init", .execute]
    (account.runs.filter fun ran => ran.token = .word "rf-init").map
        (fun ran => failure? (MachineM.run ran.token ran.machine))
        = [none, some ⟨.illegalFunctionCall, some "rf-init", "FREQUENCY"⟩] ∧
      account.machine.radio = ⟨some ⟨5, 6, 868⟩, some 31, []⟩ ∧ account.machine.nodeId = 5 ∧
      account.machine.SetUpBy (lastSuccess? "rf-init" account.runs) ∧
      account.machine.PoweredBy (lastSuccess? "rf-txpower" account.runs) ∧
      ∀ ran ∈ account.runs, ran.ChecksOperands := by
  intro start account
  obtain ⟨hfollows, hchecks⟩ := radio_follows_commands .device .standard start.memory start.rom []
    [.enter "5 6 868 rf-init 31 rf-txpower", .execute, .enter "300 6 -1 rf-init", .execute]
  refine ⟨?_, ?_, ?_, hfollows.last.1, hfollows.last.2, hchecks rfl⟩
  · decide +kernel
  · decide +kernel
  · decide +kernel

end Machine

end SerialConsole
