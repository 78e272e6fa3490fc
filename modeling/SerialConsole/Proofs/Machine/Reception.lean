import SerialConsole.Proofs.Machine.Requests

/-!
# Reception

A radio with a queue is in two hands. Its driver puts packets in, sets it up and may take packets out;
the machine sets it up with its own command and takes packets when it is polled. Two gates are on the
way of a packet to the machine: the radio hands out nothing before it was set up, and the machine does
not ask before it is a node other than 0. They are kept apart, but the second never opens without the
first (`Machine.Tuned`), so that a poll of a machine that is a node gets a packet whenever one waits.

`packets_in_order` is an induction over whatever happens at the radio. Every step takes at most one
packet from the front of the queue, hands it out, and puts at most one behind the others.
-/

namespace SerialConsole

open Failing

/-! ## What happens at a radio -/

/-- Something that happens at a radio with a queue: its driver uses it, or something is asked of the
machine that shares it. -/
inductive Happening where
  | inject (packet : Packet)
  | configure (config : RadioConfig)
  | setPower (level : UInt8)
  | receive
  | request (request : Machine.Request)

/-- The packet that is put into the queue. -/
def Happening.injected? : Happening → Option Packet
  | inject packet => some packet
  | _ => none

namespace Machine

/-- The machine after a happening at its radio. -/
def undergo (limits : Limits) (machine : Machine QueuedRadio) : Happening → Machine QueuedRadio
  | .inject packet => { machine with radio := machine.radio.inject packet }
  | .configure config => { machine with radio := Radio.configure config machine.radio }
  | .setPower level => { machine with radio := Radio.setPower level machine.radio }
  | .receive => { machine with radio := (Radio.receive machine.radio).2 }
  | .request request => (machine.perform limits request).machine

/-- The packet that the radio hands out in a happening, to its driver or to the machine. -/
def received? (machine : Machine QueuedRadio) : Happening → Option Packet
  | .receive => (Radio.receive machine.radio).1
  | .request .pollRadio =>
    if machine.nodeId = 0 then none else (Radio.receive machine.radio).1
  | _ => none

/-- The packets that the radio hands out one after the other, and the machine behind the last
happening. -/
def undergoAll (limits : Limits) (machine : Machine QueuedRadio) :
    List Happening → List Packet × Machine QueuedRadio
  | [] => ([], machine)
  | happening :: rest =>
    let later := (machine.undergo limits happening).undergoAll limits rest
    ((machine.received? happening).toList ++ later.1, later.2)

/-! ## Polls -/

/-- A machine with the standard commands whose radio was set up if the machine is a node. -/
structure Tuned (features : Dictionary.Features) (machine : Machine QueuedRadio) : Prop where
  dictionary : machine.dictionary = .standard features
  config : machine.nodeId ≠ 0 → machine.radio.config? ≠ none

section Tuned

variable {features : Dictionary.Features} {machine : Machine QueuedRadio}

theorem Tuned.native (h : machine.Tuned features) : machine.dictionary.Native :=
  h.dictionary ▸ Dictionary.native_standard features

theorem Tuned.receive_of_packet (h : machine.Tuned features) (hnode : machine.nodeId ≠ 0)
    {packet : Packet} {rest : List Packet} (hqueue : machine.radio.queue = packet :: rest) :
    Radio.receive machine.radio = (some packet, { machine.radio with queue := rest }) :=
  QueuedRadio.receive_of_packet (h.config hnode) hqueue

/-- A poll of a node takes the packet that waits longest and prints it once. -/
theorem Tuned.pollRadio_of_packet (h : machine.Tuned features) (hnode : machine.nodeId ≠ 0)
    {packet : Packet} {rest : List Packet} (hqueue : machine.radio.queue = packet :: rest) :
    machine.pollRadio
      = { machine with
          radio := { machine.radio with queue := rest }
          printed := machine.printed ++ (packet.text ++ "\n")
          journal := .packetReceived packet.data.length :: machine.journal } := by
  rw [Machine.pollRadio, if_neg hnode, h.receive_of_packet hnode hqueue]
  rfl

/-- What every token keeps: the machine is tuned, and no packet comes or goes. -/
theorem kept_tuned (limits : Limits) (features : Dictionary.Features) (queue : List Packet) :
    Kept limits fun _ machine => machine.Tuned features ∧ machine.radio.queue = queue where
  run := by
    rintro _ machine token ⟨htuned, hqueue⟩
    rw [MachineM.runWithin_eq htuned.native]
    rcases MachineM.run_cases htuned.native token with
      ⟨effect, journal, -, hrun⟩ | ⟨fault, journal, -, hrun⟩
    · rw [hrun]
      refine ⟨⟨htuned.dictionary, ?_⟩, (effect.queue_onRadio machine.radio).trans hqueue⟩
      -- the node changes only with the set-up of the radio
      show (effect.config?.map RadioConfig.node).getD machine.nodeId ≠ 0 →
        (effect.onRadio machine.radio).config? ≠ none
      rw [effect.config?_onRadio]
      cases effect.config? with
      | none => exact htuned.config
      | some config => exact fun _ => nofun
    · rw [hrun]
      exact ⟨⟨htuned.dictionary, htuned.config⟩, hqueue⟩
  books := by
    rintro _ machine stack pending printed journal ⟨htuned, hqueue⟩
    exact ⟨⟨htuned.dictionary, htuned.config⟩, hqueue⟩

/-- A receipt takes at most the first packet and leaves the set-up. -/
theorem Tuned.receive (h : machine.Tuned features) :
    ({ machine with radio := (Radio.receive machine.radio).2 } : Machine QueuedRadio).Tuned
      features := by
  refine ⟨h.dictionary, fun hnode => ?_⟩
  obtain ⟨queue, hreceive⟩ := machine.radio.receive_changes
  show machine.radio.receive.2.config? ≠ none
  rw [hreceive]
  exact h.config hnode

/-- What a poll hands out and what it leaves in the queue. -/
theorem Tuned.poll (h : machine.Tuned features) :
    machine.pollRadio.Tuned features ∧
      (machine.received? (.request .pollRadio)).toList ++ machine.pollRadio.radio.queue
        = machine.radio.queue := by
  by_cases hnode : machine.nodeId = 0
  · rw [pollRadio_of_no_node hnode, received?, if_pos hnode]
    exact ⟨h, rfl⟩
  · rw [received?, if_neg hnode]
    cases hqueue : machine.radio.queue with
    | nil =>
      rw [pollRadio_of_empty hqueue, hqueue]
      have hreceive : Radio.receive machine.radio = (none, machine.radio) :=
        QueuedRadio.receive_of_empty hqueue
      rw [hreceive]
      exact ⟨h, rfl⟩
    | cons packet rest =>
      rw [h.pollRadio_of_packet hnode hqueue, h.receive_of_packet hnode hqueue]
      exact ⟨⟨h.dictionary, h.config⟩, rfl⟩

/-- One happening: the packet that is handed out was the first of the queue, the packet that is put
in becomes the last, and the machine stays tuned. -/
theorem Tuned.undergo (h : machine.Tuned features) (limits : Limits) (happening : Happening) :
    (machine.undergo limits happening).Tuned features ∧
      (machine.received? happening).toList ++ (machine.undergo limits happening).radio.queue
        = machine.radio.queue ++ happening.injected?.toList := by
  cases happening with
  | inject packet => exact ⟨⟨h.dictionary, h.config⟩, rfl⟩
  | configure config => exact ⟨⟨h.dictionary, fun _ => nofun⟩, (List.append_nil _).symm⟩
  | setPower level => exact ⟨⟨h.dictionary, h.config⟩, (List.append_nil _).symm⟩
  | receive =>
    refine ⟨h.receive, ?_⟩
    show _ = machine.radio.queue ++ []
    rw [List.append_nil]
    exact machine.radio.receive_append_queue
  | request request =>
    show _ ∧ _ = machine.radio.queue ++ []
    rw [List.append_nil]
    by_cases hpoll : request = .pollRadio
    · subst hpoll
      exact h.poll
    · have hnone : machine.received? (.request request) = none := by
        cases request <;> first | rfl | exact absurd rfl hpoll
      have hkept := @Kept.perform _ _ _ _ [] _ (kept_tuned limits features machine.radio.queue)
        request ⟨h, rfl⟩ fun hthis => absurd hthis hpoll
      rw [hnone]
      exact hkept

/-- Everything that is handed out was waiting or was put in, in that order. -/
theorem Tuned.undergoAll (h : machine.Tuned features) (limits : Limits)
    (happenings : List Happening) :
    (machine.undergoAll limits happenings).2.Tuned features ∧
      (machine.undergoAll limits happenings).1
          ++ (machine.undergoAll limits happenings).2.radio.queue
        = machine.radio.queue ++ happenings.filterMap Happening.injected? := by
  induction happenings generalizing machine with
  | nil => exact ⟨h, (List.append_nil _).symm⟩
  | cons happening rest ih =>
    obtain ⟨hnext, hfirst⟩ := h.undergo limits happening
    obtain ⟨hlast, hlater⟩ := ih hnext
    refine ⟨hlast, ?_⟩
    have hinjected : (happening :: rest).filterMap Happening.injected?
        = happening.injected?.toList ++ rest.filterMap Happening.injected? := by
      cases happening <;> rfl
    rw [Machine.undergoAll, hinjected, List.append_assoc, hlater, ← List.append_assoc, hfirst,
      List.append_assoc]

end Tuned

/-- Packets come out in the order in which they went in, each of them once, and only to a node. Take
a new machine on a new radio, and let the radio's driver and the machine do what they like, in any
order. The packets that were handed out, to either of them, and the packets that still wait are
together those that were put in. At every such point a poll of the machine takes the packet that waits
longest and prints its line once, if the machine is a node other than 0 and a packet waits; otherwise
it changes nothing. That a machine which is no node does not ask holds for radios of any kind, such as
one that counts how often it is asked. -/
theorem packets_in_order (limits : Limits) (features : Dictionary.Features)
    (memory : AddressSpace) (rom : RomStorage) (happenings : List Happening) :
    let start : Machine QueuedRadio :=
      { dictionary := .standard features, memory, radio := {}, rom }
    let received := (start.undergoAll limits happenings).1
    let machine := (start.undergoAll limits happenings).2
    received ++ machine.radio.queue = happenings.filterMap Happening.injected? ∧
      (∀ packet rest, machine.nodeId ≠ 0 → machine.radio.queue = packet :: rest →
        machine.received? (.request .pollRadio) = some packet ∧
          machine.pollRadio
            = { machine with
                radio := { machine.radio with queue := rest }
                printed := machine.printed ++ (packet.text ++ "\n")
                journal := .packetReceived packet.data.length :: machine.journal }) ∧
      (machine.nodeId = 0 ∨ machine.radio.queue = [] →
        machine.received? (.request .pollRadio) = none ∧ machine.pollRadio = machine) ∧
      ∀ (σ : Type) [Radio σ] (other : Machine σ), other.nodeId = 0 → other.pollRadio = other := by
  intro start received machine
  have hstart : start.Tuned features := ⟨rfl, fun hnode => absurd rfl hnode⟩
  obtain ⟨htuned, hconserved⟩ := hstart.undergoAll limits happenings
  refine ⟨hconserved, fun packet rest hnode hqueue => ?_, fun hclosed => ?_,
    fun σ _ other hnode => pollRadio_of_no_node hnode⟩
  · rw [received?, if_neg hnode, htuned.receive_of_packet hnode hqueue]
    exact ⟨rfl, htuned.pollRadio_of_packet hnode hqueue⟩
  · have hsame : machine.pollRadio = machine := by
      rcases hclosed with hnode | hempty
      · exact pollRadio_of_no_node hnode
      · exact pollRadio_of_empty hempty
    -- what a poll hands out is missing from the queue, and nothing is
    have hpolled := htuned.poll.2
    rw [hsame, List.append_left_eq_self] at hpolled
    exact ⟨Option.toList_eq_nil_iff.mp hpolled, hsame⟩

/-- A poll before the set-up takes nothing. Behind it the machine is a node with two packets waiting, and
the next poll takes the older one and prints its line; the driver then gets the other one. -/
theorem packets_in_order_two_packets :
    let packet (byte : UInt8) : Packet := ⟨[byte], -40, 3, 2⟩
    let start : Machine QueuedRadio := { radio := {} }
    let happenings : List Happening :=
      [.inject (packet 1), .request .pollRadio, .inject (packet 2),
        .request (.enter "5 6 868 rf-init"), .request .execute]
    let machine := (start.undergoAll .device happenings).2
    machine.nodeId = 5 ∧ machine.radio.queue = [packet 1, packet 2] ∧
      machine.received? (.request .pollRadio) = some (packet 1) ∧
      machine.pollRadio
        = { machine with
            radio := { machine.radio with queue := [packet 2] }
            printed := machine.printed ++ ((packet 1).text ++ "\n")
            journal := .packetReceived 1 :: machine.journal } ∧
      machine.pollRadio.printed = "RF 01 (-40+3:2)\n" ∧
      (start.undergoAll .device (happenings ++ [.request .pollRadio, .receive])).1
        = [packet 1, packet 2] := by
  intro packet start happenings machine
  have hnode : machine.nodeId = 5 := by decide +kernel
  have hqueue : machine.radio.queue = [packet 1, packet 2] := by decide +kernel
  have hinside : machine.nodeId ≠ 0 := by rw [hnode]; decide
  obtain ⟨hreceived, hpolled⟩ := (packets_in_order .device .standard start.memory start.rom
    happenings).2.1 (packet 1) [packet 2] hinside hqueue
  refine ⟨hnode, hqueue, hreceived, hpolled, ?_, ?_⟩
  · decide +kernel
  · decide +kernel

end Machine

end SerialConsole
