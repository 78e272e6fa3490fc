import SerialConsole.Text.Numeral

/-!
# The packet radio

Packets and the lines that show them, what a radio can be asked to do, and a radio that hands out
packets from a queue.
-/

namespace SerialConsole

/-! ## Packets -/

/-- A received packet: its payload, signal strength, frequency correction and amplifier gain. -/
structure Packet where
  data : List UInt8
  rssi : Int16
  afc : Int16
  lna : UInt8
deriving DecidableEq, Repr

/-- The line that shows a packet. The frequency correction always has a sign, which also divides it
from the signal strength. -/
def Packet.text (packet : Packet) : String :=
  "RF " ++ String.ofList (packet.data.flatMap Text.hexByte)
    ++ " (" ++ Text.signed packet.rssi.toInt
    ++ (if packet.afc < 0 then "" else "+") ++ Text.signed packet.afc.toInt
    ++ ":" ++ Text.decimal packet.lna.toNat ++ ")"

/-! ## Radios -/

/-- How a radio is set up. -/
structure RadioConfig where
  node : UInt8
  group : UInt8
  frequency : UInt16
deriving DecidableEq, Repr

/-- What the console asks of a radio. Receiving never waits: it gives nothing if nothing is there. -/
class Radio (ρ : Type) where
  configure : RadioConfig → ρ → ρ
  setPower : UInt8 → ρ → ρ
  receive : ρ → Option Packet × ρ

/-- The highest transmit power. -/
def maxPower : Nat := 31

/-- A radio that remembers how it was set up and hands out queued packets, oldest first. -/
structure QueuedRadio where
  config? : Option RadioConfig := none
  power? : Option UInt8 := none
  queue : List Packet := []
deriving DecidableEq, Repr

namespace QueuedRadio

/-- Queues a packet behind those that wait. -/
def inject (radio : QueuedRadio) (packet : Packet) : QueuedRadio :=
  { radio with queue := radio.queue ++ [packet] }

/-- Takes the oldest packet; a radio that was never set up receives nothing. -/
def receive (radio : QueuedRadio) : Option Packet × QueuedRadio :=
  match radio.config?, radio.queue with
  | some _, packet :: rest => (some packet, { radio with queue := rest })
  | _, _ => (none, radio)

instance : Radio QueuedRadio where
  configure config radio := { radio with config? := some config }
  setPower level radio := { radio with power? := some level }
  receive := receive

theorem receive_of_empty {radio : QueuedRadio} (h : radio.queue = []) :
    radio.receive = (none, radio) := by
  unfold receive
  rw [h]
  cases radio.config? <;> rfl

/-- A packet that is handed out was the first of the queue. -/
theorem receive_append_queue (radio : QueuedRadio) :
    radio.receive.1.toList ++ radio.receive.2.queue = radio.queue := by
  unfold receive
  split
  case h_1 hqueue => simp [hqueue]
  case h_2 => rfl

/-- A receipt leaves everything but the queue. -/
theorem receive_changes (radio : QueuedRadio) : ∃ queue, radio.receive.2 = { radio with queue } := by
  unfold receive
  split <;> exact ⟨_, rfl⟩

theorem receive_of_packet {radio : QueuedRadio} {packet : Packet} {rest : List Packet}
    (hconfig : radio.config? ≠ none) (h : radio.queue = packet :: rest) :
    radio.receive = (some packet, { radio with queue := rest }) := by
  obtain ⟨config, hsome⟩ := Option.ne_none_iff_exists'.mp hconfig
  unfold receive
  rw [h, hsome]

end QueuedRadio

end SerialConsole
