import SerialConsole.Machine.Command

/-!
# Execution

How a machine works through its pending tokens. The caller asks again and again for the next event:
printed text comes out before another token is run, a fault ends the line, and a machine with
nothing left to do has stopped. The loop also tells which tokens were run on the way to the event,
each with the machine that it was run on (`Ran`).
-/

namespace SerialConsole

/-- What happens next on a machine. -/
inductive Event where
  | stopped
  | printed (text : String)
  | failed (fault : Fault)
deriving DecidableEq, Repr

/-- A token together with the machine that it was run on. -/
structure Ran (ρ : Type) where
  token : Token
  machine : Machine ρ

namespace Machine

variable {ρ : Type} [Radio ρ]

/-- A line that queued more input than the machine takes. -/
def runaway : Fault := Fault.withDetail .internalError "RUNAWAY INPUT"

/-- Drops the rest of a line after a fault, and notes how much was lost. -/
def abandonLine (machine : Machine ρ) (fault : Fault) : Machine ρ :=
  { machine.note (.lineAbandoned fault machine.pending.length) with pending := [] }

/-- The next event, found by running at most `fuel` tokens with room for `room` procedures that wait
for one another, and the tokens that were run for it. -/
def traceWithin (room : Nat) : Nat → Machine ρ → List (Ran ρ) × Event × Machine ρ
  | 0, machine => ([], .failed runaway, machine.abandonLine runaway)
  | fuel + 1, machine =>
    if machine.printed = "" then
      match machine.pending with
      | [] => ([], .stopped, machine)
      | token :: rest =>
        match MachineM.runWithin room token { machine with pending := rest } with
        | .ok _ next =>
          (traceWithin room fuel next).map (⟨token, { machine with pending := rest }⟩ :: ·) id
        | .error fault after =>
          ([⟨token, { machine with pending := rest }⟩], .failed fault, after.abandonLine fault)
    else ([], .printed machine.printed, { machine with printed := "" })

/-- The next event under limits, and the tokens that were run for it. -/
def executeUnder (limits : Limits) (machine : Machine ρ) : List (Ran ρ) × Event × Machine ρ :=
  traceWithin limits.nesting (limits.input + machine.pending.length + 1) machine

/-- The next event, under the limits of the device. -/
def execute (machine : Machine ρ) : Event × Machine ρ := (machine.executeUnder .device).2

/-- The events up to and with the stop, at most `fuel` of them. -/
def drainWithin : Nat → Machine ρ → List Event × Machine ρ
  | 0, machine => ([], machine)
  | fuel + 1, machine =>
    match machine.execute with
    | (.stopped, machine) => ([.stopped], machine)
    | (event, machine) =>
      let (events, machine) := drainWithin fuel machine
      (event :: events, machine)

/-- The events up to and with the stop. -/
def drain (machine : Machine ρ) : List Event × Machine ρ :=
  drainWithin (Limits.device.input + machine.pending.length + 2) machine

/-- Enters a line and works through it. -/
def runLine (machine : Machine ρ) (line : String) : List Event × Machine ρ :=
  (machine.enter line).drain

end Machine

end SerialConsole
