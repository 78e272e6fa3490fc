import SerialConsole.Proofs.Machine.Requests

/-!
# Output

Text is handed to a machine by whoever prints and leaves it with an event. In between it waits, while
faults drop the rest of a line and breaks empty the stack. This file lists what is handed over and
compares it with what comes out.

* `said` is the list of texts that are printed, in order: by one of the console's own commands, by a
  procedure, which may go on printing after the commands that it calls, by a token, by a request. It
  follows the steps of each, and looks at no printed text.
* `printed_run` and its relatives say that each adds just these texts to what is printed, whether it
  ends well or fails.
* `output_conserved` puts this together for any sequence of requests to a new machine, with any
  dictionary.
-/

namespace SerialConsole

open Failing

variable {ρ : Type}

/-! ## The console's own commands -/

/-- The texts that one of the console's own commands prints. -/
def Builtin.said (machine : Machine ρ) : Builtin → List String
  | newline => ["\n"]
  | words => [machine.dictionary.listing]
  | dump =>
    let listing := do
      let count ← machine.stack.peek 0
      let start ← machine.stack.peek 1
      Listing.listing machine.memory start.toUInt32 count
    listing.toOption.toList
  | _ => []

/-- The text of what was decided on; a fault has none. -/
def textOf : Except Fault Effect → String
  | .ok effect => effect.text
  | .error _ => ""

theorem textOf_of_decides {decision : Except Fault Effect}
    (h : Decides (fun effect => effect.text = "") decision) : textOf decision = "" := by
  cases decision with
  | ok effect => exact h
  | error fault => rfl

theorem Builtin.join_said (command : Builtin) (machine : Machine ρ) :
    String.join (command.said machine) = textOf (command.effect machine) := by
  have hyields := command.decides_yields machine
  cases command with
  | newline => simp [said, Builtin.effect, textOf]
  | words => simp [said, Builtin.effect, textOf]
  | dump =>
    simp only [said, Builtin.effect]
    cases machine.stack.peek 0 with
    | error fault => rfl
    | ok count =>
      cases machine.stack.peek 1 with
      | error fault => rfl
      | ok start =>
        show String.join (Listing.listing machine.memory start.toUInt32 count).toOption.toList
          = textOf (Listing.listing machine.memory start.toUInt32 count >>= _)
        cases Listing.listing machine.memory start.toUInt32 count with
        | error fault => rfl
        | ok text => simp [textOf, Except.toOption, bind, Except.bind]
  | romStore =>
    refine (textOf_of_decides (hyields.imp ?_)).symm
    rintro effect ⟨_, _, _, -, rfl⟩
    rfl
  | _ =>
    refine (textOf_of_decides (hyields.imp ?_)).symm
    rintro effect ⟨_, rfl⟩
    rfl

theorem MachineM.Does.printed [Radio ρ] {action : MachineM ρ Unit} {machine : Machine ρ}
    {decision : Except Fault Effect} (h : Does action machine decision) :
    (stateAfter (action machine)).printed = machine.printed ++ textOf decision := by
  cases decision with
  | ok effect =>
    obtain ⟨journal, hrun⟩ := h
    rw [hrun]
    rfl
  | error fault =>
    obtain ⟨journal, hrun⟩ := h
    rw [hrun]
    exact String.append_empty.symm

theorem Builtin.printed_run [Radio ρ] (command : Builtin) (machine : Machine ρ) :
    (stateAfter (command.run machine)).printed
      = machine.printed ++ String.join (command.said machine) := by
  rw [(command.run_does machine).printed, command.join_said]

/-! ## Procedures -/

/-- The texts that a procedure prints, given how to run a command by name and what that prints. -/
def Procedure.said (call : String → MachineM ρ Unit) (saidBy : String → Machine ρ → List String) :
    Procedure → Machine ρ → List String
  | done, _ => []
  | fail _, _ => []
  | print text next, machine => text :: next.said call saidBy (machine.print text)
  | push value next, machine =>
    let result := MachineM.push value machine
    (next (outcome result)).said call saidBy (stateAfter result)
  | pop next, machine =>
    let result := MachineM.pop machine
    (next (outcome result)).said call saidBy (stateAfter result)
  | inspect next, machine => (next machine.stack.toList).said call saidBy machine
  | Procedure.call name next, machine =>
    let result := call name machine
    saidBy name machine ++ (next (outcome result)).said call saidBy (stateAfter result)
  | enter line next, machine => next.said call saidBy (machine.enter line)
  | clear next, machine => next.said call saidBy machine.clear

theorem MachineM.attempt_eq {α : Type} (action : MachineM ρ α) (machine : Machine ρ) :
    attempt action machine = .ok (outcome (action machine)) (stateAfter (action machine)) := by
  unfold attempt
  cases action machine <;> rfl

theorem Machine.printed_onStack {α : Type} (operation : DataStack DataStack.deviceCapacity →
    Except Fault (α × DataStack DataStack.deviceCapacity)) (machine : Machine ρ) :
    (stateAfter (MachineM.onStack operation machine)).printed = machine.printed := by
  obtain ⟨stack, hafter⟩ := stateAfter_onStack operation machine
  rw [hafter]

/-- A procedure adds just what it says to what is printed, if the commands that it calls do. -/
theorem Procedure.printed_run {call : String → MachineM ρ Unit}
    {saidBy : String → Machine ρ → List String}
    (hcall : ∀ name machine, (stateAfter (call name machine)).printed
      = machine.printed ++ String.join (saidBy name machine))
    (procedure : Procedure) (machine : Machine ρ) :
    (stateAfter (procedure.run call machine)).printed
      = machine.printed ++ String.join (procedure.said call saidBy machine) := by
  induction procedure generalizing machine with
  | done => exact String.append_empty.symm
  | fail fault => exact String.append_empty.symm
  | print text next ih =>
    rw [Procedure.run, bind_of_ok (MachineM.print_eq text machine), ih, said, String.join_cons,
      Machine.print, String.append_assoc]
  | push value next ih =>
    rw [Procedure.run, bind_of_ok (MachineM.attempt_eq _ machine), ih, said, MachineM.push,
      Machine.printed_onStack]
  | pop next ih =>
    rw [Procedure.run, bind_of_ok (MachineM.attempt_eq _ machine), ih, said, MachineM.pop,
      Machine.printed_onStack]
  | inspect next ih =>
    rw [Procedure.run, bind_of_ok (MachineM.get_eq machine), ih, said]
  | call name next ih =>
    rw [Procedure.run, bind_of_ok (MachineM.attempt_eq _ machine), ih, said, String.join_append,
      hcall, String.append_assoc]
  | enter line next ih =>
    rw [Procedure.run, bind_of_ok (MachineM.modify_eq _ machine), ih, said]
    rfl
  | clear next ih =>
    rw [Procedure.run, bind_of_ok (MachineM.modify_eq _ machine), ih, said]
    rfl

/-! ## Commands by name -/

theorem MachineM.stateAfter_inWord {α : Type} (name : String) (action : MachineM ρ α)
    (machine : Machine ρ) :
    stateAfter (inWord name action machine) = stateAfter (action machine) := by
  unfold inWord EStateM.adaptExcept
  cases action machine <;> rfl

theorem MachineM.require_of_le {n : Nat} {machine : Machine ρ} (h : n ≤ machine.stack.depth) :
    require n machine = .ok () machine := by
  rw [require_eq, DataStack.require, if_pos h]
  rfl

theorem MachineM.require_of_not_le {n : Nat} {machine : Machine ρ}
    (h : ¬n ≤ machine.stack.depth) :
    require n machine = .error (Fault.ofKind .stackUnderflow) machine := by
  rw [require_eq, DataStack.require, if_neg h]
  rfl

section Commands

variable [Radio ρ]

/-- What an action does, with room for `room` procedures that wait for one another. -/
def Action.runWithin (room : Nat) : Action → MachineM ρ Unit
  | .builtin command => command.run
  | .procedure steps =>
    match room with
    | 0 => throw (Fault.withDetail .internalError "NESTED TOO DEEP")
    | room + 1 => steps.run (callWithin room)

/-- The texts that are printed when a command is run by name, given what its action prints. -/
def saidByName (said : Action → Machine ρ → List String) (name : String) (machine : Machine ρ) :
    List String :=
  match machine.dictionary.find? name with
  | none => []
  | some entry =>
    if entry.arity ≤ machine.stack.depth then
      said entry.action (machine.note (.invoked name machine.stack.text))
    else []

/-- The texts that an action prints, with room for `room` procedures that wait for one another. -/
def Action.said : Nat → Action → Machine ρ → List String
  | _, .builtin command, machine => command.said machine
  | 0, .procedure _, _ => []
  | room + 1, .procedure steps, machine =>
    steps.said (callWithin room) (saidByName (Action.said room)) machine

theorem callWithin_of_unknown {name : String} {machine : Machine ρ}
    (h : machine.dictionary.find? name = none) (room : Nat) :
    callWithin room name machine
      = .error ((Fault.ofKind .unknownCommand).inWord name) machine := by
  rw [callWithin, bind_of_ok (MachineM.get_eq machine)]
  simp only [h]
  rfl

theorem callWithin_of_known {name : String} {machine : Machine ρ} {entry : Entry}
    (h : machine.dictionary.find? name = some entry) (room : Nat) :
    callWithin room name machine
      = MachineM.inWord name (do MachineM.require entry.arity; entry.action.runWithin room)
          (machine.note (.invoked name machine.stack.text)) := by
  cases room with
  | zero =>
    rw [callWithin, bind_of_ok (MachineM.get_eq machine)]
    simp only [h]
    rfl
  | succ room =>
    rw [callWithin, bind_of_ok (MachineM.get_eq machine)]
    simp only [h]
    rfl

/-- A command that is run by name adds what its action says. -/
theorem printed_callWithin {room : Nat} {said : Action → Machine ρ → List String}
    (hsaid : ∀ (action : Action) (machine : Machine ρ),
      (stateAfter (action.runWithin room machine)).printed
        = machine.printed ++ String.join (said action machine))
    (name : String) (machine : Machine ρ) :
    (stateAfter (callWithin room name machine)).printed
      = machine.printed ++ String.join (saidByName said name machine) := by
  unfold saidByName
  cases hfind : machine.dictionary.find? name with
  | none =>
    rw [callWithin_of_unknown hfind]
    exact String.append_empty.symm
  | some entry =>
    rw [callWithin_of_known hfind, MachineM.stateAfter_inWord]
    let started := machine.note (.invoked name machine.stack.text)
    by_cases hthere : entry.arity ≤ machine.stack.depth
    · have hstarted : entry.arity ≤ started.stack.depth := hthere
      rw [bind_of_ok (MachineM.require_of_le hstarted), hsaid]
      simp only [if_pos hthere]
      rfl
    · have hstarted : ¬entry.arity ≤ started.stack.depth := hthere
      rw [bind_of_error (MachineM.require_of_not_le hstarted)]
      simp only [if_neg hthere]
      exact String.append_empty.symm

/-- An action adds just what it says, however deep it nests. -/
theorem Action.printed_runWithin (room : Nat) (action : Action) (machine : Machine ρ) :
    (stateAfter (action.runWithin room machine)).printed
      = machine.printed ++ String.join (action.said room machine) := by
  induction room generalizing action machine with
  | zero =>
    cases action with
    | builtin command => exact command.printed_run machine
    | procedure steps => exact String.append_empty.symm
  | succ room ih =>
    cases action with
    | builtin command => exact command.printed_run machine
    | procedure steps => exact steps.printed_run (printed_callWithin ih) machine

end Commands

/-! ## Events -/

section Events

variable [Radio ρ]

/-- The texts that a token prints, with room for `room` procedures that wait for one another. -/
def Ran.said (room : Nat) (ran : Ran ρ) : List String :=
  match ran.token with
  | .literal _ => []
  | .word name => saidByName (Action.said room) name ran.machine

theorem MachineM.printed_runWithin (room : Nat) (token : Token) (machine : Machine ρ) :
    (stateAfter (MachineM.runWithin room token machine)).printed
      = machine.printed ++ String.join (Ran.said room ⟨token, machine⟩) := by
  cases token with
  | literal value =>
    rw [runWithin, push, Machine.printed_onStack]
    exact String.append_empty.symm
  | word name => exact printed_callWithin (Action.printed_runWithin room) name machine

/-- The text that an event shows, if it is one that shows a text. -/
def Event.text? : Event → Option String
  | .printed text => some text
  | _ => none

/-- What was printed and what tokens say comes out with the event or is still printed behind it. An
event that shows a text shows one that is not empty. -/
theorem Machine.traceWithin_conserves (room fuel : Nat) (machine : Machine ρ) :
    machine.printed ++ String.join ((machine.traceWithin room fuel).1.flatMap (Ran.said room))
        = String.join (machine.traceWithin room fuel).2.1.text?.toList
          ++ (machine.traceWithin room fuel).2.2.printed ∧
      ∀ text ∈ (machine.traceWithin room fuel).2.1.text?, text ≠ "" := by
  fun_induction Machine.traceWithin room fuel machine with
  | case1 machine => exact ⟨by simp [Event.text?, abandonLine, note], by simp [Event.text?]⟩
  | case2 fuel machine hflushed hidle => exact ⟨by simp [Event.text?], by simp [Event.text?]⟩
  | case3 fuel machine hflushed token rest hpending _ next hrun ih =>
    have hnext := MachineM.printed_runWithin room token { machine with pending := rest }
    rw [hrun, stateAfter] at hnext
    rw [Prod.map_fst, List.flatMap_cons, String.join_append, ← String.append_assoc, ← hnext]
    exact ih
  | case4 fuel machine hflushed token rest hpending fault after hrun =>
    have hafter := MachineM.printed_runWithin room token { machine with pending := rest }
    rw [hrun, stateAfter] at hafter
    refine ⟨?_, by simp [Event.text?]⟩
    rw [List.flatMap_cons, String.join_append, ← String.append_assoc, ← hafter]
    simp [Event.text?, abandonLine, note]
  | case5 fuel machine hprinted =>
    refine ⟨by simp [Event.text?], fun text htext => ?_⟩
    obtain rfl : machine.printed = text := Option.some.inj htext
    exact hprinted

/-! ## Requests -/

namespace Machine

/-- The texts that are printed by one request. -/
def Request.said (limits : Limits) (machine : Machine ρ) : Request → List String
  | .enter _ | .push _ | .pop | .clear => []
  | .execute => (machine.executeUnder limits).1.flatMap (Ran.said limits.nesting)
  | .run token => Ran.said limits.nesting ⟨token, machine⟩
  | .call name => Ran.said limits.nesting ⟨.word name, machine⟩
  | .print text => [text]
  | .echo byte => [Text.decimal byte.toNat ++ "\n"]
  | .pollRadio =>
    if machine.nodeId = 0 then []
    else (Radio.receive machine.radio).1.toList.map (·.text ++ "\n")

/-- The texts that are printed by requests one after the other. -/
def said (limits : Limits) (machine : Machine ρ) : List Request → List String
  | [] => []
  | request :: rest =>
    request.said limits machine ++ (machine.perform limits request).machine.said limits rest

/-- The text that an answer shows, if it is an event that shows one. -/
def Answer.text? : Answer → Option String
  | .event shown => shown.text?
  | _ => none

/-- The texts that were shown, in order. -/
def Account.shown (account : Account ρ) : List String := account.answers.filterMap Answer.text?

/-- A request that shows nothing adds what it says. -/
theorem conserves_of_silent {printed next : String} {texts : List String} {answers : List Answer}
    (hprinted : next = printed ++ String.join texts) (hsilent : answers.filterMap Answer.text? = []) :
    printed ++ String.join texts = String.join (answers.filterMap Answer.text?) ++ next ∧
      ∀ text ∈ answers.filterMap Answer.text?, text ≠ "" := by
  rw [hsilent, hprinted]
  exact ⟨String.empty_append.symm, fun _ h => nomatch h⟩

theorem printed_pollRadio (limits : Limits) (machine : Machine ρ) :
    machine.pollRadio.printed
      = machine.printed ++ String.join (Request.said limits machine .pollRadio) := by
  rw [pollRadio, Request.said]
  split
  · exact String.append_empty.symm
  · split
    case h_1 radio hreceive =>
      rw [hreceive]
      exact String.append_empty.symm
    case h_2 packet radio hreceive => simp [hreceive, note, print]

/-- One request adds what it says and takes away what it shows, which is not empty. -/
theorem perform_conserves (limits : Limits) (machine : Machine ρ) (request : Request) :
    machine.printed ++ String.join (request.said limits machine)
        = String.join (machine.perform limits request).shown
          ++ (machine.perform limits request).machine.printed ∧
      ∀ text ∈ (machine.perform limits request).shown, text ≠ "" := by
  cases request with
  | execute =>
    have hshown : (machine.perform limits .execute).shown
        = (machine.executeUnder limits).2.1.text?.toList := by
      show [Answer.event (machine.executeUnder limits).2.1].filterMap Answer.text? = _
      cases (machine.executeUnder limits).2.1 <;> rfl
    obtain ⟨hconserved, hfull⟩ := traceWithin_conserves limits.nesting
      (limits.input + machine.pending.length + 1) machine
    rw [hshown]
    exact ⟨hconserved, fun text htext => hfull text (Option.mem_toList.mp htext)⟩
  | run token => exact conserves_of_silent (MachineM.printed_runWithin _ token machine) rfl
  | call name => exact conserves_of_silent (MachineM.printed_runWithin _ (.word name) machine) rfl
  | push value =>
    refine conserves_of_silent ?_ rfl
    rw [perform, MachineM.push, printed_onStack]
    exact String.append_empty.symm
  | pop =>
    refine conserves_of_silent ?_ rfl
    rw [perform, MachineM.pop, printed_onStack]
    exact String.append_empty.symm
  | pollRadio => exact conserves_of_silent (machine.printed_pollRadio limits) rfl
  | enter line => exact conserves_of_silent String.append_empty.symm rfl
  | clear => exact conserves_of_silent String.append_empty.symm rfl
  | print text => exact conserves_of_silent (by simp [perform, Request.said, print]) rfl
  | echo byte => exact conserves_of_silent (by simp [perform, Request.said, echo, print]) rfl

/-- Requests add what they say and take away what they show, whatever was printed before them. -/
theorem attend_conserves (limits : Limits) (machine : Machine ρ) (requests : List Request) :
    machine.printed ++ String.join (machine.said limits requests)
        = String.join (machine.attend limits requests).shown
          ++ (machine.attend limits requests).machine.printed ∧
      ∀ text ∈ (machine.attend limits requests).shown, text ≠ "" := by
  induction requests generalizing machine with
  | nil => exact conserves_of_silent String.append_empty.symm rfl
  | cons request rest ih =>
    obtain ⟨hfirst, hfull⟩ := machine.perform_conserves limits request
    obtain ⟨hlater, hfull'⟩ := ih (machine.perform limits request).machine
    have hshown : (machine.attend limits (request :: rest)).shown
        = (machine.perform limits request).shown
          ++ ((machine.perform limits request).machine.attend limits rest).shown :=
      List.filterMap_append
    constructor
    · rw [said, String.join_append, ← String.append_assoc, hfirst, String.append_assoc, hlater,
        hshown, String.join_append, String.append_assoc]
      rfl
    · intro text htext
      rw [hshown] at htext
      rcases List.mem_append.mp htext with hhere | hthere
      · exact hfull text hhere
      · exact hfull' text hthere

/-- No output is lost, doubled or put out of order. A new machine may have any commands, its own or
procedures that print, call, queue input, drop it, and fail wherever they like. Whatever is asked of
it and in which order, and wherever its limits are, the texts that were shown and the text that still
waits are together all that was printed, in order; and no text that was shown is empty. -/
theorem output_conserved (limits : Limits) (dictionary : Dictionary) (memory : AddressSpace)
    (radio : ρ) (rom : RomStorage) (requests : List Request) :
    let machine : Machine ρ := { dictionary, memory, radio, rom }
    let account := machine.attend limits requests
    String.join account.shown ++ account.machine.printed
        = String.join (machine.said limits requests) ∧
      ∀ text ∈ account.shown, text ≠ "" := by
  intro machine account
  obtain ⟨hconserved, hfull⟩ := machine.attend_conserves limits requests
  refine ⟨?_, hfull⟩
  rw [← hconserved]
  exact String.empty_append

-- What a command printed before it failed is not dropped with the rest of its line. It waits behind
-- the fault and comes out together with what is printed after it.
example :
    let steps : Procedure := .print "failing" (.fail (.withDetail .internalError "TEST"))
    let dictionary : Dictionary := ⟨[⟨"break", 0, .procedure steps⟩], by decide⟩
    let machine : Machine QueuedRadio := { dictionary, radio := {} }
    let requests : List Request := [.enter "break break", .execute, .print "!", .execute]
    (machine.attend .device requests).shown = ["failing!"] ∧
      machine.said .device requests = ["failing", "!"] := by
  decide +kernel

end Machine

end Events

end SerialConsole
