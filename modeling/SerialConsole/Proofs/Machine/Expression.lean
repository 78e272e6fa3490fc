import SerialConsole.Proofs.Arithmetic
import SerialConsole.Proofs.Machine.EventLoop
import SerialConsole.Proofs.Token

/-!
# Expressions

An expression over the console's operators, what it is worth, and the line that computes it: the
words of the left operand, the words of the right operand, then the operator. `Expression.evaluate`
works on integers and knows nothing of stacks. An idle machine with enough room agrees with it,
value or failure, and changes nothing but its stack on the way.

The machine's side is put together from single tokens with `Machine.Yields`, which says what tokens
come to that work on the stack alone. `yields_expression` is an induction on the expression, over
every machine: the right operand is worked out on the machine that the left one leaves.
-/

namespace SerialConsole

/-! ## Names of operators -/

/-- The command of an operator. -/
def UnaryOp.name : UnaryOp → String
  | negate => "negate"
  | invert => "invert"
  | ramPlus => "ram+"

/-- The command of an operator. -/
def BinaryOp.name : BinaryOp → String
  | add => "+"
  | subtract => "-"
  | multiply => "*"
  | divide => "/"
  | modulo => "mod"
  | bitAnd => "and"
  | bitOr => "or"
  | bitXor => "xor"
  | shiftLeft => "<<"
  | shiftRight => ">>"

theorem UnaryOp.isWord_name (op : UnaryOp) : Text.IsWord op.name := by
  cases op <;> decide

theorem BinaryOp.isWord_name (op : BinaryOp) : Text.IsWord op.name := by
  cases op <;> decide

theorem UnaryOp.ofText_name (op : UnaryOp) : Token.ofText op.name = .word op.name := by
  cases op <;> rfl

theorem BinaryOp.ofText_name (op : BinaryOp) : Token.ofText op.name = .word op.name := by
  cases op <;> rfl

theorem Dictionary.find?_unary (features : Features) (op : UnaryOp) :
    (standard features).find? op.name = some (own op.name 1 (.unary op)) := by
  cases op <;> rfl

theorem Dictionary.find?_binary (features : Features) (op : BinaryOp) :
    (standard features).find? op.name = some (own op.name 2 (.binary op)) := by
  cases op <;> rfl

/-! ## Expressions and their worth -/

/-- An expression. On the right of a binary operator stands the minuend, the dividend or the value
that is shifted. -/
inductive Expression where
  | literal (value : Cell)
  | unary (op : UnaryOp) (operand : Expression)
  | binary (op : BinaryOp) (lhs rhs : Expression)
deriving DecidableEq, Repr

namespace Expression

/-- Where an evaluation breaks off: the kind of fault, the command of the operator that cannot be
applied, and the values that wait for an operator, that operator's operands last. -/
structure Failure where
  kind : Fault.Kind
  word : String
  waiting : List Cell
deriving DecidableEq, Repr

/-- The failure with further values that wait beneath the others. -/
def Failure.above (values : List Cell) (failure : Failure) : Failure :=
  { failure with waiting := values ++ failure.waiting }

theorem Failure.above_above (failure : Failure) (inner outer : List Cell) :
    (failure.above inner).above outer = failure.above (outer ++ inner) := by
  simp only [above, List.append_assoc]

/-- What a result comes to on a stack that has values already. -/
def onTopOf (values : List Cell) : Except Failure Cell → Except Failure (List Cell)
  | .ok value => .ok (values ++ [value])
  | .error failure => .error (failure.above values)

/-- The value of an operator on the values of its operands. -/
def combine (op : BinaryOp) (left right : Cell) : Except Failure Cell :=
  match op.integer left.toInt right.toInt with
  | .ok value => .ok (Int32.ofInt value)
  | .error kind => .error { kind, word := op.name, waiting := [left, right] }

/-- Cells and integers fail together, since they agree on the kind of fault. -/
theorem combine_eq (op : BinaryOp) (left right : Cell) :
    combine op left right
      = (op.apply left right).mapError fun fault => ⟨fault.kind, op.name, [left, right]⟩ := by
  have hagree := op.apply_eq left right
  unfold combine
  generalize op.apply left right = onCells at hagree ⊢
  generalize op.integer left.toInt right.toInt = onIntegers at hagree ⊢
  cases onCells with
  | ok cell =>
    cases onIntegers with
    | ok value => cases hagree; rfl
    | error kind => cases hagree
  | error fault =>
    cases onIntegers with
    | ok value => cases hagree
    | error kind => cases hagree; rfl

/-- The value of an expression: every operator works on integers, and its result is wrapped into a
cell. The left operand comes first and waits for the right one. -/
def evaluate : Expression → Except Failure Cell
  | literal value => .ok value
  | unary op operand => do
    let value ← operand.evaluate
    .ok (Int32.ofInt (op.integer value.toInt))
  | binary op lhs rhs => do
    let left ← lhs.evaluate
    let right ← rhs.evaluate.mapError (·.above [left])
    combine op left right

/-- The number of cells that an evaluation holds at its fullest. -/
def cells : Expression → Nat
  | literal _ => 1
  | unary _ operand => operand.cells
  | binary _ lhs rhs => max lhs.cells (1 + rhs.cells)

/-! ## Lines -/

/-- The words of an expression, operators behind their operands. -/
def words : Expression → List String
  | literal value => [Text.signed value.toInt]
  | unary op operand => operand.words ++ [op.name]
  | binary op lhs rhs => lhs.words ++ rhs.words ++ [op.name]

/-- The line of an expression. -/
def line (expression : Expression) : String := " ".intercalate expression.words

/-- The tokens of an expression. -/
def tokens : Expression → List Token
  | literal value => [.literal value]
  | unary op operand => operand.tokens ++ [.word op.name]
  | binary op lhs rhs => lhs.tokens ++ (rhs.tokens ++ [.word op.name])

theorem isWord_of_mem_words (expression : Expression) :
    ∀ text ∈ expression.words, Text.IsWord text := by
  induction expression with
  | literal value => simpa [words] using Text.isWord_signed value.toInt
  | unary op operand ih =>
    intro text htext
    rcases List.mem_append.mp htext with hoperand | hname
    · exact ih text hoperand
    · exact List.mem_singleton.mp hname ▸ op.isWord_name
  | binary op lhs rhs ihl ihr =>
    intro text htext
    rcases List.mem_append.mp htext with hoperands | hname
    · rcases List.mem_append.mp hoperands with hleft | hright
      · exact ihl text hleft
      · exact ihr text hright
    · exact List.mem_singleton.mp hname ▸ op.isWord_name

theorem map_ofText_words (expression : Expression) :
    expression.words.map Token.ofText = expression.tokens := by
  induction expression with
  | literal value => simp [words, tokens, Token.ofText_signed]
  | unary op operand ih => simp [words, tokens, ih, op.ofText_name]
  | binary op lhs rhs ihl ihr => simp [words, tokens, ihl, ihr, op.ofText_name]

/-- The line of an expression is read as its tokens. -/
theorem ofLine_line (expression : Expression) :
    Token.ofLine expression.line = expression.tokens := by
  rw [line, Token.ofLine_intercalate expression.isWord_of_mem_words, map_ofText_words]

end Expression

open Expression (Failure combine onTopOf)

/-! ## Tokens that work on the stack alone -/

variable {ρ : Type} [Radio ρ]

namespace Machine

/-- What comes of tokens that print nothing and touch nothing but the stack: the values that are on
the stack in the end, or the failure, with all values that were on the stack when it happened. -/
def Yields (machine : Machine ρ) (tokens : List Token) : Except Failure (List Cell) → Prop
  | .ok values => ∃ texts stack journal,
      machine.runTokens tokens = ⟨texts, none, { machine with stack, journal }⟩ ∧
        (∀ text ∈ texts, text = "") ∧ stack.toList = values
  | .error failure => ∃ texts fault stack journal,
      machine.runTokens tokens = ⟨texts, some fault, { machine with stack, journal }⟩ ∧
        (∀ text ∈ texts, text = "") ∧ stack.toList = failure.waiting ∧
        fault.kind = failure.kind ∧ fault.word = some failure.word

variable {machine : Machine ρ} {front back : List Token}

/-- Tokens behind a failure are not reached. -/
theorem Yields.append_of_error {failure : Failure} (h : machine.Yields front (.error failure)) :
    machine.Yields (front ++ back) (.error failure) := by
  obtain ⟨texts, fault, stack, journal, hrun, hrest⟩ := h
  refine ⟨texts, fault, stack, journal, ?_, hrest⟩
  rw [runTokens_append, hrun]
  rfl

/-- Tokens behind others start from the values that those left. -/
theorem Yields.append_of_ok {values : List Cell} {result : Except Failure (List Cell)}
    (hfront : machine.Yields front (.ok values))
    (hback : ∀ stack journal, stack.toList = values →
      { machine with stack, journal }.Yields back result) :
    machine.Yields (front ++ back) result := by
  obtain ⟨first, stack, journal, hrun, hsilent, hvalues⟩ := hfront
  have hrest := hback stack journal hvalues
  cases result with
  | ok _ =>
    obtain ⟨second, stack', journal', hrun', hsilent', hend⟩ := hrest
    refine ⟨first ++ second, stack', journal', ?_, ?_, hend⟩
    · rw [runTokens_append, hrun, Outcome.andThen, hrun']
    · simpa [or_imp, forall_and] using ⟨hsilent, hsilent'⟩
  | error failure =>
    obtain ⟨second, fault, stack', journal', hrun', hsilent', hend⟩ := hrest
    refine ⟨first ++ second, fault, stack', journal', ?_, ?_, hend⟩
    · rw [runTokens_append, hrun, Outcome.andThen, hrun']
    · simpa [or_imp, forall_and] using ⟨hsilent, hsilent'⟩

section Single

variable {features : Dictionary.Features} {token : Token}

/-- A token that was decided to put one value in the place of the topmost ones. There is room for it
if at least one of them is taken off. -/
theorem yields_of_effect {below gone : List Cell} {value : Cell}
    (hstandard : machine.dictionary = .standard features)
    (hvalues : machine.stack.toList = below ++ gone)
    (hroom : gone ≠ [] ∨ machine.stack.depth < DataStack.deviceCapacity)
    (h : token.effect machine = .ok { taken := gone.length, left? := some value }) :
    machine.Yields [token] (.ok (below ++ [value])) := by
  have hnative : machine.dictionary.Native := hstandard ▸ Dictionary.native_standard features
  have hdoes := MachineM.run_does hnative token
  rw [h] at hdoes
  obtain ⟨journal, hrun⟩ := hdoes
  refine ⟨[""], machine.stack.replace gone.length (some value), journal, ?_, by simp,
    DataStack.toList_replace_of_append hvalues hroom value⟩
  rw [runTokens_cons_of_ok hrun, printedSince_eq rfl]
  simp [runTokens, Effect.on]

/-- A token that was decided to fail. -/
theorem yields_of_effect_error {fault : Fault} {failure : Failure}
    (hstandard : machine.dictionary = .standard features)
    (h : token.effect machine = .error fault) (hkind : fault.kind = failure.kind)
    (hword : fault.word = some failure.word) (hwaiting : machine.stack.toList = failure.waiting) :
    machine.Yields [token] (.error failure) := by
  have hnative : machine.dictionary.Native := hstandard ▸ Dictionary.native_standard features
  have hdoes := MachineM.run_does hnative token
  rw [h] at hdoes
  obtain ⟨journal, hrun⟩ := hdoes
  exact ⟨[], fault, machine.stack, machine.journal, runTokens_cons_of_error hrun [], by simp,
    hwaiting, hkind, hword⟩

end Single

end Machine

/-! ## Operators as tokens -/

namespace Token

variable {features : Dictionary.Features} {machine : Machine ρ} {below : List Cell}

omit [Radio ρ]

theorem effect_unary (hstandard : machine.dictionary = .standard features) {value : Cell}
    (hvalues : machine.stack.toList = below ++ [value]) (op : UnaryOp) :
    (word op.name).effect machine = .ok { taken := 1, left? := some (op.apply value) } := by
  have hdepth : 1 ≤ machine.stack.depth := by
    rw [← DataStack.length_toList, hvalues, List.length_append]
    exact Nat.le_add_left _ _
  have hrequire : machine.stack.require 1 = .ok () := if_pos hdepth
  have hpeek : machine.stack.peek 0 = .ok value := by
    rw [DataStack.peek_eq, DataStack.fromTop, hvalues, List.reverse_append]
    rfl
  simp only [effect, hstandard, Dictionary.find?_unary, Entry.effect, Dictionary.own, hrequire,
    Builtin.effect, hpeek]
  rfl

theorem effect_binary (hstandard : machine.dictionary = .standard features) {left right : Cell}
    (hvalues : machine.stack.toList = below ++ [left, right]) (op : BinaryOp) :
    (word op.name).effect machine
      = match op.apply left right with
        | .ok value => .ok { taken := 2, left? := some value }
        | .error fault => .error (fault.inWord op.name) := by
  have hdepth : 2 ≤ machine.stack.depth := by
    rw [← DataStack.length_toList, hvalues, List.length_append]
    exact Nat.le_add_left _ _
  have hrequire : machine.stack.require 2 = .ok () := if_pos hdepth
  have hfromTop : machine.stack.fromTop = right :: left :: below.reverse := by
    rw [DataStack.fromTop, hvalues, List.reverse_append]
    rfl
  have htop : machine.stack.peek 0 = .ok right := by
    rw [DataStack.peek_eq, hfromTop]
    rfl
  have hbeneath : machine.stack.peek 1 = .ok left := by
    rw [DataStack.peek_eq, hfromTop]
    rfl
  simp only [effect, hstandard, Dictionary.find?_binary, Entry.effect, Dictionary.own, hrequire,
    Builtin.effect, htop, hbeneath, bind, Except.bind]
  cases op.apply left right <;> rfl

end Token

namespace Machine

variable {features : Dictionary.Features} {machine : Machine ρ} {below : List Cell}

theorem yields_literal (hstandard : machine.dictionary = .standard features)
    (hroom : machine.stack.depth < DataStack.deviceCapacity) (value : Cell) :
    machine.Yields [.literal value] (.ok (machine.stack.toList ++ [value])) := by
  have hnone : machine.stack.toList = machine.stack.toList ++ [] := (List.append_nil _).symm
  exact yields_of_effect hstandard hnone (.inr hroom) (if_pos hroom)

theorem yields_unary (hstandard : machine.dictionary = .standard features) {value : Cell}
    (hvalues : machine.stack.toList = below ++ [value]) (op : UnaryOp) :
    machine.Yields [.word op.name] (.ok (below ++ [Int32.ofInt (op.integer value.toInt)])) := by
  rw [← op.apply_eq]
  exact yields_of_effect hstandard hvalues (.inl (by simp))
    (Token.effect_unary hstandard hvalues op)

theorem yields_binary (hstandard : machine.dictionary = .standard features) {left right : Cell}
    (hvalues : machine.stack.toList = below ++ [left, right]) (op : BinaryOp) :
    machine.Yields [.word op.name] (onTopOf below (combine op left right)) := by
  have heffect := Token.effect_binary hstandard hvalues op
  rw [Expression.combine_eq]
  cases hcell : op.apply left right with
  | ok cell =>
    rw [hcell] at heffect
    exact yields_of_effect hstandard hvalues (.inl (by simp)) heffect
  | error fault =>
    rw [hcell] at heffect
    have hword := Fault.word_inWord_of_none fault op.name (op.word_of_apply_eq_error hcell)
    exact yields_of_effect_error hstandard heffect (Fault.kind_inWord fault op.name) hword hvalues

/-! ## Whole expressions -/

/-- An expression's tokens put its value on top of what was there, or stop where its evaluation
does, with the values that wait on top of what was there. -/
theorem yields_expression (expression : Expression) {machine : Machine ρ}
    (hstandard : machine.dictionary = .standard features)
    (hroom : machine.stack.depth + expression.cells ≤ DataStack.deviceCapacity) :
    machine.Yields expression.tokens (onTopOf machine.stack.toList expression.evaluate) := by
  induction expression generalizing machine with
  | literal value => exact yields_literal hstandard hroom value
  | unary op operand ih =>
    have hoperand := ih hstandard hroom
    rw [Expression.evaluate, Expression.tokens]
    cases heval : operand.evaluate with
    | error failure =>
      rw [heval] at hoperand
      exact hoperand.append_of_error
    | ok value =>
      rw [heval] at hoperand
      apply hoperand.append_of_ok
      intro stack journal hvalues
      have hnext : { machine with stack, journal }.dictionary = .standard features := hstandard
      exact yields_unary hnext hvalues op
  | binary op lhs rhs ihl ihr =>
    rw [Expression.cells] at hroom
    have hleft := ihl hstandard (by omega)
    rw [Expression.evaluate, Expression.tokens]
    cases hevalLeft : lhs.evaluate with
    | error failure =>
      rw [hevalLeft] at hleft
      exact hleft.append_of_error
    | ok left =>
      rw [hevalLeft] at hleft
      apply hleft.append_of_ok
      -- the left value takes one cell while the right operand is worked out
      intro stack journal hvalues
      have hdepth : stack.depth = machine.stack.depth + 1 := by
        rw [← DataStack.length_toList, hvalues, List.length_append, DataStack.length_toList]
        rfl
      have hright : Yields { machine with stack, journal } rhs.tokens _ :=
        ihr hstandard (by show stack.depth + rhs.cells ≤ _; omega)
      cases hevalRight : rhs.evaluate with
      | error failure =>
        rw [hevalRight, hvalues] at hright
        rw [onTopOf, ← Failure.above_above] at hright
        exact hright.append_of_error
      | ok right =>
        rw [hevalRight, hvalues] at hright
        apply hright.append_of_ok
        intro stack' journal' hvalues'
        have hlast : stack'.toList = machine.stack.toList ++ [left, right] := by
          rw [hvalues', List.append_assoc]
          rfl
        have hnext : { machine with stack := stack', journal := journal' }.dictionary
            = .standard features := hstandard
        exact yields_binary hnext hlast op

/-- The line of an expression leaves the expression's value on top of the values that were there,
and shows nothing but the stop. If the evaluation breaks off at an operator, the line shows one
fault, of that kind and in that operator's command, and leaves the values that were waiting. Nothing
but the stack and the journal changes. -/
theorem runLine_expression {features : Dictionary.Features} {machine : Machine ρ}
    (hstandard : machine.dictionary = .standard features) (hidle : machine.pending = [])
    (hflushed : machine.printed = "") (expression : Expression)
    (hroom : machine.stack.depth + expression.cells ≤ DataStack.deviceCapacity) :
    match expression.evaluate with
    | .ok value => ∃ stack journal,
        machine.runLine expression.line = ([.stopped], { machine with stack, journal }) ∧
          stack.toList = machine.stack.toList ++ [value]
    | .error failure => ∃ fault stack journal,
        machine.runLine expression.line
            = ([.failed fault, .stopped], { machine with stack, journal }) ∧
          fault.kind = failure.kind ∧ fault.word = some failure.word ∧
          stack.toList = machine.stack.toList ++ failure.waiting := by
  have hnative : machine.dictionary.Native := hstandard ▸ Dictionary.native_standard features
  have hyields := yields_expression expression hstandard hroom
  obtain ⟨noted, hline⟩ := runLine_eq hnative hidle hflushed expression.line
  rw [Expression.ofLine_line] at hline
  cases heval : expression.evaluate with
  | ok value =>
    rw [heval] at hyields
    obtain ⟨texts, stack, journal, hrun, hsilent, hvalues⟩ := hyields
    refine ⟨stack, noted, ?_, hvalues⟩
    rw [hline, hrun, Outcome.events_of_silent hsilent, ← hidle, ← hflushed]
    rfl
  | error failure =>
    rw [heval] at hyields
    obtain ⟨texts, fault, stack, journal, hrun, hsilent, hvalues, hkind, hword⟩ := hyields
    refine ⟨fault, stack, noted, ?_, hkind, hword, hvalues⟩
    rw [hline, hrun, Outcome.events_of_silent hsilent, ← hidle, ← hflushed]
    rfl

/-- A division inside a sum whose divisor comes out as zero. -/
theorem runLine_expression_division :
    let machine : Machine QueuedRadio := { stack := DataStack.empty.put 5, radio := {} }
    let divisor := Expression.binary .subtract (.literal 4) (.literal 4)
    let expression := Expression.binary .add (.literal 9) (.binary .divide divisor (.literal (-7)))
    expression.line = "9 4 4 - -7 / +" ∧
      expression.evaluate = .error ⟨.divisionByZero, "/", [9, 0, -7]⟩ ∧
      ∃ fault stack journal,
        machine.runLine expression.line
            = ([.failed fault, .stopped], { machine with stack, journal }) ∧
          fault.kind = .divisionByZero ∧ fault.word = some "/" ∧
          stack.toList = [5, 9, 0, -7] := by
  intro machine divisor expression
  have hstandard : machine.dictionary = .standard .standard := rfl
  have heval : expression.evaluate = .error ⟨.divisionByZero, "/", [9, 0, -7]⟩ := rfl
  have hresult := runLine_expression hstandard rfl rfl expression (by decide)
  rw [heval] at hresult
  exact ⟨by decide +kernel, heval, hresult⟩

end Machine

end SerialConsole
