import Reckoner.Proofs.CallFrames
import Reckoner.Proofs.Cues
import Reckoner.Proofs.Derivation

/-!
# Postfix order of derivations

The conversion brings the tokens of every formula into the postorder of its
derivation. While it reads a subformula of some level it adds pending operators
of that level or tighter to the waiting tokens, and nothing else. Output and
pending operators together are always the postorder of what was read, so that
releasing the pending operators completes it.
-/

namespace Reckoner

@[simp] theorem Byte.precedence_symbol
    (operator : Operator) :
    Byte.precedence operator.symbol = operator.precedence := by
  simp [Byte.precedence]

namespace Conversion

/-- Operators that bind at least as tightly as a level of the grammar. -/
def Pending (level : Nat) (tokens : List Token) : Prop :=
  ∀ token ∈ tokens,
    ∃ symbol, token = .operator symbol ∧ level ≤ Byte.precedence symbol

/-- No operator of a level or tighter is on top of the waiting tokens. -/
def Blocked (level : Nat) (waiting : List Token) : Prop :=
  ∀ token ∈ waiting.head?,
    ∀ symbol, token = .operator symbol → Byte.precedence symbol < level

namespace Pending

variable
  {level : Nat}
  {tokens : List Token}

/-- Pending operators are inside every parenthesis. -/
theorem isInside
    (pending : Pending level tokens) :
    ∀ token ∈ tokens, Conversion.isInside token = true := by
  intro token member
  obtain ⟨symbol, rfl, _⟩ := pending token member
  rfl

/-- An operator of the level releases all pending operators. -/
theorem yieldsTo
    {operator : Operator}
    (pending : Pending operator.precedence tokens) :
    ∀ token ∈ tokens, Conversion.yieldsTo operator.symbol token = true := by
  intro token member
  obtain ⟨other, rfl, tight⟩ := pending token member
  simpa [Conversion.yieldsTo] using tight

/-- Operators of a tighter level belong to every looser one. -/
theorem looser
    (pending : Pending (level + 1) tokens) :
    Pending level tokens := by
  intro token member
  obtain ⟨symbol, same, tight⟩ := pending token member
  exact ⟨symbol, same, Nat.le_of_succ_le tight⟩

end Pending

namespace Blocked

variable
  {level : Nat}
  {waiting : List Token}

/-- What blocks a level blocks every tighter one. -/
theorem tighter
    (blocked : Blocked level waiting) :
    Blocked (level + 1) waiting := by
  intro token top symbol same
  exact Nat.lt_succ_of_lt (blocked token top symbol same)

/-- A waiting operator blocks the level above its own. -/
theorem operator
    (operator : Operator) :
    Blocked (operator.precedence + 1) (.operator operator.symbol :: waiting) := by
  intro token top symbol same
  cases top
  cases same
  rw [Byte.precedence_symbol]
  exact Nat.lt_succ_self _

/-- An opening parenthesis blocks every level. -/
theorem openParen :
    Blocked level (.openParen :: waiting) := by
  intro token top symbol same
  cases top
  cases same

/-- An operator releases nothing of what blocks its level. -/
theorem yieldsTo
    {operator : Operator}
    (blocked : Blocked operator.precedence waiting) :
    ∀ token ∈ waiting.head?, Conversion.yieldsTo operator.symbol token = false := by
  intro token top
  cases token with
  | operator other =>
      have looser := blocked (.operator other) top other rfl
      simpa [Conversion.yieldsTo] using looser
  | _ =>
      rfl

end Blocked

/--
What reading a formula of some level adds to a conversion: pending operators
among the waiting tokens, and output that they complete to the postorder.
-/
structure Extends
    (level : Nat)
    (postorder : List Token)
    (before after : Conversion) :
    Prop where
  calls :
    after.calls = before.calls
  pending :
    ∃ pending,
      Pending level pending ∧
        after.waiting = pending ++ before.waiting ∧
        pending.reverse ++ after.output = postorder.reverse ++ before.output

namespace Extends

variable
  {level : Nat}
  {postorder : List Token}
  {before after : Conversion}

/-- Output alone leaves no operator pending. -/
theorem emitAll
    (level : Nat)
    (postorder : List Token)
    (before : Conversion) :
    Extends level postorder before (before.emitAll postorder) where
  calls := rfl
  pending := by
    refine ⟨[], ?_, rfl, rfl⟩
    intro token member
    cases member

/-- A formula of a tighter level is one of every looser level. -/
theorem looser
    (extension : Extends (level + 1) postorder before after) :
    Extends level postorder before after where
  calls := extension.calls
  pending := by
    obtain ⟨pending, tight, waiting, output⟩ := extension.pending
    exact ⟨pending, tight.looser, waiting, output⟩

/-- What was put out earlier comes first. -/
theorem after_emitAll
    {earlier : List Token}
    (extension : Extends level postorder (before.emitAll earlier) after) :
    Extends level (earlier ++ postorder) before after where
  calls := extension.calls
  pending := by
    obtain ⟨pending, tight, waiting, output⟩ := extension.pending
    refine ⟨pending, tight, waiting, ?_⟩
    rw [output, Conversion.emitAll, List.reverse_append, List.append_assoc]

/-- An operator of the level completes the formula to its left and waits. -/
theorem pushOperator
    {operator : Operator}
    (extension : Extends operator.precedence postorder before after)
    (blocked : Blocked operator.precedence before.waiting) :
    after.pushOperator operator.symbol = {
      before.emitAll postorder with
      waiting := .operator operator.symbol :: before.waiting
    } := by
  obtain ⟨pending, tight, waiting, output⟩ := extension.pending
  simp [Conversion.pushOperator, release_eq waiting tight.yieldsTo blocked.yieldsTo,
    output, extension.calls, Conversion.emitAll]

/-- The formula to the right of a waiting operator completes the operation. -/
theorem operation
    {operator : Operator}
    {left right : List Token}
    (extension :
      Extends (operator.precedence + 1) right
        {
          before.emitAll left with
          waiting := .operator operator.symbol :: before.waiting
        }
        after) :
    Extends operator.precedence (left ++ right ++ [.operator operator.symbol])
      before after where
  calls := extension.calls
  pending := by
    obtain ⟨pending, tight, waiting, output⟩ := extension.pending
    refine ⟨pending ++ [.operator operator.symbol], ?_, ?_, ?_⟩
    · intro token member
      rcases List.mem_append.mp member with isTighter | isLast
      · exact tight.looser token isTighter
      · rw [List.mem_singleton] at isLast
        exact ⟨operator.symbol, isLast, by simp⟩
    · simp [waiting]
    · simp [output, Conversion.emitAll]

/-- A formula that was read from the start is put out whole. -/
theorem finish
    (extension : Extends level postorder start after) :
    after.finish = .ok postorder := by
  obtain ⟨pending, tight, waiting, output⟩ := extension.pending
  have everything : after.waiting = pending := by
    rw [waiting, start, List.append_nil]
  rw [← everything] at tight output
  rw [Conversion.finish_none tight.isInside, output]
  simp [start]

/-- Closing the group of a formula leaves its postorder and nothing pending. -/
theorem closeGroup
    (extension : Extends level postorder before.pushGroup after)
    (below : before.CallsBelow)
    (afterOpen : Bool) :
    after.closeParen afterOpen = .ok (before.emitAll postorder) := by
  obtain ⟨pending, tight, waiting, output⟩ := extension.pending
  have outside : ∀ frame ∈ after.calls, frame.depth < before.waiting.length := by
    rw [extension.calls]
    exact below
  rw [closeParen_group waiting tight.isInside outside, output, extension.calls]
  rfl

section Call

variable
  {name : Text}
  {arguments : Int}
  {commas : Nat}

/-- A comma completes the argument before it. -/
theorem endArgument
    (extension :
      Extends level postorder (before.insideCall name arguments commas) after) :
    after.endArgument =
      .ok ((before.emitAll postorder).insideCall name arguments (commas + 1)) := by
  obtain ⟨pending, tight, waiting, output⟩ := extension.pending
  rw [endArgument_call waiting tight.isInside extension.calls rfl, output]
  rfl

/-- Closing a call completes its last argument and puts out its name. -/
theorem closeCall
    (extension :
      Extends level postorder (before.insideCall name arguments commas) after)
    (afterOpen : Bool) :
    after.closeParen afterOpen =
      .ok (before.emitAll
        (postorder ++ [.name name (if afterOpen then 0 else commas + 1 : Nat)])) := by
  obtain ⟨pending, tight, waiting, output⟩ := extension.pending
  rw [closeParen_call waiting tight.isInside extension.calls rfl, output]
  simp [Conversion.emitAll, Conversion.insideCall]

end Call

end Extends

mutual

/--
Reading a formula of some level in front of further tokens extends a conversion
in which that level is blocked. Nothing below the formula moves, so what follows
is read as if the formula stood alone.
-/
theorem run_yield :
    ∀ {level : Nat}
      (derivation : Derivation level)
      (rest : List Token)
      (_ : rest.head? ≠ some .openParen)
      (afterOpen : Bool)
      {state : Conversion}
      (_ : state.CallsBelow)
      (_ : Blocked level state.waiting),
      ∃ after,
        Extends level derivation.postorder state after ∧
          run (Cue.ofTokensAfter afterOpen (derivation.yield ++ rest)) state =
            run (Cue.ofTokensAfter false rest) after
  | _, .operation operator left right, rest, notCalled, afterOpen, state, below, blocked => by
      obtain ⟨middle, leftRead, leftRun⟩ :=
        run_yield left (.operator operator.symbol :: (right.yield ++ rest))
          (by simp) afterOpen below blocked
      have pushes :
          step middle (.operator operator.symbol) = .ok _ :=
        congrArg Except.ok (leftRead.pushOperator blocked)
      have rightBelow :
          CallsBelow {
            state.emitAll left.postorder with
            waiting := .operator operator.symbol :: state.waiting
          } :=
        below.of_length_le rfl (Nat.le_succ _)
      obtain ⟨after, rightRead, rightRun⟩ :=
        run_yield right rest notCalled false rightBelow (.operator operator)
      refine ⟨after, rightRead.operation, ?_⟩
      rw [Derivation.yield, List.append_assoc, List.cons_append, leftRun,
        Cue.ofTokensAfter_operator, run_cons_of_step pushes, rightRun]
  | _, .tighter inner, rest, notCalled, afterOpen, _, below, blocked => by
      obtain ⟨after, read, runs⟩ :=
        run_yield inner rest notCalled afterOpen below blocked.tighter
      exact ⟨after, read.looser, runs⟩
  | _, .number text value, _, _, _, state, _, _ =>
      ⟨_, .emitAll primaryLevel [.number text value] state, rfl⟩
  | _, .name text, _, notCalled, afterOpen, state, _, _ => by
      refine ⟨_, .emitAll primaryLevel [.bareName text] state, ?_⟩
      rw [Derivation.yield, List.singleton_append, Token.bareName,
        Cue.ofTokensAfter_name afterOpen text (-1) notCalled]
      rfl
  | _, .emptyCall name, _, _, afterOpen, state, _, _ => by
      refine ⟨_, .emitAll primaryLevel [.name name 0] state, ?_⟩
      have closes :
          step (state.insideCall name (-1) 0) (.close true) =
            .ok (state.emitAll [.name name 0]) :=
        (Extends.emitAll sumLevel [] (state.insideCall name (-1) 0)).closeCall true
      have opens :
          step state (.beginCall name (-1)) = .ok (state.insideCall name (-1) 0) :=
        rfl
      simp only [Derivation.yield, List.cons_append, List.nil_append, Token.bareName,
        Cue.ofTokensAfter_call, Cue.ofTokensAfter_closeParen]
      rw [run_cons_of_step opens, run_cons_of_step closes]
  | _, .call name list, rest, _, afterOpen, state, below, _ => by
      obtain ⟨middle, commas, counted, read, runs⟩ :=
        run_yieldArguments list (.closeParen :: rest) (by simp) true below
          name (-1) 0
      have closes : step middle (.close false) = .ok _ := read.closeCall false
      have opens :
          step state (.beginCall name (-1)) = .ok (state.insideCall name (-1) 0) :=
        rfl
      have total : commas + 1 = list.count := by
        rw [counted, Nat.zero_add]
      rw [if_neg Bool.false_ne_true, total] at closes
      refine ⟨_, .emitAll primaryLevel (Derivation.call name list).postorder state, ?_⟩
      simp only [Derivation.yield, List.cons_append, List.append_assoc, Token.bareName,
        List.nil_append, Cue.ofTokensAfter_call]
      rw [run_cons_of_step opens, runs, Cue.ofTokensAfter_closeParen,
        run_cons_of_step closes, Derivation.postorder]
  | _, .group inner, rest, _, afterOpen, state, below, _ => by
      have groupBelow : state.pushGroup.CallsBelow :=
        below.of_length_le rfl (Nat.le_succ _)
      obtain ⟨middle, read, runs⟩ :=
        run_yield inner (.closeParen :: rest) (by simp) true groupBelow .openParen
      have closes : step middle (.close false) = .ok (state.emitAll inner.postorder) :=
        read.closeGroup below false
      have opens : step state .beginGroup = .ok state.pushGroup := rfl
      refine ⟨_, .emitAll primaryLevel inner.postorder state, ?_⟩
      rw [Derivation.yield, List.cons_append, List.append_assoc, List.singleton_append,
        Cue.ofTokensAfter_openParen, run_cons_of_step opens, runs,
        Cue.ofTokensAfter_closeParen, run_cons_of_step closes]

/--
Reading arguments inside a call extends the call, whose commas are counted on
the way: one less than there are arguments.
-/
theorem run_yieldArguments :
    ∀ (list : Arguments)
      (rest : List Token)
      (_ : rest.head? ≠ some .openParen)
      (afterOpen : Bool)
      {state : Conversion}
      (_ : state.CallsBelow)
      (name : Text)
      (arguments : Int)
      (commas : Nat),
      ∃ after counted,
        counted + 1 = commas + list.count ∧
          Extends sumLevel list.postorder (state.insideCall name arguments counted) after ∧
          run (Cue.ofTokensAfter afterOpen (list.yield ++ rest))
              (state.insideCall name arguments commas) =
            run (Cue.ofTokensAfter false rest) after
  | .last argument, rest, notCalled, afterOpen, _, below, name, arguments, commas => by
      obtain ⟨after, read, runs⟩ :=
        run_yield argument rest notCalled afterOpen
          (below.insideCall name arguments commas) .openParen
      exact ⟨after, commas, rfl, read, runs⟩
  | .more argument others, rest, notCalled, afterOpen, _, below, name, arguments, commas => by
      obtain ⟨middle, read, runs⟩ :=
        run_yield argument (.comma :: (others.yield ++ rest)) (by simp) afterOpen
          (below.insideCall name arguments commas) .openParen
      have ends : step middle .nextArgument = .ok _ := read.endArgument
      obtain ⟨after, counted, total, othersRead, othersRun⟩ :=
        run_yieldArguments others rest notCalled false
          (below.emitAll argument.postorder) name arguments (commas + 1)
      refine ⟨after, counted, ?_, othersRead.after_emitAll, ?_⟩
      · rw [Arguments.count]
        omega
      · rw [Arguments.yield, List.append_assoc, List.cons_append, runs,
          Cue.ofTokensAfter_comma, run_cons_of_step ends, othersRun]

end

/-- Reading a whole formula from the start. -/
theorem run_start_yield
    {level : Nat}
    (derivation : Derivation level) :
    ∃ after,
      run (Cue.ofTokens derivation.yield) start = .ok after ∧
        Extends level derivation.postorder start after := by
  have nothingWaits : Blocked level start.waiting := by
    intro token top
    cases top
  obtain ⟨after, read, runs⟩ :=
    run_yield derivation [] (by simp) false callsBelow_start nothingWaits
  rw [List.append_nil] at runs
  exact ⟨after, runs, read⟩

end Conversion

end Reckoner
