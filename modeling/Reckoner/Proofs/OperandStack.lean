import Reckoner.Machine
import Reckoner.Proofs.Outcome

/-!
# What a token does to the operand stack

A token touches only the operands that it needs. If a sequence runs through on
some stack, it does the same on top of any other values and leaves them alone,
so a sequence with a value pushes that value wherever it is run.
-/

namespace Reckoner

namespace Function

variable
  (function : Function)
  (name : Text)

@[simp] theorem taken_natCast
    (count : Nat) :
    function.taken count = count := by
  have nonnegative : ¬ ((count : Int) < 0) := by
    omega
  rw [taken, if_neg nonnegative, Int.toNat_natCast]

/-- A number of arguments that the function does not admit is refused at once. -/
theorem call_of_inadmissible
    {arguments : Int}
    (inadmissible :
      function.taken arguments < function.required ∨
        function.arity < function.taken arguments)
    (stack : List Binary64) :
    function.call name arguments stack =
      .error (.arityMismatch name function.required function.arity
        (function.taken arguments)) := by
  simp [call, inadmissible]

/-- An admissible call takes its arguments, the last one on top, and nothing else. -/
theorem call_of_admissible
    {arguments : Int}
    {values : List Binary64}
    (taken : function.taken arguments = values.length)
    (enough : function.required ≤ values.length)
    (notTooMany : values.length ≤ function.arity)
    (below : List Binary64) :
    function.call name arguments (values.reverse ++ below) =
      (function.apply name values).map (· :: below) := by
  have admissible :
      ¬ (values.length < function.required ∨ function.arity < values.length) := by
    omega
  have reached : values.length = values.reverse.length :=
    List.length_reverse.symm
  have operands : (values.reverse ++ below).take values.length = values.reverse := by
    rw [reached, List.take_left]
  have others : (values.reverse ++ below).drop values.length = below := by
    rw [reached, List.drop_left]
  have present : ¬ (values.reverse ++ below).length < values.length := by
    rw [List.length_append, List.length_reverse]
    omega
  simp only [call, taken, admissible, present, operands, others, if_false,
    List.reverse_reverse]

/-- A call that succeeds leaves alone what lies below the stack it succeeded on. -/
theorem call_append
    {arguments : Int}
    {stack result : List Binary64}
    (calls : function.call name arguments stack = .ok result)
    (below : List Binary64) :
    function.call name arguments (stack ++ below) = .ok (result ++ below) := by
  unfold call at calls ⊢
  by_cases inadmissible :
      function.taken arguments < function.required ∨
        function.arity < function.taken arguments
  · simp [inadmissible] at calls
  · by_cases short : stack.length < function.taken arguments
    · simp [inadmissible, short] at calls
    · have reached : function.taken arguments ≤ stack.length :=
        Nat.le_of_not_lt short
      have stillReached :
          ¬ (stack ++ below).length < function.taken arguments := by
        rw [List.length_append]
        omega
      simp only [inadmissible, short, if_false] at calls
      simp only [inadmissible, stillReached, if_false,
        List.take_append_of_le_length reached, List.drop_append_of_le_length reached]
      obtain ⟨value, applied, rfl⟩ := Outcome.map_eq_ok_iff.mp calls
      rw [applied]
      rfl

end Function

namespace Machine

variable
  (bindings : Bindings)
  (table : FunctionTable)

@[simp] theorem run_nil
    (stack : List Binary64) :
    run bindings table [] stack = .ok stack :=
  rfl

theorem run_cons
    (token : Token)
    (rest : List Token)
    (stack : List Binary64) :
    run bindings table (token :: rest) stack =
      step bindings table stack token >>= run bindings table rest :=
  List.foldlM_cons

@[simp] theorem run_singleton
    (token : Token)
    (stack : List Binary64) :
    run bindings table [token] stack = step bindings table stack token := by
  rw [run_cons]
  exact bind_pure _

/-- A step that succeeds does the same on top of other values. -/
theorem step_append
    {stack result : List Binary64}
    {token : Token}
    (steps : step bindings table stack token = .ok result)
    (below : List Binary64) :
    step bindings table (stack ++ below) token = .ok (result ++ below) := by
  cases token with
  | number text value =>
      cases steps
      rfl
  | name text arguments =>
      cases found : table.find? text with
      | some function =>
          simp only [step, found] at steps ⊢
          exact function.call_append text steps below
      | none =>
          simp only [step, found] at steps ⊢
          split at steps
          · cases steps
          · next bare =>
              rw [if_neg bare]
              cases bound : bindings.find? text with
              | none =>
                  simp [bound] at steps
              | some value =>
                  simp only [bound, Except.ok.injEq] at steps
                  rw [← steps]
                  rfl
  | operator symbol =>
      match stack, steps with
      | right :: left :: rest, steps =>
          simp only [step, List.cons_append] at steps ⊢
          obtain ⟨value, applied, rfl⟩ := Outcome.map_eq_ok_iff.mp steps
          rw [applied]
          rfl
  | openParen =>
      cases steps
  | closeParen =>
      cases steps
  | comma =>
      cases steps

/-- A sequence that runs through does the same on top of other values. -/
theorem run_append_below
    {sequence : List Token}
    {stack result : List Binary64}
    (runs : run bindings table sequence stack = .ok result)
    (below : List Binary64) :
    run bindings table sequence (stack ++ below) = .ok (result ++ below) := by
  induction sequence generalizing stack with
  | nil =>
      cases runs
      rfl
  | cons token rest inductionHypothesis =>
      rw [run_cons] at runs ⊢
      obtain ⟨following, steps, restRuns⟩ := Outcome.bind_eq_ok_iff.mp runs
      rw [step_append bindings table steps below, Outcome.ok_bind]
      exact inductionHypothesis restRuns

/-- A sequence with a value pushes that value onto any stack. -/
theorem run_of_evaluatePostfix
    {sequence : List Token}
    {value : Binary64}
    (evaluates : evaluatePostfix bindings table sequence = .ok value)
    (stack : List Binary64) :
    run bindings table sequence stack = .ok (value :: stack) := by
  obtain ⟨result, runs, holds⟩ := Outcome.bind_eq_ok_iff.mp evaluates
  have alone : result = [value] := by
    match result, holds with
    | [_], holds =>
        cases holds
        rfl
  rw [alone] at runs
  exact run_append_below bindings table runs stack

/-- Sequences that do the same to every stack do the same in the middle of another one. -/
theorem evaluatePostfix_of_run_eq
    {middle other : List Token}
    (same : ∀ stack, run bindings table middle stack = run bindings table other stack)
    (first last : List Token) :
    evaluatePostfix bindings table (first ++ middle ++ last) =
      evaluatePostfix bindings table (first ++ other ++ last) := by
  simp only [evaluatePostfix, run_append]
  cases run bindings table first [] with
  | error fault =>
      rfl
  | ok stack =>
      rw [Outcome.ok_bind, Outcome.ok_bind, same]

end Machine

/--
A sequence with a value can be replaced by the number of that value wherever it
stands, whatever stands before and after it: the outcome is the same, be it a
value or a fault.
-/
theorem evaluatePostfix_replace_value
    {bindings : Bindings}
    {table : FunctionTable}
    {middle : List Token}
    {value : Binary64}
    (evaluates : evaluatePostfix bindings table middle = .ok value)
    (first last : List Token)
    (text : Text) :
    evaluatePostfix bindings table (first ++ middle ++ last) =
      evaluatePostfix bindings table (first ++ [.number text value] ++ last) := by
  apply Machine.evaluatePostfix_of_run_eq
  intro stack
  have pushes := Machine.run_of_evaluatePostfix bindings table evaluates stack
  rw [pushes, Machine.run_singleton]
  rfl

/--
In `0 x f y g +` the part `x f y g` stands for its value: `f` is called with one
argument of two and fills in a default, and `g` is not called and takes two.
-/
theorem evaluatePostfix_replace_calls :
    let f := Text.ofString "f"
    let g := Text.ofString "g"
    let x := Text.ofString "x"
    let y := Text.ofString "y"
    let second : Function := {
      arity := 2
      defaults := [.zero]
      body := fun arguments => .ok (arguments.getD 1 .nan)
      defaults_le := by decide
    }
    let bindings := Dictionary.ofList [(x, .zero), (y, .infinity true)]
    let table :=
      (FunctionTable.empty.insert f (by decide) second).insert g (by decide) second
    let middle := [Token.bareName x, .name f 1, .bareName y, .bareName g]
    evaluatePostfix bindings table middle = .ok (.infinity true) ∧
      evaluatePostfix bindings table
          ([.number [] .zero] ++ middle ++ [.operator Byte.plus]) =
        evaluatePostfix bindings table
          ([.number [] .zero] ++ [.number [] (.infinity true)] ++ [.operator Byte.plus]) := by
  intro f g x y second bindings table middle
  have evaluates : evaluatePostfix bindings table middle = .ok (.infinity true) :=
    rfl
  exact ⟨evaluates, evaluatePostfix_replace_value evaluates _ _ _⟩

end Reckoner
