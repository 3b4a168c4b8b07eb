import Reckoner.Proofs.OperandStack

/-!
# What a step of the stack machine can do

One case for each way in which a step goes on (`StepYields`) and in which it
fails (`StepFails`), with everything that has been checked by then. A run goes
on or fails as one of its steps does.
-/

namespace Reckoner

/-- There is one NaN. -/
theorem Binary64.eq_nan_of_isNaN
    {value : Binary64}
    (isNaN : value.isNaN = true) :
    value = .nan := by
  cases value with
  | nan =>
      rfl
  | infinity negative =>
      cases isNaN
  | finite negative magnitude =>
      cases isNaN

/-! ## Operators -/

/-- The ways in which an operator fails on two operands. -/
inductive OperatorFails (left right : Binary64) : UInt8 → EvalFault → Prop where
  | divisionByZero
      (isZero : right.isZero = true) :
      OperatorFails left right Byte.slash .divisionByZero
  | remainder
      (leftReal : left.isNaN = false)
      (rightReal : right.isNaN = false)
      (undefined : (left.remainder right).isNaN = true) :
      OperatorFails left right Byte.percent (.noRealResult Byte.percent left right)
  | power
      (leftReal : left.isNaN = false)
      (rightReal : right.isNaN = false)
      (undefined : (left.pow right).isNaN = true) :
      OperatorFails left right Byte.caret (.noRealResult Byte.caret left right)
  | unknown
      {symbol : UInt8}
      (noOperator : Byte.isOperator symbol = false) :
      OperatorFails left right symbol (.unknownOperator symbol)

theorem realResult_eq_error_iff
    {symbol : UInt8}
    {left right result : Binary64}
    {fault : EvalFault} :
    realResult symbol left right result = .error fault ↔
      (left.isNaN = false ∧ right.isNaN = false ∧ result.isNaN = true) ∧
        fault = .noRealResult symbol left right := by
  cases leftNaN : left.isNaN <;> cases rightNaN : right.isNaN <;>
    cases resultNaN : result.isNaN <;>
    simp [realResult, leftNaN, rightNaN, resultNaN, eq_comm]

theorem operatorFails_of_applyOperator
    {symbol : UInt8}
    {left right : Binary64}
    {fault : EvalFault}
    (fails : applyOperator symbol left right = .error fault) :
    OperatorFails left right symbol fault := by
  cases reads : Operator.ofSymbol? symbol with
  | none =>
      simp only [applyOperator, reads] at fails
      cases fails
      exact .unknown (by simp [Byte.isOperator, reads])
  | some operator =>
      obtain rfl := Operator.symbol_of_ofSymbol? reads
      cases operator with
      | add =>
          cases fails
      | subtract =>
          cases fails
      | multiply =>
          cases fails
      | divide =>
          simp only [applyOperator, reads] at fails
          split at fails
          · next isZero =>
              cases fails
              exact .divisionByZero isZero
          · cases fails
      | remainder =>
          simp only [applyOperator, reads] at fails
          obtain ⟨⟨leftReal, rightReal, undefined⟩, rfl⟩ := realResult_eq_error_iff.mp fails
          exact .remainder leftReal rightReal undefined
      | power =>
          simp only [applyOperator, reads] at fails
          obtain ⟨⟨leftReal, rightReal, undefined⟩, rfl⟩ := realResult_eq_error_iff.mp fails
          exact .power leftReal rightReal undefined

/-! ## Functions -/

namespace Function

/-- Whether a reference gives a function a number of arguments that it admits. -/
def Admits (function : Function) (arguments : Int) : Prop :=
  function.required ≤ function.taken arguments ∧ function.taken arguments ≤ function.arity

/-- What the body of a function is applied to: the arguments on the stack, completed. -/
def operands (function : Function) (arguments : Int) (stack : List Binary64) : List Binary64 :=
  function.complete (stack.take (function.taken arguments)).reverse

variable
  {function : Function}
  {name : Text}
  {arguments : Int}
  {stack : List Binary64}

/-- A name that is not called refers to its function with all arguments. -/
theorem admits_of_neg
    (bare : arguments < 0) :
    function.Admits arguments := by
  simp [Admits, taken, bare, required]

/-- A call is refused for its number of arguments, for a short stack, or by its application. -/
theorem call_cases
    (function : Function)
    (name : Text)
    (arguments : Int)
    (stack : List Binary64) :
    (¬ function.Admits arguments ∧
        function.call name arguments stack =
          .error (.arityMismatch name function.required function.arity
            (function.taken arguments))) ∨
      (function.Admits arguments ∧
        stack.length < function.taken arguments ∧
        function.call name arguments stack = .error (.missingArguments name)) ∨
      (function.Admits arguments ∧
        function.taken arguments ≤ stack.length ∧
        function.call name arguments stack =
          (function.apply name (stack.take (function.taken arguments)).reverse).map
            (· :: stack.drop (function.taken arguments))) := by
  by_cases admitted : function.Admits arguments
  · obtain ⟨enough, notTooMany⟩ := admitted
    have admissible :
        ¬ (function.taken arguments < function.required ∨
          function.arity < function.taken arguments) := by
      omega
    by_cases short : stack.length < function.taken arguments
    · exact .inr (.inl ⟨⟨enough, notTooMany⟩, short, by simp [call, admissible, short]⟩)
    · refine .inr (.inr ⟨⟨enough, notTooMany⟩, Nat.le_of_not_lt short, ?_⟩)
      simp [call, admissible, short]
  · have inadmissible :
        function.taken arguments < function.required ∨
          function.arity < function.taken arguments := by
      unfold Admits at admitted
      omega
    exact .inl ⟨admitted, call_of_inadmissible function name inadmissible stack⟩

/-- A function fails by a report of its body, or by a NaN that its operands do not explain. -/
theorem apply_eq_error
    {values : List Binary64}
    {fault : EvalFault}
    (fails : function.apply name values = .error fault) :
    (∃ report,
        function.body (function.complete values) = .error report ∧ fault = .raised report) ∨
      (function.body (function.complete values) = .ok .nan ∧
        (∀ value ∈ function.complete values, value.isNaN = false) ∧
        fault = .noRealValue name) := by
  unfold apply at fails
  simp only at fails
  split at fails
  · next report raises =>
      cases fails
      exact .inl ⟨report, raises, rfl⟩
  · next result returns =>
      split at fails
      · next undefined =>
          cases fails
          simp only [Bool.and_eq_true, Bool.not_eq_true', List.any_eq_false,
            Bool.not_eq_true] at undefined
          obtain ⟨isNaN, operandsReal⟩ := undefined
          obtain rfl := Binary64.eq_nan_of_isNaN isNaN
          exact .inr ⟨returns, operandsReal, rfl⟩
      · cases fails

/-- A function gives the result of its body, which is NaN only if an operand is. -/
theorem apply_eq_ok
    {values : List Binary64}
    {result : Binary64}
    (applies : function.apply name values = .ok result) :
    function.body (function.complete values) = .ok result ∧
      (result.isNaN = true → ∃ value ∈ function.complete values, value.isNaN = true) := by
  unfold apply at applies
  simp only at applies
  split at applies
  · cases applies
  · next returned returns =>
      split at applies
      · cases applies
      · next explained =>
          cases applies
          refine ⟨returns, ?_⟩
          intro isNaN
          simpa [isNaN] using explained

end Function

/-! ## Steps -/

namespace Machine

section Steps

variable
  (bindings : Bindings)
  (table : FunctionTable)

/-- The ways in which a step goes on. -/
inductive StepYields : List Binary64 → Token → List Binary64 → Prop where
  | number
      {stack : List Binary64}
      (text : Text)
      (value : Binary64) :
      StepYields stack (.number text value) (value :: stack)
  | boundName
      {stack : List Binary64}
      {name : Text}
      {arguments : Int}
      {value : Binary64}
      (missing : table.find? name = none)
      (bare : arguments < 0)
      (bound : bindings.find? name = some value) :
      StepYields stack (.name name arguments) (value :: stack)
  | application
      {stack : List Binary64}
      {name : Text}
      {arguments : Int}
      {function : Function}
      {result : Binary64}
      (found : table.find? name = some function)
      (admitted : function.Admits arguments)
      (enough : function.taken arguments ≤ stack.length)
      (returns : function.body (function.operands arguments stack) = .ok result)
      (explained :
        result.isNaN = true →
        ∃ value ∈ function.operands arguments stack, value.isNaN = true) :
      StepYields stack (.name name arguments)
        (result :: stack.drop (function.taken arguments))
  | operation
      {symbol : UInt8}
      {left right result : Binary64}
      {below : List Binary64}
      (applies : applyOperator symbol left right = .ok result) :
      StepYields (right :: left :: below) (.operator symbol) (result :: below)

/-- The ways in which a step fails on a stack. -/
inductive StepFails (stack : List Binary64) : Token → EvalFault → Prop where
  | unknownFunction
      {name : Text}
      {arguments : Int}
      (missing : table.find? name = none)
      (called : 0 ≤ arguments) :
      StepFails stack (.name name arguments) (.unknownFunction name)
  | undefinedVariable
      {name : Text}
      {arguments : Int}
      (missing : table.find? name = none)
      (bare : arguments < 0)
      (unbound : bindings.find? name = none) :
      StepFails stack (.name name arguments) (.undefinedVariable name)
  | arityMismatch
      {name : Text}
      {arguments : Int}
      {function : Function}
      (found : table.find? name = some function)
      (inadmissible : ¬ function.Admits arguments) :
      StepFails stack (.name name arguments)
        (.arityMismatch name function.required function.arity (function.taken arguments))
  | missingArguments
      {name : Text}
      {arguments : Int}
      {function : Function}
      (found : table.find? name = some function)
      (admitted : function.Admits arguments)
      (short : stack.length < function.taken arguments) :
      StepFails stack (.name name arguments) (.missingArguments name)
  | raised
      {name : Text}
      {arguments : Int}
      {function : Function}
      {report : Report}
      (found : table.find? name = some function)
      (admitted : function.Admits arguments)
      (enough : function.taken arguments ≤ stack.length)
      (raises : function.body (function.operands arguments stack) = .error report) :
      StepFails stack (.name name arguments) (.raised report)
  | noRealValue
      {name : Text}
      {arguments : Int}
      {function : Function}
      (found : table.find? name = some function)
      (admitted : function.Admits arguments)
      (enough : function.taken arguments ≤ stack.length)
      (operandsReal : ∀ value ∈ function.operands arguments stack, value.isNaN = false)
      (undefined : function.body (function.operands arguments stack) = .ok .nan) :
      StepFails stack (.name name arguments) (.noRealValue name)
  | missingOperand
      {symbol : UInt8}
      (short : stack.length < 2) :
      StepFails stack (.operator symbol) .missingOperand
  | operation
      {symbol : UInt8}
      {left right : Binary64}
      {below : List Binary64}
      {fault : EvalFault}
      (operands : stack = right :: left :: below)
      (fails : OperatorFails left right symbol fault) :
      StepFails stack (.operator symbol) fault
  | unexpected
      {token : Token}
      (misplaced : token = .openParen ∨ token = .closeParen ∨ token = .comma) :
      StepFails stack token (.unexpectedToken token)

variable {bindings table}

theorem stepYields_of_step
    {stack following : List Binary64}
    {token : Token}
    (steps : step bindings table stack token = .ok following) :
    StepYields bindings table stack token following := by
  cases token with
  | number text value =>
      cases steps
      exact .number text value
  | name name arguments =>
      cases found : table.find? name with
      | some function =>
          simp only [step, found] at steps
          rcases function.call_cases name arguments stack with
            ⟨-, refused⟩ | ⟨-, -, refused⟩ | ⟨admitted, enough, calls⟩
          · rw [refused] at steps
            cases steps
          · rw [refused] at steps
            cases steps
          · rw [calls] at steps
            obtain ⟨result, applies, rfl⟩ := Outcome.map_eq_ok_iff.mp steps
            obtain ⟨returns, explained⟩ := Function.apply_eq_ok applies
            exact .application found admitted enough returns explained
      | none =>
          simp only [step, found] at steps
          split at steps
          · cases steps
          · next bare =>
              cases bound : bindings.find? name with
              | none =>
                  simp [bound] at steps
              | some value =>
                  simp only [bound, Except.ok.injEq] at steps
                  subst steps
                  exact .boundName found (Int.not_le.mp bare) bound
  | operator symbol =>
      rcases stack with _ | ⟨right, _ | ⟨left, below⟩⟩
      · cases steps
      · cases steps
      · obtain ⟨result, applies, rfl⟩ := Outcome.map_eq_ok_iff.mp steps
        exact .operation applies
  | openParen =>
      cases steps
  | closeParen =>
      cases steps
  | comma =>
      cases steps

theorem stepFails_of_step
    {stack : List Binary64}
    {token : Token}
    {fault : EvalFault}
    (fails : step bindings table stack token = .error fault) :
    StepFails bindings table stack token fault := by
  cases token with
  | number text value =>
      cases fails
  | name name arguments =>
      cases found : table.find? name with
      | some function =>
          simp only [step, found] at fails
          rcases function.call_cases name arguments stack with
            ⟨inadmissible, refused⟩ | ⟨admitted, short, refused⟩ | ⟨admitted, enough, calls⟩
          · rw [refused] at fails
            cases fails
            exact .arityMismatch found inadmissible
          · rw [refused] at fails
            cases fails
            exact .missingArguments found admitted short
          · rw [calls] at fails
            rcases Function.apply_eq_error (Outcome.map_eq_error_iff.mp fails) with
              ⟨report, raises, rfl⟩ | ⟨undefined, operandsReal, rfl⟩
            · exact .raised found admitted enough raises
            · exact .noRealValue found admitted enough operandsReal undefined
      | none =>
          simp only [step, found] at fails
          split at fails
          · next called =>
              cases fails
              exact .unknownFunction found called
          · next bare =>
              cases bound : bindings.find? name with
              | none =>
                  simp only [bound] at fails
                  cases fails
                  exact .undefinedVariable found (Int.not_le.mp bare) bound
              | some value =>
                  simp [bound] at fails
  | operator symbol =>
      rcases stack with _ | ⟨right, _ | ⟨left, below⟩⟩
      · cases fails
        exact .missingOperand (by simp)
      · cases fails
        exact .missingOperand (by simp)
      · have applied := Outcome.map_eq_error_iff.mp fails
        exact .operation rfl (operatorFails_of_applyOperator applied)
  | openParen =>
      cases fails
      exact .unexpected (.inl rfl)
  | closeParen =>
      cases fails
      exact .unexpected (.inr (.inl rfl))
  | comma =>
      cases fails
      exact .unexpected (.inr (.inr rfl))

end Steps

/-! ## Runs -/

variable
  {bindings : Bindings}
  {table : FunctionTable}
  {sequence : List Token}

/-- A run fails as one of its steps does, on the stack that the steps before it have left. -/
theorem exists_step_of_run_eq_error
    {stack : List Binary64}
    {fault : EvalFault}
    (fails : run bindings table sequence stack = .error fault) :
    ∃ before token after middle,
      sequence = before ++ token :: after ∧
        run bindings table before stack = .ok middle ∧
        step bindings table middle token = .error fault := by
  induction sequence generalizing stack with
  | nil =>
      cases fails
  | cons first rest inductionHypothesis =>
      rw [run_cons] at fails
      cases steps : step bindings table stack first with
      | error cause =>
          rw [steps, Outcome.error_bind] at fails
          cases fails
          exact ⟨[], first, rest, stack, rfl, rfl, steps⟩
      | ok following =>
          rw [steps, Outcome.ok_bind] at fails
          obtain ⟨before, token, after, middle, rfl, runs, stops⟩ := inductionHypothesis fails
          refine ⟨first :: before, token, after, middle, rfl, ?_, stops⟩
          rw [run_cons, steps, Outcome.ok_bind, runs]

end Machine

/-- An evaluation fails at one of its steps, or because it does not end with a single value. -/
theorem exists_stepFails_of_evaluatePostfix
    {bindings : Bindings}
    {table : FunctionTable}
    {sequence : List Token}
    {fault : EvalFault}
    (fails : evaluatePostfix bindings table sequence = .error fault) :
    fault = .notSingleValue ∨
      ∃ before token after stack,
        sequence = before ++ token :: after ∧
          Machine.run bindings table before [] = .ok stack ∧
          Machine.StepFails bindings table stack token fault := by
  cases runs : Machine.run bindings table sequence [] with
  | ok stack =>
      rw [evaluatePostfix, runs, Outcome.ok_bind] at fails
      unfold Machine.single at fails
      split at fails <;> cases fails
      exact .inl rfl
  | error cause =>
      rw [evaluatePostfix, runs, Outcome.error_bind] at fails
      cases fails
      obtain ⟨before, token, after, stack, split, beforeRuns, stops⟩ :=
        Machine.exists_step_of_run_eq_error runs
      exact .inr ⟨before, token, after, stack, split, beforeRuns,
        Machine.stepFails_of_step stops⟩

end Reckoner
