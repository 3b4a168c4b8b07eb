import Reckoner.Proofs.MachineSteps
import Reckoner.Proofs.Occurrences
import Reckoner.Proofs.RoundTrip
import Reckoner.Proofs.StrictNames

/-!
# Where NaNs come from

A sum, difference, product or quotient of two numbers may be NaN, and such a NaN
is a value. Whatever else has no result for numbers, a remainder, a power or a
function, is a fault. So when neither the numbers of a sequence nor the values
around it are NaN, the first NaN on the stack is the result of one of the four
basic operators, and a formula without them has no value that is NaN.
-/

namespace Reckoner

/-- The operators whose results are not checked for NaN. -/
def Operator.isBasic : Operator → Bool
  | .add => true
  | .subtract => true
  | .multiply => true
  | .divide => true
  | .remainder => false
  | .power => false

/-- Values of which none is NaN. -/
def NaNFree (values : List Binary64) : Prop :=
  ∀ value ∈ values, value.isNaN = false

/-- Tokens of which no number is NaN. -/
def NaNFreeNumbers (tokens : List Token) : Prop :=
  ∀ text value, .number text value ∈ tokens → value.isNaN = false

/-- Bindings and functions that bring no NaN along; what functions compute is left open. -/
structure NaNFreeInputs (bindings : Bindings) (table : FunctionTable) : Prop where
  bound :
    ∀ name value,
      bindings.find? name = some value →
      value.isNaN = false
  defaults :
    ∀ name function,
      table.find? name = some function →
      NaNFree function.defaults

/-- A basic operator that makes a NaN of the two numbers on top of a stack. -/
inductive MakesNaN : List Binary64 → Token → List Binary64 → Prop where
  | basic
      {operator : Operator}
      {left right : Binary64}
      {below : List Binary64}
      (isBasic : operator.isBasic = true)
      (leftReal : left.isNaN = false)
      (rightReal : right.isNaN = false)
      (applies : applyOperator operator.symbol left right = .ok .nan) :
      MakesNaN (right :: left :: below) (.operator operator.symbol) (.nan :: below)

namespace NaNFree

variable
  {values others : List Binary64}

theorem cons
    {value : Binary64}
    (real : value.isNaN = false)
    (free : NaNFree values) :
    NaNFree (value :: values) :=
  List.forall_mem_cons.mpr ⟨real, free⟩

theorem of_subset
    (free : NaNFree values)
    (subset : others ⊆ values) :
    NaNFree others :=
  fun value member => free value (subset member)

/-- Arguments that are numbers are completed to numbers if the defaults are. -/
theorem operands
    {function : Function}
    {stack : List Binary64}
    (free : NaNFree stack)
    (defaults : NaNFree function.defaults)
    (arguments : Int) :
    NaNFree (function.operands arguments stack) := by
  intro value member
  rcases List.mem_append.mp member with isArgument | isDefault
  · have onStack := (List.take_subset _ _) (List.mem_reverse.mp isArgument)
    exact free value onStack
  · exact defaults value ((List.drop_subset _ _) isDefault)

end NaNFree

/-! ## Steps -/

/-- An operator with a NaN for two numbers is a basic one. -/
theorem isBasic_of_applyOperator
    {operator : Operator}
    {left right result : Binary64}
    (applies : applyOperator operator.symbol left right = .ok result)
    (leftReal : left.isNaN = false)
    (rightReal : right.isNaN = false)
    (isNaN : result.isNaN = true) :
    operator.isBasic = true := by
  have checked :
      ∀ raw, realResult operator.symbol left right raw ≠ .ok result := by
    intro raw passes
    cases rawNaN : raw.isNaN <;> simp [realResult, leftReal, rightReal, rawNaN] at passes
    rw [passes, isNaN] at rawNaN
    cases rawNaN
  cases operator with
  | remainder =>
      exact (checked _ applies).elim
  | power =>
      exact (checked _ applies).elim
  | _ =>
      rfl

namespace Machine

variable
  {bindings : Bindings}
  {table : FunctionTable}
  {stack following : List Binary64}
  {token : Token}
  {sequence : List Token}

/-- A step from numbers leads to numbers, or it makes the NaN itself with a basic operator. -/
theorem naNFree_or_makesNaN_of_step
    (inputs : NaNFreeInputs bindings table)
    (numbers : NaNFreeNumbers [token])
    (free : NaNFree stack)
    (steps : step bindings table stack token = .ok following) :
    NaNFree following ∨ MakesNaN stack token following := by
  cases stepYields_of_step steps with
  | number text value =>
      exact .inl (free.cons (numbers text value List.mem_cons_self))
  | boundName missing bare bound =>
      exact .inl (free.cons (inputs.bound _ _ bound))
  | @application _ name arguments function result found admitted enough returns explained =>
      have operandsFree := free.operands (inputs.defaults name function found) arguments
      have real : result.isNaN = false := by
        apply Bool.eq_false_iff.mpr
        intro isNaN
        obtain ⟨value, member, valueNaN⟩ := explained isNaN
        rw [operandsFree value member] at valueNaN
        cases valueNaN
      exact .inl ((free.of_subset (List.drop_subset _ _)).cons real)
  | @operation symbol left right result below applies =>
      have rightReal := free right List.mem_cons_self
      have leftReal := free left (List.mem_cons_of_mem _ List.mem_cons_self)
      have belowFree : NaNFree below :=
        free.of_subset fun value member =>
          List.mem_cons_of_mem _ (List.mem_cons_of_mem _ member)
      cases isNaN : result.isNaN with
      | false =>
          exact .inl (belowFree.cons isNaN)
      | true =>
          cases reads : Operator.ofSymbol? symbol with
          | none =>
              simp [applyOperator, reads] at applies
          | some operator =>
              obtain rfl := Operator.symbol_of_ofSymbol? reads
              have isBasic := isBasic_of_applyOperator applies leftReal rightReal isNaN
              obtain rfl := Binary64.eq_nan_of_isNaN isNaN
              exact .inr (.basic isBasic leftReal rightReal applies)

/--
A remainder, a power or a function that is applied to numbers only, defaults
included, and whose result is NaN.
-/
inductive Undefined
    (bindings : Bindings)
    (table : FunctionTable)
    (stack : List Binary64) :
    Token → Prop where
  | remainder
      {left right : Binary64}
      {below : List Binary64}
      (operands : stack = right :: left :: below)
      (leftReal : left.isNaN = false)
      (rightReal : right.isNaN = false)
      (undefined : (left.remainder right).isNaN = true) :
      Undefined bindings table stack (.operator Byte.percent)
  | power
      {left right : Binary64}
      {below : List Binary64}
      (operands : stack = right :: left :: below)
      (leftReal : left.isNaN = false)
      (rightReal : right.isNaN = false)
      (undefined : (left.pow right).isNaN = true) :
      Undefined bindings table stack (.operator Byte.caret)
  | application
      {name : Text}
      {arguments : Int}
      {function : Function}
      (found : table.find? name = some function)
      (admitted : function.Admits arguments)
      (enough : function.taken arguments ≤ stack.length)
      (operandsReal : NaNFree (function.operands arguments stack))
      (undefined : function.body (function.operands arguments stack) = .ok .nan) :
      Undefined bindings table stack (.name name arguments)

/-- A domain error that no function has raised is about numbers without a result. -/
theorem StepFails.undefined
    {fault : EvalFault}
    (fails : StepFails bindings table stack token fault)
    (kind : fault.report.kind = .domainError)
    (own : ∀ report, fault ≠ .raised report) :
    Undefined bindings table stack token := by
  cases fails with
  | raised found admitted enough raises =>
      exact (own _ rfl).elim
  | noRealValue found admitted enough operandsReal undefined =>
      exact .application found admitted enough operandsReal undefined
  | operation operands operatorFails =>
      cases operatorFails with
      | remainder leftReal rightReal undefined =>
          exact .remainder operands leftReal rightReal undefined
      | power leftReal rightReal undefined =>
          exact .power operands leftReal rightReal undefined
      | divisionByZero isZero =>
          cases kind
      | unknown noOperator =>
          cases kind
  | _ =>
      cases kind

/-! ## Runs -/

/-- The first NaN that a run from numbers puts on its stack comes from a basic operator. -/
theorem naNFree_or_exists_makesNaN_of_run
    (inputs : NaNFreeInputs bindings table)
    (numbers : NaNFreeNumbers sequence)
    (free : NaNFree stack)
    (runs : run bindings table sequence stack = .ok following) :
    NaNFree following ∨
      ∃ before token after middle next,
        sequence = before ++ token :: after ∧
          run bindings table before stack = .ok middle ∧
          NaNFree middle ∧
          step bindings table middle token = .ok next ∧
          MakesNaN middle token next := by
  induction sequence generalizing stack with
  | nil =>
      cases runs
      exact .inl free
  | cons first rest inductionHypothesis =>
      rw [run_cons] at runs
      obtain ⟨next, steps, restRuns⟩ := Outcome.bind_eq_ok_iff.mp runs
      have firstNumbers : NaNFreeNumbers [first] := fun text value member =>
        numbers text value (List.mem_cons.mpr (.inl (List.mem_singleton.mp member)))
      have restNumbers : NaNFreeNumbers rest := fun text value member =>
        numbers text value (List.mem_cons_of_mem first member)
      rcases naNFree_or_makesNaN_of_step inputs firstNumbers free steps with
        nextFree | makesNaN
      · rcases inductionHypothesis restNumbers nextFree restRuns with
          stillFree | ⟨before, token, after, middle, later, rfl, earlierRuns, middleFree, makes⟩
        · exact .inl stillFree
        · refine .inr ⟨first :: before, token, after, middle, later, rfl, ?_, middleFree, makes⟩
          rw [run_cons, steps, Outcome.ok_bind, earlierRuns]
      · exact .inr ⟨[], first, rest, stack, next, rfl, rfl, free, steps, makesNaN⟩

end Machine

/-- A run of a sequence comes to a stack of numbers of which a basic operator makes a NaN. -/
def BringsNaN (bindings : Bindings) (table : FunctionTable) (sequence : List Token) : Prop :=
  ∃ before token after stack following,
    sequence = before ++ token :: after ∧
      Machine.run bindings table before [] = .ok stack ∧
      NaNFree stack ∧
      Machine.step bindings table stack token = .ok following ∧
      MakesNaN stack token following

section Evaluation

variable
  {bindings : Bindings}
  {table : FunctionTable}
  {sequence : List Token}

theorem naNFree_or_bringsNaN_of_run
    {stack : List Binary64}
    (inputs : NaNFreeInputs bindings table)
    (numbers : NaNFreeNumbers sequence)
    (runs : Machine.run bindings table sequence [] = .ok stack) :
    NaNFree stack ∨ BringsNaN bindings table sequence := by
  have startFree : NaNFree [] := by
    simp [NaNFree]
  exact Machine.naNFree_or_exists_makesNaN_of_run inputs numbers startFree runs

/-- A value that is NaN has been brought about by a basic operator. -/
theorem bringsNaN_of_evaluatePostfix
    (inputs : NaNFreeInputs bindings table)
    (numbers : NaNFreeNumbers sequence)
    (evaluates : evaluatePostfix bindings table sequence = .ok .nan) :
    BringsNaN bindings table sequence := by
  have runs := Machine.run_of_evaluatePostfix bindings table evaluates []
  rcases naNFree_or_bringsNaN_of_run inputs numbers runs with free | brings
  · cases free .nan List.mem_cons_self
  · exact brings

/-- The difference of an infinity with itself is a NaN, and a value. -/
example :
    evaluatePostfix .empty .empty
        [.number [] (.infinity false), .number [] (.infinity false), .operator Byte.minus] =
      .ok .nan := by
  rfl

/-- A NaN is brought about by a basic operator of the sequence. -/
theorem BringsNaN.exists_operator
    (brings : BringsNaN bindings table sequence) :
    ∃ operator : Operator, operator.isBasic = true ∧ .operator operator.symbol ∈ sequence := by
  obtain ⟨before, token, after, stack, following, rfl, -, -, -, makesNaN⟩ := brings
  cases makesNaN with
  | @basic operator left right below isBasic leftReal rightReal applies =>
      exact ⟨operator, isBasic, by simp⟩

/-- No number of a formula is NaN, nor does the order of its tokens make one. -/
theorem naNFreeNumbers_of_toPostfix
    {formula : Text}
    {tokens : List Token}
    (read : tokenize formula = .ok tokens)
    (converted : toPostfix tokens = .ok sequence) :
    NaNFreeNumbers sequence := by
  intro text value member
  have inTokens : Token.number text value ∈ tokens :=
    standsIn_of_toPostfix converted _ member
  exact isNaN_parseNumber? (Scanner.wellFormed_of_tokensFrom read _ inTokens).1

/-- A formula without basic operators has no value that is NaN, strictly or not. -/
theorem isNaN_of_evaluate
    {formula : Text}
    {strict : Bool}
    {value : Binary64}
    (inputs : NaNFreeInputs bindings table)
    (noneBasic :
      ∀ tokens (operator : Operator),
        tokenize formula = .ok tokens →
        operator.isBasic = true →
        .operator operator.symbol ∉ tokens)
    (evaluates :
      Evaluator.evaluate { functions := table, strict := strict } bindings formula =
        .ok value) :
    value.isNaN = false := by
  obtain ⟨tokens, sequence, read, converted, computed⟩ :=
    exists_toPostfix_of_evaluate (.ok value) (evaluate_of_evaluator_eq_ok evaluates)
  apply Bool.eq_false_iff.mpr
  intro isNaN
  obtain rfl := Binary64.eq_nan_of_isNaN isNaN
  have numbers := naNFreeNumbers_of_toPostfix read converted
  have brings := bringsNaN_of_evaluatePostfix inputs numbers computed
  obtain ⟨operator, isBasic, member⟩ := brings.exists_operator
  have inTokens : Token.operator operator.symbol ∈ tokens :=
    standsIn_of_toPostfix converted _ member
  exact noneBasic tokens operator read isBasic inTokens

end Evaluation

/--
Where the NaNs of an evaluation come from, and the faults that stand for one.
From inputs that are numbers, a step makes the first NaN only with a basic
operator on two numbers, so every run with a NaN on its stack and every value
that is NaN has such a step. A domain error that no function has raised itself
is about a remainder, a power or a function that has no result for numbers.
-/
structure NaNProvenance (bindings : Bindings) (table : FunctionTable) : Prop where
  step :
    NaNFreeInputs bindings table →
    ∀ stack token following,
      NaNFreeNumbers [token] →
      NaNFree stack →
      Machine.step bindings table stack token = .ok following →
      NaNFree following ∨ MakesNaN stack token following
  run :
    NaNFreeInputs bindings table →
    ∀ sequence stack,
      NaNFreeNumbers sequence →
      Machine.run bindings table sequence [] = .ok stack →
      NaNFree stack ∨ BringsNaN bindings table sequence
  value :
    NaNFreeInputs bindings table →
    ∀ sequence,
      NaNFreeNumbers sequence →
      evaluatePostfix bindings table sequence = .ok .nan →
      BringsNaN bindings table sequence
  domainError :
    ∀ sequence fault,
      evaluatePostfix bindings table sequence = .error fault →
      fault.report.kind = .domainError →
      (∀ report, fault ≠ .raised report) →
      ∃ before token after stack,
        sequence = before ++ token :: after ∧
          Machine.run bindings table before [] = .ok stack ∧
          Machine.Undefined bindings table stack token
  formula :
    NaNFreeInputs bindings table →
    ∀ formula strict value,
      (∀ tokens (operator : Operator),
        tokenize formula = .ok tokens →
        operator.isBasic = true →
        .operator operator.symbol ∉ tokens) →
      Evaluator.evaluate { functions := table, strict := strict } bindings formula = .ok value →
      value.isNaN = false

/-- NaNs come from basic operators, and domain errors from everything else without a result. -/
theorem evaluation_naNProvenance
    (bindings : Bindings)
    (table : FunctionTable) :
    NaNProvenance bindings table where
  step := fun inputs stack token following numbers free steps =>
    Machine.naNFree_or_makesNaN_of_step inputs numbers free steps
  run := fun inputs sequence stack numbers runs =>
    naNFree_or_bringsNaN_of_run inputs numbers runs
  value := fun inputs sequence numbers evaluates =>
    bringsNaN_of_evaluatePostfix inputs numbers evaluates
  domainError := by
    intro sequence fault fails kind own
    rcases exists_stepFails_of_evaluatePostfix fails with
      rfl | ⟨before, token, after, stack, split, runs, stepFails⟩
    · cases kind
    · exact ⟨before, token, after, stack, split, runs, stepFails.undefined kind own⟩
  formula := fun inputs formula strict value noneBasic evaluates =>
    isNaN_of_evaluate inputs noneBasic evaluates

end Reckoner
