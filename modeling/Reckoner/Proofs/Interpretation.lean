import Reckoner.Proofs.OperandStack
import Reckoner.Proofs.PostfixOrder
import Reckoner.Proofs.Separation
import Reckoner.Proofs.Stages

/-!
# Evaluation as interpretation

Evaluating a formula gives what its derivation means. The postorder of a
derivation leaves the value of the derivation on top of whatever the stack held
before, and the postorder of arguments leaves their values with the last one on
top. A call then finds exactly its own arguments there. Faults come in the same
order on both sides, since both go from left to right.
-/

namespace Reckoner

namespace Function

/-- An admissible number of arguments is completed by the defaults still missing. -/
theorem complete_eq_append_drop
    (function : Function)
    {arguments : List Binary64}
    (enough : function.required ≤ arguments.length)
    (notTooMany : arguments.length ≤ function.arity) :
    function.complete arguments =
      arguments ++
        function.defaults.drop
          (function.defaults.length - (function.arity - arguments.length)) := by
  have fits := function.defaults_le
  have same :
      arguments.length - function.required =
        function.defaults.length - (function.arity - arguments.length) := by
    rw [required] at enough ⊢
    omega
  rw [complete, same]

/-- Applying a function to admissible arguments is what a call of it means. -/
theorem apply_eq_callValue
    {table : FunctionTable}
    {name : Text}
    {function : Function}
    (found : table.find? name = some function)
    {arguments : List Binary64}
    (enough : function.required ≤ arguments.length)
    (notTooMany : arguments.length ≤ function.arity) :
    function.apply name arguments = callValue table name arguments := by
  have admissible :
      function.arity - function.defaults.length ≤ arguments.length ∧
        arguments.length ≤ function.arity :=
    ⟨enough, notTooMany⟩
  simp only [callValue, found, admissible, and_self, if_true, apply,
    function.complete_eq_append_drop enough notTooMany]
  generalize arguments ++ _ = padded
  cases function.body padded with
  | error report =>
      rfl
  | ok result =>
      simp

end Function

namespace Machine

variable
  (bindings : Bindings)
  (table : FunctionTable)

/-- A name without a function stands for the value it is bound to. -/
theorem step_bareName
    {name : Text}
    (unregistered : table.contains name = false)
    (stack : List Binary64) :
    step bindings table stack (.bareName name) =
      ((Derivation.name name).value bindings table).map (· :: stack) := by
  have missing : table.find? name = none := by
    simpa [FunctionTable.contains] using unregistered
  cases bound : bindings.find? name with
  | none =>
      simp [step, Token.bareName, missing, Derivation.value, bound]
  | some value =>
      simp [step, Token.bareName, missing, Derivation.value, bound]

/-- A call takes exactly its own arguments from the stack and leaves its value. -/
theorem step_call
    (name : Text)
    (arguments below : List Binary64) :
    step bindings table (arguments.reverse ++ below) (.name name arguments.length) =
      (callValue table name arguments).map (· :: below) := by
  cases found : table.find? name with
  | none =>
      simp [step, callValue, found]
  | some function =>
      have taken := function.taken_natCast arguments.length
      simp only [step, found]
      by_cases admissible :
          function.required ≤ arguments.length ∧ arguments.length ≤ function.arity
      · rw [function.call_of_admissible name taken admissible.1 admissible.2,
          function.apply_eq_callValue found admissible.1 admissible.2]
      · have inadmissible :
            function.taken arguments.length < function.required ∨
              function.arity < function.taken arguments.length := by
          rw [taken]
          omega
        rw [function.call_of_inadmissible name inadmissible, taken]
        rw [Function.required] at admissible ⊢
        simp only [callValue, found, if_neg admissible, Outcome.map_error]

end Machine

/-- There are as many values as arguments. -/
theorem Arguments.length_values
    (bindings : Bindings)
    (table : FunctionTable)
    {arguments : Arguments}
    {values : List Binary64}
    (evaluated : arguments.values bindings table = .ok values) :
    values.length = arguments.count := by
  match arguments, evaluated with
  | .last argument, evaluated =>
      rw [Arguments.values] at evaluated
      obtain ⟨value, _, single⟩ := Outcome.bind_eq_ok_iff.mp evaluated
      cases single
      rfl
  | .more argument rest, evaluated =>
      rw [Arguments.values] at evaluated
      obtain ⟨value, _, others⟩ := Outcome.bind_eq_ok_iff.mp evaluated
      obtain ⟨restValues, restEvaluated, all⟩ := Outcome.bind_eq_ok_iff.mp others
      cases all
      rw [Arguments.count, List.length_cons,
        rest.length_values bindings table restEvaluated]

mutual

/--
The postorder of a derivation pushes its value onto any stack, or fails as the
derivation does.
-/
theorem Derivation.run_postorder
    (bindings : Bindings)
    (table : FunctionTable) :
    ∀ {level : Nat}
      (derivation : Derivation level)
      (_ : ∀ text ∈ derivation.bareNames, table.contains text = false)
      (stack : List Binary64),
      Machine.run bindings table derivation.postorder stack =
        (derivation.value bindings table).map (· :: stack)
  | _, .operation operator left right, unregistered, stack => by
      have leftRun :=
        left.run_postorder bindings table
          (fun text member => unregistered text (List.mem_append_left _ member))
      have rightRun :=
        right.run_postorder bindings table
          (fun text member => unregistered text (List.mem_append_right _ member))
      rw [Derivation.postorder, Derivation.value, Machine.run_append, Machine.run_append,
        leftRun]
      cases left.value bindings table with
      | error fault =>
          rfl
      | ok leftValue =>
          simp only [Outcome.map_ok, Outcome.ok_bind, rightRun]
          cases right.value bindings table with
          | error fault =>
              rfl
          | ok rightValue =>
              rw [Outcome.map_ok, Outcome.ok_bind, Outcome.ok_bind, Machine.run_singleton]
              rfl
  | _, .tighter inner, unregistered, stack =>
      inner.run_postorder bindings table unregistered stack
  | _, .number _ _, _, _ =>
      rfl
  | _, .name text, unregistered, stack => by
      rw [Derivation.postorder, Machine.run_singleton]
      exact Machine.step_bareName bindings table
        (unregistered text (by simp [Derivation.bareNames])) stack
  | _, .emptyCall name, _, stack => by
      rw [Derivation.postorder, Machine.run_singleton]
      exact Machine.step_call bindings table name [] stack
  | _, .call name arguments, unregistered, stack => by
      have argumentsRun := arguments.run_postorder bindings table unregistered stack
      rw [Derivation.postorder, Derivation.value, Machine.run_append, argumentsRun]
      cases evaluated : arguments.values bindings table with
      | error fault =>
          rfl
      | ok values =>
          have counted := arguments.length_values bindings table evaluated
          simp only [Outcome.map_ok, Outcome.ok_bind, Machine.run_singleton]
          rw [← counted]
          exact Machine.step_call bindings table name values stack
  | _, .group inner, unregistered, stack =>
      inner.run_postorder bindings table unregistered stack

/-- The postorder of arguments pushes their values, the last one on top. -/
theorem Arguments.run_postorder
    (bindings : Bindings)
    (table : FunctionTable) :
    ∀ (arguments : Arguments)
      (_ : ∀ text ∈ arguments.bareNames, table.contains text = false)
      (stack : List Binary64),
      Machine.run bindings table arguments.postorder stack =
        (arguments.values bindings table).map (·.reverse ++ stack)
  | .last argument, unregistered, stack => by
      have argumentRun := argument.run_postorder bindings table unregistered stack
      rw [Arguments.postorder, Arguments.values, argumentRun]
      cases argument.value bindings table with
      | error fault =>
          rfl
      | ok value =>
          rfl
  | .more argument rest, unregistered, stack => by
      have argumentRun :=
        argument.run_postorder bindings table
          (fun text member => unregistered text (List.mem_append_left _ member))
      have restRun :=
        rest.run_postorder bindings table
          (fun text member => unregistered text (List.mem_append_right _ member))
      rw [Arguments.postorder, Arguments.values, Machine.run_append, argumentRun]
      cases argument.value bindings table with
      | error fault =>
          rfl
      | ok value =>
          simp only [Outcome.map_ok, Outcome.ok_bind, restRun]
          cases rest.values bindings table with
          | error fault =>
              rfl
          | ok values =>
              simp

end

/--
A formula that is written as a derivation evaluates to the value of the
derivation, or fails as the derivation does, provided that no name in it that is
not called has a function.
-/
theorem evaluate_eq_value
    {formula : Text}
    {derivation : Derivation sumLevel}
    (written : tokenize formula = .ok derivation.yield)
    (bindings : Bindings)
    (table : FunctionTable)
    (unregistered : ∀ text ∈ derivation.bareNames, table.contains text = false) :
    evaluate bindings table formula =
      (derivation.value bindings table).mapError .evaluate := by
  obtain ⟨after, runs, read⟩ := Conversion.run_start_yield derivation
  have converted : toPostfix derivation.yield = .ok derivation.postorder := by
    rw [toPostfix, runs]
    exact read.finish
  have evaluated :
      evaluatePostfix bindings table derivation.postorder =
        derivation.value bindings table := by
    rw [evaluatePostfix, derivation.run_postorder bindings table unregistered []]
    cases derivation.value bindings table with
    | error fault =>
        rfl
    | ok value =>
        rfl
  rw [evaluate_of_toPostfix written converted, evaluated]

/--
The formula `f(x)*(y-z)` with one argument of `f` left out and `z` unbound: the
call is evaluated first, and then the fault is that of its derivation.
-/
theorem evaluate_call_times_difference :
    let f := Text.ofString "f"
    let x := Text.ofString "x"
    let y := Text.ofString "y"
    let z := Text.ofString "z"
    let formula := Text.ofString "f(x)*(y-z)"
    let derivation : Derivation sumLevel :=
      .tighter (.operation .multiply
        (.tighter (.tighter (.call f (.last (.tighter (.tighter (.tighter (.name x))))))))
        (.tighter (.group (.operation .subtract
          (.tighter (.tighter (.tighter (.name y))))
          (.tighter (.tighter (.name z)))))))
    let bindings := Dictionary.ofList [(x, .one), (y, .one)]
    let function : Function := {
      arity := 2
      defaults := [.zero]
      body := fun arguments => .ok (arguments.getD 1 .nan)
      defaults_le := by decide
    }
    let table := FunctionTable.empty.insert f (by decide) function
    tokenize formula = .ok derivation.yield ∧
      (∀ text ∈ derivation.bareNames, table.contains text = false) ∧
      evaluate bindings table formula = .error (.evaluate (.undefinedVariable z)) := by
  intro f x y z formula derivation bindings function table
  have written : tokenize formula = .ok derivation.yield :=
    tokenize_of_answers rfl
  have unregistered : ∀ text ∈ derivation.bareNames, table.contains text = false := by
    decide
  refine ⟨written, unregistered, ?_⟩
  rw [evaluate_eq_value written bindings table unregistered]
  rfl

end Reckoner
