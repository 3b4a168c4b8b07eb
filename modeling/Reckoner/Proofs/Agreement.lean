import Reckoner.Proofs.Occurrences
import Reckoner.Proofs.StrictNames

/-!
# An evaluation asks only for the names of its formula

Every name of a postfix sequence stands in the formula, and each step of a run
looks up the name of its token and no other: its function first, and its value
only if it has no function and is not called. So two pairs of bindings and
functions that agree about the names of a formula, in the places where they are
looked up, give it the same outcome, faults included.
-/

namespace Reckoner

/--
Bindings and functions that agree about the names of a sequence: about all of
their functions, and about the values of those that are looked up as variables.
-/
structure Agree
    (bindings others : Bindings)
    (table otherTable : FunctionTable)
    (sequence : List Token) :
    Prop where
  functions :
    ∀ name arguments,
      .name name arguments ∈ sequence →
      table.find? name = otherTable.find? name
  values :
    ∀ name arguments,
      .name name arguments ∈ sequence →
      arguments < 0 →
      table.find? name = none →
      bindings.find? name = others.find? name

namespace Agree

variable
  {bindings others : Bindings}
  {table otherTable : FunctionTable}
  {token : Token}
  {rest sequence : List Token}

theorem head
    (agree : Agree bindings others table otherTable (token :: rest)) :
    Agree bindings others table otherTable [token] where
  functions := fun name arguments member =>
    agree.functions name arguments (List.mem_cons.mpr (.inl (List.mem_singleton.mp member)))
  values := fun name arguments member =>
    agree.values name arguments (List.mem_cons.mpr (.inl (List.mem_singleton.mp member)))

theorem tail
    (agree : Agree bindings others table otherTable (token :: rest)) :
    Agree bindings others table otherTable rest where
  functions := fun name arguments member =>
    agree.functions name arguments (List.mem_cons_of_mem token member)
  values := fun name arguments member =>
    agree.values name arguments (List.mem_cons_of_mem token member)

/-- The values that are looked up agree if no name without a function is told apart. -/
theorem of_values
    (same :
      ∀ name arguments,
        .name name arguments ∈ sequence →
        table.find? name = none →
        bindings.find? name = others.find? name) :
    Agree bindings others table table sequence where
  functions := fun _ _ _ => rfl
  values := fun name arguments member _ missing => same name arguments member missing

/-! ## Runs -/

/-- A step looks up no name but that of its token. -/
theorem step_eq
    (agree : Agree bindings others table otherTable [token])
    (stack : List Binary64) :
    Machine.step bindings table stack token = Machine.step others otherTable stack token := by
  cases token with
  | name name arguments =>
      have sameFunction := agree.functions name arguments List.mem_cons_self
      cases found : table.find? name with
      | some function =>
          rw [found] at sameFunction
          simp only [Machine.step, found, ← sameFunction]
      | none =>
          rw [found] at sameFunction
          by_cases called : 0 ≤ arguments
          · simp only [Machine.step, found, ← sameFunction, called, if_true]
          · have sameValue :=
              agree.values name arguments List.mem_cons_self (Int.not_le.mp called) found
            simp only [Machine.step, found, ← sameFunction, sameValue]
  | _ =>
      rfl

theorem run_eq
    (agree : Agree bindings others table otherTable sequence)
    (stack : List Binary64) :
    Machine.run bindings table sequence stack =
      Machine.run others otherTable sequence stack := by
  induction sequence generalizing stack with
  | nil =>
      rfl
  | cons token rest inductionHypothesis =>
      rw [Machine.run_cons, Machine.run_cons, agree.head.step_eq]
      cases Machine.step others otherTable stack token with
      | error fault =>
          rfl
      | ok following =>
          exact inductionHypothesis agree.tail following

/-! ## Strict checks -/

theorem resolve_eq
    (agree : Agree bindings others table otherTable [token]) :
    resolve bindings table token = resolve others otherTable token := by
  cases token with
  | name name arguments =>
      have sameFunction := agree.functions name arguments List.mem_cons_self
      cases found : table.find? name with
      | some function =>
          rw [found] at sameFunction
          simp [resolve, FunctionTable.contains, found, ← sameFunction]
      | none =>
          rw [found] at sameFunction
          by_cases called : 0 ≤ arguments
          · simp [resolve, FunctionTable.contains, found, ← sameFunction, called]
          · have sameValue :=
              agree.values name arguments List.mem_cons_self (Int.not_le.mp called) found
            simp only [resolve, FunctionTable.contains, Dictionary.contains, found,
              ← sameFunction, sameValue]
            rfl
  | _ =>
      rfl

theorem forM_resolve_eq
    (agree : Agree bindings others table otherTable sequence) :
    sequence.forM (resolve bindings table) = sequence.forM (resolve others otherTable) := by
  induction sequence with
  | nil =>
      rfl
  | cons token rest inductionHypothesis =>
      rw [forM_resolve_cons, forM_resolve_cons, agree.head.resolve_eq,
        inductionHypothesis agree.tail]

/-! ## Formulas -/

/-- Agreement about a postfix sequence is all that the evaluation of its formula needs. -/
theorem evaluate_eq
    {formula : Text}
    {tokens : List Token}
    (read : tokenize formula = .ok tokens)
    (converted : toPostfix tokens = .ok sequence)
    (agree : Agree bindings others table otherTable sequence)
    (strict : Bool) :
    Evaluator.evaluate { functions := table, strict := strict } bindings formula =
      Evaluator.evaluate { functions := otherTable, strict := strict } others formula := by
  have lenient : evaluate bindings table formula = evaluate others otherTable formula := by
    rw [evaluate_of_toPostfix read converted, evaluate_of_toPostfix read converted,
      evaluatePostfix, evaluatePostfix, agree.run_eq]
  cases strict with
  | false =>
      exact lenient
  | true =>
      rw [strict_evaluate_of_toPostfix read converted, strict_evaluate_of_toPostfix read converted,
        agree.forM_resolve_eq, lenient]

/-- Agreement about the names of tokens, as they stand there, is agreement about their order. -/
theorem of_toPostfix
    {tokens : List Token}
    (converted : toPostfix tokens = .ok sequence)
    (sameFunctions :
      ∀ name arguments,
        .name name arguments ∈ tokens →
        table.find? name = otherTable.find? name)
    (sameValues :
      ∀ name arguments,
        StandsBare tokens name arguments →
        table.find? name = none →
        bindings.find? name = others.find? name) :
    Agree bindings others table otherTable sequence where
  functions := by
    intro name arguments member
    obtain ⟨original, stands⟩ :=
      (standsIn_of_toPostfix converted _ member).exists_mem
    exact sameFunctions name original stands
  values := by
    intro name arguments member bare missing
    rcases standsIn_of_toPostfix converted _ member with
      standsBare | ⟨count, called, -⟩
    · exact sameValues name arguments standsBare missing
    · omega

end Agree

/--
What the outcome of a formula depends on. Pairs of bindings and functions that
agree about its names give it the same outcome: they have to agree about the
function of every name that it mentions, and about the value of every name that
stands there without a call and has no function. So the value of a name with a
function does not matter, and more values do not change a value.
-/
structure DependsOnMentioned (formula : Text) : Prop where
  agreeing :
    ∀ (bindings others : Bindings) (table otherTable : FunctionTable),
      (∀ tokens name arguments,
        tokenize formula = .ok tokens →
        .name name arguments ∈ tokens →
        table.find? name = otherTable.find? name) →
      (∀ tokens name arguments,
        tokenize formula = .ok tokens →
        StandsBare tokens name arguments →
        table.find? name = none →
        bindings.find? name = others.find? name) →
      ∀ strict,
        Evaluator.evaluate { functions := table, strict := strict } bindings formula =
          Evaluator.evaluate { functions := otherTable, strict := strict } others formula
  shadowed :
    ∀ (bindings others : Bindings) (table : FunctionTable),
      (∀ name, table.contains name = false → bindings.find? name = others.find? name) →
      ∀ strict,
        Evaluator.evaluate { functions := table, strict := strict } bindings formula =
          Evaluator.evaluate { functions := table, strict := strict } others formula
  extended :
    ∀ (bindings others : Bindings) (table : FunctionTable) value,
      (∀ name bound, bindings.find? name = some bound → others.find? name = some bound) →
      ∀ strict,
        Evaluator.evaluate { functions := table, strict := strict } bindings formula =
            .ok value →
        Evaluator.evaluate { functions := table, strict := strict } others formula = .ok value

section Formulas

variable
  {formula : Text}
  {bindings others : Bindings}
  {table otherTable : FunctionTable}

theorem evaluate_eq_of_agreeing
    (sameFunctions :
      ∀ tokens name arguments,
        tokenize formula = .ok tokens →
        .name name arguments ∈ tokens →
        table.find? name = otherTable.find? name)
    (sameValues :
      ∀ tokens name arguments,
        tokenize formula = .ok tokens →
        StandsBare tokens name arguments →
        table.find? name = none →
        bindings.find? name = others.find? name)
    (strict : Bool) :
    Evaluator.evaluate { functions := table, strict := strict } bindings formula =
      Evaluator.evaluate { functions := otherTable, strict := strict } others formula := by
  cases read : tokenize formula with
  | error cause =>
      rw [(evaluate_of_tokenize_eq_error read strict).2,
        (evaluate_of_tokenize_eq_error read strict).2]
  | ok tokens =>
      cases converted : toPostfix tokens with
      | error cause =>
          rw [(evaluate_of_toPostfix_eq_error read converted strict).2,
            (evaluate_of_toPostfix_eq_error read converted strict).2]
      | ok sequence =>
          have agree : Agree bindings others table otherTable sequence :=
            .of_toPostfix converted
              (fun name arguments => sameFunctions tokens name arguments read)
              (fun name arguments => sameValues tokens name arguments read)
          exact agree.evaluate_eq read converted strict

/-- A value is found from names that all have a function or a value, so more of them do no harm. -/
theorem evaluate_eq_ok_of_extended
    {value : Binary64}
    (keeps : ∀ name bound, bindings.find? name = some bound → others.find? name = some bound)
    {strict : Bool}
    (evaluates :
      Evaluator.evaluate { functions := table, strict := strict } bindings formula =
        .ok value) :
    Evaluator.evaluate { functions := table, strict := strict } others formula = .ok value := by
  obtain ⟨tokens, sequence, read, converted, computed⟩ :=
    exists_toPostfix_of_evaluate (.ok value) (evaluate_of_evaluator_eq_ok evaluates)
  have agree : Agree bindings others table table sequence := {
    functions := fun _ _ _ => rfl
    values := by
      intro name arguments member bare missing
      have resolved := resolved_of_evaluatePostfix computed _ member
      cases bound : bindings.find? name with
      | some value =>
          exact (keeps name value bound).symm
      | none =>
          refine (resolved ⟨name, arguments, rfl, ?_, .inr ?_⟩).elim
          · simp [FunctionTable.contains, missing]
          · simp [Dictionary.contains, bound]
  }
  rw [← agree.evaluate_eq read converted strict]
  exact evaluates

end Formulas

/--
The outcome of a formula depends on nothing but the names that it mentions,
strictly or not; evaluation without an evaluator is not strict.
-/
theorem evaluation_dependsOnMentioned
    (formula : Text) :
    (∀ bindings table,
        evaluate bindings table formula =
          Evaluator.evaluate { functions := table, strict := false } bindings formula) ∧
      DependsOnMentioned formula := by
  refine ⟨fun _ _ => rfl, ?_⟩
  exact {
    agreeing := fun _ _ _ _ sameFunctions sameValues =>
      evaluate_eq_of_agreeing sameFunctions sameValues
    shadowed := by
      intro bindings others table sameValues
      apply evaluate_eq_of_agreeing
      · intro tokens name arguments read member
        rfl
      · intro tokens name arguments read stands missing
        apply sameValues
        simp [FunctionTable.contains, missing]
    extended := fun _ _ _ _ keeps strict => evaluate_eq_ok_of_extended keeps
  }

end Reckoner
