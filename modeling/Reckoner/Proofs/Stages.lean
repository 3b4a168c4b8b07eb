import Reckoner.Evaluator
import Reckoner.Proofs.Outcome

/-!
# The stages of an evaluation

A formula is evaluated in stages, and the first stage that fails decides the
outcome. A strict evaluator has one stage more, before anything is computed.
-/

namespace Reckoner

variable
  {bindings : Bindings}
  {table : FunctionTable}
  {formula : Text}
  {tokens sequence : List Token}

/-- A formula that can be read is evaluated from its postfix sequence. -/
theorem evaluate_of_toPostfix
    (read : tokenize formula = .ok tokens)
    (converted : toPostfix tokens = .ok sequence) :
    evaluate bindings table formula =
      (evaluatePostfix bindings table sequence).mapError .evaluate := by
  simp only [evaluate, read, converted, Outcome.mapError_ok, Outcome.ok_bind]

/-- A strict evaluator checks the postfix sequence and then evaluates it. -/
theorem strict_evaluate_of_toPostfix
    (read : tokenize formula = .ok tokens)
    (converted : toPostfix tokens = .ok sequence) :
    Evaluator.evaluate { functions := table, strict := true } bindings formula =
      (sequence.forM (resolve bindings table)).mapError .parse >>= fun _ =>
        evaluate bindings table formula := by
  rw [evaluate_of_toPostfix read converted]
  simp only [Evaluator.evaluate, Evaluator.order, toResolvedPostfix, read, converted,
    Outcome.mapError_ok, Outcome.ok_bind, if_true]
  cases sequence.forM (resolve bindings table) with
  | error cause =>
      rfl
  | ok passed =>
      rfl

/-- Formulas are evaluated alike if their postfix sequences are checked and evaluated alike. -/
theorem evaluate_eq_of_sequences
    {others : Bindings}
    {otherFormula : Text}
    {otherTokens otherSequence : List Token}
    (read : tokenize formula = .ok tokens)
    (converted : toPostfix tokens = .ok sequence)
    (otherRead : tokenize otherFormula = .ok otherTokens)
    (otherConverted : toPostfix otherTokens = .ok otherSequence)
    (sameCheck :
      sequence.forM (resolve bindings table) = otherSequence.forM (resolve others table))
    (sameOutcome :
      evaluatePostfix bindings table sequence = evaluatePostfix others table otherSequence)
    (strict : Bool) :
    Evaluator.evaluate { functions := table, strict := strict } bindings formula =
      Evaluator.evaluate { functions := table, strict := strict } others otherFormula := by
  have lenient : evaluate bindings table formula = evaluate others table otherFormula := by
    rw [evaluate_of_toPostfix read converted,
      evaluate_of_toPostfix otherRead otherConverted, sameOutcome]
  cases strict with
  | false =>
      exact lenient
  | true =>
      rw [strict_evaluate_of_toPostfix read converted,
        strict_evaluate_of_toPostfix otherRead otherConverted, sameCheck, lenient]

/-- A formula that cannot be read is refused alike, strictly or not. -/
theorem evaluate_of_tokenize_eq_error
    {cause : ParseFault}
    (unreadable : tokenize formula = .error cause)
    (strict : Bool) :
    evaluate bindings table formula = .error (.parse cause) ∧
      Evaluator.evaluate { functions := table, strict := strict } bindings formula =
        .error (.parse cause) := by
  constructor
  · simp only [evaluate, unreadable, Outcome.mapError_error, Outcome.error_bind]
  · simp only [Evaluator.evaluate, unreadable, Outcome.mapError_error, Outcome.error_bind]

/-- A formula without postfix order is refused alike, strictly or not. -/
theorem evaluate_of_toPostfix_eq_error
    {cause : ParseFault}
    (read : tokenize formula = .ok tokens)
    (unordered : toPostfix tokens = .error cause)
    (strict : Bool) :
    evaluate bindings table formula = .error (.parse cause) ∧
      Evaluator.evaluate { functions := table, strict := strict } bindings formula =
        .error (.parse cause) := by
  constructor
  · simp only [evaluate, read, unordered, Outcome.mapError_ok, Outcome.mapError_error,
      Outcome.ok_bind, Outcome.error_bind]
  · cases strict <;>
      simp [Evaluator.evaluate, Evaluator.order, toResolvedPostfix, read, unordered]

/-- A formula is refused for its text exactly if its tokens cannot be read or ordered. -/
theorem Evaluator.evaluate_eq_parse_iff
    {evaluator : Evaluator}
    {refusal : ParseFault} :
    evaluator.evaluate bindings formula = .error (.parse refusal) ↔
      (tokenize formula >>= evaluator.order bindings) = .error refusal := by
  unfold evaluate
  cases tokenize formula with
  | error cause =>
      simp
  | ok tokens =>
      rw [Outcome.mapError_ok, Outcome.ok_bind, Outcome.ok_bind]
      cases evaluator.order bindings tokens with
      | error cause =>
          simp
      | ok sequence =>
          cases computed : evaluatePostfix bindings evaluator.functions sequence <;>
            simp [computed]

/-- An evaluation that goes beyond reading has a postfix sequence. -/
theorem exists_toPostfix_of_evaluate
    (outcome : Except EvalFault Binary64)
    (evaluated : evaluate bindings table formula = outcome.mapError .evaluate) :
    ∃ tokens sequence,
      tokenize formula = .ok tokens ∧
        toPostfix tokens = .ok sequence ∧
        evaluatePostfix bindings table sequence = outcome := by
  cases read : tokenize formula with
  | error cause =>
      rw [(evaluate_of_tokenize_eq_error read false).1] at evaluated
      cases outcome <;> cases evaluated
  | ok tokens =>
      cases converted : toPostfix tokens with
      | error cause =>
          rw [(evaluate_of_toPostfix_eq_error read converted false).1] at evaluated
          cases outcome <;> cases evaluated
      | ok sequence =>
          rw [evaluate_of_toPostfix read converted] at evaluated
          refine ⟨tokens, sequence, rfl, converted, ?_⟩
          cases computed : evaluatePostfix bindings table sequence <;>
            cases outcome <;> rw [computed] at evaluated <;> cases evaluated <;> rfl

end Reckoner
