import Reckoner.Proofs.OperandStack
import Reckoner.Proofs.Stages

/-!
# Strict treatment of names

A strict evaluator decides before evaluation whether every name resolves, while
the stack machine finds out name by name. Both decide alike: a step fails for
want of a function or a value exactly at a name that the strict check refuses,
and a run that reaches the end has passed only names that resolve. So the check
never changes a value, and the first name it refuses is the one that evaluation
would stop at if nothing else stopped it earlier.
-/

namespace Reckoner

section Names

variable
  (bindings : Bindings)
  (table : FunctionTable)

/-- A name without a function that is called or has no value either. -/
def Unresolved (token : Token) : Prop :=
  ∃ text arguments,
    token = .name text arguments ∧
      table.contains text = false ∧
      (0 ≤ arguments ∨ bindings.contains text = false)

/-- An outcome that refuses a formula for an unknown name. -/
def Refuses (text : Text) (outcome : Except Fault Binary64) : Prop :=
  ∃ fault,
    outcome = .error fault ∧
      fault.report.stage = .parse ∧
      fault.report.kind = .unknownIdentifier ∧
      fault.report.name = text

variable {bindings table}

/-- The strict check passes every token that is resolved. -/
theorem resolve_of_not_unresolved
    {token : Token}
    (resolved : ¬ Unresolved bindings table token) :
    resolve bindings table token = .ok () := by
  cases token with
  | name text arguments =>
      rw [resolve]
      by_cases registered : table.contains text = true
      · rw [if_pos registered]
      · have unregistered : table.contains text = false := by
          simpa using registered
        have bare : ¬ (0 ≤ arguments) := fun called =>
          resolved ⟨text, arguments, rfl, unregistered, .inl called⟩
        have bound : bindings.contains text = true := by
          cases known : bindings.contains text with
          | true =>
              rfl
          | false =>
              exact (resolved ⟨text, arguments, rfl, unregistered, .inr known⟩).elim
        rw [if_neg registered, if_neg bare, if_pos bound]
  | _ =>
      rfl

/-- The strict check refuses a token that is not resolved, and tells its name. -/
theorem resolve_of_unresolved
    {text : Text}
    {arguments : Int}
    (unresolved : Unresolved bindings table (.name text arguments)) :
    ∃ cause,
      resolve bindings table (.name text arguments) = .error cause ∧
        Refuses text (.error (.parse cause)) := by
  obtain ⟨_, _, same, unregistered, reason⟩ := unresolved
  cases same
  have notRegistered : ¬ table.contains text = true := by
    simp [unregistered]
  rw [resolve, if_neg notRegistered]
  by_cases called : 0 ≤ arguments
  · rw [if_pos called]
    exact ⟨_, rfl, _, rfl, rfl, rfl, rfl⟩
  · have unbound : ¬ bindings.contains text = true := by
      simpa using reason.resolve_left called
    rw [if_neg called, if_neg unbound]
    exact ⟨_, rfl, _, rfl, rfl, rfl, rfl⟩

theorem forM_resolve_cons
    (token : Token)
    (rest : List Token) :
    (token :: rest).forM (resolve bindings table) =
      resolve bindings table token >>= fun _ => rest.forM (resolve bindings table) :=
  rfl

theorem forM_resolve_append
    (first second : List Token) :
    (first ++ second).forM (resolve bindings table) =
      first.forM (resolve bindings table) >>= fun _ =>
        second.forM (resolve bindings table) :=
  List.forM_append

/-- A sequence whose tokens are all resolved passes the strict check. -/
theorem forM_resolve_eq_ok
    {sequence : List Token}
    (resolved : ∀ token ∈ sequence, ¬ Unresolved bindings table token) :
    sequence.forM (resolve bindings table) = .ok () := by
  induction sequence with
  | nil =>
      rfl
  | cons token rest inductionHypothesis =>
      have restPasses :=
        inductionHypothesis (fun later member => resolved later (List.mem_cons_of_mem _ member))
      rw [forM_resolve_cons, resolve_of_not_unresolved (resolved token List.mem_cons_self),
        Outcome.ok_bind, restPasses]

/-- The first token that is not resolved decides how the strict check fails. -/
theorem forM_resolve_eq_error
    {earlier : List Token}
    {token : Token}
    {cause : ParseFault}
    (resolved : ∀ token ∈ earlier, ¬ Unresolved bindings table token)
    (refused : resolve bindings table token = .error cause)
    (later : List Token) :
    (earlier ++ token :: later).forM (resolve bindings table) = .error cause := by
  induction earlier with
  | nil =>
      rw [List.nil_append, forM_resolve_cons, refused, Outcome.error_bind]
  | cons first rest inductionHypothesis =>
      have restFails :=
        inductionHypothesis (fun next member => resolved next (List.mem_cons_of_mem _ member))
      rw [List.cons_append, forM_resolve_cons,
        resolve_of_not_unresolved (resolved first List.mem_cons_self),
        Outcome.ok_bind, restFails]

end Names

/-! ## Names that evaluation meets -/

/-- The name for which an evaluation stopped because it has no function or no value. -/
def EvalFault.unresolvedName? : EvalFault → Option Text
  | .unknownFunction name => some name
  | .undefinedVariable name => some name
  | _ => none

theorem unresolvedName?_realResult
    {symbol : UInt8}
    {left right result : Binary64}
    {fault : EvalFault}
    (fails : realResult symbol left right result = .error fault) :
    fault.unresolvedName? = none := by
  unfold realResult at fails
  split at fails <;> cases fails
  rfl

/-- No operator fails for a name. -/
theorem unresolvedName?_applyOperator
    {symbol : UInt8}
    {left right : Binary64}
    {fault : EvalFault}
    (fails : applyOperator symbol left right = .error fault) :
    fault.unresolvedName? = none := by
  unfold applyOperator at fails
  split at fails
  · cases fails
  · cases fails
  · cases fails
  · split at fails <;> cases fails
    rfl
  · exact unresolvedName?_realResult fails
  · exact unresolvedName?_realResult fails
  · cases fails
    rfl

/-- No call of a function fails for a name, whatever the function reports itself. -/
theorem Function.unresolvedName?_call
    {function : Function}
    {name : Text}
    {arguments : Int}
    {stack : List Binary64}
    {fault : EvalFault}
    (fails : function.call name arguments stack = .error fault) :
    fault.unresolvedName? = none := by
  unfold Function.call at fails
  simp only at fails
  split at fails
  · cases fails
    rfl
  · split at fails
    · cases fails
      rfl
    · have applied := Outcome.map_eq_error_iff.mp fails
      unfold apply at applied
      simp only at applied
      split at applied
      · cases applied
        rfl
      · split at applied <;> cases applied
        rfl

namespace Machine

variable
  {bindings : Bindings}
  {table : FunctionTable}

/-- A step that succeeds has passed a token that is resolved. -/
theorem resolved_of_step
    {stack result : List Binary64}
    {token : Token}
    (steps : step bindings table stack token = .ok result) :
    ¬ Unresolved bindings table token := by
  rintro ⟨text, arguments, rfl, unregistered, reason⟩
  have missing : table.find? text = none := by
    simpa [FunctionTable.contains] using unregistered
  simp only [step, missing] at steps
  split at steps
  · cases steps
  · next bare =>
      have unbound : bindings.find? text = none := by
        simpa [Dictionary.contains] using reason.resolve_left bare
      simp [unbound] at steps

/-- A name without a function fails only if it is not resolved, and is then told. -/
theorem unresolved_of_step_name
    {stack : List Binary64}
    {text : Text}
    {arguments : Int}
    {fault : EvalFault}
    (missing : table.find? text = none)
    (fails : step bindings table stack (.name text arguments) = .error fault) :
    Unresolved bindings table (.name text arguments) ∧ fault.unresolvedName? = some text := by
  have unregistered : table.contains text = false := by
    simp [FunctionTable.contains, missing]
  simp only [step, missing] at fails
  split at fails
  · next called =>
      cases fails
      exact ⟨⟨text, arguments, rfl, unregistered, .inl called⟩, rfl⟩
  · cases bound : bindings.find? text with
    | some value =>
        simp [bound] at fails
    | none =>
        have unbound : bindings.contains text = false := by
          simp [Dictionary.contains, bound]
        simp only [bound] at fails
        cases fails
        exact ⟨⟨text, arguments, rfl, unregistered, .inr unbound⟩, rfl⟩

/-- A step that fails for a name has met an unresolved token of that name. -/
theorem unresolved_of_step
    {stack : List Binary64}
    {token : Token}
    {fault : EvalFault}
    {text : Text}
    (fails : step bindings table stack token = .error fault)
    (named : fault.unresolvedName? = some text) :
    ∃ arguments,
      token = .name text arguments ∧ Unresolved bindings table token := by
  cases token with
  | number =>
      cases fails
  | name other arguments =>
      cases found : table.find? other with
      | some function =>
          simp only [step, found] at fails
          rw [function.unresolvedName?_call fails] at named
          cases named
      | none =>
          obtain ⟨unresolved, told⟩ := unresolved_of_step_name found fails
          rw [told] at named
          cases named
          exact ⟨arguments, rfl, unresolved⟩
  | operator symbol =>
      rcases stack with _ | ⟨right, _ | ⟨left, below⟩⟩
      · cases fails
        cases named
      · cases fails
        cases named
      · have applied := Outcome.map_eq_error_iff.mp fails
        rw [unresolvedName?_applyOperator applied] at named
        cases named
  | openParen =>
      cases fails
      cases named
  | closeParen =>
      cases fails
      cases named
  | comma =>
      cases fails
      cases named

/-- A run that reaches the end has passed only tokens that are resolved. -/
theorem resolved_of_run
    {sequence : List Token}
    {stack result : List Binary64}
    (runs : run bindings table sequence stack = .ok result) :
    ∀ token ∈ sequence, ¬ Unresolved bindings table token := by
  induction sequence generalizing stack with
  | nil =>
      intro token member
      cases member
  | cons first rest inductionHypothesis =>
      rw [run_cons] at runs
      obtain ⟨following, steps, restRuns⟩ := Outcome.bind_eq_ok_iff.mp runs
      intro token member
      rcases List.mem_cons.mp member with isFirst | inRest
      · rw [isFirst]
        exact resolved_of_step steps
      · exact inductionHypothesis restRuns token inRest

/-- A run that fails for a name fails at the first token that is not resolved. -/
theorem unresolved_of_run
    {sequence : List Token}
    {stack : List Binary64}
    {fault : EvalFault}
    {text : Text}
    (fails : run bindings table sequence stack = .error fault)
    (named : fault.unresolvedName? = some text) :
    ∃ earlier arguments later,
      sequence = earlier ++ .name text arguments :: later ∧
        (∀ token ∈ earlier, ¬ Unresolved bindings table token) ∧
        Unresolved bindings table (.name text arguments) := by
  induction sequence generalizing stack with
  | nil =>
      cases fails
  | cons first rest inductionHypothesis =>
      rw [run_cons] at fails
      cases steps : step bindings table stack first with
      | error cause =>
          rw [steps, Outcome.error_bind] at fails
          cases fails
          obtain ⟨arguments, rfl, unresolved⟩ := unresolved_of_step steps named
          exact ⟨[], arguments, rest, rfl, by simp, unresolved⟩
      | ok following =>
          rw [steps, Outcome.ok_bind] at fails
          obtain ⟨earlier, arguments, later, rfl, resolved, unresolved⟩ :=
            inductionHypothesis fails
          refine ⟨first :: earlier, arguments, later, rfl, ?_, unresolved⟩
          intro token member
          rcases List.mem_cons.mp member with isFirst | inEarlier
          · rw [isFirst]
            exact resolved_of_step steps
          · exact resolved token inEarlier

end Machine

/-! ## Strict and lenient outcomes -/

section Outcomes

variable
  {bindings : Bindings}
  {table : FunctionTable}
  {formula : Text}
  {tokens sequence : List Token}

/-- The first name that is not resolved is the one a strict evaluator refuses. -/
theorem refuses_of_first_unresolved
    (read : tokenize formula = .ok tokens)
    {earlier later : List Token}
    {text : Text}
    {arguments : Int}
    (converted : toPostfix tokens = .ok (earlier ++ .name text arguments :: later))
    (resolved : ∀ token ∈ earlier, ¬ Unresolved bindings table token)
    (unresolved : Unresolved bindings table (.name text arguments)) :
    Refuses text
      (Evaluator.evaluate { functions := table, strict := true } bindings formula) := by
  obtain ⟨cause, refused, named⟩ := resolve_of_unresolved unresolved
  have checkFails := forM_resolve_eq_error resolved refused later
  rw [strict_evaluate_of_toPostfix read converted, checkFails]
  exact named

/-- Without names that are not resolved a strict evaluator agrees with any other. -/
theorem strict_evaluate_of_resolved
    (read : tokenize formula = .ok tokens)
    (converted : toPostfix tokens = .ok sequence)
    (resolved : ∀ token ∈ sequence, ¬ Unresolved bindings table token) :
    Evaluator.evaluate { functions := table, strict := true } bindings formula =
      evaluate bindings table formula := by
  rw [strict_evaluate_of_toPostfix read converted, forM_resolve_eq_ok resolved]
  rfl

end Outcomes

/--
What a strict evaluator does with a formula, compared with lenient evaluation by
the same table. It finds the same values and the same faults in the text. If the
formula can be brought into postfix order, the first name there that is not
resolved is refused; without one nothing changes. In particular every name that
lenient evaluation stops at is refused.
-/
structure ConservativelyChecked
    (bindings : Bindings)
    (table : FunctionTable)
    (formula : Text)
    (lenient strict : Except Fault Binary64) :
    Prop where
  sameValues :
    ∀ value, lenient = .ok value ↔ strict = .ok value
  unreadable :
    ∀ {cause},
      tokenize formula = .error cause →
      lenient = .error (.parse cause) ∧ strict = .error (.parse cause)
  unordered :
    ∀ {tokens cause},
      tokenize formula = .ok tokens →
      toPostfix tokens = .error cause →
      lenient = .error (.parse cause) ∧ strict = .error (.parse cause)
  firstRefused :
    ∀ {tokens earlier text arguments later},
      tokenize formula = .ok tokens →
      toPostfix tokens = .ok (earlier ++ .name text arguments :: later) →
      (∀ token ∈ earlier, ¬ Unresolved bindings table token) →
      Unresolved bindings table (.name text arguments) →
      Refuses text strict
  unchanged :
    ∀ {tokens sequence},
      tokenize formula = .ok tokens →
      toPostfix tokens = .ok sequence →
      (∀ token ∈ sequence, ¬ Unresolved bindings table token) →
      strict = lenient
  stopRefused :
    ∀ {text},
      lenient = .error (.evaluate (.unknownFunction text)) ∨
        lenient = .error (.evaluate (.undefinedVariable text)) →
      Refuses text strict

section Conservative

variable
  {bindings : Bindings}
  {table : FunctionTable}
  {formula : Text}

/-- A value that a strict evaluator finds is the lenient value. -/
theorem evaluate_of_strict_eq_ok
    {value : Binary64}
    (evaluated :
      Evaluator.evaluate { functions := table, strict := true } bindings formula =
        .ok value) :
    evaluate bindings table formula = .ok value := by
  cases read : tokenize formula with
  | error cause =>
      rw [(evaluate_of_tokenize_eq_error read true).2] at evaluated
      cases evaluated
  | ok tokens =>
      cases converted : toPostfix tokens with
      | error cause =>
          rw [(evaluate_of_toPostfix_eq_error read converted true).2] at evaluated
          cases evaluated
      | ok sequence =>
          rw [strict_evaluate_of_toPostfix read converted] at evaluated
          obtain ⟨_, _, lenient⟩ := Outcome.bind_eq_ok_iff.mp evaluated
          exact lenient

/-- A value is the lenient value, whether it is found strictly or not. -/
theorem evaluate_of_evaluator_eq_ok
    {strict : Bool}
    {value : Binary64}
    (evaluated :
      Evaluator.evaluate { functions := table, strict := strict } bindings formula =
        .ok value) :
    evaluate bindings table formula = .ok value := by
  cases strict with
  | false =>
      exact evaluated
  | true =>
      exact evaluate_of_strict_eq_ok evaluated

/-- A sequence with a value has only names that are resolved. -/
theorem resolved_of_evaluatePostfix
    {sequence : List Token}
    {value : Binary64}
    (evaluated : evaluatePostfix bindings table sequence = .ok value) :
    ∀ token ∈ sequence, ¬ Unresolved bindings table token := by
  obtain ⟨result, runs, _⟩ := Outcome.bind_eq_ok_iff.mp evaluated
  exact Machine.resolved_of_run runs

/-- A name that evaluation stops at is the first that is not resolved. -/
theorem refuses_of_unresolvedName?
    {fault : EvalFault}
    {text : Text}
    (stops : evaluate bindings table formula = .error (.evaluate fault))
    (named : fault.unresolvedName? = some text) :
    Refuses text
      (Evaluator.evaluate { functions := table, strict := true } bindings formula) := by
  obtain ⟨tokens, sequence, read, converted, computed⟩ :=
    exists_toPostfix_of_evaluate (.error fault) stops
  have fails : Machine.run bindings table sequence [] = .error fault := by
    cases runs : Machine.run bindings table sequence [] with
    | error cause =>
        rw [evaluatePostfix, runs, Outcome.error_bind] at computed
        cases computed
        rfl
    | ok stack =>
        rw [evaluatePostfix, runs, Outcome.ok_bind] at computed
        unfold Machine.single at computed
        split at computed <;> cases computed
        cases named
  obtain ⟨earlier, arguments, later, rfl, resolved, unresolved⟩ :=
    Machine.unresolved_of_run fails named
  exact refuses_of_first_unresolved read converted resolved unresolved

end Conservative

/--
The check of a strict evaluator is conservative, and an evaluator that is not
strict has no check at all.
-/
theorem evaluator_conservativelyChecked
    (bindings : Bindings)
    (table : FunctionTable)
    (formula : Text) :
    Evaluator.evaluate { functions := table, strict := false } bindings formula =
        evaluate bindings table formula ∧
      ConservativelyChecked bindings table formula
        (evaluate bindings table formula)
        (Evaluator.evaluate { functions := table, strict := true } bindings formula) := by
  refine ⟨rfl, ?_⟩
  exact {
    sameValues := by
      intro value
      constructor
      · intro lenient
        obtain ⟨tokens, sequence, read, converted, evaluated⟩ :=
          exists_toPostfix_of_evaluate (.ok value) lenient
        have resolved := resolved_of_evaluatePostfix evaluated
        rw [strict_evaluate_of_resolved read converted resolved]
        exact lenient
      · exact evaluate_of_strict_eq_ok
    unreadable := fun unreadable =>
      evaluate_of_tokenize_eq_error unreadable true
    unordered := fun read unordered =>
      evaluate_of_toPostfix_eq_error read unordered true
    firstRefused := fun read converted resolved unresolved =>
      refuses_of_first_unresolved read converted resolved unresolved
    unchanged := fun read converted resolved =>
      strict_evaluate_of_resolved read converted resolved
    stopRefused := by
      intro text stops
      rcases stops with noFunction | noValue
      · exact refuses_of_unresolvedName? noFunction rfl
      · exact refuses_of_unresolvedName? noValue rfl
  }

end Reckoner
