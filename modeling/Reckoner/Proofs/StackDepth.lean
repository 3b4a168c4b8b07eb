import Reckoner.Proofs.MachineSteps

/-!
# The shape of a postfix sequence

Every token takes the values that it needs off the stack and pushes one. What it
needs can be read off the token and its function, so the depth of the stack
before each token is known before anything is computed. Whether a run comes to a
token that needs more than there is, and whether a single value is left at the
end, is then decided by the sequence alone. Values only decide whether an
operator or a function fails before that.
-/

namespace Reckoner

/-! ## Depths -/

/-- The number of values that a token takes off the stack. -/
def Token.need (table : FunctionTable) : Token → Nat
  | .name text arguments =>
      match table.find? text with
      | some function => function.taken arguments
      | none => 0
  | .operator _ => 2
  | _ => 0

/-- The depth that a sequence leads to from a given one, as if nothing could fail. -/
def depthFrom (table : FunctionTable) (depth : Int) (sequence : List Token) : Int :=
  sequence.foldl (fun before token => before - token.need table + 1) depth

/-- A token that needs more than there is after some other tokens. -/
def Lacks (table : FunctionTable) (before : List Token) (token : Token) : Prop :=
  depthFrom table 0 before < token.need table

/-- No token of a sequence needs more than there is before it. -/
def Covered (table : FunctionTable) (sequence : List Token) : Prop :=
  ∀ before token after, sequence = before ++ token :: after → ¬ Lacks table before token

/-- The first token that needs too much comes before every other one that does. -/
theorem Covered.exists_append
    {table : FunctionTable}
    {before others after rest : List Token}
    {token other : Token}
    (covered : Covered table before)
    (lacks : Lacks table others other)
    (same : before ++ token :: after = others ++ other :: rest) :
    ∃ between, others = before ++ between ∧ token :: after = between ++ other :: rest := by
  rcases List.append_eq_append_iff.mp same with
    ⟨between, rfl, split⟩ | ⟨between, rfl, split⟩
  · exact ⟨between, rfl, split⟩
  · cases between with
    | nil =>
        exact ⟨[], by simp, by simpa using split.symm⟩
    | cons head tail =>
        rw [List.cons_append, List.cons.injEq] at split
        obtain ⟨rfl, -⟩ := split
        exact (covered others other tail rfl lacks).elim

/-- There is only one first token that needs too much. -/
theorem Covered.first_unique
    {table : FunctionTable}
    {before others after rest : List Token}
    {token other : Token}
    (covered : Covered table before)
    (lacks : Lacks table before token)
    (otherCovered : Covered table others)
    (otherLacks : Lacks table others other)
    (same : before ++ token :: after = others ++ other :: rest) :
    token = other := by
  obtain ⟨between, split, aligned⟩ := covered.exists_append otherLacks same
  cases between with
  | nil =>
      exact (List.cons.inj aligned).1
  | cons head tail =>
      rw [List.cons_append, List.cons.injEq] at aligned
      obtain ⟨rfl, -⟩ := aligned
      exact (otherCovered before token tail split lacks).elim

/-! ## Steps -/

/-- A token that can be evaluated as far as names and numbers of arguments go. -/
inductive Token.Ready (bindings : Bindings) (table : FunctionTable) : Token → Prop where
  | number
      (text : Text)
      (value : Binary64) :
      Ready bindings table (.number text value)
  | operator
      (operator : Operator) :
      Ready bindings table (.operator operator.symbol)
  | function
      {name : Text}
      {arguments : Int}
      {function : Function}
      (found : table.find? name = some function)
      (admitted : function.Admits arguments) :
      Ready bindings table (.name name arguments)
  | boundName
      {name : Text}
      {arguments : Int}
      {value : Binary64}
      (missing : table.find? name = none)
      (bare : arguments < 0)
      (bound : bindings.find? name = some value) :
      Ready bindings table (.name name arguments)

/-- The fault of a token that needs more than there is. -/
def Token.shortage : Token → EvalFault
  | .name text _ => .missingArguments text
  | _ => .missingOperand

/-- An operator or a function that has all of its operands and fails on them. -/
inductive ApplicationFails (table : FunctionTable) (stack : List Binary64) :
    Token → EvalFault → Prop where
  | operator
      {symbol : UInt8}
      {left right : Binary64}
      {below : List Binary64}
      {fault : EvalFault}
      (operands : stack = right :: left :: below)
      (fails : applyOperator symbol left right = .error fault) :
      ApplicationFails table stack (.operator symbol) fault
  | function
      {name : Text}
      {arguments : Int}
      {function : Function}
      {fault : EvalFault}
      (found : table.find? name = some function)
      (admitted : function.Admits arguments)
      (enough : function.taken arguments ≤ stack.length)
      (fails :
        function.apply name (stack.take (function.taken arguments)).reverse = .error fault) :
      ApplicationFails table stack (.name name arguments) fault

namespace Machine

variable
  {bindings : Bindings}
  {table : FunctionTable}
  {stack following : List Binary64}
  {token : Token}
  {fault : EvalFault}

/-- A step that goes on has what its token needs, and replaces it by one value. -/
theorem length_of_step
    (steps : step bindings table stack token = .ok following) :
    token.need table ≤ stack.length ∧
      (following.length : Int) = stack.length - token.need table + 1 := by
  cases stepYields_of_step steps with
  | number text value =>
      simp [Token.need]
  | boundName missing bare bound =>
      simp [Token.need, missing]
  | application found admitted enough returns explained =>
      refine ⟨by simpa [Token.need, found] using enough, ?_⟩
      simp only [Token.need, found, List.length_cons, List.length_drop]
      omega
  | operation applies =>
      simp only [Token.need, List.length_cons]
      omega

/-- A token that is ready fails for want of values, or because it is applied and fails. -/
theorem shortage_or_applicationFails
    (ready : token.Ready bindings table)
    (fails : step bindings table stack token = .error fault) :
    (stack.length < token.need table ∧ fault = token.shortage) ∨
      ApplicationFails table stack token fault := by
  cases ready with
  | number text value =>
      cases fails
  | operator operator =>
      rcases stack with _ | ⟨right, _ | ⟨left, below⟩⟩
      · cases fails
        exact .inl ⟨by simp [Token.need], rfl⟩
      · cases fails
        exact .inl ⟨by simp [Token.need], rfl⟩
      · exact .inr (.operator rfl (Outcome.map_eq_error_iff.mp fails))
  | @function name arguments function found admitted =>
      simp only [step, found] at fails
      rcases function.call_cases name arguments stack with
        ⟨inadmissible, -⟩ | ⟨-, short, refused⟩ | ⟨-, enough, calls⟩
      · exact (inadmissible admitted).elim
      · rw [refused] at fails
        cases fails
        exact .inl ⟨by simpa [Token.need, found] using short, rfl⟩
      · rw [calls] at fails
        exact .inr (.function found admitted enough (Outcome.map_eq_error_iff.mp fails))
  | boundName missing bare bound =>
      simp [step, missing, Int.not_le.mpr bare, bound] at fails

end Machine

/-- What an operator or a function reports is its own: a division, a domain, or a raised report. -/
theorem ApplicationFails.report_kind
    {bindings : Bindings}
    {table : FunctionTable}
    {stack : List Binary64}
    {token : Token}
    {fault : EvalFault}
    (ready : token.Ready bindings table)
    (fails : ApplicationFails table stack token fault) :
    (∃ report, fault = .raised report) ∨
      fault.report.kind = .divisionByZero ∨
      fault.report.kind = .domainError := by
  cases fails with
  | @operator symbol left right below fault operands fails =>
      cases operatorFails_of_applyOperator fails with
      | divisionByZero isZero =>
          exact .inr (.inl rfl)
      | remainder leftReal rightReal undefined =>
          exact .inr (.inr rfl)
      | power leftReal rightReal undefined =>
          exact .inr (.inr rfl)
      | unknown noOperator =>
          generalize written : Token.operator symbol = token at ready
          cases ready <;> cases written
          simp [Byte.isOperator] at noOperator
  | function found admitted enough fails =>
      rcases Function.apply_eq_error fails with ⟨report, -, rfl⟩ | ⟨-, -, rfl⟩
      · exact .inl ⟨report, rfl⟩
      · exact .inr (.inr rfl)

/-! ## Runs -/

/-- A run that comes to a token whose operator or function fails on the values there. -/
def ComesToFail
    (bindings : Bindings)
    (table : FunctionTable)
    (sequence : List Token)
    (fault : EvalFault) :
    Prop :=
  ∃ before token after stack,
    sequence = before ++ token :: after ∧
      Machine.run bindings table before [] = .ok stack ∧
      ApplicationFails table stack token fault

section Runs

variable
  {bindings others : Bindings}
  {table : FunctionTable}
  {sequence : List Token}

/-- The depth after a run is the one that the sequence leads to. -/
theorem Machine.length_of_run
    {stack following : List Binary64}
    (runs : Machine.run bindings table sequence stack = .ok following) :
    (following.length : Int) = depthFrom table stack.length sequence := by
  induction sequence generalizing stack with
  | nil =>
      cases runs
      rfl
  | cons token rest inductionHypothesis =>
      rw [Machine.run_cons] at runs
      obtain ⟨middle, steps, restRuns⟩ := Outcome.bind_eq_ok_iff.mp runs
      rw [inductionHypothesis restRuns, (Machine.length_of_step steps).2]
      rfl

/-- A run that goes through meets no token that needs too much. -/
theorem covered_of_run
    {stack : List Binary64}
    (runs : Machine.run bindings table sequence [] = .ok stack) :
    Covered table sequence := by
  rintro before token after rfl lacks
  rw [Machine.run_append] at runs
  obtain ⟨middle, beforeRuns, restRuns⟩ := Outcome.bind_eq_ok_iff.mp runs
  rw [Machine.run_cons] at restRuns
  obtain ⟨next, steps, -⟩ := Outcome.bind_eq_ok_iff.mp restRuns
  have enough := (Machine.length_of_step steps).1
  have depth : (middle.length : Int) = depthFrom table 0 before :=
    Machine.length_of_run beforeRuns
  rw [Lacks, ← depth] at lacks
  omega

/-- A run goes through, comes to a failing application, or stops at the first shortage. -/
theorem run_cases
    (ready : ∀ token ∈ sequence, token.Ready bindings table) :
    (∃ stack, Machine.run bindings table sequence [] = .ok stack) ∨
      (∃ fault,
        Machine.run bindings table sequence [] = .error fault ∧
          ComesToFail bindings table sequence fault) ∨
      ∃ before token after,
        sequence = before ++ token :: after ∧
          Covered table before ∧
          Lacks table before token ∧
          Machine.run bindings table sequence [] = .error token.shortage := by
  cases runs : Machine.run bindings table sequence [] with
  | ok stack =>
      exact .inl ⟨stack, rfl⟩
  | error fault =>
      obtain ⟨before, token, after, middle, split, beforeRuns, fails⟩ :=
        Machine.exists_step_of_run_eq_error runs
      have tokenReady := ready token (by simp [split])
      rcases Machine.shortage_or_applicationFails tokenReady fails with
        ⟨short, rfl⟩ | applied
      · refine .inr (.inr ⟨before, token, after, split, covered_of_run beforeRuns, ?_, rfl⟩)
        have depth : (middle.length : Int) = depthFrom table 0 before :=
          Machine.length_of_run beforeRuns
        rw [Lacks, ← depth]
        omega
      · exact .inr (.inl ⟨fault, rfl, before, token, after, middle, split, beforeRuns, applied⟩)

/-- An application that fails comes before every token that needs too much. -/
theorem ComesToFail.before_lacking
    {before after : List Token}
    {token : Token}
    {fault : EvalFault}
    (comes : ComesToFail bindings table (before ++ token :: after) fault)
    (lacks : Lacks table before token) :
    ComesToFail bindings table before fault := by
  obtain ⟨earlier, failing, later, stack, split, runs, applied⟩ := comes
  obtain ⟨between, rfl, aligned⟩ :=
    (covered_of_run runs).exists_append lacks split.symm
  cases between with
  | nil =>
      -- The failing token would lack values itself, but it has been applied to them.
      have depth : (stack.length : Int) = depthFrom table 0 earlier :=
        Machine.length_of_run runs
      obtain ⟨rfl, -⟩ := List.cons.inj aligned
      rw [List.append_nil, Lacks, ← depth] at lacks
      cases applied with
      | operator operands fails =>
          simp only [Token.need, operands, List.length_cons] at lacks
          omega
      | function found admitted enough fails =>
          simp only [Token.need, found] at lacks
          omega
  | cons head tail =>
      rw [List.cons_append, List.cons.injEq] at aligned
      obtain ⟨rfl, -⟩ := aligned
      exact ⟨earlier, failing, tail, stack, rfl, runs, applied⟩

end Runs

/-! ## Verdicts -/

/-- A shortage is an underflow of the machine's own. -/
theorem Token.shortage_report_kind
    (token : Token) :
    token.shortage.report.kind = .stackUnderflow ∧
      ∀ report, token.shortage ≠ .raised report := by
  cases token <;> simp [shortage, EvalFault.report, Report.evaluation]

/-- The fault that the shape of a sequence leads to, if any. -/
inductive Verdict (table : FunctionTable) (sequence : List Token) : Option EvalFault → Prop where
  | single
      (covered : Covered table sequence)
      (depth : depthFrom table 0 sequence = 1) :
      Verdict table sequence none
  | notSingle
      (covered : Covered table sequence)
      (depth : depthFrom table 0 sequence ≠ 1) :
      Verdict table sequence (some .notSingleValue)
  | shortage
      {before after : List Token}
      {token : Token}
      (split : sequence = before ++ token :: after)
      (covered : Covered table before)
      (lacks : Lacks table before token) :
      Verdict table sequence (some token.shortage)

namespace Verdict

variable
  {table : FunctionTable}
  {sequence : List Token}
  {fault : EvalFault}
  {verdict other : Option EvalFault}

/-- Without a token that needs too much, the last depth decides. -/
theorem of_covered
    (decides : Verdict table sequence verdict)
    (covered : Covered table sequence) :
    verdict = if depthFrom table 0 sequence = 1 then none else some .notSingleValue := by
  cases decides with
  | single _ depth =>
      rw [if_pos depth]
  | notSingle _ depth =>
      rw [if_neg depth]
  | shortage split _ lacks =>
      exact (covered _ _ _ split lacks).elim

/-- A token that needs too much makes the verdict an underflow. -/
theorem of_lacks
    {before after : List Token}
    {token : Token}
    (decides : Verdict table sequence verdict)
    (split : sequence = before ++ token :: after)
    (lacks : Lacks table before token) :
    ∃ first : Token, verdict = some first.shortage := by
  cases decides with
  | single covered depth =>
      exact (covered before token after split lacks).elim
  | notSingle covered depth =>
      exact (covered before token after split lacks).elim
  | shortage _ _ _ =>
      exact ⟨_, rfl⟩

/-- The shape says one thing only. -/
theorem unique
    (decides : Verdict table sequence verdict)
    (otherDecides : Verdict table sequence other) :
    verdict = other := by
  cases decides with
  | single covered depth =>
      rw [otherDecides.of_covered covered, if_pos depth]
  | notSingle covered depth =>
      rw [otherDecides.of_covered covered, if_neg depth]
  | @shortage before after token split covered lacks =>
      cases otherDecides with
      | single otherCovered depth =>
          exact (otherCovered before token after split lacks).elim
      | notSingle otherCovered depth =>
          exact (otherCovered before token after split lacks).elim
      | shortage otherSplit otherCovered otherLacks =>
          have same :=
            covered.first_unique lacks otherCovered otherLacks (split.symm.trans otherSplit)
          rw [same]

theorem exists_lacks
    (decides : Verdict table sequence (some fault))
    (kind : fault.report.kind = .stackUnderflow) :
    ∃ before token after, sequence = before ++ token :: after ∧ Lacks table before token := by
  cases decides with
  | notSingle covered depth =>
      cases kind
  | shortage split covered lacks =>
      exact ⟨_, _, _, split, lacks⟩

theorem depth_ne_one
    (decides : Verdict table sequence (some fault))
    (kind : fault.report.kind = .malformedExpression) :
    Covered table sequence ∧ depthFrom table 0 sequence ≠ 1 := by
  cases decides with
  | notSingle covered depth =>
      exact ⟨covered, depth⟩
  | @shortage before after token split covered lacks =>
      rw [token.shortage_report_kind.1] at kind
      cases kind

theorem kind
    (decides : Verdict table sequence (some fault)) :
    fault.report.kind = .stackUnderflow ∨ fault.report.kind = .malformedExpression := by
  cases decides with
  | notSingle covered depth =>
      exact .inr rfl
  | @shortage before after token split covered lacks =>
      exact .inl token.shortage_report_kind.1

end Verdict

section Shape

variable
  {bindings : Bindings}
  {table : FunctionTable}
  {sequence : List Token}

/-- An evaluation comes to a failing application, or to what the shape of its sequence says. -/
theorem evaluatePostfix_cases
    (ready : ∀ token ∈ sequence, token.Ready bindings table) :
    (∃ fault,
        evaluatePostfix bindings table sequence = .error fault ∧
          ComesToFail bindings table sequence fault) ∨
      (∃ value,
        evaluatePostfix bindings table sequence = .ok value ∧
          Verdict table sequence none) ∨
      ∃ fault,
        evaluatePostfix bindings table sequence = .error fault ∧
          Verdict table sequence (some fault) := by
  rcases run_cases ready with
    ⟨stack, runs⟩ | ⟨fault, runs, comes⟩ | ⟨before, token, after, split, covered, lacks, runs⟩
  · have covered := covered_of_run runs
    have depth : (stack.length : Int) = depthFrom table 0 sequence :=
      Machine.length_of_run runs
    rw [evaluatePostfix, runs, Outcome.ok_bind]
    rcases stack with _ | ⟨value, _ | ⟨below, rest⟩⟩
    · exact .inr (.inr ⟨_, rfl, .notSingle covered (by rw [← depth]; decide)⟩)
    · exact .inr (.inl ⟨value, rfl, .single covered depth.symm⟩)
    · refine .inr (.inr ⟨_, rfl, .notSingle covered ?_⟩)
      rw [← depth, List.length_cons, List.length_cons]
      omega
  · rw [evaluatePostfix, runs, Outcome.error_bind]
    exact .inl ⟨fault, rfl, comes⟩
  · rw [evaluatePostfix, runs, Outcome.error_bind]
    exact .inr (.inr ⟨_, rfl, .shortage split covered lacks⟩)

/-- A failing application is neither an underflow nor malformed, unless the function says so. -/
theorem ComesToFail.report_kind
    (ready : ∀ token ∈ sequence, token.Ready bindings table)
    {fault : EvalFault}
    (comes : ComesToFail bindings table sequence fault)
    (own : ∀ report, fault ≠ .raised report) :
    fault.report.kind ≠ .stackUnderflow ∧ fault.report.kind ≠ .malformedExpression := by
  obtain ⟨before, token, after, stack, split, -, applied⟩ := comes
  rcases applied.report_kind (ready token (by simp [split])) with
    ⟨report, raised⟩ | division | domain
  · exact (own report raised).elim
  · simp [division]
  · simp [domain]

/-- A structural fault of the machine's own is the verdict on the sequence. -/
theorem verdict_of_evaluatePostfix
    (ready : ∀ token ∈ sequence, token.Ready bindings table)
    {fault : EvalFault}
    (fails : evaluatePostfix bindings table sequence = .error fault)
    (structural :
      fault.report.kind = .stackUnderflow ∨ fault.report.kind = .malformedExpression)
    (own : ∀ report, fault ≠ .raised report) :
    Verdict table sequence (some fault) := by
  rcases evaluatePostfix_cases ready with
    ⟨other, same, comes⟩ | ⟨value, evaluates, -⟩ | ⟨other, same, decides⟩
  · obtain rfl := Except.error.inj (fails.symm.trans same)
    obtain ⟨noUnderflow, notMalformed⟩ := comes.report_kind ready own
    rcases structural with underflow | malformed
    · exact (noUnderflow underflow).elim
    · exact (notMalformed malformed).elim
  · cases fails.symm.trans evaluates
  · obtain rfl := Except.error.inj (fails.symm.trans same)
    exact decides

end Shape

/-! ## What the shape decides -/

/--
What the depths of a sequence decide about its evaluation. A value is found only
where no token needs too much and a single value is left; an underflow of the
machine's own means that a token needs too much, and its complaint about the
number of values that no token does. The other way round, only an operator or a
function that fails earlier can keep the sequence from the outcome of its shape,
and so two choices of values for the same names differ in nothing else.
-/
structure DecidedByShape
    (bindings : Bindings)
    (table : FunctionTable)
    (sequence : List Token) :
    Prop where
  value :
    ∀ value,
      evaluatePostfix bindings table sequence = .ok value →
      Covered table sequence ∧ depthFrom table 0 sequence = 1
  underflow :
    ∀ fault,
      evaluatePostfix bindings table sequence = .error fault →
      fault.report.kind = .stackUnderflow →
      (∀ report, fault ≠ .raised report) →
      ∃ before token after, sequence = before ++ token :: after ∧ Lacks table before token
  malformed :
    ∀ fault,
      evaluatePostfix bindings table sequence = .error fault →
      fault.report.kind = .malformedExpression →
      (∀ report, fault ≠ .raised report) →
      Covered table sequence ∧ depthFrom table 0 sequence ≠ 1
  lacking :
    ∀ before token after,
      sequence = before ++ token :: after →
      Lacks table before token →
      ∃ fault,
        evaluatePostfix bindings table sequence = .error fault ∧
          (fault.report.kind = .stackUnderflow ∧ (∀ report, fault ≠ .raised report) ∨
            ComesToFail bindings table before fault)
  single :
    Covered table sequence →
    depthFrom table 0 sequence = 1 →
    (∃ value, evaluatePostfix bindings table sequence = .ok value) ∨
      ∃ fault,
        evaluatePostfix bindings table sequence = .error fault ∧
          ComesToFail bindings table sequence fault
  several :
    Covered table sequence →
    depthFrom table 0 sequence ≠ 1 →
    ∃ fault,
      evaluatePostfix bindings table sequence = .error fault ∧
        (fault.report.kind = .malformedExpression ∧ (∀ report, fault ≠ .raised report) ∨
          ComesToFail bindings table sequence fault)
  values :
    ∀ others,
      (∀ token ∈ sequence, token.Ready others table) →
      (∃ fault,
          evaluatePostfix bindings table sequence = .error fault ∧
            ComesToFail bindings table sequence fault) ∨
        (∃ fault,
          evaluatePostfix others table sequence = .error fault ∧
            ComesToFail others table sequence fault) ∨
        (∃ value other,
          evaluatePostfix bindings table sequence = .ok value ∧
            evaluatePostfix others table sequence = .ok other) ∨
        ∃ fault,
          evaluatePostfix bindings table sequence = .error fault ∧
            evaluatePostfix others table sequence = .error fault ∧
            (fault.report.kind = .stackUnderflow ∨ fault.report.kind = .malformedExpression)

/-- Sequences that are ready have the outcome of their shape, unless an application fails. -/
theorem evaluatePostfix_decidedByShape
    {bindings : Bindings}
    {table : FunctionTable}
    {sequence : List Token}
    (ready : ∀ token ∈ sequence, token.Ready bindings table) :
    DecidedByShape bindings table sequence := by
  have outcome := evaluatePostfix_cases ready
  constructor
  case value =>
    intro value evaluates
    rcases outcome with ⟨fault, fails, -⟩ | ⟨_, -, decides⟩ | ⟨fault, fails, -⟩
    · cases evaluates.symm.trans fails
    · cases decides with
      | single covered depth =>
          exact ⟨covered, depth⟩
    · cases evaluates.symm.trans fails
  case underflow =>
    intro fault fails kind own
    exact (verdict_of_evaluatePostfix ready fails (.inl kind) own).exists_lacks kind
  case malformed =>
    intro fault fails kind own
    exact (verdict_of_evaluatePostfix ready fails (.inr kind) own).depth_ne_one kind
  case lacking =>
    intro before token after split lacks
    rcases outcome with ⟨fault, fails, comes⟩ | ⟨value, -, decides⟩ | ⟨fault, fails, decides⟩
    · rw [split] at comes
      exact ⟨fault, fails, .inr (comes.before_lacking lacks)⟩
    · obtain ⟨first, impossible⟩ := decides.of_lacks split lacks
      cases impossible
    · obtain ⟨first, same⟩ := decides.of_lacks split lacks
      cases same
      exact ⟨_, fails, .inl first.shortage_report_kind⟩
  case single =>
    intro covered depth
    rcases outcome with ⟨fault, fails, comes⟩ | ⟨value, evaluates, -⟩ | ⟨fault, -, decides⟩
    · exact .inr ⟨fault, fails, comes⟩
    · exact .inl ⟨value, evaluates⟩
    · have impossible := decides.of_covered covered
      rw [if_pos depth] at impossible
      cases impossible
  case several =>
    intro covered depth
    rcases outcome with ⟨fault, fails, comes⟩ | ⟨value, -, decides⟩ | ⟨fault, fails, decides⟩
    · exact ⟨fault, fails, .inr comes⟩
    · have impossible := decides.of_covered covered
      rw [if_neg depth] at impossible
      cases impossible
    · have same := decides.of_covered covered
      rw [if_neg depth] at same
      cases same
      exact ⟨_, fails, .inl ⟨rfl, by simp⟩⟩
  case values =>
    intro others otherReady
    rcases outcome with applied | ⟨value, evaluates, decides⟩ | ⟨fault, fails, decides⟩
    · exact .inl applied
    · rcases evaluatePostfix_cases otherReady with
        applied | ⟨other, otherEvaluates, -⟩ | ⟨otherFault, -, otherDecides⟩
      · exact .inr (.inl applied)
      · exact .inr (.inr (.inl ⟨value, other, evaluates, otherEvaluates⟩))
      · cases decides.unique otherDecides
    · rcases evaluatePostfix_cases otherReady with
        applied | ⟨other, -, otherDecides⟩ | ⟨otherFault, otherFails, otherDecides⟩
      · exact .inr (.inl applied)
      · cases decides.unique otherDecides
      · cases decides.unique otherDecides
        exact .inr (.inr (.inr ⟨fault, fails, otherFails, decides.kind⟩))

/-- In `x y + f *` the name `f`, which is not called, needs two values where one is left. -/
theorem evaluatePostfix_short_name :
    let f := Text.ofString "f"
    let x := Text.ofString "x"
    let y := Text.ofString "y"
    let bindings := Dictionary.ofList [(x, .infinity false), (y, .infinity true)]
    let function : Function := {
      arity := 2
      defaults := [.zero]
      body := fun arguments => .ok (arguments.getD 1 .nan)
      defaults_le := by decide
    }
    let table := FunctionTable.empty.insert f (by decide) function
    let sequence :=
      [Token.bareName x, .bareName y, .operator Byte.plus, .bareName f, .operator Byte.asterisk]
    (∀ token ∈ sequence, token.Ready bindings table) ∧
      evaluatePostfix bindings table sequence = .error (.missingArguments f) ∧
      DecidedByShape bindings table sequence := by
  intro f x y bindings function table sequence
  have found : table.find? f = some function :=
    rfl
  have boundX : bindings.find? x = some (.infinity false) :=
    rfl
  have boundY : bindings.find? y = some (.infinity true) :=
    rfl
  have ready : ∀ token ∈ sequence, token.Ready bindings table := by
    simp only [sequence, List.forall_mem_cons]
    refine ⟨.boundName rfl (by decide) boundX, .boundName rfl (by decide) boundY, .operator .add,
      .function found (Function.admits_of_neg (by decide)), .operator .multiply, ?_⟩
    simp
  exact ⟨ready, rfl, evaluatePostfix_decidedByShape ready⟩

end Reckoner
