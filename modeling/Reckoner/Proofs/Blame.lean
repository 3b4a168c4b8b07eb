import Reckoner.Proofs.MachineSteps
import Reckoner.Proofs.Occurrences
import Reckoner.Proofs.RoundTrip
import Reckoner.Proofs.Segments
import Reckoner.Proofs.StrictNames

/-!
# Faults blame what the formula says

A fault arises deep inside an evaluation, from a token that has been moved about
and counted, but what is told about it is a fact about the text: the name in a
report is one that the formula mentions, and it stands there in the way that the
kind of the fault says. Faults that a function raises itself are its own affair.

`Origin` has one case for each place where a fault can arise, with what is known
there about the formula; `BlamesRightly` says what follows for the report.
-/

namespace Reckoner

/-! ## Malformed lexemes -/

/-- A text that cannot be read has a malformed lexeme where the fault says. -/
theorem Scanner.exists_malformed_of_tokensFrom
    {offset : Nat}
    {text : Text}
    {cause : ParseFault}
    (unread : tokensFrom offset text = .error cause) :
    ∃ lexeme start,
      cause = .malformedToken lexeme start ∧
        .lexeme lexeme start ∈ segmentsFrom offset text ∧
        (Segment.lexeme lexeme start).isMalformed = true ∧
        ∀ byte ∈ lexeme, Byte.isLexeme byte = true := by
  induction text using Text.induction generalizing offset with
  | empty =>
      rw [tokensFrom_nil] at unread
      cases unread
  | blank byte rest blank inductionHypothesis =>
      rw [tokensFrom_blank offset blank] at unread
      rw [segmentsFrom_blank offset blank]
      exact inductionHypothesis unread
  | delimiter byte token rest delimits inductionHypothesis =>
      rw [tokensFrom_delimiter offset delimits] at unread
      rw [segmentsFrom_delimiter offset delimits]
      obtain ⟨lexeme, start, same, member, malformed⟩ :=
        inductionHypothesis (Outcome.map_eq_error_iff.mp unread)
      exact ⟨lexeme, start, same, List.mem_cons_of_mem _ member, malformed⟩
  | lexeme lexeme ended notEmpty inLexeme ends inductionHypothesis =>
      rw [tokensFrom_lexeme offset notEmpty inLexeme ends] at unread
      rw [segmentsFrom_lexeme offset notEmpty inLexeme ends]
      cases read : Token.ofLexeme? lexeme with
      | none =>
          rw [read] at unread
          cases unread
          have malformed : (Segment.lexeme lexeme offset).isMalformed = true := by
            rw [Segment.isMalformed_lexeme, read]
            rfl
          exact ⟨lexeme, offset, rfl, List.mem_cons_self, malformed, inLexeme⟩
      | some token =>
          rw [read] at unread
          obtain ⟨other, start, same, member, malformed⟩ :=
            inductionHypothesis (Outcome.map_eq_error_iff.mp unread)
          exact ⟨other, start, same, List.mem_cons_of_mem _ member, malformed⟩

/-! ## The offset in a message -/

/-- A text has only one last space, and one part after it. -/
theorem Text.afterSpace_unique
    {before after other last : Text}
    (noBlank : ∀ byte ∈ after, Byte.isBlank byte = false)
    (otherNoBlank : ∀ byte ∈ last, Byte.isBlank byte = false)
    (same : before ++ Byte.space :: after = other ++ Byte.space :: last) :
    after = last := by
  have isBlank : Byte.isBlank Byte.space = true := by
    decide
  have reversed := congrArg (fun text => (List.reverse text).takeWhile (!Byte.isBlank ·)) same
  simp only [List.reverse_append, List.reverse_cons, List.append_assoc,
    List.singleton_append] at reversed
  rw [List.takeWhile_append_of_pos (by simpa using noBlank),
    List.takeWhile_append_of_pos (by simpa using otherNoBlank)] at reversed
  simpa [List.takeWhile_cons, isBlank] using reversed

/-- Text before the first zero byte is shown. -/
theorem Text.shown_append
    {before : Text}
    (zeroFree : ∀ byte ∈ before, byte ≠ 0)
    (after : Text) :
    shown (before ++ after) = before ++ after.shown :=
  List.takeWhile_append_of_pos (by simpa using zeroFree)

/-- Text after a zero byte is not shown. -/
theorem Text.shown_append_of_mem
    {before : Text}
    (zero : 0 ∈ before)
    (after : Text) :
    shown (before ++ after) = before.shown := by
  obtain ⟨first, rest, rfl, noneBefore⟩ := List.eq_append_cons_of_mem zero
  have zeroFree : ∀ byte ∈ first, byte ≠ 0 := by
    rintro byte member rfl
    exact noneBefore member
  rw [List.append_assoc, shown_append zeroFree, shown_append zeroFree]
  rfl

/--
The only number at the end of a message about a malformed lexeme is its offset,
also if the message is cut short by a zero byte in the lexeme.
-/
theorem malformedMessage_offset
    {lexeme before : Text}
    {offset told : Nat}
    (inLexeme : ∀ byte ∈ lexeme, Byte.isLexeme byte = true)
    (tells : (malformedMessage lexeme offset).shown = before ++ Byte.space :: Text.ofNat told) :
    told = offset := by
  have noBlank (number : Nat) : ∀ byte ∈ Text.ofNat number, Byte.isBlank byte = false := by
    intro byte member
    exact Byte.isBlank_eq_false_of_isDigit (Text.isDigit_of_mem_ofNat number byte member)
  by_cases zero : 0 ∈ lexeme
  · have opening :
        Text.ofString "Malformed token '" =
          Text.ofString "Malformed token" ++ [Byte.space, 39] := by
      decide +kernel
    have openingZeroFree : ∀ byte ∈ Text.ofString "Malformed token '", byte ≠ 0 := by
      decide +kernel
    have cut :
        (malformedMessage lexeme offset).shown =
          Text.ofString "Malformed token" ++ Byte.space :: 39 :: lexeme.shown := by
      rw [malformedMessage, List.append_assoc, List.append_assoc,
        Text.shown_append openingZeroFree, Text.shown_append_of_mem zero, opening]
      simp
    have quoteBlank : ∀ byte ∈ (39 :: lexeme.shown : Text), Byte.isBlank byte = false := by
      intro byte member
      rcases List.mem_cons.mp member with rfl | inShown
      · decide
      · have member := (List.takeWhile_sublist _).subset inShown
        exact (Byte.plain_of_isLexeme (inLexeme byte member)).1
    have same := Text.afterSpace_unique (noBlank told) quoteBlank (tells.symm.trans cut)
    have isDigit := Text.isDigit_of_mem_ofNat told 39 (by rw [same]; exact List.mem_cons_self)
    cases isDigit
  · have middle :
        Text.ofString "' at position " = Text.ofString "' at position" ++ [Byte.space] := by
      decide +kernel
    have whole :
        (malformedMessage lexeme offset).shown =
          (Text.ofString "Malformed token '" ++ lexeme ++ Text.ofString "' at position") ++
            Byte.space :: Text.ofNat offset := by
      rw [shown_malformedMessage (fun byte member same => zero (same ▸ member)),
        malformedMessage, middle]
      simp
    have same :=
      Text.afterSpace_unique (noBlank told) (noBlank offset) (tells.symm.trans whole)
    exact Text.ofNat_injective same

/-! ## Tokens and names that are refused -/

/-- Tokens are refused only for parentheses and commas. -/
theorem toPostfix_eq_error_cases
    {tokens : List Token}
    {cause : ParseFault}
    (refused : toPostfix tokens = .error cause) :
    cause = .unmatchedClose ∨ cause = .unmatchedOpen ∨ cause = .strayComma := by
  rcases orderlyAfter_or_exists_first_offence [] tokens with
    orderly | ⟨before, token, after, fault, split, orderly, offends⟩
  · have converted := toPostfix_of_orderlyAfter orderly
    split at converted
    · obtain ⟨sequence, converted⟩ := converted
      rw [converted] at refused
      cases refused
    · rw [converted] at refused
      cases refused
      exact .inr (.inl rfl)
  · rw [List.append_nil] at offends
    rw [toPostfix_of_offence? split orderly offends] at refused
    cases refused
    cases token with
    | closeParen =>
        simp only [offence?, Option.ite_none_right_eq_some, Option.some.injEq] at offends
        exact .inl offends.2.symm
    | comma =>
        simp only [offence?, Option.ite_none_left_eq_some, Option.some.injEq] at offends
        exact .inr (.inr offends.2.symm)
    | _ =>
        cases offends

section Names

variable
  {bindings : Bindings}
  {table : FunctionTable}
  {formula : Text}
  {tokens sequence : List Token}

/-- The strict check refuses a name without a function that is called or has no value. -/
theorem resolve_eq_error
    {token : Token}
    {cause : ParseFault}
    (refused : resolve bindings table token = .error cause) :
    ∃ name arguments,
      token = .name name arguments ∧
        table.contains name = false ∧
        ((0 ≤ arguments ∧ cause = .unresolvedCall name) ∨
          (arguments < 0 ∧ bindings.contains name = false ∧ cause = .unresolvedName name)) := by
  cases token with
  | name name arguments =>
      refine ⟨name, arguments, rfl, ?_⟩
      rw [resolve] at refused
      split at refused
      · cases refused
      · next unregistered =>
          refine ⟨by simpa using unregistered, ?_⟩
          split at refused
          · next called =>
              cases refused
              exact .inl ⟨called, rfl⟩
          · next bare =>
              split at refused
              · cases refused
              · next unbound =>
                  cases refused
                  exact .inr ⟨Int.not_le.mp bare, by simpa using unbound, rfl⟩
  | _ =>
      cases refused

/-- A strict check that fails refuses one of the tokens. -/
theorem exists_resolve_of_forM
    {cause : ParseFault}
    (refused : sequence.forM (resolve bindings table) = .error cause) :
    ∃ token ∈ sequence, resolve bindings table token = .error cause := by
  induction sequence with
  | nil =>
      cases refused
  | cons first rest inductionHypothesis =>
      rw [forM_resolve_cons] at refused
      cases passes : resolve bindings table first with
      | error fault =>
          rw [passes, Outcome.error_bind] at refused
          cases refused
          exact ⟨first, List.mem_cons_self, passes⟩
      | ok passed =>
          rw [passes, Outcome.ok_bind] at refused
          obtain ⟨token, member, refusedLater⟩ := inductionHypothesis refused
          exact ⟨token, List.mem_cons_of_mem first member, refusedLater⟩

/-- A strict check that succeeds passes every token. -/
theorem not_unresolved_of_forM
    (passes : sequence.forM (resolve bindings table) = .ok ()) :
    ∀ token ∈ sequence, ¬ Unresolved bindings table token := by
  rintro token member ⟨name, arguments, rfl, unresolved⟩
  obtain ⟨cause, refused, -⟩ := resolve_of_unresolved ⟨name, arguments, rfl, unresolved⟩
  induction sequence with
  | nil =>
      cases member
  | cons first rest inductionHypothesis =>
      rw [forM_resolve_cons] at passes
      obtain ⟨⟨⟩, firstPasses, restPasses⟩ := Outcome.bind_eq_ok_iff.mp passes
      rcases List.mem_cons.mp member with isFirst | inRest
      · rw [← isFirst, refused] at firstPasses
        cases firstPasses
      · exact inductionHypothesis restPasses inRest

/-- A name that is read is an identifier that says nothing about arguments. -/
theorem wellFormed_name_of_tokenize
    {name : Text}
    {arguments : Int}
    (read : tokenize formula = .ok tokens)
    (member : .name name arguments ∈ tokens) :
    arguments = -1 ∧ isIdentifier name = true :=
  Scanner.wellFormed_of_tokensFrom read _ member

/-- In postfix order a name stands bare in the formula, or as a call that it counts right. -/
theorem standsBare_or_standsCalled
    (read : tokenize formula = .ok tokens)
    (converted : toPostfix tokens = .ok sequence)
    {name : Text}
    {arguments : Int}
    (member : .name name arguments ∈ sequence) :
    (arguments < 0 ∧ StandsBare tokens name (-1)) ∨
      ∃ count : Nat, arguments = count ∧ StandsCalled tokens name count := by
  rcases standsIn_of_toPostfix converted _ member with bare | called
  · obtain ⟨rfl, -⟩ := wellFormed_name_of_tokenize read bare.mem
    exact .inl ⟨by decide, bare⟩
  · exact .inr called

/-- What is read and then called is a name of the formula. -/
theorem StandsCalled.bareName_mem
    {name : Text}
    {count : Nat}
    (called : StandsCalled tokens name count)
    (read : tokenize formula = .ok tokens) :
    .bareName name ∈ tokens := by
  obtain ⟨arguments, member⟩ := called.exists_mem
  obtain ⟨rfl, -⟩ := wellFormed_name_of_tokenize read member
  exact member

/-- Names of a formula are not empty. -/
theorem ne_nil_of_bareName_mem
    {name : Text}
    (read : tokenize formula = .ok tokens)
    (member : .bareName name ∈ tokens) :
    name ≠ [] := by
  rintro rfl
  cases (wellFormed_name_of_tokenize read member).2

end Names

/-! ## Kinds of faults and names -/

/-- The kinds of faults that are about a name. -/
def FaultKind.isAboutName : FaultKind → Bool
  | .unknownIdentifier => true
  | .undefinedVariable => true
  | .arityMismatch => true
  | _ => false

/-- The faults of the stack machine that are about no name, and not of a function's making. -/
def EvalFault.isNameless : EvalFault → Bool
  | .unknownFunction _ => false
  | .undefinedVariable _ => false
  | .arityMismatch _ _ _ _ => false
  | .raised _ => false
  | _ => true

/-- What is refused for its text is told so. -/
theorem ParseFault.report_stage
    (refusal : ParseFault) :
    refusal.report.stage = .parse := by
  cases refusal <;> rfl

/-- A fault of evaluation is told so, unless a function has raised it. -/
theorem EvalFault.report_stage
    {fault : EvalFault}
    (own : ∀ report, fault ≠ .raised report) :
    fault.report.stage = .evaluate := by
  cases fault with
  | raised report =>
      exact (own report rfl).elim
  | _ =>
      rfl

/-- A fault about no name is one of evaluation. -/
theorem EvalFault.report_of_isNameless
    {fault : EvalFault}
    (nameless : fault.isNameless = true) :
    fault.report.stage = .evaluate ∧
      fault.report.name = [] ∧
      (fault.report.kind = .stackUnderflow ∨
        fault.report.kind = .divisionByZero ∨
        fault.report.kind = .domainError ∨
        fault.report.kind = .malformedExpression) := by
  cases fault <;> cases nameless <;> simp [report, Report.evaluation]

/--
The cause of a fault of each kind, as it lies in the formula, and the stage in
which it is found. A kind that is not listed has no cause.
-/
def FaultKind.Cause
    (bindings : Bindings)
    (evaluator : Evaluator)
    (formula : Text)
    (report : Report) :
    FaultKind → Prop
  | .malformedToken =>
      report.stage = .parse ∧
        ∃ segment ∈ segments formula,
          segment.isMalformed = true ∧
            ToldMalformed segment report ∧
            ∀ before offset,
              report.message = before ++ Byte.space :: Text.ofNat offset →
              offset = segment.offset
  | .unbalancedParens =>
      report.stage = .parse
  | .unknownIdentifier =>
      evaluator.functions.contains report.name = false ∧
        (report.stage = .parse ↔ evaluator.strict = true) ∧
        ∃ tokens,
          tokenize formula = .ok tokens ∧
            ((∃ count, StandsCalled tokens report.name count) ∨
              (evaluator.strict = true ∧
                StandsBare tokens report.name (-1) ∧
                bindings.contains report.name = false))
  | .undefinedVariable =>
      report.stage = .evaluate ∧
        evaluator.strict = false ∧
        evaluator.functions.contains report.name = false ∧
        bindings.contains report.name = false ∧
        ∃ tokens, tokenize formula = .ok tokens ∧ StandsBare tokens report.name (-1)
  | .stackUnderflow =>
      report.stage = .evaluate
  | .divisionByZero =>
      report.stage = .evaluate
  | .domainError =>
      report.stage = .evaluate
  | .arityMismatch =>
      report.stage = .evaluate ∧
        ∃ function,
          evaluator.functions.find? report.name = some function ∧
            ∃ tokens count,
              tokenize formula = .ok tokens ∧
                StandsCalled tokens report.name count ∧
                (count < function.arity - function.defaults.length ∨ function.arity < count)
  | .malformedExpression =>
      report.stage = .parse ↔
        ∃ tokens, tokenize formula = .ok tokens ∧ toPostfix tokens = .error .strayComma
  | .unlisted =>
      False

/-! ## Where faults arise -/

/--
The places where a fault of an evaluation can arise, apart from the functions
that are applied, with what is known there about the formula.
-/
inductive Origin (bindings : Bindings) (evaluator : Evaluator) (formula : Text) :
    Fault → Prop where
  | malformedToken
      {lexeme : Text}
      {offset : Nat}
      (unread : tokenize formula = .error (.malformedToken lexeme offset))
      (member : .lexeme lexeme offset ∈ segments formula)
      (malformed : (Segment.lexeme lexeme offset).isMalformed = true)
      (inLexeme : ∀ byte ∈ lexeme, Byte.isLexeme byte = true) :
      Origin bindings evaluator formula (.parse (.malformedToken lexeme offset))
  | misplaced
      {tokens : List Token}
      {cause : ParseFault}
      (read : tokenize formula = .ok tokens)
      (unordered : toPostfix tokens = .error cause)
      (bracket : cause = .unmatchedClose ∨ cause = .unmatchedOpen ∨ cause = .strayComma) :
      Origin bindings evaluator formula (.parse cause)
  | unresolvedCall
      {tokens : List Token}
      {name : Text}
      {count : Nat}
      (strict : evaluator.strict = true)
      (read : tokenize formula = .ok tokens)
      (unregistered : evaluator.functions.contains name = false)
      (called : StandsCalled tokens name count) :
      Origin bindings evaluator formula (.parse (.unresolvedCall name))
  | unresolvedName
      {tokens : List Token}
      {name : Text}
      (strict : evaluator.strict = true)
      (read : tokenize formula = .ok tokens)
      (unregistered : evaluator.functions.contains name = false)
      (bare : StandsBare tokens name (-1))
      (unbound : bindings.contains name = false) :
      Origin bindings evaluator formula (.parse (.unresolvedName name))
  | unknownFunction
      {tokens : List Token}
      {name : Text}
      {count : Nat}
      (lenient : evaluator.strict = false)
      (read : tokenize formula = .ok tokens)
      (unregistered : evaluator.functions.contains name = false)
      (called : StandsCalled tokens name count) :
      Origin bindings evaluator formula (.evaluate (.unknownFunction name))
  | undefinedVariable
      {tokens : List Token}
      {name : Text}
      (lenient : evaluator.strict = false)
      (read : tokenize formula = .ok tokens)
      (unregistered : evaluator.functions.contains name = false)
      (bare : StandsBare tokens name (-1))
      (unbound : bindings.contains name = false) :
      Origin bindings evaluator formula (.evaluate (.undefinedVariable name))
  | arityMismatch
      {tokens : List Token}
      {name : Text}
      {function : Function}
      {count : Nat}
      (read : tokenize formula = .ok tokens)
      (found : evaluator.functions.find? name = some function)
      (called : StandsCalled tokens name count)
      (outside : count < function.required ∨ function.arity < count) :
      Origin bindings evaluator formula
        (.evaluate (.arityMismatch name function.required function.arity count))
  | nameless
      {tokens sequence : List Token}
      {fault : EvalFault}
      (read : tokenize formula = .ok tokens)
      (converted : toPostfix tokens = .ok sequence)
      (nameless : fault.isNameless = true) :
      Origin bindings evaluator formula (.evaluate fault)

namespace Origin

variable
  {bindings : Bindings}
  {table : FunctionTable}
  {evaluator : Evaluator}
  {formula : Text}
  {tokens sequence : List Token}

/-- A step that fails does so for a fact about its token in the formula. -/
theorem of_stepFails
    {strict : Bool}
    {stack : List Binary64}
    {token : Token}
    {fault : EvalFault}
    (read : tokenize formula = .ok tokens)
    (converted : toPostfix tokens = .ok sequence)
    (member : token ∈ sequence)
    (lenient : strict = true → ¬ Unresolved bindings table token)
    (own : ∀ report, fault ≠ .raised report)
    (fails : Machine.StepFails bindings table stack token fault) :
    Origin bindings { functions := table, strict := strict } formula (.evaluate fault) := by
  cases fails with
  | @unknownFunction name arguments missing called =>
      have unregistered : table.contains name = false := by
        simp [FunctionTable.contains, missing]
      have isLenient : strict = false :=
        Bool.eq_false_iff.mpr fun isStrict =>
          lenient isStrict ⟨name, arguments, rfl, unregistered, .inl called⟩
      rcases standsBare_or_standsCalled read converted member with
        ⟨bare, -⟩ | ⟨count, -, stands⟩
      · omega
      · exact .unknownFunction isLenient read unregistered stands
  | @undefinedVariable name arguments missing bare noValue =>
      have unregistered : table.contains name = false := by
        simp [FunctionTable.contains, missing]
      have unbound : bindings.contains name = false := by
        simp [Dictionary.contains, noValue]
      have isLenient : strict = false :=
        Bool.eq_false_iff.mpr fun isStrict =>
          lenient isStrict ⟨name, arguments, rfl, unregistered, .inr unbound⟩
      rcases standsBare_or_standsCalled read converted member with
        ⟨-, stands⟩ | ⟨count, called, -⟩
      · exact .undefinedVariable isLenient read unregistered stands unbound
      · omega
  | @arityMismatch name arguments function found inadmissible =>
      rcases standsBare_or_standsCalled read converted member with
        ⟨bare, -⟩ | ⟨count, rfl, stands⟩
      · exact (inadmissible (Function.admits_of_neg bare)).elim
      · rw [Function.taken_natCast]
        apply arityMismatch read found stands
        simp only [Function.Admits, Function.taken_natCast] at inadmissible
        omega
  | missingArguments found admitted short =>
      exact .nameless read converted rfl
  | raised found admitted enough raises =>
      exact (own _ rfl).elim
  | noRealValue found admitted enough operandsReal undefined =>
      exact .nameless read converted rfl
  | missingOperand short =>
      exact .nameless read converted rfl
  | operation operands operatorFails =>
      cases operatorFails <;> exact .nameless read converted rfl
  | unexpected misplaced =>
      exact .nameless read converted rfl

/-- An evaluation of a postfix sequence fails for a fact about the formula. -/
theorem of_evaluatePostfix
    {strict : Bool}
    {fault : EvalFault}
    (read : tokenize formula = .ok tokens)
    (converted : toPostfix tokens = .ok sequence)
    (lenient : strict = true → ∀ token ∈ sequence, ¬ Unresolved bindings table token)
    (own : ∀ report, fault ≠ .raised report)
    (fails : evaluatePostfix bindings table sequence = .error fault) :
    Origin bindings { functions := table, strict := strict } formula (.evaluate fault) := by
  rcases exists_stepFails_of_evaluatePostfix fails with
    rfl | ⟨before, token, after, stack, split, -, stepFails⟩
  · exact .nameless read converted rfl
  · have member : token ∈ sequence := by
      rw [split]
      simp
    exact .of_stepFails read converted member (fun isStrict => lenient isStrict token member)
      own stepFails

/-- A strict check fails for a fact about the formula. -/
theorem of_forM_resolve
    {cause : ParseFault}
    (read : tokenize formula = .ok tokens)
    (converted : toPostfix tokens = .ok sequence)
    (refused : sequence.forM (resolve bindings table) = .error cause) :
    Origin bindings { functions := table, strict := true } formula (.parse cause) := by
  obtain ⟨token, member, refusedToken⟩ := exists_resolve_of_forM refused
  obtain ⟨name, arguments, rfl, unregistered, ⟨called, rfl⟩ | ⟨bare, unbound, rfl⟩⟩ :=
    resolve_eq_error refusedToken
  · rcases standsBare_or_standsCalled read converted member with
      ⟨bare, -⟩ | ⟨count, -, stands⟩
    · omega
    · exact .unresolvedCall rfl read unregistered stands
  · rcases standsBare_or_standsCalled read converted member with
      ⟨-, stands⟩ | ⟨count, called, -⟩
    · exact .unresolvedName rfl read unregistered stands unbound
    · omega

/-- Every fault that no function has raised arises at one of these places. -/
theorem of_evaluate
    {fault : Fault}
    (fails : evaluator.evaluate bindings formula = .error fault)
    (own : ∀ report, fault ≠ .evaluate (.raised report)) :
    Origin bindings evaluator formula fault := by
  obtain ⟨table, strict⟩ := evaluator
  cases read : tokenize formula with
  | error cause =>
      rw [(evaluate_of_tokenize_eq_error read strict).2] at fails
      cases fails
      obtain ⟨lexeme, offset, rfl, member, malformed, inLexeme⟩ :=
        Scanner.exists_malformed_of_tokensFrom read
      exact .malformedToken read member malformed inLexeme
  | ok tokens =>
      cases converted : toPostfix tokens with
      | error cause =>
          rw [(evaluate_of_toPostfix_eq_error read converted strict).2] at fails
          cases fails
          exact .misplaced read converted (toPostfix_eq_error_cases converted)
      | ok sequence =>
          cases strict with
          | false =>
              have computed : evaluate bindings table formula = .error fault := fails
              rw [evaluate_of_toPostfix read converted] at computed
              cases evaluated : evaluatePostfix bindings table sequence with
              | ok value =>
                  rw [evaluated] at computed
                  cases computed
              | error cause =>
                  rw [evaluated] at computed
                  cases computed
                  exact .of_evaluatePostfix read converted (by simp)
                    (fun report same => own report (congrArg Fault.evaluate same)) evaluated
          | true =>
              rw [strict_evaluate_of_toPostfix read converted,
                evaluate_of_toPostfix read converted] at fails
              cases passes : sequence.forM (resolve bindings table) with
              | error cause =>
                  rw [passes] at fails
                  cases fails
                  exact .of_forM_resolve read converted passes
              | ok passed =>
                  rw [passes, Outcome.mapError_ok, Outcome.ok_bind] at fails
                  cases evaluated : evaluatePostfix bindings table sequence with
                  | ok value =>
                      rw [evaluated] at fails
                      cases fails
                  | error cause =>
                      rw [evaluated] at fails
                      cases fails
                      exact .of_evaluatePostfix read converted
                        (fun _ => not_unresolved_of_forM passes)
                        (fun report same => own report (congrArg Fault.evaluate same)) evaluated

/-! ## What faults say -/

/-- A fault is about a name that the formula mentions, or about none. -/
theorem report_name
    {fault : Fault}
    (origin : Origin bindings evaluator formula fault) :
    (fault.report.kind.isAboutName = true ∧
        ∃ tokens,
          tokenize formula = .ok tokens ∧ .bareName fault.report.name ∈ tokens) ∨
      (fault.report.kind.isAboutName = false ∧ fault.report.name = []) := by
  cases origin with
  | malformedToken unread member malformed inLexeme =>
      exact .inr ⟨rfl, rfl⟩
  | misplaced read unordered bracket =>
      rcases bracket with rfl | rfl | rfl <;> exact .inr ⟨rfl, rfl⟩
  | unresolvedCall strict read unregistered called =>
      exact .inl ⟨rfl, _, read, called.bareName_mem read⟩
  | unresolvedName strict read unregistered bare unbound =>
      exact .inl ⟨rfl, _, read, bare.mem⟩
  | unknownFunction lenient read unregistered called =>
      exact .inl ⟨rfl, _, read, called.bareName_mem read⟩
  | undefinedVariable lenient read unregistered bare unbound =>
      exact .inl ⟨rfl, _, read, bare.mem⟩
  | arityMismatch read found called outside =>
      exact .inl ⟨rfl, _, read, called.bareName_mem read⟩
  | nameless read converted nameless =>
      obtain ⟨-, unnamed, kind⟩ := EvalFault.report_of_isNameless nameless
      rcases kind with kind | kind | kind | kind <;>
        exact .inr ⟨congrArg FaultKind.isAboutName kind, unnamed⟩

/-- A fault has a cause of the kind that is told. -/
theorem cause
    {fault : Fault}
    (origin : Origin bindings evaluator formula fault) :
    fault.report.kind.Cause bindings evaluator formula fault.report := by
  cases origin with
  | @malformedToken lexeme offset unread member malformed inLexeme =>
      obtain ⟨other, answered, told⟩ := exists_toldMalformed malformed
      cases (Segment.answer_of_isMalformed malformed).symm.trans answered
      refine ⟨rfl, _, member, malformed, told, ?_⟩
      intro before offset tells
      exact malformedMessage_offset inLexeme tells
  | misplaced read unordered bracket =>
      rcases bracket with rfl | rfl | rfl
      · exact rfl
      · exact rfl
      · exact ⟨fun _ => ⟨_, read, unordered⟩, fun _ => rfl⟩
  | unresolvedCall strict read unregistered called =>
      exact ⟨unregistered, ⟨fun _ => strict, fun _ => rfl⟩, _, read, .inl ⟨_, called⟩⟩
  | unresolvedName strict read unregistered bare unbound =>
      exact ⟨unregistered, ⟨fun _ => strict, fun _ => rfl⟩, _, read,
        .inr ⟨strict, bare, unbound⟩⟩
  | unknownFunction lenient read unregistered called =>
      refine ⟨unregistered, ⟨?_, ?_⟩, _, read, .inl ⟨_, called⟩⟩
      · intro stage
        cases stage
      · intro strict
        rw [lenient] at strict
        cases strict
  | undefinedVariable lenient read unregistered bare unbound =>
      exact ⟨rfl, lenient, unregistered, unbound, _, read, bare⟩
  | arityMismatch read found called outside =>
      exact ⟨rfl, _, found, _, _, read, called, outside⟩
  | @nameless tokens sequence fault read converted nameless =>
      obtain ⟨stage, -, underflow | division | domain | malformed⟩ :=
        EvalFault.report_of_isNameless nameless
      · exact underflow ▸ stage
      · exact division ▸ stage
      · exact domain ▸ stage
      · have meaning :
            fault.report.stage = .parse ↔
              ∃ tokens, tokenize formula = .ok tokens ∧ toPostfix tokens = .error .strayComma := by
          constructor
          · intro parse
            cases stage.symm.trans parse
          · rintro ⟨others, readsOthers, refused⟩
            cases read.symm.trans readsOthers
            cases converted.symm.trans refused
        exact malformed ▸ meaning

end Origin

/-! ## Blame -/

/--
A fault that no function has raised is told with a name exactly if it is about
one, and then the formula mentions that name. The fault has a cause of the kind
that is told, and it is told as one of the text exactly if reading the formula
or ordering its tokens has failed with it.
-/
structure BlamesRightly
    (bindings : Bindings)
    (evaluator : Evaluator)
    (formula : Text)
    (fault : Fault) :
    Prop where
  named : fault.report.name ≠ [] ↔ fault.report.kind.isAboutName = true
  mentioned :
    fault.report.name ≠ [] →
    ∃ tokens, tokenize formula = .ok tokens ∧ .bareName fault.report.name ∈ tokens
  cause : fault.report.kind.Cause bindings evaluator formula fault.report
  fromText :
    fault.report.stage = .parse ↔
      ∃ refusal,
        fault = .parse refusal ∧
          (tokenize formula >>= evaluator.order bindings) = .error refusal

/-- Faults that no function has raised blame what the formula says. -/
theorem evaluate_blamesRightly
    {bindings : Bindings}
    {evaluator : Evaluator}
    {formula : Text}
    {fault : Fault}
    (fails : evaluator.evaluate bindings formula = .error fault)
    (own : ∀ report, fault ≠ .evaluate (.raised report)) :
    BlamesRightly bindings evaluator formula fault := by
  have origin := Origin.of_evaluate fails own
  have mentioned :
      fault.report.kind.isAboutName = true →
      ∃ tokens, tokenize formula = .ok tokens ∧ .bareName fault.report.name ∈ tokens := by
    intro aboutName
    rcases origin.report_name with ⟨-, mentions⟩ | ⟨aboutNone, -⟩
    · exact mentions
    · rw [aboutNone] at aboutName
      cases aboutName
  have aboutName : fault.report.name ≠ [] → fault.report.kind.isAboutName = true := by
    intro named
    rcases origin.report_name with ⟨aboutName, -⟩ | ⟨-, unnamed⟩
    · exact aboutName
    · exact (named unnamed).elim
  exact {
    named := by
      refine ⟨aboutName, ?_⟩
      intro kind
      obtain ⟨tokens, read, member⟩ := mentioned kind
      exact ne_nil_of_bareName_mem read member
    mentioned := fun named => mentioned (aboutName named)
    cause := origin.cause
    fromText := by
      constructor
      · intro stage
        cases fault with
        | parse refusal =>
            exact ⟨refusal, rfl, Evaluator.evaluate_eq_parse_iff.mp fails⟩
        | evaluate cause =>
            have notRaised : ∀ report, cause ≠ .raised report :=
              fun report same => own report (congrArg Fault.evaluate same)
            cases (EvalFault.report_stage notRaised).symm.trans stage
      · rintro ⟨refusal, rfl, -⟩
        exact refusal.report_stage
  }

/-- A call of a function of two arguments with one, in a product. -/
theorem evaluate_product_with_short_call :
    let f := Text.ofString "f"
    let x := Text.ofString "x"
    let bindings := Dictionary.ofList [(x, Binary64.one)]
    let function := Function.ofBody 2 fun _ => .ok .one
    let table := FunctionTable.empty.insert f (by decide) function
    let evaluator : Evaluator := { functions := table, strict := true }
    let fault := Fault.evaluate (.arityMismatch f 2 2 1)
    evaluator.evaluate bindings (Text.ofString "x*f(x)") = .error fault ∧
      (∀ report, fault ≠ .evaluate (.raised report)) ∧
      BlamesRightly bindings evaluator (Text.ofString "x*f(x)") fault := by
  intro f x bindings function table evaluator fault
  have read :
      tokenize (Text.ofString "x*f(x)") =
        .ok [.bareName x, .operator Byte.asterisk, .bareName f, .openParen, .bareName x,
          .closeParen] :=
    tokenize_of_answers rfl
  have converted :
      toPostfix
          [.bareName x, .operator Byte.asterisk, .bareName f, .openParen, .bareName x,
            .closeParen] =
        .ok [.bareName x, .bareName x, .name f 1, .operator Byte.asterisk] :=
    rfl
  have bound : bindings.find? x = some .one := by
    simp [bindings, Dictionary.ofList, Dictionary.find?_insert]
  have found : table.find? f = some function := by
    simp [table, FunctionTable.find?_insert]
  have missing : table.find? x = none :=
    rfl
  have resolves :
      List.forM [.bareName x, .bareName x, .name f 1, .operator Byte.asterisk]
          (resolve bindings table) =
        .ok () :=
    rfl
  have refused : function.call f 1 [.one, .one] = .error (.arityMismatch f 2 2 1) :=
    rfl
  have fails : evaluator.evaluate bindings (Text.ofString "x*f(x)") = .error fault := by
    rw [strict_evaluate_of_toPostfix read converted, evaluate_of_toPostfix read converted,
      resolves]
    simp [evaluatePostfix, Machine.run_cons, Machine.step, Token.bareName, missing, bound, found,
      refused, fault]
  have own : ∀ report, fault ≠ .evaluate (.raised report) := by
    simp [fault]
  exact ⟨fails, own, evaluate_blamesRightly fails own⟩

end Reckoner
