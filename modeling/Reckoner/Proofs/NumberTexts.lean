import Mathlib.Data.List.Forall2
import Reckoner.Proofs.CallFrames
import Reckoner.Proofs.Cues
import Reckoner.Proofs.NaNOrigins

/-!
# How a number is written does not matter

A number keeps the text that it was read from, and two numbers agree if their
values are equal, whatever their texts. Conversion never looks at the text of a
number and evaluation never at anything but its value, so a formula comes to the
same with the texts of its numbers forgotten. Numbers with equal values can still
be told apart if they are zeros of different signs, but a literal has no sign.
Hence formulas whose tokens agree have the same outcome.
-/

namespace Reckoner

namespace Token

/-- A token without the text of a number. -/
def unspelled : Token → Token
  | .number _ value => .number [] value
  | token => token

end Token

/-! ## Conversion -/

namespace Cue

/-- A cue without the text of a number. -/
def unspelled : Cue → Cue
  | .operand token => .operand token.unspelled
  | cue => cue

/-- Tokens without the texts of their numbers have the same cues without these texts. -/
theorem ofTokensAfter_map_unspelled
    (afterOpen : Bool)
    (tokens : List Token) :
    ofTokensAfter afterOpen (tokens.map Token.unspelled) =
      (ofTokensAfter afterOpen tokens).map unspelled := by
  induction afterOpen, tokens using ofTokensAfter.induct with
  | case1 =>
      rfl
  | case3 afterOpen text arguments rest apart inductionHypothesis =>
      have notCalled := head?_ne_openParen apart
      have stillNotCalled : (rest.map Token.unspelled).head? ≠ some .openParen := by
        cases rest with
        | nil =>
            simp
        | cons token later =>
            cases token <;> simp_all [Token.unspelled]
      have bare := ofTokensAfter_name afterOpen text arguments stillNotCalled
      rw [ofTokensAfter_name _ _ _ notCalled, List.map_cons, List.map_cons,
        ← inductionHypothesis]
      exact bare
  | case2 _ _ _ _ inductionHypothesis
  | case4 _ _ _ _ inductionHypothesis
  | case5 _ _ _ inductionHypothesis
  | case6 _ _ inductionHypothesis
  | case7 _ _ inductionHypothesis
  | case8 _ _ inductionHypothesis =>
      simp [Token.unspelled, unspelled, inductionHypothesis]

end Cue

namespace Conversion

/-- A conversion without the texts of numbers. -/
def unspelled (state : Conversion) : Conversion where
  output := state.output.map Token.unspelled
  waiting := state.waiting.map Token.unspelled
  calls := state.calls

/-- Whether a condition on waiting tokens takes no notice of the texts of numbers. -/
def IgnoresTexts (condition : Token → Bool) : Prop :=
  ∀ token : Token, condition token.unspelled = condition token

theorem ignoresTexts_isInside :
    IgnoresTexts isInside := by
  intro token
  cases token <;> rfl

theorem ignoresTexts_yieldsTo
    (symbol : UInt8) :
    IgnoresTexts (yieldsTo symbol) := by
  intro token
  cases token <;> rfl

section Rounds

variable
  (state : Conversion)

theorem callAt?_unspelled
    (depth : Nat) :
    state.unspelled.callAt? depth = state.callAt? depth :=
  rfl

theorem release_unspelled
    {condition : Token → Bool}
    (ignores : IgnoresTexts condition) :
    state.unspelled.release condition = (state.release condition).unspelled := by
  have same : condition ∘ Token.unspelled = condition :=
    funext ignores
  simp [unspelled, release, List.takeWhile_map, List.dropWhile_map, same]

theorem waiting_unspelled :
    state.unspelled.waiting = state.waiting.map Token.unspelled :=
  rfl

theorem endArgument_unspelled :
    state.unspelled.endArgument = state.endArgument.map unspelled := by
  simp only [endArgument, release_unspelled state ignoresTexts_isInside]
  generalize state.release isInside = released
  simp only [waiting_unspelled, callAt?_unspelled]
  cases waiting : released.waiting with
  | nil =>
      rfl
  | cons token lower =>
      simp only [List.map_cons, List.length_map]
      cases released.callAt? lower.length with
      | none =>
          rfl
      | some entry =>
          rfl

theorem closeParen_unspelled
    (afterOpen : Bool) :
    state.unspelled.closeParen afterOpen = (state.closeParen afterOpen).map unspelled := by
  simp only [closeParen, release_unspelled state ignoresTexts_isInside]
  generalize state.release isInside = released
  simp only [waiting_unspelled, callAt?_unspelled]
  cases waiting : released.waiting with
  | nil =>
      rfl
  | cons token lower =>
      simp only [List.map_cons, List.length_map]
      cases released.callAt? lower.length with
      | none =>
          rfl
      | some entry =>
          cases lower with
          | nil =>
              rfl
          | cons name lowest =>
              cases name <;> rfl

/-- No round of a conversion looks at the text of a number. -/
theorem step_unspelled
    (cue : Cue) :
    step state.unspelled cue.unspelled = (step state cue).map unspelled := by
  cases cue with
  | operand token =>
      rfl
  | operator symbol =>
      have released : state.unspelled.release _ = _ :=
        release_unspelled state (ignoresTexts_yieldsTo symbol)
      simp only [step, Cue.unspelled, pushOperator, released]
      rfl
  | beginCall name arguments =>
      simp [step, Cue.unspelled, pushCall, unspelled, Token.unspelled]
  | beginGroup =>
      rfl
  | nextArgument =>
      exact endArgument_unspelled state
  | close afterOpen =>
      exact closeParen_unspelled state afterOpen

theorem run_unspelled
    (cues : List Cue) :
    run (cues.map Cue.unspelled) state.unspelled = (run cues state).map unspelled := by
  induction cues generalizing state with
  | nil =>
      rfl
  | cons cue rest inductionHypothesis =>
      rw [List.map_cons, run_cons, run_cons, step_unspelled]
      cases step state cue with
      | error cause =>
          rfl
      | ok following =>
          exact inductionHypothesis following

theorem finish_unspelled :
    state.unspelled.finish = state.finish.map (List.map Token.unspelled) := by
  simp only [finish, release_unspelled state ignoresTexts_isInside]
  generalize state.release isInside = released
  cases waiting : released.waiting with
  | nil =>
      simp [unspelled, waiting]
  | cons token lower =>
      simp [unspelled, waiting]

end Rounds

end Conversion

/-- Conversion carries the texts of numbers along without looking at them. -/
theorem toPostfix_map_unspelled
    (tokens : List Token) :
    toPostfix (tokens.map Token.unspelled) =
      (toPostfix tokens).map (List.map Token.unspelled) := by
  have cues : Cue.ofTokens (tokens.map Token.unspelled) = _ :=
    Cue.ofTokensAfter_map_unspelled false tokens
  have runs := Conversion.run_unspelled .start (Cue.ofTokens tokens)
  have starts : Conversion.start.unspelled = .start :=
    rfl
  rw [starts] at runs
  simp only [toPostfix, cues]
  rw [← Cue.ofTokens, runs]
  cases Conversion.start.run (Cue.ofTokens tokens) with
  | error cause =>
      rfl
  | ok last =>
      exact Conversion.finish_unspelled last

/-! ## Evaluation -/

section Evaluation

variable
  {bindings : Bindings}
  {table : FunctionTable}

/-- A step takes a number for its value, whatever its text. -/
theorem Machine.step_unspelled
    (stack : List Binary64)
    (token : Token) :
    step bindings table stack token.unspelled = step bindings table stack token := by
  cases token <;> rfl

theorem Machine.run_map_unspelled
    (sequence : List Token)
    (stack : List Binary64) :
    run bindings table (sequence.map Token.unspelled) stack =
      run bindings table sequence stack := by
  induction sequence generalizing stack with
  | nil =>
      rfl
  | cons token rest inductionHypothesis =>
      rw [List.map_cons, run_cons, run_cons, step_unspelled]
      cases step bindings table stack token with
      | error fault =>
          rfl
      | ok following =>
          exact inductionHypothesis following

theorem evaluatePostfix_map_unspelled
    (sequence : List Token) :
    evaluatePostfix bindings table (sequence.map Token.unspelled) =
      evaluatePostfix bindings table sequence := by
  rw [evaluatePostfix, evaluatePostfix, Machine.run_map_unspelled]

/-- The strict check passes over numbers. -/
theorem resolve_unspelled
    (token : Token) :
    resolve bindings table token.unspelled = resolve bindings table token := by
  cases token <;> rfl

theorem forM_resolve_map_unspelled
    (sequence : List Token) :
    (sequence.map Token.unspelled).forM (resolve bindings table) =
      sequence.forM (resolve bindings table) := by
  induction sequence with
  | nil =>
      rfl
  | cons token rest inductionHypothesis =>
      rw [List.map_cons, forM_resolve_cons, forM_resolve_cons, resolve_unspelled,
        inductionHypothesis]

/-- Formulas whose tokens differ in nothing but the texts of numbers have the same outcome. -/
theorem evaluate_eq_of_map_unspelled_eq
    {formula otherFormula : Text}
    {tokens otherTokens : List Token}
    (read : tokenize formula = .ok tokens)
    (otherRead : tokenize otherFormula = .ok otherTokens)
    (same : tokens.map Token.unspelled = otherTokens.map Token.unspelled)
    (strict : Bool) :
    Evaluator.evaluate { functions := table, strict := strict } bindings formula =
      Evaluator.evaluate { functions := table, strict := strict } bindings otherFormula := by
  have converts :
      (toPostfix tokens).map (List.map Token.unspelled) =
        (toPostfix otherTokens).map (List.map Token.unspelled) := by
    rw [← toPostfix_map_unspelled, same, toPostfix_map_unspelled]
  cases converted : toPostfix tokens with
  | error cause =>
      rw [converted, Outcome.map_error] at converts
      have otherConverted : toPostfix otherTokens = .error cause :=
        Outcome.map_eq_error_iff.mp converts.symm
      rw [(evaluate_of_toPostfix_eq_error read converted strict).2,
        (evaluate_of_toPostfix_eq_error otherRead otherConverted strict).2]
  | ok sequence =>
      rw [converted, Outcome.map_ok] at converts
      obtain ⟨otherSequence, otherConverted, sameSequence⟩ :=
        Outcome.map_eq_ok_iff.mp converts.symm
      apply evaluate_eq_of_sequences read converted otherRead otherConverted
      · rw [← forM_resolve_map_unspelled, ← sameSequence, forM_resolve_map_unspelled]
      · rw [← evaluatePostfix_map_unspelled, ← sameSequence, evaluatePostfix_map_unspelled]

end Evaluation

/-! ## Tokens that agree -/

/-- Only zeros can be equal as numbers and yet different, namely in their signs. -/
theorem Binary64.eq_of_equal
    {left right : Binary64}
    (equal : left.equal right = true)
    (sameSign : left.isNegative = right.isNegative) :
    left = right := by
  simp only [Binary64.equal, Bool.and_eq_true, Bool.or_eq_true, beq_iff_eq] at equal
  obtain ⟨-, same | ⟨leftZero, rightZero⟩⟩ := equal
  · exact same
  · cases left with
    | nan =>
        cases leftZero
    | infinity negative =>
        cases leftZero
    | finite negative size =>
        cases right with
        | nan =>
            cases rightZero
        | infinity otherNegative =>
            cases rightZero
        | finite otherNegative otherSize =>
            cases sameSign
            rw [Magnitude.eq_zero_of_significand_eq_zero (eq_of_beq leftZero),
              Magnitude.eq_zero_of_significand_eq_zero (eq_of_beq rightZero)]

/-- Tokens of formulas that agree differ in nothing but the texts of numbers. -/
theorem Token.unspelled_eq_of_agrees
    {token other : Token}
    (wellFormed : token.WellFormed)
    (otherWellFormed : other.WellFormed)
    (agrees : token.agrees other = true) :
    token.unspelled = other.unspelled := by
  cases token with
  | number text value =>
      cases other with
      | number otherText otherValue =>
          have sameSign : value.isNegative = otherValue.isNegative := by
            rw [isNegative_parseNumber? wellFormed.1, isNegative_parseNumber? otherWellFormed.1]
          exact congrArg (Token.number []) (Binary64.eq_of_equal agrees sameSign)
      | _ =>
          cases agrees
  | name text arguments =>
      cases other with
      | name otherText otherArguments =>
          obtain ⟨sameText, sameCount⟩ := Bool.and_eq_true_iff.mp agrees
          rw [eq_of_beq sameText, eq_of_beq sameCount]
      | _ =>
          cases agrees
  | operator symbol =>
      cases other with
      | operator otherSymbol =>
          rw [eq_of_beq agrees]
      | _ =>
          cases agrees
  | openParen =>
      cases other with
      | openParen =>
          rfl
      | _ =>
          cases agrees
  | closeParen =>
      cases other with
      | closeParen =>
          rfl
      | _ =>
          cases agrees
  | comma =>
      cases other with
      | comma =>
          rfl
      | _ =>
          cases agrees

theorem map_unspelled_eq_of_agrees
    {tokens otherTokens : List Token}
    (agree : List.Forall₂ (fun token other => token.agrees other = true) tokens otherTokens)
    (wellFormed : ∀ token ∈ tokens, token.WellFormed)
    (otherWellFormed : ∀ token ∈ otherTokens, token.WellFormed) :
    tokens.map Token.unspelled = otherTokens.map Token.unspelled := by
  induction agree with
  | nil =>
      rfl
  | cons agrees rest inductionHypothesis =>
      obtain ⟨first, others⟩ := List.forall_mem_cons.mp wellFormed
      obtain ⟨otherFirst, otherOthers⟩ := List.forall_mem_cons.mp otherWellFormed
      rw [List.map_cons, List.map_cons, Token.unspelled_eq_of_agrees first otherFirst agrees,
        inductionHypothesis others otherOthers]

/--
Formulas whose tokens agree one by one have the same outcome, with any functions
and any values of variables, strictly or not: the same value or the same fault.
-/
theorem evaluate_eq_of_agrees
    {formula otherFormula : Text}
    {tokens otherTokens : List Token}
    (read : tokenize formula = .ok tokens)
    (otherRead : tokenize otherFormula = .ok otherTokens)
    (agree : List.Forall₂ (fun token other => token.agrees other = true) tokens otherTokens)
    (bindings : Bindings)
    (table : FunctionTable) :
    evaluate bindings table formula = evaluate bindings table otherFormula ∧
      ∀ strict,
        Evaluator.evaluate { functions := table, strict := strict } bindings formula =
          Evaluator.evaluate { functions := table, strict := strict } bindings otherFormula := by
  have same : tokens.map Token.unspelled = otherTokens.map Token.unspelled :=
    map_unspelled_eq_of_agrees agree (Scanner.wellFormed_of_tokensFrom read)
      (Scanner.wellFormed_of_tokensFrom otherRead)
  have strictly :
      ∀ strict,
        Evaluator.evaluate { functions := table, strict := strict } bindings formula =
          Evaluator.evaluate { functions := table, strict := strict } bindings otherFormula :=
    evaluate_eq_of_map_unspelled_eq read otherRead same
  exact ⟨strictly false, strictly⟩

/-- The tokens of `01./x` and of `.1e1/x` agree, so both have the same outcome. -/
theorem evaluate_quotient_respelled :
    let formula := Text.ofString "01./x"
    let otherFormula := Text.ofString ".1e1/x"
    let x := Token.bareName (Text.ofString "x")
    let slash := Token.operator Byte.slash
    let tokens := [.number (Text.ofString "01.") .one, slash, x]
    let otherTokens := [.number (Text.ofString ".1e1") .one, slash, x]
    let bindings := Dictionary.ofList [(Text.ofString "x", .zero)]
    tokenize formula = .ok tokens ∧
      tokenize otherFormula = .ok otherTokens ∧
      List.Forall₂ (fun token other => token.agrees other = true) tokens otherTokens ∧
      evaluate bindings .empty formula =
        evaluate bindings .empty otherFormula := by
  intro formula otherFormula x slash tokens otherTokens bindings
  have read : tokenize formula = .ok tokens :=
    tokenize_of_answers (by decide +kernel)
  have otherRead : tokenize otherFormula = .ok otherTokens :=
    tokenize_of_answers (by decide +kernel)
  have agree :
      List.Forall₂ (fun token other => token.agrees other = true) tokens otherTokens := by
    refine .cons ?_ (.cons ?_ (.cons ?_ .nil)) <;> decide +kernel
  exact ⟨read, otherRead, agree,
    (evaluate_eq_of_agrees read otherRead agree bindings .empty).1⟩

end Reckoner
