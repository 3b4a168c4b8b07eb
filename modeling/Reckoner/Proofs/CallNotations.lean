import Reckoner.Proofs.StrictNames
import Reckoner.Proofs.WrittenCalls

/-!
# Calls and names behind their arguments

A function is applied either by a call, with its arguments between parentheses,
or by its bare name behind them. A call brings the number of its arguments along,
while a bare name takes as many as the function has parameters. With exactly so
many arguments both notations have the same blocks in their postfix sequences,
ended by a name that takes the same values from the stack, and so they have the
same outcome.
-/

namespace Reckoner

/-- A formula that can be read and brought into postfix order. -/
def Converts (formula : Text) : Prop :=
  ∃ tokens sequence, tokenize formula = .ok tokens ∧ toPostfix tokens = .ok sequence

/-- A call as it is written with a space behind every comma. -/
def Text.spacedCall (name : Text) (arguments : List Text) : Text :=
  name ++
    Byte.openParen :: (Text.joined [Byte.comma, Byte.space] arguments ++ [Byte.closeParen])

/-- A name behind its arguments, with spaces between them. -/
def Text.behind (name : Text) (arguments : List Text) : Text :=
  Text.joined [Byte.space] (arguments ++ [name])

/-! ## Groups in a row -/

/-- A formula with its tokens and its postfix sequence. -/
structure ConvertedFormula where
  text : Text
  tokens : List Token
  block : List Token
  reads : tokenize text = .ok tokens
  converted : toPostfix tokens = .ok block

namespace ConvertedFormula

/-- A formula between parentheses. -/
def group (formula : ConvertedFormula) : WrittenArgument :=
  .group formula.text formula.tokens formula.block formula.reads formula.converted

/-- Formulas, each between parentheses. -/
def groups (formulas : List ConvertedFormula) : List WrittenArgument :=
  formulas.map group

theorem exists_groups_of_converts
    {formulas : List Text}
    (convert : ∀ formula ∈ formulas, Converts formula) :
    ∃ converted : List ConvertedFormula,
      (groups converted).map WrittenArgument.text = formulas.map Text.parenthesized := by
  induction formulas with
  | nil =>
      exact ⟨[], rfl⟩
  | cons formula rest inductionHypothesis =>
      obtain ⟨first, others⟩ := List.forall_mem_cons.mp convert
      obtain ⟨tokens, sequence, reads, converts⟩ := first
      obtain ⟨later, sameTexts⟩ := inductionHypothesis others
      exact ⟨⟨formula, tokens, sequence, reads, converts⟩ :: later, congrArg (_ :: ·) sameTexts⟩

/-- Groups in a row put out the sequences of their formulas one after the other. -/
theorem run_groups
    (formulas : List ConvertedFormula)
    {outer : Conversion}
    (below : outer.CallsBelow)
    (rest : List Token) :
    Conversion.run
        (Cue.ofTokensAfter false ((groups formulas).flatMap WrittenArgument.tokens ++ rest))
        outer =
      Conversion.run (Cue.ofTokensAfter false rest)
        (outer.emitAll (WrittenArgument.blocks (groups formulas))) := by
  induction formulas generalizing outer with
  | nil =>
      rfl
  | cons formula later inductionHypothesis =>
      have puts := Conversion.run_group formula.converted below false
        ((groups later).flatMap WrittenArgument.tokens ++ rest)
      have goesOn := inductionHypothesis (below.emitAll formula.block)
      have emits :
          (outer.emitAll formula.block).emitAll (WrittenArgument.blocks (groups later)) =
            outer.emitAll (WrittenArgument.blocks (groups (formula :: later))) := by
        simp [Conversion.emitAll, groups, group, WrittenArgument.group]
      rw [← emits, ← goesOn, ← puts]
      simp [groups, group, WrittenArgument.group]

/-- A name behind groups is put out behind their sequences, as it is. -/
theorem toPostfix_groups_bareName
    (formulas : List ConvertedFormula)
    (name : Text) :
    toPostfix ((groups formulas).flatMap WrittenArgument.tokens ++ [.bareName name]) =
      .ok (WrittenArgument.blocks (groups formulas) ++ [.bareName name]) := by
  have puts (state : Conversion) :
      Conversion.run (Cue.ofTokensAfter false [.bareName name]) state =
        .ok (state.emit (.bareName name)) :=
    rfl
  rw [toPostfix, Cue.ofTokens, run_groups formulas Conversion.callsBelow_start, puts,
    Outcome.ok_bind]
  simp [Conversion.finish, Conversion.release, Conversion.emit, Conversion.emitAll,
    Conversion.start]

end ConvertedFormula

/-! ## Reading -/

theorem flatten_intersperse_nil
    (lists : List (List Token)) :
    (lists.intersperse []).flatten = lists.flatten := by
  induction lists with
  | nil =>
      rfl
  | cons first rest inductionHypothesis =>
      cases rest with
      | nil =>
          rfl
      | cons next later =>
          rw [List.intersperse_cons_cons]
          simpa using inductionHypothesis

section Reading

variable
  {name : Text}
  (identifier : isIdentifier name = true)
  (arguments : List WrittenArgument)

include identifier

/-- A call with spaces behind its commas is read as one without them. -/
theorem tokenize_spacedCall :
    tokenize (Text.spacedCall name (arguments.map WrittenArgument.text)) =
      .ok (.bareName name :: .openParen ::
        (WrittenArgument.separated arguments ++ [.closeParen])) := by
  have spaces : ∀ byte ∈ [Byte.space], Byte.isBlank byte = true := by
    simp [Byte.isBlank]
  exact tokenize_call identifier (WrittenArgument.tokenize_joined spaces arguments)

/-- A name behind its arguments is read as their tokens and the name. -/
theorem tokenize_behind :
    tokenize (Text.behind name (arguments.map WrittenArgument.text)) =
      .ok (arguments.flatMap WrittenArgument.tokens ++ [.bareName name]) := by
  have separates : Byte.isLexeme Byte.space = false :=
    rfl
  have noBlanks : ∀ byte ∈ ([] : Text), Byte.isBlank byte = true := by
    simp
  have reads :=
    tokenize_joined separates noBlanks
      (WrittenArgument.forall₂_tokenize (arguments ++ [.bareName name identifier]))
  have unseparated : (Token.ofDelimiter? Byte.space).toList = [] :=
    rfl
  rw [unseparated, flatten_intersperse_nil] at reads
  simpa [Text.behind, List.flatMap, WrittenArgument.bareName] using reads

end Reading

/-! ## Evaluation -/

section Evaluation

variable
  {bindings : Bindings}
  {table : FunctionTable}
  {function : Function}
  {name : Text}
  (found : table.find? name = some function)
  (earlier : List Token)

include found

/-- A name with a function passes the strict check, called or not. -/
theorem forM_resolve_call_eq_bareName :
    (earlier ++ [Token.name name function.arity]).forM (resolve bindings table) =
      (earlier ++ [Token.bareName name]).forM (resolve bindings table) := by
  have registered : table.contains name = true := by
    rw [FunctionTable.contains, found]
    rfl
  rw [forM_resolve_append, forM_resolve_append]
  simp [Token.bareName, resolve, registered]

/-- A call with all of its arguments takes as many values from the stack as a bare name. -/
theorem evaluatePostfix_call_eq_bareName :
    evaluatePostfix bindings table (earlier ++ [.name name function.arity]) =
      evaluatePostfix bindings table (earlier ++ [.bareName name]) := by
  have sameTaken : function.taken function.arity = function.taken (-1) :=
    function.taken_natCast function.arity
  have sameRun :
      ∀ stack,
        Machine.run bindings table [.name name function.arity] stack =
          Machine.run bindings table [.bareName name] stack := by
    intro stack
    rw [Machine.run_singleton, Machine.run_singleton]
    simp only [Token.bareName, Machine.step, found, Function.call, sameTaken]
  simpa using Machine.evaluatePostfix_of_run_eq bindings table sameRun earlier []

end Evaluation

/--
A call with as many arguments as its function has parameters has the outcome of
the bare name behind these arguments, strictly or not: the same value or the same
fault, also where the evaluation of an argument fails.
-/
theorem evaluate_spacedCall_eq_behind
    {table : FunctionTable}
    {name : Text}
    {function : Function}
    {arguments : List Text}
    (found : table.find? name = some function)
    (complete : arguments.length = function.arity)
    (convert : ∀ argument ∈ arguments, Converts argument)
    (bindings : Bindings) :
    evaluate bindings table (Text.spacedCall name (arguments.map Text.parenthesized)) =
        evaluate bindings table (Text.behind name (arguments.map Text.parenthesized)) ∧
      ∀ strict,
        Evaluator.evaluate { functions := table, strict := strict } bindings
            (Text.spacedCall name (arguments.map Text.parenthesized)) =
          Evaluator.evaluate { functions := table, strict := strict } bindings
            (Text.behind name (arguments.map Text.parenthesized)) := by
  obtain ⟨formulas, sameTexts⟩ := ConvertedFormula.exists_groups_of_converts convert
  have registered : (table.find? name).isSome = true := by
    rw [found]
    rfl
  have identifier : isIdentifier name = true :=
    table.named name registered
  have counted : (ConvertedFormula.groups formulas).length = function.arity := by
    rw [← complete]
    simpa using congrArg List.length sameTexts
  have callRead := tokenize_spacedCall identifier (ConvertedFormula.groups formulas)
  have nameRead := tokenize_behind identifier (ConvertedFormula.groups formulas)
  have callConverted := toPostfix_textCall name (ConvertedFormula.groups formulas)
  have nameConverted := ConvertedFormula.toPostfix_groups_bareName formulas name
  rw [sameTexts] at callRead nameRead
  rw [counted] at callConverted
  have strictly :
      ∀ strict,
        Evaluator.evaluate { functions := table, strict := strict } bindings
            (Text.spacedCall name (arguments.map Text.parenthesized)) =
          Evaluator.evaluate { functions := table, strict := strict } bindings
            (Text.behind name (arguments.map Text.parenthesized)) :=
    evaluate_eq_of_sequences callRead callConverted nameRead nameConverted
      (forM_resolve_call_eq_bareName found _)
      (evaluatePostfix_call_eq_bareName found _)
  exact ⟨strictly false, strictly⟩

/-- In `f((x), (y*0))` and `(x) (y*0) f` the function `f` gets the same two arguments. -/
theorem evaluate_call_of_two_groups :
    let f := Text.ofString "f"
    let arguments := [Text.ofString "x", Text.ofString "y*0"]
    let second : Function := {
      arity := 2
      defaults := [.zero]
      body := fun arguments => .ok (arguments.getD 1 .nan)
      defaults_le := by decide
    }
    let table := FunctionTable.empty.insert f (by decide) second
    let bindings := Dictionary.ofList [(Text.ofString "x", .zero)]
    table.find? f = some second ∧
      arguments.length = second.arity ∧
      (∀ argument ∈ arguments, Converts argument) ∧
      evaluate bindings table (Text.ofString "f((x), (y*0))") =
        evaluate bindings table (Text.ofString "(x) (y*0) f") := by
  intro f arguments second table bindings
  let y := Token.bareName (Text.ofString "y")
  let zero := Token.number (Text.ofString "0") .zero
  let times := Token.operator Byte.asterisk
  have found : table.find? f = some second :=
    rfl
  have reads : tokenize (Text.ofString "y*0") = .ok [y, times, zero] :=
    tokenize_of_answers rfl
  have convert : ∀ argument ∈ arguments, Converts argument :=
    List.forall_mem_cons.mpr
      ⟨⟨_, _, tokenize_of_isIdentifier (by decide), rfl⟩,
        List.forall_mem_singleton.mpr ⟨_, [y, zero, times], reads, rfl⟩⟩
  exact ⟨found, rfl, convert, (evaluate_spacedCall_eq_behind found rfl convert bindings).1⟩

end Reckoner
