import Reckoner.Proofs.Agreement
import Reckoner.Proofs.Mentions
import Reckoner.Proofs.Separation

/-!
# A part of a formula can be named

A group with a value can be replaced by a fresh variable that is bound to that
value. Nothing else of the formula needs to have a meaning of its own: what
stands before and after the group is put out alike around the group and around
the name, and only the name looks up the new binding.
-/

namespace Reckoner

/-! ## A variable in place of a sequence -/

/-- A variable pushes the value it was bound to last. -/
theorem Machine.run_bareName_insert
    {bindings : Bindings}
    {table : FunctionTable}
    {name : Text}
    (unregistered : table.contains name = false)
    (value : Binary64)
    (stack : List Binary64) :
    Machine.run (bindings.insert name value) table [.bareName name] stack =
      .ok (value :: stack) := by
  have missing : table.find? name = none := by
    simpa [FunctionTable.contains] using unregistered
  simp [Token.bareName, Machine.step, missing, Dictionary.find?_insert]

/--
A sequence with a value in the middle of another one can be replaced by a
variable with that value, if the rest does not mention the variable.
-/
theorem evaluatePostfix_insert
    {bindings : Bindings}
    {table : FunctionTable}
    {first middle last : List Token}
    {name : Text}
    {value : Binary64}
    (evaluates : evaluatePostfix bindings table middle = .ok value)
    (unregistered : table.contains name = false)
    (freshFirst : Mentions (· ≠ name) first)
    (freshLast : Mentions (· ≠ name) last) :
    evaluatePostfix (bindings.insert name value) table
        (first ++ [.bareName name] ++ last) =
      evaluatePostfix bindings table (first ++ middle ++ last) := by
  have unchanged :
      ∀ {tokens : List Token},
        Mentions (· ≠ name) tokens →
        ∀ stack,
          Machine.run (bindings.insert name value) table tokens stack =
            Machine.run bindings table tokens stack := by
    intro tokens fresh stack
    have agree : Agree (bindings.insert name value) bindings table table tokens := by
      apply Agree.of_values
      intro text arguments member missing
      rw [Dictionary.find?_insert, if_neg (fresh text arguments member)]
    exact agree.run_eq stack
  simp only [evaluatePostfix, Machine.run_append, unchanged freshFirst]
  cases Machine.run bindings table first [] with
  | error fault =>
      rfl
  | ok stack =>
      rw [Outcome.ok_bind, Outcome.ok_bind, Machine.run_bareName_insert unregistered,
        Machine.run_of_evaluatePostfix bindings table evaluates, Outcome.ok_bind,
        Outcome.ok_bind, unchanged freshLast]

/-! ## A part of a formula -/

section Texts

variable
  {before after : Text}
  {beforeTokens afterTokens : List Token}
  (readsBefore : tokenize before = .ok beforeTokens)
  (readsAfter : tokenize after = .ok afterTokens)

include readsBefore readsAfter

/-- A group is read apart from the texts around it. -/
theorem tokenize_group
    {inner : Text}
    {innerTokens : List Token}
    (readsInner : tokenize inner = .ok innerTokens) :
    tokenize (before ++ Byte.openParen :: (inner ++ Byte.closeParen :: after)) =
      .ok (beforeTokens ++ (.openParen :: (innerTokens ++ [.closeParen]) ++ afterTokens)) := by
  have readsRest :
      tokenize (inner ++ Byte.closeParen :: after) =
        .ok (innerTokens ++ ([.closeParen] ++ afterTokens)) :=
    tokenize_append_cons readsInner rfl readsAfter
  rw [List.cons_append, List.append_assoc]
  exact tokenize_append_cons readsBefore rfl readsRest

/-- An identifier between spaces is read apart from the texts around it. -/
theorem tokenize_spaced
    {name : Text}
    (identifier : isIdentifier name = true) :
    tokenize (before ++ Byte.space :: (name ++ Byte.space :: after)) =
      .ok (beforeTokens ++ ([.bareName name] ++ afterTokens)) := by
  have readsRest :
      tokenize (name ++ Byte.space :: after) = .ok ([.bareName name] ++ afterTokens) :=
    tokenize_append_cons (tokenize_of_isIdentifier identifier) rfl readsAfter
  exact tokenize_append_cons readsBefore rfl readsRest

end Texts

/--
A group with a value is as good as a fresh variable with that value, in every
formula: the texts before and after it are arbitrary, so long as they can be
read, the group is not the argument list of a call and the variable is not made
the name of one.
-/
theorem evaluate_group_eq_evaluate_name
    {bindings : Bindings}
    {table : FunctionTable}
    {before inner after name : Text}
    {beforeTokens afterTokens : List Token}
    {value : Binary64}
    (readsBefore : tokenize before = .ok beforeTokens)
    (readsAfter : tokenize after = .ok afterTokens)
    (noCallBefore : ∀ text arguments, beforeTokens.getLast? ≠ some (.name text arguments))
    (noCallAfter : afterTokens.head? ≠ some .openParen)
    (evaluates : evaluate bindings table inner = .ok value)
    (identifier : isIdentifier name = true)
    (freshBefore : Mentions (· ≠ name) beforeTokens)
    (freshAfter : Mentions (· ≠ name) afterTokens)
    (unregistered : table.contains name = false) :
    evaluate bindings table
        (before ++ Byte.openParen :: (inner ++ Byte.closeParen :: after)) =
      evaluate (bindings.insert name value) table
        (before ++ Byte.space :: (name ++ Byte.space :: after)) := by
  obtain ⟨innerTokens, sequence, readsInner, converted, computed⟩ :=
    exists_toPostfix_of_evaluate (.ok value) evaluates
  have readsGroup := tokenize_group readsBefore readsAfter readsInner
  have readsName := tokenize_spaced readsBefore readsAfter identifier
  have groupOrder :
      toPostfix (beforeTokens ++ (.openParen :: (innerTokens ++ [.closeParen]) ++ afterTokens)) =
        (Conversion.surroundings beforeTokens afterTokens).map fun parts =>
          parts.1 ++ sequence ++ parts.2 :=
    Conversion.toPostfix_group noCallBefore converted
  have nameOrder :
      toPostfix (beforeTokens ++ ([.bareName name] ++ afterTokens)) =
        (Conversion.surroundings beforeTokens afterTokens).map fun parts =>
          parts.1 ++ [.bareName name] ++ parts.2 :=
    Conversion.toPostfix_name noCallAfter name (-1)
  cases around : Conversion.surroundings beforeTokens afterTokens with
  | error cause =>
      rw [around] at groupOrder nameOrder
      rw [(evaluate_of_toPostfix_eq_error readsGroup groupOrder false).1,
        (evaluate_of_toPostfix_eq_error readsName nameOrder false).1]
  | ok parts =>
      rw [around] at groupOrder nameOrder
      obtain ⟨freshFirst, freshLast⟩ :=
        Conversion.mentions_surroundings around freshBefore freshAfter
      rw [evaluate_of_toPostfix readsGroup groupOrder,
        evaluate_of_toPostfix readsName nameOrder]
      exact congrArg _
        (evaluatePostfix_insert computed unregistered freshFirst freshLast).symm

/--
In the formula `g(y,(y+y))*y` the second argument can be named `x`, although
neither `g(y,` nor `)*y` has a meaning of its own.
-/
theorem evaluate_named_argument :
    let g := Text.ofString "g"
    let x := Text.ofString "x"
    let y := Text.ofString "y"
    let before := Text.ofString "g(y,"
    let inner := Text.ofString "y+y"
    let after := Text.ofString ")*y"
    let beforeTokens := [Token.bareName g, .openParen, .bareName y, .comma]
    let afterTokens := [Token.closeParen, .operator Byte.asterisk, .bareName y]
    let bindings := Dictionary.ofList [(y, Binary64.one)]
    let function : Function := {
      arity := 2
      defaults := []
      body := fun arguments => .ok (arguments.getD 1 .nan)
      defaults_le := by decide
    }
    let table := FunctionTable.empty.insert g (by decide) function
    tokenize before = .ok beforeTokens ∧
      tokenize after = .ok afterTokens ∧
      evaluate bindings table inner = .ok (.one + .one) ∧
      isIdentifier x = true ∧
      table.contains x = false ∧
      evaluate bindings table (Text.ofString "g(y,(y+y))*y") =
        evaluate (bindings.insert x (.one + .one)) table (Text.ofString "g(y, x )*y") := by
  intro g x y before inner after beforeTokens afterTokens bindings function table
  have readsBefore : tokenize before = .ok beforeTokens :=
    tokenize_of_answers rfl
  have readsAfter : tokenize after = .ok afterTokens :=
    tokenize_of_answers rfl
  have evaluates : evaluate bindings table inner = .ok (.one + .one) := by
    have readsInner :
        tokenize inner = .ok [.bareName y, .operator Byte.plus, .bareName y] :=
      tokenize_of_answers rfl
    have converted :
        toPostfix [.bareName y, .operator Byte.plus, .bareName y] =
          .ok [.bareName y, .bareName y, .operator Byte.plus] :=
      rfl
    have bound : bindings.find? y = some .one := by
      simp [bindings, Dictionary.ofList, Dictionary.find?_insert]
    have missing : table.find? y = none :=
      rfl
    have adds : applyOperator Byte.plus .one .one = .ok (.one + .one) :=
      rfl
    rw [evaluate_of_toPostfix readsInner converted]
    simp [evaluatePostfix, Machine.run_cons, Machine.step, Token.bareName, missing, bound, adds,
      Machine.single]
  have freshBefore : Mentions (· ≠ x) beforeTokens := by
    intro text arguments member
    simp only [beforeTokens, List.mem_cons, Token.bareName, Token.name.injEq, reduceCtorEq,
      List.not_mem_nil, or_false, false_or] at member
    rcases member with ⟨rfl, _⟩ | ⟨rfl, _⟩ <;> decide
  have freshAfter : Mentions (· ≠ x) afterTokens := by
    intro text arguments member
    simp only [afterTokens, List.mem_cons, Token.bareName, Token.name.injEq, reduceCtorEq,
      List.not_mem_nil, or_false, false_or] at member
    rcases member with ⟨rfl, _⟩
    decide
  have identifier : isIdentifier x = true := by
    decide
  have unregistered : table.contains x = false :=
    rfl
  refine ⟨readsBefore, readsAfter, evaluates, identifier, unregistered, ?_⟩
  exact
    evaluate_group_eq_evaluate_name readsBefore readsAfter (by simp [beforeTokens])
      (by simp [afterTokens]) evaluates identifier freshBefore freshAfter unregistered

end Reckoner
