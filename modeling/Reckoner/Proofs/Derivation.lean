import Reckoner.Evaluator

/-!
# Derivations of formulas

The grammar of formulas is stratified by precedence. With one level for each
precedence of an operator and a last level for the primaries, its rules are

```text
level n ::= level n  operator of precedence n  level (n + 1)  |  level (n + 1)
primary ::= number  |  name  |  name `(` `)`
          |  name `(` formula { `,` formula } `)`  |  `(` formula `)`
```

A formula is anything of the level of sums. A `Derivation` is a derivation tree
of this grammar. It is written as tokens by `yield`, it lists its operands and
operators in `postorder`, and its meaning is the recursive `value`, which knows
neither a stack nor a postfix order.
-/

namespace Reckoner

/-- The level of sums and differences, to which every formula belongs. -/
abbrev sumLevel : Nat := 2

/-- The level of primaries, above the precedence of every operator. -/
abbrev primaryLevel : Nat := 5

mutual

/-- Derivation trees, by the level of the grammar that they derive from. -/
inductive Derivation : Nat → Type where
  | operation
      (operator : Operator)
      (left : Derivation operator.precedence)
      (right : Derivation (operator.precedence + 1)) :
      Derivation operator.precedence
  | tighter {level : Nat} (inner : Derivation (level + 1)) : Derivation level
  | number (text : Text) (value : Binary64) : Derivation primaryLevel
  | name (text : Text) : Derivation primaryLevel
  | emptyCall (name : Text) : Derivation primaryLevel
  | call (name : Text) (arguments : Arguments) : Derivation primaryLevel
  | group (inner : Derivation sumLevel) : Derivation primaryLevel

/-- The formulas between the parentheses of a call, at least one. -/
inductive Arguments : Type where
  | last (argument : Derivation sumLevel) : Arguments
  | more (argument : Derivation sumLevel) (rest : Arguments) : Arguments

end

mutual

/-- The tokens of a formula as it is written. -/
def Derivation.yield {level : Nat} : Derivation level → List Token
  | .operation operator left right =>
      left.yield ++ .operator operator.symbol :: right.yield
  | .tighter inner => inner.yield
  | .number text value => [.number text value]
  | .name text => [.bareName text]
  | .emptyCall name => [.bareName name, .openParen, .closeParen]
  | .call name arguments =>
      .bareName name :: .openParen :: (arguments.yield ++ [.closeParen])
  | .group inner => .openParen :: (inner.yield ++ [.closeParen])

/-- The tokens of arguments, with a comma between neighbours. -/
def Arguments.yield : Arguments → List Token
  | .last argument => argument.yield
  | .more argument rest => argument.yield ++ .comma :: rest.yield

end

/-- The number of arguments. -/
def Arguments.count : Arguments → Nat
  | .last _ => 1
  | .more _ rest => rest.count + 1

mutual

/--
Every operand before its operator and all arguments before the name of their
call, which tells how many they are. Groups leave no trace.
-/
def Derivation.postorder {level : Nat} : Derivation level → List Token
  | .operation operator left right =>
      left.postorder ++ right.postorder ++ [.operator operator.symbol]
  | .tighter inner => inner.postorder
  | .number text value => [.number text value]
  | .name text => [.bareName text]
  | .emptyCall name => [.name name 0]
  | .call name arguments => arguments.postorder ++ [.name name arguments.count]
  | .group inner => inner.postorder

/-- The postorder of all arguments, one after the other. -/
def Arguments.postorder : Arguments → List Token
  | .last argument => argument.postorder
  | .more argument rest => argument.postorder ++ rest.postorder

end

mutual

/-- The names of a formula that are not called. -/
def Derivation.bareNames {level : Nat} : Derivation level → List Text
  | .operation _ left right => left.bareNames ++ right.bareNames
  | .tighter inner => inner.bareNames
  | .number _ _ => []
  | .name text => [text]
  | .emptyCall _ => []
  | .call _ arguments => arguments.bareNames
  | .group inner => inner.bareNames

/-- The names of arguments that are not called. -/
def Arguments.bareNames : Arguments → List Text
  | .last argument => argument.bareNames
  | .more argument rest => argument.bareNames ++ rest.bareNames

end

/--
The value of a call with the given arguments. The name has to be registered and
the number of arguments admissible; then the body gets the arguments followed by
the defaults of the parameters that are missing at the end.
-/
def callValue (table : FunctionTable) (name : Text) (arguments : List Binary64) :
    Except EvalFault Binary64 :=
  match table.find? name with
  | none => .error (.unknownFunction name)
  | some function =>
      let least := function.arity - function.defaults.length
      let missing := function.arity - arguments.length
      let padded :=
        arguments ++ function.defaults.drop (function.defaults.length - missing)
      if least ≤ arguments.length ∧ arguments.length ≤ function.arity then
        match function.body padded with
        | .error report => .error (.raised report)
        | .ok result =>
            if result.isNaN ∧ ∀ value ∈ padded, value.isNaN = false then
              .error (.noRealValue name)
            else
              .ok result
      else
        .error (.arityMismatch name least function.arity arguments.length)

mutual

/-- The meaning of a formula: operands from left to right, then what combines them. -/
def Derivation.value {level : Nat} (bindings : Bindings) (table : FunctionTable) :
    Derivation level → Except EvalFault Binary64
  | .operation operator left right => do
      let leftValue ← left.value bindings table
      let rightValue ← right.value bindings table
      applyOperator operator.symbol leftValue rightValue
  | .tighter inner => inner.value bindings table
  | .number _ value => .ok value
  | .name text =>
      match bindings.find? text with
      | some value => .ok value
      | none => .error (.undefinedVariable text)
  | .emptyCall name => callValue table name []
  | .call name arguments => do
      let values ← arguments.values bindings table
      callValue table name values
  | .group inner => inner.value bindings table

/-- The values of all arguments, in order. -/
def Arguments.values (bindings : Bindings) (table : FunctionTable) :
    Arguments → Except EvalFault (List Binary64)
  | .last argument => do
      let value ← argument.value bindings table
      .ok [value]
  | .more argument rest => do
      let value ← argument.value bindings table
      let values ← rest.values bindings table
      .ok (value :: values)

end

end Reckoner
