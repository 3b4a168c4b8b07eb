import Reckoner.Scanner
import Reckoner.Postfix
import Reckoner.Machine

/-!
# Evaluating formulas

A formula is cut into tokens, brought into postfix order and evaluated. A
strict evaluator also checks, before it evaluates anything, that every name
either has a function or is a variable with a value.
-/

namespace Reckoner

/-- Refuse a name that has neither a function nor, outside a call, a value. -/
def resolve (bindings : Bindings) (table : FunctionTable) : Token → Except ParseFault Unit
  | .name text arguments =>
      if table.contains text then
        .ok ()
      else if 0 ≤ arguments then
        .error (.unresolvedCall text)
      else if bindings.contains text then
        .ok ()
      else
        .error (.unresolvedName text)
  | _ => .ok ()

/-- The tokens of a formula in postfix order, if all of its names resolve. -/
def toResolvedPostfix (bindings : Bindings) (table : FunctionTable) (tokens : List Token) :
    Except ParseFault (List Token) := do
  let sequence ← toPostfix tokens
  sequence.forM (resolve bindings table)
  .ok sequence

/-- The value of a formula. -/
def evaluate (bindings : Bindings) (table : FunctionTable) (formula : Text) :
    Except Fault Binary64 := do
  let tokens ← (tokenize formula).mapError .parse
  let sequence ← (toPostfix tokens).mapError .parse
  (evaluatePostfix bindings table sequence).mapError .evaluate

/-- A table of functions together with a choice of how to treat names. -/
structure Evaluator where
  functions : FunctionTable
  strict : Bool

namespace Evaluator

/-- Postfix order as an evaluator demands it. -/
def order (evaluator : Evaluator) (bindings : Bindings) (tokens : List Token) :
    Except ParseFault (List Token) :=
  if evaluator.strict then
    toResolvedPostfix bindings evaluator.functions tokens
  else
    toPostfix tokens

/-- The value of a formula. -/
def evaluate (evaluator : Evaluator) (bindings : Bindings) (formula : Text) :
    Except Fault Binary64 := do
  let tokens ← (tokenize formula).mapError .parse
  let sequence ← (evaluator.order bindings tokens).mapError .parse
  (evaluatePostfix bindings evaluator.functions sequence).mapError .evaluate

/-- Register a function with an evaluator. -/
def register
    (name : Text)
    (arity : Nat)
    (defaults : List Binary64)
    (body? : Option Body)
    (evaluator : Evaluator) :
    Except RegistrationFault Evaluator := do
  let functions ← evaluator.functions.register name arity defaults body?
  .ok { evaluator with functions := functions }

end Evaluator

end Reckoner
