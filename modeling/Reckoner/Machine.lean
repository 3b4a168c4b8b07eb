import Reckoner.Function
import Reckoner.Binary64.Elementary

/-!
# The stack machine

A postfix sequence is evaluated on a stack of values. A number is pushed, an
operator replaces two values by its result, and a function replaces its
arguments by its result. The sequence has a value if exactly one is left.

A result that is NaN although no operand is counts as a fault, except for sums,
differences, products and quotients, whose NaNs are values.
-/

namespace Reckoner

/-- Values of the variables of a formula. -/
abbrev Bindings := Dictionary Binary64

/-- Refuse a NaN that comes from operands that are numbers. -/
def realResult (symbol : UInt8) (left right result : Binary64) : Except EvalFault Binary64 :=
  if result.isNaN && !left.isNaN && !right.isNaN then
    .error (.noRealResult symbol left right)
  else
    .ok result

/-- Apply the operator that a byte writes. -/
def applyOperator (symbol : UInt8) (left right : Binary64) : Except EvalFault Binary64 :=
  match Operator.ofSymbol? symbol with
  | some .add => .ok (left + right)
  | some .subtract => .ok (left - right)
  | some .multiply => .ok (left * right)
  | some .divide =>
      if right.isZero then .error .divisionByZero else .ok (left / right)
  | some .remainder => realResult symbol left right (left.remainder right)
  | some .power => realResult symbol left right (left.pow right)
  | none => .error (.unknownOperator symbol)

namespace Function

/-- Apply a function to an admissible number of arguments. -/
def apply (name : Text) (function : Function) (arguments : List Binary64) :
    Except EvalFault Binary64 :=
  let values := function.complete arguments
  match function.body values with
  | .error report => .error (.raised report)
  | .ok result =>
      if result.isNaN && !values.any Binary64.isNaN then
        .error (.noRealValue name)
      else
        .ok result

/--
The number of arguments that a reference takes from the stack: the number
written in its call, or the arity for a name that is not called.
-/
def taken (arguments : Int) (function : Function) : Nat :=
  if arguments < 0 then function.arity else arguments.toNat

/-- Replace the arguments of a function on the stack, topmost first, by its result. -/
def call (name : Text) (arguments : Int) (function : Function) (stack : List Binary64) :
    Except EvalFault (List Binary64) :=
  let count := function.taken arguments
  if count < function.required ∨ function.arity < count then
    .error (.arityMismatch name function.required function.arity count)
  else if stack.length < count then
    .error (.missingArguments name)
  else
    (function.apply name (stack.take count).reverse).map (· :: stack.drop count)

end Function

namespace Machine

/-- The stack after one token of a postfix sequence. -/
def step (bindings : Bindings) (table : FunctionTable) (stack : List Binary64) :
    Token → Except EvalFault (List Binary64)
  | .number _ value => .ok (value :: stack)
  | .name text arguments =>
      match table.find? text with
      | some function => function.call text arguments stack
      | none =>
          if 0 ≤ arguments then
            .error (.unknownFunction text)
          else
            match bindings.find? text with
            | some value => .ok (value :: stack)
            | none => .error (.undefinedVariable text)
  | .operator symbol =>
      match stack with
      | right :: left :: below =>
          (applyOperator symbol left right).map (· :: below)
      | _ => .error .missingOperand
  | token => .error (.unexpectedToken token)

/-- The stack after a postfix sequence. -/
def run (bindings : Bindings) (table : FunctionTable) (sequence : List Token)
    (stack : List Binary64) : Except EvalFault (List Binary64) :=
  sequence.foldlM (step bindings table) stack

/-- The value that a stack holds, if it holds exactly one. -/
def single : List Binary64 → Except EvalFault Binary64
  | [value] => .ok value
  | _ => .error .notSingleValue

/-- Running two sequences one after the other is running their concatenation. -/
theorem run_append
    (bindings : Bindings)
    (table : FunctionTable)
    (first second : List Token)
    (stack : List Binary64) :
    run bindings table (first ++ second) stack =
      run bindings table first stack >>= run bindings table second :=
  List.foldlM_append

end Machine

/-- The value of a postfix sequence. -/
def evaluatePostfix (bindings : Bindings) (table : FunctionTable) (sequence : List Token) :
    Except EvalFault Binary64 :=
  Machine.run bindings table sequence [] >>= Machine.single

end Reckoner
