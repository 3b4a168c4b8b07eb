import Reckoner.Token
import Reckoner.Decimal.Printed

/-!
# Faults

Reading a formula and evaluating it fail for different causes, kept apart in
`ParseFault` and `EvalFault`. What is told about any fault is a `Report`: the
stage it arose in, its kind, a message and the name it is about. A function may
fail with a report of its own, which passes through unchanged.
-/

namespace Reckoner

/-- The kinds of faults; `unlisted` stands for any kind without a name. -/
inductive FaultKind where
  | malformedToken
  | unbalancedParens
  | unknownIdentifier
  | undefinedVariable
  | stackUnderflow
  | divisionByZero
  | domainError
  | arityMismatch
  | malformedExpression
  | unlisted
  deriving DecidableEq, Repr

namespace FaultKind

/-- The name of a kind. -/
def name : FaultKind → Text
  | .malformedToken => Text.ofString "MalformedToken"
  | .unbalancedParens => Text.ofString "UnbalancedParens"
  | .unknownIdentifier => Text.ofString "UnknownIdentifier"
  | .undefinedVariable => Text.ofString "UndefinedVariable"
  | .stackUnderflow => Text.ofString "StackUnderflow"
  | .divisionByZero => Text.ofString "DivisionByZero"
  | .domainError => Text.ofString "DomainError"
  | .arityMismatch => Text.ofString "ArityMismatch"
  | .malformedExpression => Text.ofString "MalformedExpression"
  | .unlisted => Text.ofString "Unknown"

/-- The kinds with a name, in their order. -/
def listed : List FaultKind :=
  [.malformedToken, .unbalancedParens, .unknownIdentifier, .undefinedVariable,
    .stackUnderflow, .divisionByZero, .domainError, .arityMismatch,
    .malformedExpression]

/-- The kind at a position of that order. -/
def ofPosition : Int → FaultKind
  | .ofNat position => listed[position]?.getD .unlisted
  | .negSucc _ => .unlisted

end FaultKind

/-- Whether a fault lies in the text of a formula or arose from evaluating it. -/
inductive Stage where
  | parse
  | evaluate
  deriving DecidableEq, Repr

/-- What is told about a fault; `name` is empty when the fault is about no name. -/
structure Report where
  stage : Stage
  kind : FaultKind
  message : Text
  name : Text
  deriving DecidableEq

namespace Report

/-- A fault of evaluation, its message cut as messages are shown. -/
def evaluation (kind : FaultKind) (message : Text) (name : Text := []) : Report where
  stage := .evaluate
  kind := kind
  message := message.shown
  name := name

/-- A fault in the text of a formula, its message cut as messages are shown. -/
def parsing (kind : FaultKind) (message : Text) (name : Text := []) : Report where
  stage := .parse
  kind := kind
  message := message.shown
  name := name

end Report

/-- Why the text of a formula is refused. -/
inductive ParseFault where
  | malformedToken (lexeme : Text) (offset : Nat)
  | unmatchedClose
  | unmatchedOpen
  | strayComma
  | unresolvedCall (name : Text)
  | unresolvedName (name : Text)
  deriving DecidableEq

namespace ParseFault

/-- What is told about a refused formula. -/
def report : ParseFault → Report
  | .malformedToken lexeme offset =>
      .parsing .malformedToken
        (Text.ofString "Malformed token '" ++ lexeme ++
          Text.ofString "' at position " ++ Text.ofNat offset)
  | .unmatchedClose =>
      .parsing .unbalancedParens (Text.ofString "Mismatched ')'")
  | .unmatchedOpen =>
      .parsing .unbalancedParens (Text.ofString "Mismatched '('")
  | .strayComma =>
      .parsing .malformedExpression
        (Text.ofString "Unexpected ',' outside a function call")
  | .unresolvedCall name =>
      .parsing .unknownIdentifier (Text.ofString "Unknown function: " ++ name) name
  | .unresolvedName name =>
      .parsing .unknownIdentifier (Text.ofString "Unknown identifier: " ++ name) name

end ParseFault

/-- Why a postfix sequence has no value. -/
inductive EvalFault where
  | unknownFunction (name : Text)
  | undefinedVariable (name : Text)
  | missingOperand
  | missingArguments (name : Text)
  | divisionByZero
  | noRealResult (symbol : UInt8) (left right : Binary64)
  | unknownOperator (symbol : UInt8)
  | arityMismatch (name : Text) (required arity given : Nat)
  | noRealValue (name : Text)
  | unexpectedToken (token : Token)
  | notSingleValue
  | raised (report : Report)
  deriving DecidableEq

namespace EvalFault

/-- How many arguments a function takes: one number, or a range. -/
def expectedCount (required arity : Nat) : Text :=
  if required = arity then
    Text.ofNat arity
  else
    Text.ofNat required ++ Text.ofString " to " ++ Text.ofNat arity

/-- What is told about a failed evaluation. -/
def report : EvalFault → Report
  | .unknownFunction name =>
      .evaluation .unknownIdentifier (Text.ofString "Unknown function: " ++ name) name
  | .undefinedVariable name =>
      .evaluation .undefinedVariable (Text.ofString "Undefined variable: " ++ name) name
  | .missingOperand =>
      .evaluation .stackUnderflow
        (Text.ofString "Stack underflow (operator lacks operands)")
  | .missingArguments name =>
      .evaluation .stackUnderflow
        (Text.ofString "Stack underflow (arguments of " ++ name ++ Text.ofString ")")
  | .divisionByZero =>
      .evaluation .divisionByZero (Text.ofString "Division by zero")
  | .noRealResult symbol left right =>
      .evaluation .domainError
        (Text.ofString "No real result for " ++ left.sixPlaces ++
          [Byte.space, symbol, Byte.space] ++ right.sixPlaces)
  | .unknownOperator symbol =>
      .evaluation .malformedExpression
        (Text.ofString "Unknown operator '" ++ [symbol] ++ Text.ofString "'")
  | .arityMismatch name required arity given =>
      .evaluation .arityMismatch
        (name ++ Text.ofString " expects " ++ expectedCount required arity ++
          Text.ofString " arguments, got " ++ Text.ofNat given)
        name
  | .noRealValue name =>
      .evaluation .domainError
        (name ++ Text.ofString " has no real result for its arguments")
  | .unexpectedToken token =>
      .evaluation .malformedExpression
        (Text.ofString "Unexpected '" ++ token.written ++
          Text.ofString "' in postfix sequence")
  | .notSingleValue =>
      .evaluation .malformedExpression
        (Text.ofString "Expression did not reduce to a single value")
  | .raised report => report

end EvalFault

/-- Why a formula has no value. -/
inductive Fault where
  | parse (cause : ParseFault)
  | evaluate (cause : EvalFault)
  deriving DecidableEq

namespace Fault

/-- What is told about a fault. -/
def report : Fault → Report
  | .parse cause => cause.report
  | .evaluate cause => cause.report

end Fault

/-- Why a function is not registered. -/
inductive RegistrationFault where
  | invalidName (name : Text)
  | missingBody (name : Text)
  | tooManyDefaults (name : Text)
  deriving DecidableEq

namespace RegistrationFault

/-- What is told about a refused registration. -/
def message : RegistrationFault → Text
  | .invalidName name =>
      (Text.ofString "Invalid function name: '" ++ name ++ Text.ofString "'").shown
  | .missingBody name =>
      (Text.ofString "Function '" ++ name ++ Text.ofString "' has no body").shown
  | .tooManyDefaults name =>
      (Text.ofString "Function '" ++ name ++
        Text.ofString "' has more defaults than parameters").shown

end RegistrationFault

end Reckoner
