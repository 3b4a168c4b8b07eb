import Reckoner.Text

/-!
# Operators and delimiters

Six binary operators are written as single bytes. With the parentheses and the
comma they are the delimiters, which end a lexeme wherever they stand.
-/

namespace Reckoner

/-- The binary operators of a formula. -/
inductive Operator where
  | add
  | subtract
  | multiply
  | divide
  | remainder
  | power
  deriving DecidableEq, Repr

namespace Operator

/-- Every operator once. -/
def all : List Operator :=
  [.add, .subtract, .multiply, .divide, .remainder, .power]

/-- The byte that writes an operator. -/
def symbol : Operator → UInt8
  | .add => Byte.plus
  | .subtract => Byte.minus
  | .multiply => Byte.asterisk
  | .divide => Byte.slash
  | .remainder => Byte.percent
  | .power => Byte.caret

/-- The operator that a byte writes. -/
def ofSymbol? (byte : UInt8) : Option Operator :=
  all.find? (fun operator => operator.symbol == byte)

/-- How tightly an operator binds. -/
def precedence : Operator → Nat
  | .add => 2
  | .subtract => 2
  | .multiply => 3
  | .divide => 3
  | .remainder => 3
  | .power => 4

/-- Reading the byte of an operator gives it back. -/
@[simp] theorem ofSymbol?_symbol
    (operator : Operator) :
    ofSymbol? operator.symbol = some operator := by
  cases operator <;> rfl

/-- A byte that reads as an operator is the one that writes it. -/
theorem symbol_of_ofSymbol?
    {byte : UInt8}
    {operator : Operator}
    (reads : ofSymbol? byte = some operator) :
    operator.symbol = byte := by
  have found := List.find?_some reads
  simpa using found

end Operator

namespace Byte

/-- Whether a byte writes an operator. -/
def isOperator (byte : UInt8) : Bool :=
  (Operator.ofSymbol? byte).isSome

/-- How tightly the operator of a byte binds; zero for every other byte. -/
def precedence (byte : UInt8) : Nat :=
  match Operator.ofSymbol? byte with
  | some operator => operator.precedence
  | none => 0

/-- Operators, parentheses and the comma are delimiters. -/
def isDelimiter (byte : UInt8) : Bool :=
  isOperator byte || byte == openParen || byte == closeParen || byte == comma

/-- Every byte that neither separates nor delimits belongs to a lexeme. -/
def isLexeme (byte : UInt8) : Bool :=
  !isBlank byte && !isDelimiter byte

end Byte

end Reckoner
