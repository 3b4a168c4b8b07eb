import Reckoner.Operator
import Reckoner.Decimal.Literal

/-!
# Tokens

A formula is a sequence of numbers, names, operators, parentheses and commas.
A name carries the number of arguments of its call, which is negative for a
name that is not called.
-/

namespace Reckoner

/-- One token of a formula, before or after conversion to postfix order. -/
inductive Token where
  | number (text : Text) (value : Binary64)
  | name (text : Text) (arguments : Int)
  | operator (symbol : UInt8)
  | openParen
  | closeParen
  | comma
  deriving DecidableEq

namespace Token

/-- A name that is not called. -/
def bareName (text : Text) : Token :=
  .name text (-1)

/-- The token of a delimiter. -/
def ofDelimiter? (byte : UInt8) : Option Token :=
  if byte = Byte.openParen then
    some .openParen
  else if byte = Byte.closeParen then
    some .closeParen
  else if byte = Byte.comma then
    some .comma
  else if Byte.isOperator byte then
    some (.operator byte)
  else
    none

/-- The token of a lexeme: a literal, or a name if it does not start with a digit. -/
def ofLexeme? (lexeme : Text) : Option Token :=
  match parseNumber? lexeme with
  | some value => some (.number lexeme value)
  | none =>
      if lexeme.startsWithDigit then none else some (bareName lexeme)

/--
Whether two tokens mean the same. Numbers are compared by value, whatever
their texts; names by text and number of arguments.
-/
def agrees : Token → Token → Bool
  | .number _ left, .number _ right => left.equal right
  | .name left leftCount, .name right rightCount =>
      left == right && leftCount == rightCount
  | .operator left, .operator right => left == right
  | .openParen, .openParen => true
  | .closeParen, .closeParen => true
  | .comma, .comma => true
  | _, _ => false

/-- A token as it is written. -/
def written : Token → Text
  | .number text _ => text
  | .name text _ => text
  | .operator symbol => [symbol]
  | .openParen => [Byte.openParen]
  | .closeParen => [Byte.closeParen]
  | .comma => [Byte.comma]

/-- Tokens as they are written, with a space between neighbours. -/
def writtenAll (tokens : List Token) : Text :=
  Text.joined [Byte.space] (tokens.map written)

/-- Exactly the delimiters have a token of their own. -/
theorem isSome_ofDelimiter?
    (byte : UInt8) :
    (ofDelimiter? byte).isSome = Byte.isDelimiter byte := by
  unfold ofDelimiter? Byte.isDelimiter
  split
  · simp_all
  · split
    · simp_all
    · split
      · simp_all
      · split <;> simp_all

/-- The token of a delimiter is written as that byte. -/
theorem written_of_ofDelimiter?
    {byte : UInt8}
    {token : Token}
    (delimits : ofDelimiter? byte = some token) :
    token.written = [byte] := by
  unfold ofDelimiter? at delimits
  split at delimits
  · next opens =>
      cases delimits
      rw [opens]
      rfl
  · split at delimits
    · next closes =>
        cases delimits
        rw [closes]
        rfl
    · split at delimits
      · next separates =>
          cases delimits
          rw [separates]
          rfl
      · split at delimits
        · cases delimits
          rfl
        · cases delimits

end Token

/--
Whether a text can name a function or a variable: it is one lexeme that is not
a literal and does not start with a digit.
-/
def isIdentifier (text : Text) : Bool :=
  text != [] && !text.startsWithDigit &&
    text.all Byte.isLexeme &&
    (parseNumber? text).isNone

end Reckoner
