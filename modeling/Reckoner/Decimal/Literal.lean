import Reckoner.Text
import Reckoner.Binary64

/-!
# Decimal literals

A literal is digits with an optional point and an optional exponent:
`D+ [. D*] [X]` or `. D+ [X]`, where `X` is `e` or `E`, an optional sign and
digits. A literal has no sign of its own, so its value is never negative. The
value is the one nearest to the exact decimal, infinite past the largest
finite value.
-/

namespace Reckoner

/-- The number that a string of digits writes in decimal. -/
def digitsValue (digits : Text) : Nat :=
  digits.foldl (fun value digit => 10 * value + Byte.digitValue digit) 0

/-- A literal taken apart; `whole` and `fraction` hold its digits around the point. -/
structure Literal where
  whole : Text
  fraction : Text
  exponent : Int
  deriving Repr, DecidableEq

namespace Literal

/-- The digits at the start of a text, and what follows them. -/
def splitDigits (text : Text) : Text × Text :=
  (text.takeWhile Byte.isDigit, text.dropWhile Byte.isDigit)

/-- Read a text that consists of digits, at least one, as a number. -/
def digits? (text : Text) : Option Nat :=
  if text ≠ [] ∧ text.all Byte.isDigit then
    some (digitsValue text)
  else
    none

/-- Read the digits of an exponent after its optional sign. -/
def signedDigits? : Text → Option Int
  | Byte.plus :: digits => (digits? digits).map fun value => (value : Int)
  | Byte.minus :: digits => (digits? digits).map fun value => -(value : Int)
  | digits => (digits? digits).map fun value => (value : Int)

/-- Read what follows the digits of a literal: nothing, or an exponent. -/
def exponent? : Text → Option Int
  | [] => some 0
  | marker :: rest =>
      if marker = Byte.lowerE ∨ marker = Byte.upperE then signedDigits? rest else none

/-- Read a whole text as a literal. -/
def ofText? (text : Text) : Option Literal :=
  let (whole, rest) := splitDigits text
  let (fraction, rest) :=
    match rest with
    | Byte.point :: digits => splitDigits digits
    | _ => ([], rest)
  if whole = [] ∧ fraction = [] then
    none
  else
    (exponent? rest).map fun exponent => {
      whole := whole
      fraction := fraction
      exponent := exponent
    }

/-- The digits of a literal as one number, without its point. -/
def coefficient (literal : Literal) : Nat :=
  digitsValue (literal.whole ++ literal.fraction)

/-- The power of ten that scales the coefficient. -/
def power (literal : Literal) : Int :=
  literal.exponent - literal.fraction.length

/--
The value nearest to `coefficient * 10 ^ power`. A positive coefficient times
`10 ^ 310` is out of range, and a value below `10 ^ (-330)` rounds to zero, so
no larger power is ever formed.
-/
def value (literal : Literal) : Binary64 :=
  let digitCount := literal.whole.length + literal.fraction.length
  if literal.coefficient = 0 then
    .zero
  else if 310 < literal.power then
    .infinity false
  else if literal.power + digitCount < -330 then
    .zero
  else
    .ofUnits false
      (literal.coefficient * Nat.pow 10 literal.power.toNat * Binary64.unitsPerOne)
      (Nat.pow 10 (-literal.power).toNat)

end Literal

/-- The value of a text that is a literal. -/
def parseNumber? (text : Text) : Option Binary64 :=
  (Literal.ofText? text).map Literal.value

/-- No literal is NaN. -/
theorem isNaN_parseNumber?
    {text : Text}
    {value : Binary64}
    (reads : parseNumber? text = some value) :
    value.isNaN = false := by
  obtain ⟨literal, -, rfl⟩ := Option.map_eq_some_iff.mp reads
  unfold Literal.value
  simp only
  split
  · rfl
  · split
    · rfl
    · split
      · rfl
      · exact Binary64.isNaN_ofUnits _ _ _

/-- A literal has no sign: zero, infinity and rounded values are all without one. -/
theorem isNegative_parseNumber?
    {text : Text}
    {value : Binary64}
    (reads : parseNumber? text = some value) :
    value.isNegative = false := by
  obtain ⟨literal, -, rfl⟩ := Option.map_eq_some_iff.mp reads
  unfold Literal.value
  simp only
  split
  · rfl
  · split
    · rfl
    · split
      · rfl
      · exact Binary64.isNegative_ofUnits _ _ _

end Reckoner
