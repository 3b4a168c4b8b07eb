import Reckoner.Text
import Reckoner.Binary64

/-!
# Printed decimals

Two ways to print a value: with six places after the point, and with up to six
significant digits. Both round the exact binary value, a tie going to the even
digit. Infinities are printed as `inf`, and the sign of a negative zero is kept.
-/

namespace Reckoner

namespace Decimal

/-- The sign of a value as printed in front of its size. -/
def sign (negative : Bool) : Text :=
  if negative then [Byte.minus] else []

/-- A number in decimal with at least `width` digits. -/
def padded (width number : Nat) : Text :=
  let digits := Text.ofNat number
  List.replicate (width - digits.length) Byte.zero ++ digits

/-- A count of `10 ^ (-places)` with the point in place. -/
def withPlaces (places count : Nat) : Text :=
  Text.ofNat (count / Nat.pow 10 places) ++
    Byte.point :: padded places (count % Nat.pow 10 places)

/-- Drop the zeros that end a text. -/
def withoutTrailingZeros (text : Text) : Text :=
  (text.reverse.dropWhile (· == Byte.zero)).reverse

/--
A count of `10 ^ (-places)` with the point in place, without zeros at the end
of its fraction; a fraction of zeros goes with its point.
-/
def withFewestPlaces (places count : Nat) : Text :=
  let whole := Text.ofNat (count / Nat.pow 10 places)
  let fraction := withoutTrailingZeros (padded places (count % Nat.pow 10 places))
  if fraction = [] then whole else whole ++ Byte.point :: fraction

/-- The number of decimal digits of a positive number, and zero for zero. -/
def digitCount (number : Nat) : Nat :=
  if number = 0 then 0 else (Text.ofNat number).length

/-- The power of ten of the leading digit of a positive fraction. -/
def leadingPower (numerator denominator : Nat) : Int :=
  if denominator ≤ numerator then
    (digitCount (numerator / denominator) : Int) - 1
  else
    -(digitCount ((denominator - 1) / numerator) : Int)

/-- Round `numerator / denominator * 10 ^ shift` to an integer. -/
def roundScaled (numerator denominator : Nat) (shift : Int) : Nat :=
  halfEven (numerator * Nat.pow 10 shift.toNat) (denominator * Nat.pow 10 (-shift).toNat)

/-- Print a positive fraction with up to six significant digits. -/
def significant (numerator denominator : Nat) : Text :=
  let leading := leadingPower numerator denominator
  let rounded := roundScaled numerator denominator (5 - leading)
  let (digits, power) :=
    if rounded = 1000000 then (100000, leading + 1) else (rounded, leading)
  if -4 ≤ power ∧ power < 6 then
    withFewestPlaces (5 - power).toNat digits
  else
    let exponentSign := if power < 0 then Byte.minus else Byte.plus
    withFewestPlaces 5 digits ++
      Byte.lowerE :: exponentSign :: padded 2 power.natAbs

end Decimal

namespace Binary64

/-- Print with six places after the point. -/
def sixPlaces : Binary64 → Text
  | .nan => Text.ofString "nan"
  | .infinity negative => Decimal.sign negative ++ Text.ofString "inf"
  | .finite negative size =>
      Decimal.sign negative ++
        Decimal.withPlaces 6 (halfEven (size.units * 1000000) unitsPerOne)

/--
Print with up to six significant digits and no trailing zeros, in scientific
form for powers of ten below -4 or above 5.
-/
def sixDigits : Binary64 → Text
  | .nan => Text.ofString "nan"
  | .infinity negative => Decimal.sign negative ++ Text.ofString "inf"
  | .finite negative size =>
      Decimal.sign negative ++
        if size.significand = 0 then
          Text.ofNat 0
        else
          Decimal.significant size.units unitsPerOne

end Binary64

end Reckoner
