import Reckoner.HalfEven

/-!
# Binary floating point of 64 bits

Every finite value is an integer number of *units*, where one unit is the
least positive value `2 ^ -1074`. A `Magnitude` is such a count in canonical
form, so two magnitudes are equal exactly when their values are. Arithmetic is
exact on units and rounds once, to the nearest magnitude with ties to the even
significand.
-/

namespace Reckoner

/--
The size of a finite value: `significand * 2 ^ exponent` units. A significand
has at most 53 bits, and exactly 53 unless the exponent is the least one.
-/
structure Magnitude where
  significand : Nat
  exponent : Nat
  significand_lt : significand < 0x20000000000000
  exponent_le : exponent ≤ 2045
  canonical : 0x10000000000000 ≤ significand ∨ exponent = 0
  deriving DecidableEq

namespace Magnitude

/-- The magnitude zero. -/
def zero : Magnitude where
  significand := 0
  exponent := 0
  significand_lt := by decide
  exponent_le := by decide
  canonical := .inr rfl

/-- A magnitude without a significand is zero, as its exponent is the least one. -/
theorem eq_zero_of_significand_eq_zero
    {magnitude : Magnitude}
    (isZero : magnitude.significand = 0) :
    magnitude = .zero := by
  have leastExponent : magnitude.exponent = 0 := by
    have canonical := magnitude.canonical
    omega
  obtain ⟨significand, exponent, _, _, _⟩ := magnitude
  cases isZero
  cases leastExponent
  rfl

/-- A magnitude as a number of units. -/
def units (magnitude : Magnitude) : Nat :=
  magnitude.significand <<< magnitude.exponent

/-- The magnitude with the given parts, if they are in canonical form. -/
def ofParts? (significand exponent : Nat) : Option Magnitude :=
  if proper :
      significand < 0x20000000000000 ∧ exponent ≤ 2045 ∧
        (0x10000000000000 ≤ significand ∨ exponent = 0) then
    some {
      significand := significand
      exponent := exponent
      significand_lt := proper.1
      exponent_le := proper.2.1
      canonical := proper.2.2
    }
  else
    none

/--
The magnitude nearest to `numerator / denominator` units, a tie going to the
even significand; `none` when that exceeds the largest magnitude.

The exponent leaves 53 significant bits, or fewer at the least exponent. When
rounding carries into a 54th bit, the significand is a power of two and half
of it at the next exponent is the same value.
-/
def nearest? (numerator denominator : Nat) : Option Magnitude :=
  let exponent := (numerator / denominator).log2 - 52
  let significand := halfEven numerator (denominator <<< exponent)
  if significand = 0x20000000000000 then
    ofParts? 0x10000000000000 (exponent + 1)
  else
    ofParts? significand exponent

end Magnitude

/-- A floating-point value; all NaNs are one. -/
inductive Binary64 where
  | nan
  | infinity (negative : Bool)
  | finite (negative : Bool) (magnitude : Magnitude)
  deriving DecidableEq

namespace Binary64

/-- The number of units in one, `2 ^ 1074`. -/
def unitsPerOne : Nat :=
  1 <<< 1074

/-- Zero of the given sign. -/
def signedZero (negative : Bool) : Binary64 :=
  .finite negative .zero

/-- Positive zero. -/
def zero : Binary64 :=
  signedZero false

/-- Whether a value is not a number. -/
def isNaN : Binary64 → Bool
  | .nan => true
  | _ => false

/-- Whether a value is zero of either sign. -/
def isZero : Binary64 → Bool
  | .finite _ magnitude => magnitude.significand == 0
  | _ => false

/-- The sign bit; NaN carries none. -/
def isNegative : Binary64 → Bool
  | .nan => false
  | .infinity negative => negative
  | .finite negative _ => negative

/-- Whether a value is neither infinite nor NaN. -/
def isFinite : Binary64 → Bool
  | .finite _ _ => true
  | _ => false

/-- Numerical equality: NaN equals nothing, and the two zeros are equal. -/
def equal (left right : Binary64) : Bool :=
  !left.isNaN && (left == right || (left.isZero && right.isZero))

/-- The exact value of a finite number. -/
def toRat? : Binary64 → Option Rat
  | .finite negative magnitude =>
      let size := mkRat magnitude.units unitsPerOne
      some (if negative then -size else size)
  | _ => none

/-- The value nearest to a fraction of units with the given sign, infinite on overflow. -/
def ofUnits (negative : Bool) (numerator denominator : Nat) : Binary64 :=
  match Magnitude.nearest? numerator denominator with
  | some magnitude => .finite negative magnitude
  | none => .infinity negative

/-- The value nearest to a rational number; zero becomes positive zero. -/
def ofRat (value : Rat) : Binary64 :=
  ofUnits (value.num < 0) (value.num.natAbs * unitsPerOne) value.den

/-- The value nearest to a natural number. -/
def ofNat (number : Nat) : Binary64 :=
  ofUnits false (number * unitsPerOne) 1

/-- One. -/
def one : Binary64 :=
  ofNat 1

/-- One half. -/
def half : Binary64 :=
  ofUnits false unitsPerOne 2

/-- Rounding never yields NaN. -/
theorem isNaN_ofUnits
    (negative : Bool)
    (numerator denominator : Nat) :
    (ofUnits negative numerator denominator).isNaN = false := by
  unfold ofUnits
  split <;> rfl

/-- Rounding keeps the sign it is given. -/
theorem isNegative_ofUnits
    (negative : Bool)
    (numerator denominator : Nat) :
    (ofUnits negative numerator denominator).isNegative = negative := by
  unfold ofUnits
  split <;> rfl

end Binary64

end Reckoner
