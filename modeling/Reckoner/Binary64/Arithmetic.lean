import Reckoner.Binary64

/-!
# Arithmetic that is exact up to one rounding

Sums, products, quotients, remainders, square roots and the roundings to an
integer are computed exactly on units and rounded at most once. Infinities,
zeros and NaN follow the usual rules: a sum of opposite infinities, a product
of zero and infinity, a quotient of two zeros or two infinities and the square
root of a negative number have no value and give NaN.
-/

namespace Reckoner

namespace Binary64

/-- Change the sign. -/
def neg : Binary64 → Binary64
  | .nan => .nan
  | .infinity negative => .infinity !negative
  | .finite negative magnitude => .finite (!negative) magnitude

/-- Drop the sign. -/
def abs : Binary64 → Binary64
  | .nan => .nan
  | .infinity _ => .infinity false
  | .finite _ magnitude => .finite false magnitude

/-- A sign and a magnitude as an integer number of units. -/
def signedUnits (negative : Bool) (magnitude : Magnitude) : Int :=
  if negative then -magnitude.units else magnitude.units

/-- The rounded sum; an exact zero is negative only as a sum of negative zeros. -/
def add : Binary64 → Binary64 → Binary64
  | .nan, _ => .nan
  | _, .nan => .nan
  | .infinity left, .infinity right =>
      if left = right then .infinity left else .nan
  | .infinity left, .finite _ _ => .infinity left
  | .finite _ _, .infinity right => .infinity right
  | .finite left leftSize, .finite right rightSize =>
      let sum := signedUnits left leftSize + signedUnits right rightSize
      if sum = 0 then
        signedZero (left && right)
      else
        ofUnits (sum < 0) sum.natAbs 1

/-- The rounded difference. -/
def sub (left right : Binary64) : Binary64 :=
  left.add right.neg

/-- The rounded product. -/
def mul : Binary64 → Binary64 → Binary64
  | .nan, _ => .nan
  | _, .nan => .nan
  | .infinity left, .infinity right => .infinity (left ^^ right)
  | .infinity left, .finite right size =>
      if size.significand = 0 then .nan else .infinity (left ^^ right)
  | .finite left size, .infinity right =>
      if size.significand = 0 then .nan else .infinity (left ^^ right)
  | .finite left leftSize, .finite right rightSize =>
      ofUnits (left ^^ right) (leftSize.units * rightSize.units) unitsPerOne

/-- The rounded quotient; a nonzero value over zero is infinite. -/
def div : Binary64 → Binary64 → Binary64
  | .nan, _ => .nan
  | _, .nan => .nan
  | .infinity _, .infinity _ => .nan
  | .infinity left, .finite right _ => .infinity (left ^^ right)
  | .finite left _, .infinity right => signedZero (left ^^ right)
  | .finite left leftSize, .finite right rightSize =>
      if rightSize.significand = 0 then
        if leftSize.significand = 0 then .nan else .infinity (left ^^ right)
      else
        ofUnits (left ^^ right) (leftSize.units * unitsPerOne) rightSize.units

/--
The remainder of a division whose quotient is truncated toward zero. It has
the sign of the dividend and is exact.
-/
def remainder : Binary64 → Binary64 → Binary64
  | .nan, _ => .nan
  | _, .nan => .nan
  | .infinity _, _ => .nan
  | .finite left size, .infinity _ => .finite left size
  | .finite left leftSize, .finite _ rightSize =>
      if rightSize.significand = 0 then
        .nan
      else
        ofUnits left (leftSize.units % rightSize.units) 1

/--
The rounded square root. The integer root of the scaled units has hundreds of
bits, so a nonzero rest only has to be recorded as a final odd bit.
-/
def sqrt : Binary64 → Binary64
  | .nan => .nan
  | .infinity negative => if negative then .nan else .infinity false
  | .finite negative size =>
      if size.significand = 0 then
        .finite negative size
      else if negative then
        .nan
      else
        let scaled := size.units * unitsPerOne
        let root := scaled.sqrt
        let rest := if root * root = scaled then 0 else 1
        ofUnits false (2 * root + rest) 2

/-- The greatest integer that is not above a value; a zero keeps its sign. -/
def floor : Binary64 → Binary64
  | .nan => .nan
  | .infinity negative => .infinity negative
  | .finite negative size =>
      let whole := size.units / unitsPerOne
      let away := negative && size.units % unitsPerOne != 0
      ofUnits negative ((if away then whole + 1 else whole) * unitsPerOne) 1

/-- The least integer that is not below a value; a zero takes the sign of the value. -/
def ceil (value : Binary64) : Binary64 :=
  value.neg.floor.neg

instance : Neg Binary64 := ⟨neg⟩

instance : Add Binary64 := ⟨add⟩

instance : Sub Binary64 := ⟨sub⟩

instance : Mul Binary64 := ⟨mul⟩

instance : Div Binary64 := ⟨div⟩

end Binary64

end Reckoner
