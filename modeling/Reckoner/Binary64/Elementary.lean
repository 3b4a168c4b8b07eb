import Reckoner.Binary64.Arithmetic
import Reckoner.Binary64.Enclosure

/-!
# Correctly rounded elementary functions

`exp`, `log`, `sin`, `cos`, `tan` and `pow` return the value nearest to the
exact real result. Each is enclosed between two rationals at a growing number
of binary places until both bounds round to the same value. Exact results, on
which that would never settle, are recognised first: the trivial arguments, and
for `pow` every result that is a short dyadic fraction.
-/

namespace Reckoner

/-- The rational number `number * 2 ^ shift`. -/
def scaledByTwo (number shift : Int) : Rat :=
  mkRat (number * (1 <<< shift.toNat : Nat)) (1 <<< (-shift).toNat)

/-- Rational bounds of a real number. -/
structure Bracket where
  lower : Rat
  upper : Rat
  deriving Repr, DecidableEq

namespace Enclosure

variable {places : Nat}

/-- The bounds of an enclosure as rationals, times a power of two. -/
def toBracket (value : Enclosure places) (shift : Int) : Bracket where
  lower := scaledByTwo value.lower (shift - places)
  upper := scaledByTwo value.upper (shift - places)

/-- Bracket a quotient whose denominator is certainly positive. -/
def quotient? (numerator denominator : Enclosure places) : Option Bracket :=
  if 0 < denominator.lower then
    let least := if 0 ≤ numerator.lower then denominator.upper else denominator.lower
    let greatest := if 0 ≤ numerator.upper then denominator.lower else denominator.upper
    some {
      lower := numerator.lower / least
      upper := numerator.upper / greatest
    }
  else
    none

/--
Bracket the exponential. The argument is `k` times the logarithm of two plus a
remainder, and the result is the exponential of the remainder times `2 ^ k`.
Beyond 800 in size the rounded result no longer depends on the argument.
-/
def exp? (argument : Enclosure places) : Option Bracket :=
  let bounded := argument.clamp (-800) 800
  let logarithm : Enclosure places := logTwo
  let power := Int.fdiv bounded.lower logarithm.upper
  let reduced := bounded - logarithm.scale power
  if reduced.within (-1) 1 then
    some (reduced.expSeries.toBracket power)
  else
    none

end Enclosure

namespace Magnitude

/-- The position of the leading bit: a nonzero magnitude lies in `[2 ^ k, 2 ^ (k + 1))`. -/
def leadingPower (magnitude : Magnitude) : Int :=
  (magnitude.units.log2 : Int) - 1074

/--
Enclose the natural logarithm of a nonzero magnitude `f * 2 ^ k` with `f` in
`[1, 2)` as `k log 2 + 2 artanh ((f - 1) / (f + 1))`.
-/
def log (places : Nat) (magnitude : Magnitude) : Enclosure places :=
  let leading := 1 <<< magnitude.units.log2
  let ratio : Enclosure places :=
    .ofFraction (magnitude.units - leading : Nat) (magnitude.units + leading)
  Enclosure.logTwo.scale magnitude.leadingPower + ratio.artanhSeries.scale 2

/--
Enclose the sine and cosine of a magnitude, through its quadrant and the angle
that remains in it.
-/
def sinCos? (places : Nat) (magnitude : Magnitude) :
    Option (Enclosure places × Enclosure places) :=
  let quarter : Enclosure places := Enclosure.quarterTurn
  let argument : Enclosure places :=
    .ofFraction magnitude.units Binary64.unitsPerOne
  let quadrant := Int.fdiv argument.lower quarter.upper
  let angle := argument - quarter.scale quadrant
  if angle.within (-1) 2 then
    let sine := angle.sinSeries
    let cosine := angle.cosSeries
    match quadrant.toNat % 4 with
    | 0 => some (sine, cosine)
    | 1 => some (cosine, -sine)
    | 2 => some (-sine, -cosine)
    | _ => some (-cosine, sine)
  else
    none

/-- Binary places that suffice for a first attempt near a magnitude. -/
def workingPlaces (magnitude : Magnitude) : Nat :=
  192 + magnitude.leadingPower.natAbs

end Magnitude

namespace Binary64

/--
Round a real number given by brackets: the number of places doubles until both
bounds round alike. After `attempts` rounds without success there is no result,
which a number could only bring about by lying closer to a rounding boundary
than the last bracket is wide.
-/
def ofBrackets (bracket? : Nat → Option Bracket) : Nat → Nat → Binary64
  | 0, _ => .nan
  | attempts + 1, places =>
      match bracket? places with
      | some bracket =>
          let rounded := ofRat bracket.lower
          if rounded = ofRat bracket.upper then
            rounded
          else
            ofBrackets bracket? attempts (2 * places)
      | none => ofBrackets bracket? attempts (2 * places)

/-- The exponential function. -/
def exp : Binary64 → Binary64
  | .nan => .nan
  | .infinity negative => if negative then zero else .infinity false
  | .finite negative size =>
      if size.significand = 0 then
        one
      else
        let numerator := signedUnits negative size
        ofBrackets
          (fun places => (Enclosure.ofFraction numerator unitsPerOne : Enclosure places).exp?)
          6 192

/-- The natural logarithm; that of a negative number is NaN. -/
def log : Binary64 → Binary64
  | .nan => .nan
  | .infinity negative => if negative then .nan else .infinity false
  | .finite negative size =>
      if size.significand = 0 then
        .infinity true
      else if negative then
        .nan
      else if size.units = unitsPerOne then
        zero
      else
        ofBrackets (fun places => some ((size.log places).toBracket 0)) 6 192

/-- The sine; that of an infinity is NaN. -/
def sin : Binary64 → Binary64
  | .nan => .nan
  | .infinity _ => .nan
  | .finite negative size =>
      if size.significand = 0 then
        .finite negative size
      else
        let positive :=
          ofBrackets
            (fun places => (size.sinCos? places).map (fun pair => pair.1.toBracket 0))
            6 size.workingPlaces
        if negative then positive.neg else positive

/-- The cosine; that of an infinity is NaN. -/
def cos : Binary64 → Binary64
  | .nan => .nan
  | .infinity _ => .nan
  | .finite _ size =>
      if size.significand = 0 then
        one
      else
        ofBrackets
          (fun places => (size.sinCos? places).map (fun pair => pair.2.toBracket 0))
          6 size.workingPlaces

/-- The tangent; that of an infinity is NaN. -/
def tan : Binary64 → Binary64
  | .nan => .nan
  | .infinity _ => .nan
  | .finite negative size =>
      if size.significand = 0 then
        .finite negative size
      else
        let positive :=
          ofBrackets
            (fun places => do
              let (sine, cosine) ← size.sinCos? places
              if cosine.upper < 0 then
                (-sine).quotient? (-cosine)
              else
                sine.quotient? cosine)
            6 size.workingPlaces
        if negative then positive.neg else positive

/-! ## Powers -/

/-- Whether a value is an odd integer. -/
def isOddInteger : Binary64 → Bool
  | .finite _ size =>
      size.units % unitsPerOne == 0 && size.units / unitsPerOne % 2 == 1
  | _ => false

/-- Whether a value is a finite integer. -/
def isInteger : Binary64 → Bool
  | .finite _ size => size.units % unitsPerOne == 0
  | _ => false

/--
Take `count` successive square roots of `odd * 2 ^ power`, as long as they stay
of that form.
-/
def exactRoots? : Nat → Nat → Int → Option (Nat × Int)
  | 0, odd, power => some (odd, power)
  | count + 1, odd, power =>
      let root := odd.sqrt
      if root * root = odd ∧ power % 2 = 0 then
        exactRoots? count root (power / 2)
      else
        none

/--
The power of a nonzero base by a nonzero exponent where it is a dyadic fraction
short enough to be a value or to lie half-way between two: an odd number of at
most 54 bits times a power of two. Powers of two beyond the range of values are
cut off there.
-/
def exactPower? (base : Magnitude) (negative : Bool) (exponent : Magnitude) : Option Rat := do
  let twos := Nat.gcd base.units (1 <<< 2100)
  let whole := Nat.gcd exponent.units unitsPerOne
  let (odd, power) ←
    exactRoots? (1074 - whole.log2) (base.units / twos) ((twos.log2 : Int) - 1074)
  let count := exponent.units / whole
  if odd = 1 then
    let total := power * signedUnits negative exponent / whole
    some (scaledByTwo 1 (max (-1200) (min 1200 total)))
  else if !negative && count ≤ 64 then
    some (scaledByTwo (Nat.pow odd count) (power * count))
  else
    none

/-- The power of a nonzero magnitude other than one by a finite nonzero exponent. -/
def powMagnitude (base : Magnitude) (negative : Bool) (exponent : Magnitude) : Binary64 :=
  match exactPower? base negative exponent with
  | some power => ofRat power
  | none =>
      let factor := mkRat (signedUnits negative exponent) unitsPerOne
      ofBrackets
        (fun places => (((base.log places).scale factor.num).divideBy factor.den).exp?)
        6 (192 + exponent.leadingPower.toNat)

/--
The power function. Any base to a zero exponent and one to any exponent are
one, even for NaN. A negative base needs an integer exponent and gives its sign
to odd ones.
-/
def pow (base exponent : Binary64) : Binary64 :=
  if exponent.isZero || base = one then
    one
  else
    match base, exponent with
    | .nan, _ => .nan
    | _, .nan => .nan
    | .infinity baseSign, _ =>
        let sign := baseSign && exponent.isOddInteger
        if exponent.isNegative then signedZero sign else .infinity sign
    | .finite _ size, .infinity exponentSign =>
        if size.units = unitsPerOne then
          one
        else if decide (unitsPerOne < size.units) = exponentSign then
          zero
        else
          .infinity false
    | .finite baseSign size, .finite exponentSign exponentSize =>
        let sign := baseSign && exponent.isOddInteger
        if size.significand = 0 then
          if exponentSign then .infinity sign else signedZero sign
        else if baseSign && !exponent.isInteger then
          .nan
        else
          let power := powMagnitude size exponentSign exponentSize
          if sign then power.neg else power

end Binary64

end Reckoner
