/-!
# Fixed-point enclosures of real numbers

An `Enclosure places` bounds a real number by two multiples of
`2 ^ -places`. Every operation rounds its lower bound down and its upper bound
up, so the exact result stays enclosed. Power series are cut after enough terms
and end in an interval that encloses their whole tail.
-/

namespace Reckoner

/-- Lower and upper bounds of a real number, in multiples of `2 ^ -places`. -/
structure Enclosure (places : Nat) where
  lower : Int
  upper : Int
  deriving Repr, DecidableEq

namespace Enclosure

variable {places : Nat}

/-- The number of grid steps in one, `2 ^ places`. -/
def steps (places : Nat) : Nat :=
  1 <<< places

/-- The greatest integer not above `numerator / denominator`. -/
private def quotientDown (numerator : Int) (denominator : Nat) : Int :=
  Int.fdiv numerator denominator

/-- The least integer not below `numerator / denominator`. -/
private def quotientUp (numerator : Int) (denominator : Nat) : Int :=
  -Int.fdiv (-numerator) denominator

/-- All reals between two integers. -/
def between (least greatest : Int) : Enclosure places where
  lower := least * steps places
  upper := greatest * steps places

/-- An integer, exactly. -/
def ofInt (value : Int) : Enclosure places :=
  between value value

/-- The tightest enclosure of a fraction with positive denominator. -/
def ofFraction (numerator : Int) (denominator : Nat) : Enclosure places where
  lower := quotientDown (numerator * steps places) denominator
  upper := quotientUp (numerator * steps places) denominator

/-- Enclose the sum. -/
def add (left right : Enclosure places) : Enclosure places where
  lower := left.lower + right.lower
  upper := left.upper + right.upper

/-- Enclose the negation. -/
def neg (value : Enclosure places) : Enclosure places where
  lower := -value.upper
  upper := -value.lower

/-- Enclose the difference. -/
def sub (left right : Enclosure places) : Enclosure places :=
  left.add right.neg

/-- Enclose the product: its extremes are products of bounds. -/
def mul (left right : Enclosure places) : Enclosure places :=
  let lowLow := left.lower * right.lower
  let lowHigh := left.lower * right.upper
  let highLow := left.upper * right.lower
  let highHigh := left.upper * right.upper
  {
    lower :=
      quotientDown (min (min lowLow lowHigh) (min highLow highHigh)) (steps places)
    upper :=
      quotientUp (max (max lowLow lowHigh) (max highLow highHigh)) (steps places)
  }

/-- Enclose an integer multiple; no rounding happens. -/
def scale (factor : Int) (value : Enclosure places) : Enclosure places where
  lower := min (factor * value.lower) (factor * value.upper)
  upper := max (factor * value.lower) (factor * value.upper)

/-- Enclose a fraction with a positive integer as denominator. -/
def divideBy (value : Enclosure places) (denominator : Nat) : Enclosure places where
  lower := quotientDown value.lower denominator
  upper := quotientUp value.upper denominator

/-- Move both bounds into a range. -/
def clamp (least greatest : Int) (value : Enclosure places) : Enclosure places where
  lower := max (least * steps places) (min (greatest * steps places) value.lower)
  upper := max (least * steps places) (min (greatest * steps places) value.upper)

/-- Whether both bounds lie between two integers. -/
def within (least greatest : Int) (value : Enclosure places) : Bool :=
  least * steps places ≤ value.lower && value.upper ≤ greatest * steps places

instance : Add (Enclosure places) := ⟨add⟩

instance : Neg (Enclosure places) := ⟨neg⟩

instance : Sub (Enclosure places) := ⟨sub⟩

instance : Mul (Enclosure places) := ⟨mul⟩

/-! ## Power series -/

/--
Evaluate nested terms from the inside: `term start (term (start + 1) (… tail))`
with `count` terms.
-/
def nested
    (term : Nat → Enclosure places → Enclosure places)
    (tail : Enclosure places) :
    Nat → Nat → Enclosure places
  | _, 0 => tail
  | start, count + 1 =>
      term start (nested term tail (start + 1) count)

/--
Enclose the exponential of an argument in `[-1, 1]`. The sum from the `k`-th
term on, divided by that term, is `1 + x / (k + 1) * …` and lies in `[0, 2]`.
-/
def expSeries (argument : Enclosure places) : Enclosure places :=
  nested
    (fun index rest => ofInt 1 + (argument * rest).divideBy (index + 1))
    (between 0 2) 0 (places / 4 + 20)

/--
Enclose the inverse hyperbolic tangent `x (1 + x² / 3 + x⁴ / 5 + …)` of an
argument in `[-1/2, 1/2]`. Every tail of the bracket lies in `[0, 2]`.
-/
def artanhSeries (argument : Enclosure places) : Enclosure places :=
  let square := argument * argument
  argument *
    nested
      (fun index rest => ofFraction 1 (2 * index + 1) + square * rest)
      (between 0 2) 0 (places / 2 + 8)

/--
Enclose the inverse tangent `x (1 - x² / 3 + x⁴ / 5 - …)` of an argument in
`[-1/4, 1/4]`. Every tail of the bracket alternates and lies in `[0, 1]`.
-/
def arctanSeries (argument : Enclosure places) : Enclosure places :=
  let square := argument * argument
  argument *
    nested
      (fun index rest => ofFraction 1 (2 * index + 1) - square * rest)
      (between 0 1) 0 (places / 4 + 8)

/--
Enclose the sine `x (1 - x² / (2·3) (1 - x² / (4·5) (…)))` of an argument in
`[-2, 2]`. Every tail alternates and lies in `[0, 1]`.
-/
def sinSeries (argument : Enclosure places) : Enclosure places :=
  let square := argument * argument
  argument *
    nested
      (fun index rest =>
        ofInt 1 - (square * rest).divideBy ((2 * index) * (2 * index + 1)))
      (between 0 1) 1 (places / 8 + 16)

/--
Enclose the cosine `1 - x² / (1·2) (1 - x² / (3·4) (…))` of an argument in
`[-2, 2]`. Tails after the first alternate and lie in `[0, 1]`.
-/
def cosSeries (argument : Enclosure places) : Enclosure places :=
  let square := argument * argument
  nested
    (fun index rest =>
      ofInt 1 - (square * rest).divideBy ((2 * index - 1) * (2 * index)))
    (between 0 1) 1 (places / 8 + 16)

/-- The natural logarithm of two, `2 artanh (1/3)`. -/
def logTwo : Enclosure places :=
  (artanhSeries (ofFraction 1 3)).scale 2

/-- A quarter of a full turn, `π / 2 = 8 arctan (1/5) - 2 arctan (1/239)`. -/
def quarterTurn : Enclosure places :=
  (arctanSeries (ofFraction 1 5)).scale 8 - (arctanSeries (ofFraction 1 239)).scale 2

end Enclosure

end Reckoner
