/-!
# Rounding a quotient to an integer

Binary and decimal rounding share one rule: take the nearest integer, and of
two equally near ones the even one.
-/

namespace Reckoner

/-- The integer nearest to `numerator / denominator`, a tie going to the even one. -/
def halfEven (numerator denominator : Nat) : Nat :=
  let quotient := numerator / denominator
  let remainder := numerator % denominator
  if 2 * remainder < denominator then
    quotient
  else if denominator < 2 * remainder then
    quotient + 1
  else
    quotient + quotient % 2

/-- Rounding moves a quotient by at most one, and never down past its floor. -/
theorem halfEven_bounds
    (numerator denominator : Nat) :
    numerator / denominator ≤ halfEven numerator denominator ∧
      halfEven numerator denominator ≤ numerator / denominator + 1 := by
  simp only [halfEven]
  split
  · omega
  · split <;> omega

/-- An exact quotient is kept. -/
theorem halfEven_mul
    (quotient denominator : Nat)
    (positive : 0 < denominator) :
    halfEven (quotient * denominator) denominator = quotient := by
  simp [halfEven, Nat.mul_div_cancel _ positive, positive]

end Reckoner
