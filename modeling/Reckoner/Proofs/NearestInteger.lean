import Mathlib.Data.Rat.Floor
import Reckoner.Builtin
import Reckoner.Proofs.CompleteArguments
import Reckoner.Proofs.Rounding

/-!
# Rounding to the nearest integer by adding one half

A value is rounded to an integer by adding one half and taking the floor. The floor
is exact, the sum is rounded. Whether that matters depends on the grid of the value:
where halves are on the grid the sum is exact or stays below the next integer; where
only the integers are, one half is a tie, which goes away from the odd ones; and
above that one half is lost. One value below all of these is left, the greatest below
one half, whose sum with one half is rounded to one.
-/

namespace Reckoner

namespace Magnitude

section Halves

variable
  {k : Nat}
  (magnitude : Magnitude)

theorem long_of_exponent_pos
    {magnitude : Magnitude}
    (coarse : 0 < magnitude.exponent) :
    2 ^ 52 ≤ magnitude.significand :=
  magnitude.canonical.resolve_right (Nat.ne_of_gt coarse)

/-- Far above the odd integers a half is lost. -/
theorem roundedUnits_add_lost
    (far : k + 2 ≤ magnitude.exponent) :
    roundedUnits (magnitude.units + 2 ^ k) 1 = magnitude.units := by
  have lost : 2 * 2 ^ k < 2 ^ magnitude.exponent := by
    rw [← Nat.pow_succ']
    exact Nat.pow_lt_pow_right (by decide) far
  have long := long_of_exponent_pos (Nat.zero_lt_of_lt far)
  rw [units_eq, roundedUnits_mul_add long magnitude.significand_lt (by omega),
    halfEven_mul_add (by omega), if_pos lost]

/-- Where integers are the grid, a half is a tie. -/
theorem roundedUnits_add_tie
    (last : magnitude.exponent = k + 1) :
    roundedUnits (magnitude.units + 2 ^ k) 1 =
      (magnitude.significand + magnitude.significand % 2) * 2 ^ (k + 1) := by
  have tie : 2 * 2 ^ k = 2 ^ (k + 1) := by rw [Nat.pow_succ']
  have positive := Nat.two_pow_pos k
  have long := long_of_exponent_pos (by omega : 0 < magnitude.exponent)
  rw [units_eq, last, roundedUnits_mul_add long magnitude.significand_lt (by omega),
    halfEven_mul_add (by omega), if_neg (by omega), if_neg (by omega)]

/-- Where integers are the grid, a half is a tie below them as well. -/
theorem roundedUnits_sub_tie
    (last : magnitude.exponent = k + 1)
    (more : 2 ^ 52 < magnitude.significand) :
    roundedUnits (magnitude.units - 2 ^ k) 1 =
      (magnitude.significand - 1 + (magnitude.significand - 1) % 2) * 2 ^ (k + 1) := by
  have tie : 2 * 2 ^ k = 2 ^ (k + 1) := by rw [Nat.pow_succ']
  have positive := Nat.two_pow_pos k
  have fewer := magnitude.significand_lt
  have split :
      magnitude.units - 2 ^ k = (magnitude.significand - 1) * 2 ^ (k + 1) + 2 ^ k := by
    rw [units_eq, last]
    obtain ⟨less, same⟩ := Nat.exists_eq_add_of_lt more
    rw [same, Nat.add_sub_cancel, Nat.add_mul (2 ^ 52 + less)]
    omega
  rw [split, roundedUnits_mul_add (by omega) (by omega) (by omega),
    halfEven_mul_add (by omega), if_neg (by omega), if_neg (by omega)]

/-- Far above the odd integers a half taken away is lost as well. -/
theorem roundedUnits_sub_lost
    (far : k + 2 ≤ magnitude.exponent) :
    roundedUnits (magnitude.units - 2 ^ k) 1 = magnitude.units := by
  have long := long_of_exponent_pos (Nat.zero_lt_of_lt far)
  have fewer := magnitude.significand_lt
  have positive := Nat.two_pow_pos k
  obtain ⟨exponent, same⟩ : ∃ exponent, magnitude.exponent = exponent + 1 :=
    Nat.exists_eq_succ_of_ne_zero (by omega)
  have doubled : 2 * 2 ^ exponent = 2 ^ (exponent + 1) := by rw [Nat.pow_succ']
  have lost : 2 * 2 ^ k ≤ 2 ^ exponent := by
    rw [← Nat.pow_succ']
    exact Nat.pow_le_pow_right (by decide) (by omega)
  rcases Nat.lt_or_eq_of_le long with more | least
  · have split :
        magnitude.units - 2 ^ k =
          (magnitude.significand - 1) * 2 ^ (exponent + 1) + (2 ^ (exponent + 1) - 2 ^ k) := by
      rw [units_eq, same]
      obtain ⟨less, equal⟩ := Nat.exists_eq_add_of_lt more
      rw [equal, Nat.add_sub_cancel, Nat.add_mul (2 ^ 52 + less)]
      omega
    rw [split, roundedUnits_mul_add (by omega) (by omega) (by omega),
      halfEven_mul_add (by omega), if_neg (by omega), if_pos (by omega), units_eq, same,
      Nat.sub_add_cancel (by omega)]
  · -- Below a power of two the grid is finer by one bit, and a tie goes up to it.
    have split :
        magnitude.units - 2 ^ k =
          (2 ^ 53 - 1) * 2 ^ exponent + (2 ^ exponent - 2 ^ k) := by
      rw [units_eq, same, ← least]
      omega
    rw [split, roundedUnits_mul_add (by omega) (by omega) (by omega),
      halfEven_mul_add (by omega), if_neg (by omega), units_eq, same, ← least]
    split
    · omega
    · omega

/-- Where halves are on the grid, a sum of the same size is exact. -/
theorem roundedUnits_add_exact
    (fine : magnitude.exponent ≤ k)
    (sameSize : magnitude.units + 2 ^ k < 2 ^ (magnitude.exponent + 53)) :
    roundedUnits (magnitude.units + 2 ^ k) 1 = magnitude.units + 2 ^ k := by
  have split :
      magnitude.units + 2 ^ k =
        (magnitude.significand + 2 ^ (k - magnitude.exponent)) * 2 ^ magnitude.exponent := by
    rw [Nat.add_mul, ← Nat.pow_add, Nat.sub_add_cancel fine, units_eq]
  rw [split, Nat.pow_add, Nat.mul_comm (2 ^ magnitude.exponent)] at sameSize
  rw [split]
  exact roundedUnits_mul_two_pow
    (Nat.le_of_lt (Nat.lt_of_mul_lt_mul_right sameSize)) magnitude.exponent

/-- Where halves are on the grid, a difference is exact. -/
theorem roundedUnits_sub_exact
    (fine : magnitude.exponent ≤ k) :
    roundedUnits (magnitude.units - 2 ^ k) 1 = magnitude.units - 2 ^ k := by
  have split :
      magnitude.units - 2 ^ k =
        (magnitude.significand - 2 ^ (k - magnitude.exponent)) * 2 ^ magnitude.exponent := by
    rw [Nat.sub_mul, ← Nat.pow_add, Nat.sub_add_cancel fine, units_eq]
  rw [split]
  exact roundedUnits_mul_two_pow ((Nat.sub_le _ _).trans magnitude.significand_le)
    magnitude.exponent

/-- A sum that needs one more bit stays below the next integer. -/
theorem roundedUnits_add_carry
    (fine : magnitude.exponent ≤ k)
    (great : 2 ^ k ≤ magnitude.units)
    (carried : 2 ^ (magnitude.exponent + 53) ≤ magnitude.units + 2 ^ k) :
    roundedUnits (magnitude.units + 2 ^ k) 1 / 2 ^ (k + 1) =
      (magnitude.units + 2 ^ k) / 2 ^ (k + 1) := by
  have units : magnitude.units < 2 ^ (magnitude.exponent + 53) := by
    rw [units_eq, Nat.pow_add, Nat.mul_comm]
    exact Nat.mul_lt_mul_of_pos_left magnitude.significand_lt (Nat.two_pow_pos _)
  have wide : k + 1 ≤ magnitude.exponent + 53 := by
    have := (Nat.pow_lt_pow_iff_right (by decide : 1 < 2)).mp (great.trans_lt units)
    omega
  have half : 2 ^ k ≤ 2 ^ (magnitude.exponent + 52) :=
    Nat.pow_le_pow_right (by decide) (by omega)
  have doubled : 2 ^ (magnitude.exponent + 53) = 2 * 2 ^ (magnitude.exponent + 52) := by
    rw [← Nat.pow_succ']
  have quadrupled : 2 ^ (magnitude.exponent + 1 + 53) = 2 * 2 ^ (magnitude.exponent + 53) := by
    rw [← Nat.pow_succ', Nat.add_right_comm]
  have grid : gridExponent (magnitude.units + 2 ^ k) 1 = magnitude.exponent + 1 := by
    apply gridExponent_eq
    · rw [Nat.add_right_comm]
      exact carried
    · omega
  have step : 2 ^ magnitude.exponent ≤ 2 ^ k := Nat.pow_le_pow_right (by decide) fine
  have above : 2 ^ (magnitude.exponent + 53) ≤ roundedUnits (magnitude.units + 2 ^ k) 1 := by
    have kept := roundedUnits_mul_two_pow (by decide : 1 ≤ 2 ^ 53) (magnitude.exponent + 53)
    rw [Nat.one_mul] at kept
    rw [← kept]
    exact roundedUnits_mono Nat.one_pos Nat.one_pos (by omega)
  have error := (roundedUnits_error Nat.one_pos (magnitude.units + 2 ^ k)).1
  simp only [grid, Nat.mul_one, Nat.pow_succ] at error
  obtain ⟨integer, same⟩ : ∃ integer, 2 ^ (magnitude.exponent + 53) = integer * 2 ^ (k + 1) := by
    obtain ⟨more, equal⟩ := Nat.exists_eq_add_of_le' wide
    exact ⟨2 ^ more, by rw [equal, Nat.pow_add]⟩
  have whole : 2 ^ (k + 1) = 2 * 2 ^ k := by rw [Nat.pow_succ']
  rw [Nat.div_eq_of_lt_le (k := integer) (by omega) (by rw [Nat.add_mul]; omega),
    Nat.div_eq_of_lt_le (k := integer) (by omega) (by rw [Nat.add_mul]; omega)]

/-- The greatest magnitude below one half is taken for one half. -/
theorem roundedUnits_add_below_half
    (large : 53 ≤ k)
    (next : magnitude.units + 2 ^ (k - 53) = 2 ^ k) :
    roundedUnits (magnitude.units + 2 ^ k) 1 = 2 ^ (k + 1) := by
  obtain ⟨exponent, rfl⟩ := Nat.exists_eq_add_of_le' large
  rw [Nat.add_sub_cancel] at next
  have whole : 2 ^ (exponent + 53) = 2 ^ 53 * 2 ^ exponent := by rw [Nat.pow_add, Nat.mul_comm]
  have doubled : 2 ^ (exponent + 1) = 2 * 2 ^ exponent := by rw [Nat.pow_succ']
  have positive := Nat.two_pow_pos exponent
  have split :
      magnitude.units + 2 ^ (exponent + 53) = (2 ^ 53 - 1) * 2 ^ (exponent + 1) + 2 ^ exponent := by
    omega
  rw [split, roundedUnits_mul_add (by decide) (by decide) (by omega),
    halfEven_mul_add (by omega), if_neg (by omega), if_neg (by omega),
    Nat.add_right_comm exponent 53 1, Nat.pow_add 2 (exponent + 1), Nat.mul_comm]
  rfl

/-- Every other sum of a half and less than a half stays below one. -/
theorem roundedUnits_add_lt
    (large : 53 ≤ k)
    (small : magnitude.units < 2 ^ k)
    (notNext : magnitude.units + 2 ^ (k - 53) ≠ 2 ^ k) :
    roundedUnits (magnitude.units + 2 ^ k) 1 < 2 ^ (k + 1) := by
  obtain ⟨exponent, rfl⟩ := Nat.exists_eq_add_of_le' large
  rw [Nat.add_sub_cancel] at notNext
  have whole : 2 ^ (exponent + 53) = 2 ^ 53 * 2 ^ exponent := by rw [Nat.pow_add, Nat.mul_comm]
  have doubled : 2 ^ (exponent + 53 + 1) = 2 * 2 ^ (exponent + 53) := by rw [Nat.pow_succ']
  have step : 2 ^ (exponent + 1) = 2 * 2 ^ exponent := by rw [Nat.pow_succ']
  have positive := Nat.two_pow_pos exponent
  -- It is enough to stay at or below the greatest magnitude under one.
  suffices bounded :
      magnitude.units + 2 ^ (exponent + 53) ≤ (2 ^ 53 - 1) * 2 ^ (exponent + 1) by
    have kept := roundedUnits_mul_two_pow (by decide : 2 ^ 53 - 1 ≤ 2 ^ 53) (exponent + 1)
    have monotone : roundedUnits (magnitude.units + 2 ^ (exponent + 53)) 1 ≤ _ :=
      roundedUnits_mono Nat.one_pos Nat.one_pos (Nat.mul_le_mul_right 1 bounded)
    rw [kept] at monotone
    omega
  rcases Nat.lt_or_ge magnitude.exponent exponent with finer | coarser
  · have units : magnitude.units ≤ 2 ^ 53 * 2 ^ magnitude.exponent := by
      rw [units_eq]
      exact Nat.mul_le_mul_right _ magnitude.significand_le
    have halved : 2 * 2 ^ magnitude.exponent ≤ 2 ^ exponent := by
      rw [← Nat.pow_succ']
      exact Nat.pow_le_pow_right (by decide) finer
    omega
  · obtain ⟨more, equal⟩ := Nat.exists_eq_add_of_le' coarser
    have units : magnitude.units = magnitude.significand * 2 ^ more * 2 ^ exponent := by
      rw [units_eq, equal, Nat.pow_add, Nat.mul_assoc]
    generalize magnitude.significand * 2 ^ more = steps at units
    rw [units, whole] at small notNext
    have fewer : steps < 2 ^ 53 := Nat.lt_of_mul_lt_mul_right small
    have notLast : steps ≠ 2 ^ 53 - 1 := by
      rintro rfl
      omega
    have bounded : steps * 2 ^ exponent ≤ (2 ^ 53 - 2) * 2 ^ exponent :=
      Nat.mul_le_mul_right _ (by omega)
    omega

end Halves

end Magnitude

/-! ## Floors of rounded sums -/

namespace Binary64

open Magnitude

/--
Values, in units of which one has `2 ^ (k + 1)`, whose sum with one half is rounded
up to the next integer: the greatest value below one half, and the odd integers in
the range where the integers are the grid.
-/
def RoundsUp (k : Nat) (negative : Bool) (magnitude : Magnitude) : Prop :=
  (negative = false ∧ magnitude.units + 2 ^ (k - 53) = 2 ^ k) ∨
    (magnitude.exponent = k + 1 ∧ magnitude.significand % 2 = 1)

theorem div_add_half
    (integer k : Nat) :
    (integer * 2 ^ (k + 1) + 2 ^ k) / 2 ^ (k + 1) = integer := by
  have half := Nat.two_pow_pos k
  have one : 2 ^ (k + 1) = 2 * 2 ^ k := by rw [Nat.pow_succ']
  exact Nat.div_eq_of_lt_le (Nat.le_add_right _ _) (by rw [Nat.add_mul]; omega)

section Floors

variable
  {k : Nat}
  (magnitude : Magnitude)

/-- On coarse grids magnitudes are integers. -/
theorem exists_units_eq_mul
    {magnitude : Magnitude}
    (coarse : k + 1 ≤ magnitude.exponent) :
    ∃ integer, magnitude.units = integer * 2 ^ (k + 1) := by
  obtain ⟨more, equal⟩ := Nat.exists_eq_add_of_le' coarse
  exact ⟨magnitude.significand * 2 ^ more, by rw [units_eq, equal, Nat.pow_add, Nat.mul_assoc]⟩

theorem div_roundedUnits_add_of_roundsUp
    (large : 53 ≤ k)
    (up : RoundsUp k false magnitude) :
    roundedUnits (magnitude.units + 2 ^ k) 1 / 2 ^ (k + 1) =
      (magnitude.units + 2 ^ k) / 2 ^ (k + 1) + 1 := by
  rcases up with ⟨-, next⟩ | ⟨last, odd⟩
  · have one : 2 ^ (k + 1) = 2 * 2 ^ k := by rw [Nat.pow_succ']
    have step := Nat.two_pow_pos (k - 53)
    rw [roundedUnits_add_below_half magnitude large next, Nat.div_self (Nat.two_pow_pos _),
      Nat.div_eq_of_lt (by omega)]
  · rw [roundedUnits_add_tie magnitude last, Nat.mul_div_cancel _ (Nat.two_pow_pos _), odd,
      units_eq, last, div_add_half]

theorem div_roundedUnits_add_of_not_roundsUp
    (large : 53 ≤ k)
    (notUp : ¬ RoundsUp k false magnitude) :
    roundedUnits (magnitude.units + 2 ^ k) 1 / 2 ^ (k + 1) =
      (magnitude.units + 2 ^ k) / 2 ^ (k + 1) := by
  obtain ⟨notNext, notOdd⟩ := not_or.mp notUp
  rcases Nat.lt_trichotomy magnitude.exponent (k + 1) with fine | last | far
  · rcases Nat.lt_or_ge (magnitude.units + 2 ^ k) (2 ^ (magnitude.exponent + 53)) with
      sameSize | carried
    · rw [roundedUnits_add_exact magnitude (Nat.le_of_lt_succ fine) sameSize]
    · rcases Nat.lt_or_ge magnitude.units (2 ^ k) with small | great
      · have below := roundedUnits_add_lt magnitude large small (fun next => notNext ⟨rfl, next⟩)
        have one : 2 ^ (k + 1) = 2 * 2 ^ k := by rw [Nat.pow_succ']
        rw [Nat.div_eq_of_lt below, Nat.div_eq_of_lt (by omega)]
      · exact roundedUnits_add_carry magnitude (Nat.le_of_lt_succ fine) great carried
  · have even : magnitude.significand % 2 = 0 := by
      have notOne : magnitude.significand % 2 ≠ 1 := fun odd => notOdd ⟨last, odd⟩
      omega
    rw [roundedUnits_add_tie magnitude last, even, Nat.mul_div_cancel _ (Nat.two_pow_pos _),
      units_eq, last, div_add_half, Nat.add_zero]
  · obtain ⟨integer, units⟩ := exists_units_eq_mul (Nat.le_of_lt far)
    rw [roundedUnits_add_lost magnitude far, units, div_add_half,
      Nat.mul_div_cancel _ (Nat.two_pow_pos _)]

/-- Whole units are a whole floor, with and without a half more. -/
theorem ediv_neg_integer
    (integer k : Nat) :
    -((integer * 2 ^ (k + 1) : Nat) : ℤ) / 2 ^ (k + 1) = -integer ∧
      (2 ^ k - ((integer * 2 ^ (k + 1) : Nat) : ℤ)) / 2 ^ (k + 1) = -integer := by
  have half : (0 : ℤ) < 2 ^ k := by positivity
  have one : (2 : ℤ) ^ (k + 1) = 2 * 2 ^ k := pow_succ' 2 k
  push_cast
  constructor
  · rw [← neg_mul, Int.mul_ediv_cancel _ (by positivity)]
  · rw [sub_eq_add_neg, ← neg_mul, Int.add_mul_ediv_right _ _ (by positivity),
      Int.ediv_eq_zero_of_lt half.le (by omega), zero_add]

theorem ediv_roundedUnits_sub_of_roundsUp
    (up : RoundsUp k true magnitude) :
    -(roundedUnits (magnitude.units - 2 ^ k) 1 : ℤ) / 2 ^ (k + 1) =
      (2 ^ k - (magnitude.units : ℤ)) / 2 ^ (k + 1) + 1 := by
  obtain ⟨last, odd⟩ : magnitude.exponent = k + 1 ∧ magnitude.significand % 2 = 1 :=
    up.resolve_left fun next => nomatch next.1
  have long := long_of_exponent_pos (by omega : 0 < magnitude.exponent)
  have even : (magnitude.significand - 1) % 2 = 0 := by omega
  rw [roundedUnits_sub_tie magnitude last (by omega), even, Nat.add_zero,
    (ediv_neg_integer _ k).1, units_eq, last, (ediv_neg_integer _ k).2]
  omega

theorem ediv_roundedUnits_sub_of_not_roundsUp
    (great : 2 ^ k ≤ magnitude.units)
    (notUp : ¬ RoundsUp k true magnitude) :
    -(roundedUnits (magnitude.units - 2 ^ k) 1 : ℤ) / 2 ^ (k + 1) =
      (2 ^ k - (magnitude.units : ℤ)) / 2 ^ (k + 1) := by
  rcases Nat.lt_trichotomy magnitude.exponent (k + 1) with fine | last | far
  · rw [roundedUnits_sub_exact magnitude (Nat.le_of_lt_succ fine)]
    push_cast [great]
    rw [neg_sub]
  · have notOdd : magnitude.significand % 2 ≠ 1 := fun odd => notUp (.inr ⟨last, odd⟩)
    have long := long_of_exponent_pos (by omega : 0 < magnitude.exponent)
    rcases Nat.lt_or_eq_of_le long with more | least
    · have odd : (magnitude.significand - 1) % 2 = 1 := by omega
      rw [roundedUnits_sub_tie magnitude last more, odd, Nat.sub_add_cancel (by omega),
        units_eq, last, (ediv_neg_integer _ k).1, (ediv_neg_integer _ k).2]
    · have split : magnitude.units - 2 ^ k = (2 ^ 53 - 1) * 2 ^ k := by
        rw [units_eq, last, ← least, Nat.pow_succ']
        omega
      rw [split, roundedUnits_mul_two_pow (by decide), ← split]
      push_cast [great]
      rw [neg_sub]
  · obtain ⟨integer, units⟩ := exists_units_eq_mul (Nat.le_of_lt far)
    rw [roundedUnits_sub_lost magnitude far, units, (ediv_neg_integer _ k).1,
      (ediv_neg_integer _ k).2]

theorem roundedSum_nonneg
    {sum : ℤ}
    (nonnegative : 0 ≤ sum) :
    roundedSum sum = roundedUnits sum.natAbs 1 :=
  if_neg (Int.not_lt.mpr nonnegative)

theorem roundedSum_nonpos
    {sum : ℤ}
    (nonpositive : sum ≤ 0) :
    roundedSum sum = -(roundedUnits sum.natAbs 1 : ℤ) := by
  unfold roundedSum
  split
  · rfl
  · obtain rfl : sum = 0 := by omega
    rfl

/-- A sum of one half and a negative value no greater in size has the floor zero. -/
theorem ediv_roundedUnits_half_sub
    (small : magnitude.units ≤ 2 ^ k) :
    (roundedUnits (2 ^ k - magnitude.units) 1 : ℤ) / 2 ^ (k + 1) =
      (2 ^ k - (magnitude.units : ℤ)) / 2 ^ (k + 1) := by
  have half := Nat.two_pow_pos k
  have one : 2 ^ (k + 1) = 2 * 2 ^ k := by rw [Nat.pow_succ']
  have kept := roundedUnits_mul_two_pow (by decide : 1 ≤ 2 ^ 53) k
  rw [Nat.one_mul] at kept
  have bounded : roundedUnits (2 ^ k - magnitude.units) 1 ≤ 2 ^ k := by
    conv_rhs => rw [← kept]
    exact roundedUnits_mono Nat.one_pos Nat.one_pos (by omega)
  have split : (2 : ℤ) ^ k - magnitude.units = ((2 ^ k - magnitude.units : Nat) : ℤ) := by
    push_cast [small]
    rfl
  rw [split]
  norm_cast
  rw [Nat.div_eq_of_lt (by omega), Nat.div_eq_of_lt (by omega)]

/-- Negative values that are rounded up are far below minus one half. -/
theorem not_roundsUp_of_le
    (small : magnitude.units ≤ 2 ^ k) :
    ¬ RoundsUp k true magnitude := by
  rintro (⟨⟨⟩, -⟩ | ⟨last, -⟩)
  have long := long_of_exponent_pos (by omega : 0 < magnitude.exponent)
  have half := Nat.two_pow_pos k
  rw [units_eq, last, Nat.pow_succ'] at small
  nlinarith

/-- The floor of a sum with one half, rounded, is that of the exact sum or the next integer. -/
theorem ediv_roundedSum_add_half
    (large : 53 ≤ k)
    (negative : Bool) :
    (RoundsUp k negative magnitude →
        roundedSum (signedUnits negative magnitude + 2 ^ k) / 2 ^ (k + 1) =
          (signedUnits negative magnitude + 2 ^ k) / 2 ^ (k + 1) + 1) ∧
      (¬ RoundsUp k negative magnitude →
        roundedSum (signedUnits negative magnitude + 2 ^ k) / 2 ^ (k + 1) =
          (signedUnits negative magnitude + 2 ^ k) / 2 ^ (k + 1)) := by
  have half : (0 : ℤ) < 2 ^ k := by positivity
  cases negative with
  | false =>
      have size : ((magnitude.units : ℤ) + 2 ^ k).natAbs = magnitude.units + 2 ^ k := by
        rw [Int.natAbs_add_of_nonneg (Int.natCast_nonneg _) half.le, Int.natAbs_natCast,
          Int.natAbs_pow]
        rfl
      have signed : signedUnits false magnitude = magnitude.units := rfl
      rw [signed, roundedSum_nonneg (by positivity), size]
      constructor
      · intro up
        exact_mod_cast div_roundedUnits_add_of_roundsUp magnitude large up
      · intro notUp
        exact_mod_cast div_roundedUnits_add_of_not_roundsUp magnitude large notUp
  | true =>
      have signed : signedUnits true magnitude + 2 ^ k = 2 ^ k - (magnitude.units : ℤ) :=
        neg_add_eq_sub _ _
      rw [signed]
      rcases Nat.le_total magnitude.units (2 ^ k) with small | great
      · have cast : (magnitude.units : ℤ) ≤ 2 ^ k := by exact_mod_cast small
        have size : (2 ^ k - (magnitude.units : ℤ)).natAbs = 2 ^ k - magnitude.units := by
          zify [small]
          exact abs_of_nonneg (by omega)
        rw [roundedSum_nonneg (by omega), size]
        exact ⟨fun up => absurd up (not_roundsUp_of_le magnitude small),
          fun _ => ediv_roundedUnits_half_sub magnitude small⟩
      · have cast : (2 : ℤ) ^ k ≤ magnitude.units := by exact_mod_cast great
        have size : (2 ^ k - (magnitude.units : ℤ)).natAbs = magnitude.units - 2 ^ k := by
          zify [great]
          rw [abs_of_nonpos (by omega), neg_sub]
        rw [roundedSum_nonpos (by omega), size]
        exact ⟨ediv_roundedUnits_sub_of_roundsUp magnitude,
          ediv_roundedUnits_sub_of_not_roundsUp magnitude great⟩

end Floors

/-! ## The floor of a value -/

section Floor

variable
  {k : Nat}
  (magnitude : Magnitude)

/-- The integers next to a magnitude are among the magnitudes. -/
theorem roundedUnits_floor :
    roundedUnits (magnitude.units / 2 ^ (k + 1) * 2 ^ (k + 1)) 1 =
      magnitude.units / 2 ^ (k + 1) * 2 ^ (k + 1) := by
  rcases Nat.lt_or_ge magnitude.exponent (k + 1) with fine | coarse
  · have few : magnitude.units / 2 ^ (k + 1) < 2 ^ 53 := by
      rw [Nat.div_lt_iff_lt_mul (Nat.two_pow_pos _), units_eq]
      exact Nat.mul_lt_mul_of_lt_of_le magnitude.significand_lt
        (Nat.pow_le_pow_right (by decide) fine.le) (Nat.two_pow_pos _)
    exact roundedUnits_mul_two_pow few.le _
  · obtain ⟨integer, units⟩ := exists_units_eq_mul coarse
    rw [units, Nat.mul_div_cancel _ (Nat.two_pow_pos _), ← units]
    simpa using roundedUnits_units Nat.one_pos magnitude

/-- A magnitude that is not an integer lies below few of them. -/
theorem div_lt_of_mod_ne_zero
    (broken : magnitude.units % 2 ^ (k + 1) ≠ 0) :
    magnitude.units / 2 ^ (k + 1) < 2 ^ 53 := by
  have fine : magnitude.exponent ≤ k + 1 := by
    by_contra coarse
    obtain ⟨integer, units⟩ := exists_units_eq_mul (Nat.le_of_not_le coarse)
    rw [units] at broken
    exact broken (Nat.mul_mod_left integer _)
  rw [Nat.div_lt_iff_lt_mul (Nat.two_pow_pos _), units_eq]
  exact Nat.mul_lt_mul_of_lt_of_le magnitude.significand_lt
    (Nat.pow_le_pow_right (by decide) fine) (Nat.two_pow_pos _)

end Floor

/-- The floor of a negative quotient is the next integer away from zero, if there is a rest. -/
theorem neg_ediv
    (numerator : Nat)
    {denominator : Nat}
    (positive : 0 < denominator) :
    -(numerator : ℤ) / denominator =
      -((if numerator % denominator ≠ 0 then numerator / denominator + 1
          else numerator / denominator : Nat) : ℤ) := by
  have split := Nat.div_add_mod' numerator denominator
  have small := Nat.mod_lt numerator positive
  have scale : (denominator : ℤ) ≠ 0 := by omega
  generalize numerator / denominator = quotient at split ⊢
  generalize numerator % denominator = rest at split small ⊢
  subst split
  split
  · next broken =>
      have arranged :
          -((quotient * denominator + rest : Nat) : ℤ) =
            (denominator - rest) + -((quotient : ℤ) + 1) * denominator := by
        push_cast
        ring
      rw [arranged, Int.add_mul_ediv_right _ _ scale,
        Int.ediv_eq_zero_of_lt (by omega) (by omega), zero_add]
      push_cast
      rfl
  · next whole =>
      obtain rfl : rest = 0 := of_not_not whole
      push_cast
      rw [add_zero, ← neg_mul, Int.mul_ediv_cancel _ scale]

/-- The floor of a finite value is its exact floor. -/
theorem exists_floor_eq_finite
    (negative : Bool)
    (magnitude : Magnitude) :
    ∃ whole,
      floor (.finite negative magnitude) = .finite negative whole ∧
        signedUnits negative whole =
          signedUnits negative magnitude / unitsPerOne * unitsPerOne := by
  have scale := unitsPerOne_pos
  have kept : roundedUnits (magnitude.units / unitsPerOne * unitsPerOne) 1 = _ :=
    unitsPerOne_eq ▸ roundedUnits_floor magnitude
  have below : magnitude.units / unitsPerOne * unitsPerOne < limit :=
    (Nat.div_mul_le_self _ _).trans_lt magnitude.units_lt
  have keptAway (broken : magnitude.units % unitsPerOne ≠ 0) :
      roundedUnits ((magnitude.units / unitsPerOne + 1) * unitsPerOne) 1 =
        (magnitude.units / unitsPerOne + 1) * unitsPerOne ∧
      (magnitude.units / unitsPerOne + 1) * unitsPerOne < limit := by
    rw [unitsPerOne_eq] at broken ⊢
    have few := div_lt_of_mod_ne_zero magnitude broken
    refine ⟨roundedUnits_mul_two_pow few _, (Nat.mul_le_mul_right _ few).trans_lt ?_⟩
    have places := halfPlaces_large.2
    rw [limit, ← Nat.pow_add]
    exact Nat.pow_lt_pow_right (by decide) (by omega)
  simp only [floor]
  cases negative with
  | false =>
      obtain ⟨whole, made, units⟩ := exists_ofUnits_eq_finite (kept.trans_lt below) false
      refine ⟨whole, made, ?_⟩
      simp only [signedUnits, units, kept]
      push_cast
      rfl
  | true =>
      have exact := neg_ediv magnitude.units scale
      by_cases broken : magnitude.units % unitsPerOne ≠ 0
      · obtain ⟨keptAway, belowAway⟩ := keptAway broken
        obtain ⟨whole, made, units⟩ := exists_ofUnits_eq_finite (keptAway.trans_lt belowAway) true
        rw [if_pos broken] at exact
        refine ⟨whole, by simpa [broken] using made, ?_⟩
        simp only [signedUnits, if_true, units, keptAway, exact]
        push_cast
        rw [neg_mul]
      · obtain ⟨whole, made, units⟩ := exists_ofUnits_eq_finite (kept.trans_lt below) true
        rw [if_neg broken] at exact
        refine ⟨whole, by simpa [of_not_not broken] using made, ?_⟩
        simp only [signedUnits, if_true, units, kept, exact]
        push_cast
        rw [neg_mul]

/-! ## Rounding by adding one half -/

/--
Values whose sum with one half is rounded up to an integer above it: the greatest
value below one half, and the odd integers of 53 bits, from which the next values
are a whole one away.
-/
def HalfRoundsUp (exact : ℚ) : Prop :=
  exact = 1 / 2 - 1 / 2 ^ 54 ∨
    ∃ odd : ℤ, exact = odd ∧ odd % 2 = 1 ∧ 2 ^ 52 < |odd| ∧ |odd| < 2 ^ 53

/-- A magnitude of 53 bits and whole steps is an integer of 53 bits. -/
theorem exponent_eq_of_units_eq
    {k integer : Nat}
    {magnitude : Magnitude}
    (above : 2 ^ 52 < integer)
    (below : integer < 2 ^ 53)
    (units : magnitude.units = integer * 2 ^ (k + 1)) :
    magnitude.exponent = k + 1 ∧ magnitude.significand = integer := by
  rw [units_eq] at units
  have fewer := magnitude.significand_lt
  have lower : k + 1 ≤ magnitude.exponent := by
    by_contra finer
    have steep : 2 * 2 ^ magnitude.exponent ≤ 2 ^ (k + 1) := by
      rw [← Nat.pow_succ']
      exact Nat.pow_le_pow_right (by decide) (by omega)
    have positive := Nat.two_pow_pos magnitude.exponent
    nlinarith
  have long := long_of_exponent_pos (Nat.zero_lt_of_lt lower)
  have upper : magnitude.exponent ≤ k + 1 := by
    by_contra coarser
    have steep : 2 * 2 ^ (k + 1) ≤ 2 ^ magnitude.exponent := by
      rw [← Nat.pow_succ']
      exact Nat.pow_le_pow_right (by decide) (by omega)
    have positive := Nat.two_pow_pos (k + 1)
    nlinarith
  have same : magnitude.exponent = k + 1 := Nat.le_antisymm upper lower
  rw [same] at units
  exact ⟨same, Nat.eq_of_mul_eq_mul_right (Nat.two_pow_pos _) units⟩

/-- The values that are rounded up in terms of their exact values. -/
theorem roundsUp_iff
    {k : Nat}
    (large : 53 ≤ k)
    (negative : Bool)
    (magnitude : Magnitude) :
    RoundsUp k negative magnitude ↔
      HalfRoundsUp ((signedUnits negative magnitude : ℚ) / (2 ^ (k + 1) : Nat)) := by
  have scale : (0 : ℚ) < (2 ^ (k + 1) : Nat) := by positivity
  unfold RoundsUp HalfRoundsUp
  refine or_congr ?_ ?_
  · obtain ⟨step, rfl⟩ := Nat.exists_eq_add_of_le' large
    have positive : (0 : ℚ) < 2 ^ step := by positivity
    rw [div_eq_iff scale.ne', Nat.add_sub_cancel]
    cases negative with
    | false =>
        have arranged :
            (1 / 2 - 1 / 2 ^ 54) * ((2 ^ (step + 53 + 1) : Nat) : ℚ) =
              ((2 ^ (step + 53) : Nat) : ℚ) - ((2 ^ step : Nat) : ℚ) := by
          push_cast
          ring
        have size : (signedUnits false magnitude : ℚ) = (magnitude.units : ℚ) :=
          Int.cast_natCast magnitude.units
        rw [arranged, eq_sub_iff_add_eq, size, ← Nat.cast_add, Nat.cast_inj]
        exact and_iff_right rfl
    | true =>
        refine iff_of_false (by simp) fun equal => ?_
        have nonpositive : (signedUnits true magnitude : ℚ) ≤ 0 := by
          simp [signedUnits]
        rw [equal] at nonpositive
        exact absurd nonpositive (not_le.mpr (mul_pos (by norm_num) scale))
  · constructor
    · rintro ⟨last, odd⟩
      have long := long_of_exponent_pos (by omega : 0 < magnitude.exponent)
      have fewer := magnitude.significand_lt
      refine ⟨if negative then -magnitude.significand else magnitude.significand, ?_, ?_⟩
      · rw [div_eq_iff scale.ne', signedUnits, units_eq, last]
        cases negative <;> push_cast <;> simp
      · cases negative <;> simp [abs_of_nonneg] <;> omega
    · rintro ⟨integer, equal, odd, above, below⟩
      rw [div_eq_iff scale.ne'] at equal
      have units : magnitude.units = integer.natAbs * 2 ^ (k + 1) := by
        have cast : signedUnits negative magnitude = integer * (2 ^ (k + 1) : Nat) := by
          exact_mod_cast equal
        have sizes := congrArg Int.natAbs cast
        rw [Int.natAbs_mul, Int.natAbs_natCast] at sizes
        cases negative <;> simpa [signedUnits] using sizes
      obtain ⟨last, significand⟩ :=
        exponent_eq_of_units_eq (by zify; exact above) (by zify; exact below) units
      exact ⟨last, by omega⟩

/--
Rounding a finite value gives the floor of its sum with one half, except where
that sum is rounded up to the integer above.
-/
theorem exists_toRat?_round
    {value : Binary64}
    {exact : ℚ}
    (has : value.toRat? = some exact) :
    ∃ rounded : ℤ,
      (Builtin.round value).toRat? = some (rounded : ℚ) ∧
        (HalfRoundsUp exact → rounded = ⌊exact + 1 / 2⌋ + 1) ∧
        (¬ HalfRoundsUp exact → rounded = ⌊exact + 1 / 2⌋) := by
  obtain ⟨negative, magnitude, rfl, rfl⟩ := exists_finite_of_toRat? has
  obtain ⟨halfSize, half_eq, halfUnits⟩ := exists_half_eq
  have scale : (unitsPerOne : ℤ) = 2 ^ (halfPlaces + 1) := by
    rw [unitsPerOne_eq, Nat.cast_pow, Nat.cast_ofNat]
  have size : signedUnits false halfSize = (2 : ℤ) ^ halfPlaces := by
    rw [signedUnits, if_neg (by decide), halfUnits, Nat.cast_pow, Nat.cast_ofNat]
  have inRange :
      roundedUnits (signedUnits negative magnitude + signedUnits false halfSize).natAbs 1 <
        limit := by
    refine (roundedUnits_mono Nat.one_pos Nat.one_pos ?_).trans_lt
      (roundedUnits_add_two_pow_lt magnitude (Nat.le_of_succ_le halfPlaces_large.2))
    have triangle :=
      Int.natAbs_add_le (signedUnits negative magnitude) (signedUnits false halfSize)
    rw [size] at triangle ⊢
    cases negative <;> simpa [signedUnits, Int.natAbs_pow] using triangle
  obtain ⟨sumSign, sum, added, sumUnits⟩ := exists_add_eq_finite inRange
  obtain ⟨whole, floored, wholeUnits⟩ := exists_floor_eq_finite sumSign sum
  have exactFloor :
      ⌊(signedUnits negative magnitude : ℚ) / (unitsPerOne : ℚ) + 1 / 2⌋ =
        (signedUnits negative magnitude + 2 ^ halfPlaces) / 2 ^ (halfPlaces + 1) := by
    have arranged :
        (signedUnits negative magnitude : ℚ) / (unitsPerOne : ℚ) + 1 / 2 =
          ((signedUnits negative magnitude + 2 ^ halfPlaces : ℤ) : ℚ) / (unitsPerOne : ℚ) := by
      rw [unitsPerOne_eq]
      push_cast
      have positive : (2 : ℚ) ^ halfPlaces ≠ 0 := by positivity
      rw [pow_succ]
      field_simp
    rw [arranged, Rat.floor_intCast_div_natCast, scale]
  have floors := ediv_roundedSum_add_half magnitude halfPlaces_large.1 negative
  refine ⟨signedUnits sumSign sum / unitsPerOne, ?_, ?_⟩
  · have rounds : Builtin.round (.finite negative magnitude) = .finite sumSign whole := by
      rw [← floored, ← added, ← half_eq]
      rfl
    rw [rounds, toRat?_finite, wholeUnits]
    have positive : (unitsPerOne : ℚ) ≠ 0 := by
      exact_mod_cast unitsPerOne_pos.ne'
    push_cast
    rw [mul_div_cancel_right₀ _ positive]
  · rw [exactFloor, sumUnits, size, scale, unitsPerOne_eq, ← roundsUp_iff halfPlaces_large.1]
    exact floors

end Binary64

open Binary64

/--
A rounded variable has an integer value. It is the nearest integer, the greater one
of two, unless the sum with one half is rounded up past it; then it is one more.
-/
theorem evaluate_round
    {bindings : Bindings}
    {value : Binary64}
    {exact : ℚ}
    (bound : bindings.find? (Text.ofString "x") = some value)
    (has : value.toRat? = some exact) :
    ∃ (result : Binary64) (rounded : ℤ),
      evaluate bindings Builtin.table (Text.ofString "round(x)") = .ok result ∧
        result.toRat? = some (rounded : ℚ) ∧
        (HalfRoundsUp exact → rounded = ⌊exact + 1 / 2⌋ + 1) ∧
        (¬ HalfRoundsUp exact →
          (rounded : ℚ) ≤ exact + 1 / 2 ∧ exact + 1 / 2 < (rounded : ℚ) + 1) := by
  obtain ⟨rounded, result, up, nearest⟩ := exists_toRat?_round has
  refine ⟨Builtin.round value, rounded, ?_, result, up, fun notUp => ?_⟩
  · have read :
        tokenize (Text.ofString "round(x)") =
          .ok [.bareName (Text.ofString "round"), .openParen, .bareName (Text.ofString "x"),
            .closeParen] :=
      tokenize_of_answers rfl
    have converted :
        toPostfix [.bareName (Text.ofString "round"), .openParen, .bareName (Text.ofString "x"),
            .closeParen] =
          .ok ([Text.ofString "x"].map Token.bareName ++ [.name (Text.ofString "round") 1]) :=
      rfl
    have found :
        Builtin.table.find? (Text.ofString "round") = some (Builtin.unary Builtin.round) :=
      rfl
    have values :
        [Text.ofString "x"].map (fun name => bindings.find? name) = [value].map some := by
      rw [List.map_singleton, bound, List.map_singleton]
    rw [evaluate_call_of_bareNames read converted found (by decide) (by decide) (by decide) values]
    have applied :
        (Builtin.unary Builtin.round).apply (Text.ofString "round") [value] =
          .ok (Builtin.round value) := by
      obtain ⟨negative, magnitude, finite, -⟩ := exists_finite_of_toRat? result
      have numerical : (Builtin.round value).isNaN = false := by
        rw [finite]
        rfl
      have body :
          (Builtin.unary Builtin.round).body
              ((Builtin.unary Builtin.round).complete [value]) =
            .ok (Builtin.round value) :=
        rfl
      simp only [Function.apply, body, numerical, Bool.false_and, Bool.false_eq_true, if_false]
    rw [applied, Outcome.mapError_ok]
  · rw [nearest notUp]
    exact ⟨Int.floor_le _, Int.lt_floor_add_one _⟩

/-- Above `2 ^ 52` rounding moves an integer to the next one. -/
theorem evaluate_round_of_odd :
    let odd : Binary64 := .finite false ⟨2 ^ 52 + 1, 1074, by decide, by decide, by decide⟩
    let bindings := Dictionary.ofList [(Text.ofString "x", odd)]
    HalfRoundsUp (2 ^ 52 + 1) ∧
      ∃ result,
        evaluate bindings Builtin.table (Text.ofString "round(x)") = .ok result ∧
          result.toRat? = some (2 ^ 52 + 2) := by
  intro odd bindings
  have has : odd.toRat? = some (2 ^ 52 + 1) := by
    decide +kernel
  have roundsUp : HalfRoundsUp (2 ^ 52 + 1) :=
    .inr ⟨2 ^ 52 + 1, by norm_num, by decide, by decide, by decide⟩
  obtain ⟨result, rounded, evaluated, value, up, -⟩ :=
    @evaluate_round bindings odd (2 ^ 52 + 1) rfl has
  refine ⟨roundsUp, result, evaluated, ?_⟩
  have floor : ⌊(2 ^ 52 + 1 + 1 / 2 : ℚ)⌋ = 2 ^ 52 + 1 := by
    rw [Int.floor_eq_iff]
    norm_num
  rw [value, up roundsUp, floor]
  norm_num

/-- The greatest value below one half is rounded to one, which is not the nearest integer. -/
theorem evaluate_round_below_half :
    let below : Binary64 := .finite false ⟨2 ^ 53 - 1, 1020, by decide, by decide, by decide⟩
    let bindings := Dictionary.ofList [(Text.ofString "x", below)]
    below.toRat? = some (1 / 2 - 1 / 2 ^ 54) ∧
      evaluate bindings Builtin.table (Text.ofString "round(x)") = .ok .one ∧
      Binary64.one.toRat? = some 1 ∧
      ¬ (1 : ℚ) ≤ 1 / 2 - 1 / 2 ^ 54 + 1 / 2 := by
  refine ⟨by decide +kernel, by decide +kernel, by decide +kernel, by norm_num⟩

end Reckoner
