import Mathlib.Data.Nat.Log
import Mathlib.Tactic.Ring
import Mathlib.Tactic.Linarith
import Mathlib.Data.Rat.Cast.Order
import Reckoner.Binary64.Arithmetic

/-!
# Rounding quotients to magnitudes

A quotient is rounded on the grid of its own size, which is the coarser the
greater the quotient is. Still rounding is monotone over all grids, keeps every
number of units that lies on its grid, and moves a quotient by at most half a
grid step. `roundedUnits` is the outcome in units without regard to the greatest
magnitude; `nearest?_cases` says that `nearest?` has it within its range.
-/

namespace Reckoner

/-! ## Rounding to an integer -/

/-- Rounding to an integer keeps the order of quotients. -/
theorem halfEven_mono
    {first base second other : Nat}
    (positive : 0 < base)
    (otherPositive : 0 < other)
    (ordered : first * other ≤ second * base) :
    halfEven first base ≤ halfEven second other := by
  have floors : first / base ≤ second / other := by
    rw [Nat.le_div_iff_mul_le otherPositive]
    refine Nat.le_of_mul_le_mul_right ?_ positive
    calc first / base * other * base
        = first / base * base * other := by ring
      _ ≤ first * other := Nat.mul_le_mul_right _ (Nat.div_mul_le_self _ _)
      _ ≤ second * base := ordered
  rcases Nat.lt_or_eq_of_le floors with apart | same
  · exact (halfEven_bounds first base).2.trans (apart.trans_le (halfEven_bounds second other).1)
  · have split : base * (first / base) + first % base = first := Nat.div_add_mod first base
    have otherSplit : other * (second / other) + second % other = second :=
      Nat.div_add_mod second other
    -- With equal floors the remainders are ordered like the quotients.
    have remainders : first % base * other ≤ second % other * base := by
      rw [same] at split
      nlinarith [ordered, split, otherSplit]
    unfold halfEven
    simp only [same]
    have doubled : 2 * (first % base) * other ≤ 2 * (second % other) * base := by
      nlinarith [remainders]
    split
    · split
      · exact le_rfl
      · split <;> omega
    · next notBelow =>
        have notBelowOther : ¬ 2 * (second % other) < other := by
          intro below
          nlinarith
        rw [if_neg notBelowOther]
        split
        · next above =>
            have aboveOther : other < 2 * (second % other) := by
              by_contra notAbove
              nlinarith
            rw [if_pos aboveOther]
        · split <;> omega

/-- Rounding to an integer moves a quotient by at most one half. -/
theorem halfEven_error
    {denominator : Nat}
    (positive : 0 < denominator)
    (numerator : Nat) :
    2 * (halfEven numerator denominator * denominator) ≤ 2 * numerator + denominator ∧
      2 * numerator ≤ 2 * (halfEven numerator denominator * denominator) + denominator := by
  have split : numerator / denominator * denominator + numerator % denominator = numerator :=
    Nat.div_add_mod' numerator denominator
  have small : numerator % denominator < denominator := Nat.mod_lt _ positive
  unfold halfEven
  simp only
  split
  · omega
  · split
    · rw [Nat.add_mul]
      omega
    · rcases Nat.mod_two_eq_zero_or_one (numerator / denominator) with even | odd
      · rw [even, Nat.add_zero]
        omega
      · rw [odd, Nat.add_mul]
        omega

/-- A quotient with its remainder is rounded by twice the remainder. -/
theorem halfEven_mul_add
    {quotient denominator remainder : Nat}
    (small : remainder < denominator) :
    halfEven (quotient * denominator + remainder) denominator =
      if 2 * remainder < denominator then
        quotient
      else if denominator < 2 * remainder then
        quotient + 1
      else
        quotient + quotient % 2 := by
  have positive : 0 < denominator := Nat.zero_lt_of_lt small
  have floor : (quotient * denominator + remainder) / denominator = quotient := by
    rw [Nat.add_comm, Nat.add_mul_div_right _ _ positive, Nat.div_eq_of_lt small, Nat.zero_add]
  have rest : (quotient * denominator + remainder) % denominator = remainder := by
    rw [Nat.add_comm, Nat.add_mul_mod_self_right, Nat.mod_eq_of_lt small]
  rw [halfEven, floor, rest]

namespace Magnitude

/-! ## Grids -/

/-- The binary logarithm of the grid step for a quotient: 53 bits are kept, or all units. -/
def gridExponent (numerator denominator : Nat) : Nat :=
  (numerator / denominator).log2 - 52

/-- The grid steps nearest to a quotient. -/
def gridSteps (numerator denominator : Nat) : Nat :=
  halfEven numerator (denominator <<< gridExponent numerator denominator)

/-- The units of the rounded quotient, however many. -/
def roundedUnits (numerator denominator : Nat) : Nat :=
  gridSteps numerator denominator * 2 ^ gridExponent numerator denominator

/-- The binary logarithm of the grid step of the greatest magnitudes. -/
@[irreducible] def greatestExponent : Nat :=
  2045

theorem greatestExponent_eq :
    greatestExponent = 2045 := by
  rw [greatestExponent]

section Grid

variable
  {numerator denominator : Nat}

theorem shifted_pos
    (positive : 0 < denominator)
    (exponent : Nat) :
    0 < denominator <<< exponent := by
  rw [Nat.shiftLeft_eq]
  positivity

/-- A quotient stays below 53 bits on its grid. -/
theorem div_lt_gridExponent
    (numerator denominator : Nat) :
    numerator / denominator < 2 ^ (gridExponent numerator denominator + 53) := by
  refine Nat.lt_log2_self.trans_le (Nat.pow_le_pow_right (by decide) ?_)
  unfold gridExponent
  omega

/-- On a grid coarser than the units a quotient has all of its 53 bits. -/
theorem le_div_of_gridExponent_pos
    (coarse : 0 < gridExponent numerator denominator) :
    2 ^ (gridExponent numerator denominator + 52) ≤ numerator / denominator := by
  unfold gridExponent at coarse ⊢
  have nonzero : numerator / denominator ≠ 0 := by
    intro zero
    rw [zero] at coarse
    simp at coarse
  rw [← Nat.le_log2 nonzero]
  omega

/-- The grid of a greater quotient is not finer. -/
theorem gridExponent_mono
    {other otherDenominator : Nat}
    (ordered : numerator / denominator ≤ other / otherDenominator) :
    gridExponent numerator denominator ≤ gridExponent other otherDenominator := by
  unfold gridExponent
  have logarithms :
      (numerator / denominator).log2 ≤ (other / otherDenominator).log2 := by
    rw [Nat.log2_eq_log_two, Nat.log2_eq_log_two]
    exact Nat.log_mono_right ordered
  omega

/-- A quotient is rounded to at most 53 bits, or to the least number of 54 bits. -/
theorem gridSteps_le
    (numerator denominator : Nat) :
    gridSteps numerator denominator ≤ 2 ^ 53 := by
  have below := div_lt_gridExponent numerator denominator
  rw [Nat.pow_add, Nat.mul_comm, ← Nat.div_lt_iff_lt_mul (by positivity),
    Nat.div_div_eq_div_mul, ← Nat.shiftLeft_eq] at below
  exact (halfEven_bounds _ _).2.trans below

theorem le_gridSteps
    (coarse : 0 < gridExponent numerator denominator) :
    2 ^ 52 ≤ gridSteps numerator denominator := by
  have above := le_div_of_gridExponent_pos coarse
  rw [Nat.pow_add, Nat.mul_comm, ← Nat.le_div_iff_mul_le (by positivity),
    Nat.div_div_eq_div_mul, ← Nat.shiftLeft_eq] at above
  exact above.trans (halfEven_bounds _ _).1

/-- Rounding keeps the order of quotients, on the same grid and from one grid to another. -/
theorem roundedUnits_mono
    {other otherDenominator : Nat}
    (positive : 0 < denominator)
    (otherPositive : 0 < otherDenominator)
    (ordered : numerator * otherDenominator ≤ other * denominator) :
    roundedUnits numerator denominator ≤ roundedUnits other otherDenominator := by
  have floors : numerator / denominator ≤ other / otherDenominator := by
    rw [Nat.le_div_iff_mul_le otherPositive]
    refine Nat.le_of_mul_le_mul_right ?_ positive
    calc numerator / denominator * otherDenominator * denominator
        = numerator / denominator * denominator * otherDenominator := by ring
      _ ≤ numerator * otherDenominator := Nat.mul_le_mul_right _ (Nat.div_mul_le_self _ _)
      _ ≤ other * denominator := ordered
  unfold roundedUnits
  rcases Nat.lt_or_eq_of_le (gridExponent_mono floors) with finer | same
  · -- The first result is at most the least one on any coarser grid.
    have coarse : 0 < gridExponent other otherDenominator := Nat.zero_lt_of_lt finer
    calc gridSteps numerator denominator * 2 ^ gridExponent numerator denominator
        ≤ 2 ^ 53 * 2 ^ gridExponent numerator denominator :=
          Nat.mul_le_mul_right _ (gridSteps_le numerator denominator)
      _ = 2 ^ 52 * 2 ^ (gridExponent numerator denominator + 1) := by ring
      _ ≤ 2 ^ 52 * 2 ^ gridExponent other otherDenominator :=
          Nat.mul_le_mul_left _ (Nat.pow_le_pow_right Nat.two_pos finer)
      _ ≤ gridSteps other otherDenominator * 2 ^ gridExponent other otherDenominator :=
          Nat.mul_le_mul_right _ (le_gridSteps coarse)
  · rw [gridSteps, gridSteps, same]
    apply Nat.mul_le_mul_right
    apply halfEven_mono (shifted_pos positive _) (shifted_pos otherPositive _)
    rw [Nat.shiftLeft_eq, Nat.shiftLeft_eq, ← Nat.mul_assoc, ← Nat.mul_assoc]
    exact Nat.mul_le_mul_right _ ordered

/-- Units that lie on their own grid are kept. -/
theorem roundedUnits_of_dvd
    {units : Nat}
    (positive : 0 < denominator)
    (onGrid : 2 ^ (units.log2 - 52) ∣ units) :
    roundedUnits (units * denominator) denominator = units := by
  obtain ⟨significand, split⟩ := onGrid
  have grid : gridExponent (units * denominator) denominator = units.log2 - 52 := by
    rw [gridExponent, Nat.mul_div_cancel _ positive]
  have arranged :
      units * denominator = significand * denominator <<< (units.log2 - 52) := by
    rw [Nat.shiftLeft_eq]
    conv_lhs => rw [split]
    ring
  rw [roundedUnits, gridSteps, grid, arranged, halfEven_mul _ _ (shifted_pos positive _),
    Nat.mul_comm]
  exact split.symm

/-- A number of at most 53 bits, scaled by a power of two, lies on its own grid. -/
theorem dvd_shiftLeft
    {significand : Nat}
    (bits : significand ≤ 2 ^ 53)
    (exponent : Nat) :
    2 ^ ((significand <<< exponent).log2 - 52) ∣ significand <<< exponent := by
  rw [Nat.shiftLeft_eq]
  rcases Nat.eq_zero_or_pos significand with zero | nonzero
  · simp [zero]
  · have scaled : significand * 2 ^ exponent ≠ 0 := by positivity
    rcases Nat.lt_or_eq_of_le bits with fewer | whole
    · refine Dvd.dvd.mul_left (Nat.pow_dvd_pow 2 ?_) significand
      have logarithm : (significand * 2 ^ exponent).log2 < 53 + exponent := by
        rw [Nat.log2_lt scaled, Nat.pow_add]
        exact Nat.mul_lt_mul_of_pos_right fewer (by positivity)
      omega
    · rw [whole, ← Nat.pow_add, Nat.log2_two_pow]
      exact Nat.pow_dvd_pow 2 (by omega)

/-- A number of at most 53 bits, scaled by a power of two, is kept. -/
theorem roundedUnits_shiftLeft
    {significand : Nat}
    (positive : 0 < denominator)
    (bits : significand ≤ 2 ^ 53)
    (exponent : Nat) :
    roundedUnits ((significand <<< exponent) * denominator) denominator =
      significand <<< exponent :=
  roundedUnits_of_dvd positive (dvd_shiftLeft bits exponent)

/-- A number of at most 53 bits is kept on any grid. -/
theorem roundedUnits_mul_two_pow
    {significand : Nat}
    (bits : significand ≤ 2 ^ 53)
    (exponent : Nat) :
    roundedUnits (significand * 2 ^ exponent) 1 = significand * 2 ^ exponent := by
  have kept := roundedUnits_shiftLeft Nat.one_pos bits exponent
  rwa [Nat.mul_one, Nat.shiftLeft_eq] at kept

theorem gridExponent_eq
    {units exponent : Nat}
    (above : 2 ^ (exponent + 52) ≤ units)
    (below : units < 2 ^ (exponent + 53)) :
    gridExponent units 1 = exponent := by
  have nonzero : units ≠ 0 := by
    have := Nat.two_pow_pos (exponent + 52)
    omega
  have logarithm : units.log2 = exponent + 52 :=
    (Nat.log2_eq_iff nonzero).mpr ⟨above, below⟩
  rw [gridExponent, Nat.div_one, logarithm]
  omega

/-- Units of 53 bits and a remainder are rounded to a multiple of the remainder's range. -/
theorem roundedUnits_mul_add
    {steps exponent remainder : Nat}
    (long : 2 ^ 52 ≤ steps)
    (bits : steps < 2 ^ 53)
    (small : remainder < 2 ^ exponent) :
    roundedUnits (steps * 2 ^ exponent + remainder) 1 =
      halfEven (steps * 2 ^ exponent + remainder) (2 ^ exponent) * 2 ^ exponent := by
  have grid : gridExponent (steps * 2 ^ exponent + remainder) 1 = exponent := by
    apply gridExponent_eq
    · rw [Nat.pow_add, Nat.mul_comm]
      exact (Nat.mul_le_mul_right _ long).trans (Nat.le_add_right _ _)
    · rw [Nat.pow_add, Nat.mul_comm _ (2 ^ 53)]
      calc steps * 2 ^ exponent + remainder
          < (steps + 1) * 2 ^ exponent := by rw [Nat.add_mul]; omega
        _ ≤ 2 ^ 53 * 2 ^ exponent := Nat.mul_le_mul_right _ bits
  rw [roundedUnits, gridSteps, grid, Nat.one_shiftLeft]

/-- Rounding moves a quotient by at most half a grid step. -/
theorem roundedUnits_error
    (positive : 0 < denominator)
    (numerator : Nat) :
    let step := 2 ^ gridExponent numerator denominator
    2 * (roundedUnits numerator denominator * denominator) ≤ 2 * numerator + step * denominator ∧
      2 * numerator ≤ 2 * (roundedUnits numerator denominator * denominator) +
        step * denominator := by
  have error :=
    halfEven_error (shifted_pos positive (gridExponent numerator denominator)) numerator
  rw [← gridSteps, Nat.shiftLeft_eq] at error
  have arranged :
      roundedUnits numerator denominator * denominator =
        gridSteps numerator denominator *
          (denominator * 2 ^ gridExponent numerator denominator) := by
    unfold roundedUnits
    ring
  simp only [arranged, Nat.mul_comm (2 ^ gridExponent numerator denominator) denominator]
  exact error

end Grid

/-! ## Magnitudes -/

theorem units_eq
    (magnitude : Magnitude) :
    magnitude.units = magnitude.significand * 2 ^ magnitude.exponent :=
  Nat.shiftLeft_eq _ _

theorem significand_le
    (magnitude : Magnitude) :
    magnitude.significand ≤ 2 ^ 53 :=
  Nat.le_of_lt magnitude.significand_lt

/-- A magnitude is kept by rounding. -/
theorem roundedUnits_units
    {denominator : Nat}
    (positive : 0 < denominator)
    (magnitude : Magnitude) :
    roundedUnits (magnitude.units * denominator) denominator = magnitude.units :=
  roundedUnits_shiftLeft positive magnitude.significand_le magnitude.exponent

/-- Rounding does not go beyond a magnitude that the quotient does not exceed. -/
theorem roundedUnits_le_units
    {numerator denominator : Nat}
    {magnitude : Magnitude}
    (positive : 0 < denominator)
    (below : numerator ≤ magnitude.units * denominator) :
    roundedUnits numerator denominator ≤ magnitude.units := by
  rw [← roundedUnits_units positive magnitude]
  exact roundedUnits_mono positive positive (Nat.mul_le_mul_right _ below)

/-- Rounding does not fall below a magnitude that the quotient is not less than. -/
theorem units_le_roundedUnits
    {numerator denominator : Nat}
    {magnitude : Magnitude}
    (positive : 0 < denominator)
    (above : magnitude.units * denominator ≤ numerator) :
    magnitude.units ≤ roundedUnits numerator denominator := by
  rw [← roundedUnits_units positive magnitude]
  exact roundedUnits_mono positive positive (Nat.mul_le_mul_right _ above)

/-- The number of units that magnitudes stay below. -/
def limit : Nat :=
  2 ^ (53 + greatestExponent)

/-- Magnitudes stay below their limit. -/
theorem units_lt
    (magnitude : Magnitude) :
    magnitude.units < limit := by
  have inRange : magnitude.exponent ≤ greatestExponent := by
    rw [greatestExponent_eq]
    exact magnitude.exponent_le
  rw [units_eq, limit, Nat.pow_add]
  exact Nat.mul_lt_mul_of_lt_of_le magnitude.significand_lt
    (Nat.pow_le_pow_right Nat.two_pos inRange) (Nat.two_pow_pos _)

/-- A magnitude stays within range when a number far below the greatest ones is added. -/
theorem roundedUnits_add_two_pow_lt
    (magnitude : Magnitude)
    {places : Nat}
    (far : places + 2 ≤ greatestExponent) :
    roundedUnits (magnitude.units + 2 ^ places) 1 < limit := by
  have lost : 2 * 2 ^ places < 2 ^ greatestExponent := by
    rw [← Nat.pow_succ']
    exact Nat.pow_lt_pow_right (by decide) far
  have bounded : magnitude.units ≤ (2 ^ 53 - 1) * 2 ^ greatestExponent := by
    have inRange : magnitude.exponent ≤ greatestExponent := by
      rw [greatestExponent_eq]
      exact magnitude.exponent_le
    rw [units_eq]
    exact Nat.mul_le_mul (Nat.le_sub_one_of_lt magnitude.significand_lt)
      (Nat.pow_le_pow_right (by decide) inRange)
  have kept :
      roundedUnits ((2 ^ 53 - 1) * 2 ^ greatestExponent + 2 ^ places) 1 =
        (2 ^ 53 - 1) * 2 ^ greatestExponent := by
    rw [roundedUnits_mul_add (by decide) (by decide) (by omega),
      halfEven_mul_add (by omega), if_pos lost]
  calc roundedUnits (magnitude.units + 2 ^ places) 1
      ≤ roundedUnits ((2 ^ 53 - 1) * 2 ^ greatestExponent + 2 ^ places) 1 :=
        roundedUnits_mono Nat.one_pos Nat.one_pos (by omega)
    _ = (2 ^ 53 - 1) * 2 ^ greatestExponent := kept
    _ < limit := by
        rw [limit, Nat.pow_add]
        exact Nat.mul_lt_mul_of_pos_right (by decide) (Nat.two_pow_pos _)

/-- Parts in canonical form make a magnitude of these parts. -/
theorem exists_of_ofParts?
    {significand exponent : Nat}
    (proper :
      significand < 0x20000000000000 ∧ exponent ≤ greatestExponent ∧
        (0x10000000000000 ≤ significand ∨ exponent = 0)) :
    ∃ magnitude,
      ofParts? significand exponent = some magnitude ∧
        magnitude.units = significand * 2 ^ exponent := by
  rw [greatestExponent_eq] at proper
  refine ⟨_, dif_pos proper, ?_⟩
  rw [units_eq]

theorem ofParts?_eq_none
    {exponent : Nat}
    (beyond : greatestExponent < exponent)
    (significand : Nat) :
    ofParts? significand exponent = none := by
  rw [greatestExponent_eq] at beyond
  exact dif_neg fun proper => Nat.not_le_of_lt beyond proper.2.1

/-- The nearest magnitude has the rounded units, and is missing only beyond the greatest one. -/
theorem nearest?_cases
    (numerator denominator : Nat) :
    (∃ magnitude,
        nearest? numerator denominator = some magnitude ∧
          magnitude.units = roundedUnits numerator denominator) ∨
      nearest? numerator denominator = none ∧
        limit ≤ roundedUnits numerator denominator := by
  have bits := gridSteps_le numerator denominator
  have leading := @le_gridSteps numerator denominator
  have opened :
      nearest? numerator denominator =
        if gridSteps numerator denominator = 0x20000000000000 then
          ofParts? 0x10000000000000 (gridExponent numerator denominator + 1)
        else
          ofParts? (gridSteps numerator denominator) (gridExponent numerator denominator) :=
    rfl
  rw [opened, roundedUnits, limit, Nat.pow_add]
  generalize gridExponent numerator denominator = exponent at bits leading ⊢
  generalize gridSteps numerator denominator = steps at bits leading ⊢
  split
  · next carried =>
      by_cases inRange : exponent + 1 ≤ greatestExponent
      · obtain ⟨magnitude, made, units⟩ :=
          exists_of_ofParts? ⟨by decide, inRange, .inl (Nat.le_refl 0x10000000000000)⟩
        refine .inl ⟨magnitude, made, ?_⟩
        rw [units, carried]
        ring
      · refine .inr ⟨ofParts?_eq_none (Nat.lt_of_not_le inRange) _, ?_⟩
        rw [carried]
        exact Nat.mul_le_mul_left _ (Nat.pow_le_pow_right Nat.two_pos (by omega))
  · next notCarried =>
      have fits : steps < 0x20000000000000 := Nat.lt_of_le_of_ne bits notCarried
      have canonical : 0x10000000000000 ≤ steps ∨ exponent = 0 := by
        rcases Nat.eq_zero_or_pos exponent with least | coarse
        · exact .inr least
        · exact .inl (leading coarse)
      by_cases inRange : exponent ≤ greatestExponent
      · obtain ⟨magnitude, made, units⟩ := exists_of_ofParts? ⟨fits, inRange, canonical⟩
        exact .inl ⟨magnitude, made, units⟩
      · refine .inr ⟨ofParts?_eq_none (Nat.lt_of_not_le inRange) _, ?_⟩
        have long : 2 ^ 52 ≤ steps := leading (by omega)
        have steep : 2 ^ (greatestExponent + 1) ≤ 2 ^ exponent :=
          Nat.pow_le_pow_right Nat.two_pos (by omega)
        calc 2 ^ 53 * 2 ^ greatestExponent
            = 2 ^ 52 * 2 ^ (greatestExponent + 1) := by ring
          _ ≤ steps * 2 ^ exponent := Nat.mul_le_mul long steep

end Magnitude

/-! ## Values -/

namespace Binary64

open Magnitude

theorem unitsPerOne_pos :
    0 < unitsPerOne :=
  Magnitude.shifted_pos Nat.one_pos 1074

/-- One half has this binary logarithm in units. -/
@[irreducible] def halfPlaces : Nat :=
  1073

theorem halfPlaces_eq :
    halfPlaces = 1073 := by
  rw [halfPlaces]

theorem unitsPerOne_eq :
    unitsPerOne = 2 ^ (halfPlaces + 1) := by
  have places : 1074 = halfPlaces + 1 := by
    rw [halfPlaces_eq]
  rw [unitsPerOne, places, Nat.one_shiftLeft]

theorem halfPlaces_large :
    53 ≤ halfPlaces ∧ halfPlaces + 3 ≤ greatestExponent := by
  rw [halfPlaces_eq, greatestExponent_eq]
  decide

/-- A quotient is rounded to its sign and its rounded units, or overflows with its sign. -/
theorem ofUnits_cases
    (negative : Bool)
    (numerator denominator : Nat) :
    (∃ magnitude,
        ofUnits negative numerator denominator = .finite negative magnitude ∧
          magnitude.units = roundedUnits numerator denominator) ∨
      ofUnits negative numerator denominator = .infinity negative ∧
        limit ≤ roundedUnits numerator denominator := by
  unfold ofUnits
  rcases nearest?_cases numerator denominator with ⟨magnitude, found, units⟩ | ⟨missing, beyond⟩
  · rw [found]
    exact .inl ⟨magnitude, rfl, units⟩
  · rw [missing]
    exact .inr ⟨rfl, beyond⟩

/-- Rounded units below the limit are those of a finite value. -/
theorem exists_ofUnits_eq_finite
    {numerator denominator : Nat}
    (inRange : roundedUnits numerator denominator < limit)
    (negative : Bool) :
    ∃ magnitude,
      ofUnits negative numerator denominator = .finite negative magnitude ∧
        magnitude.units = roundedUnits numerator denominator :=
  (ofUnits_cases negative numerator denominator).resolve_right
    fun overflows => Nat.not_le_of_lt inRange overflows.2

/-- A power of two units within range is kept. -/
theorem exists_ofUnits_two_pow
    {places denominator : Nat}
    (positive : 0 < denominator)
    (inRange : places < 53 + greatestExponent) :
    ∃ magnitude,
      ofUnits false (2 ^ places * denominator) denominator = .finite false magnitude ∧
        magnitude.units = 2 ^ places := by
  have kept := roundedUnits_shiftLeft positive (by decide : 1 ≤ 2 ^ 53) places
  rw [Nat.one_shiftLeft] at kept
  have below : roundedUnits (2 ^ places * denominator) denominator < limit := by
    rw [kept]
    exact Nat.pow_lt_pow_right (by decide) inRange
  obtain ⟨magnitude, made, units⟩ := exists_ofUnits_eq_finite below false
  exact ⟨magnitude, made, units.trans kept⟩

/-- One has the units of one. -/
theorem exists_one_eq :
    ∃ magnitude, one = .finite false magnitude ∧ magnitude.units = unitsPerOne := by
  have places := halfPlaces_large.2
  have written : one = ofUnits false (2 ^ (halfPlaces + 1) * 1) 1 := by
    rw [one, ofNat, Nat.one_mul, Nat.mul_one, unitsPerOne_eq]
  rw [written, unitsPerOne_eq]
  exact exists_ofUnits_two_pow Nat.one_pos (by omega)

/-- One half has half the units of one. -/
theorem exists_half_eq :
    ∃ magnitude, half = .finite false magnitude ∧ magnitude.units = 2 ^ halfPlaces := by
  have places := halfPlaces_large.2
  have written : half = ofUnits false (2 ^ halfPlaces * 2) 2 := by
    rw [half, ← Nat.pow_succ, unitsPerOne_eq]
  rw [written]
  exact exists_ofUnits_two_pow Nat.two_pos (by omega)

/-- The exact value of a finite number in terms of its units. -/
theorem toRat?_finite
    (negative : Bool)
    (magnitude : Magnitude) :
    (finite negative magnitude).toRat? =
      some ((signedUnits negative magnitude : ℚ) / (unitsPerOne : ℚ)) := by
  cases negative with
  | false =>
      simp [toRat?, signedUnits, Rat.mkRat_eq_div]
  | true =>
      simp [toRat?, signedUnits, Rat.mkRat_eq_div, neg_div]

/-- A value with an exact value is finite. -/
theorem exists_finite_of_toRat?
    {value : Binary64}
    {exact : ℚ}
    (has : value.toRat? = some exact) :
    ∃ negative magnitude,
      value = .finite negative magnitude ∧
        exact = (signedUnits negative magnitude : ℚ) / (unitsPerOne : ℚ) := by
  cases value with
  | finite negative magnitude =>
      rw [toRat?_finite] at has
      exact ⟨negative, magnitude, rfl, (Option.some.inj has).symm⟩
  | _ =>
      cases has

/-- The rounding of an integer number of units. -/
def roundedSum (sum : ℤ) : ℤ :=
  if sum < 0 then -(roundedUnits sum.natAbs 1 : ℤ) else roundedUnits sum.natAbs 1

/-- A sum of finite values is their exact sum, rounded once. -/
theorem exists_add_eq_finite
    {left right : Bool}
    {leftSize rightSize : Magnitude}
    (inRange :
      roundedUnits (signedUnits left leftSize + signedUnits right rightSize).natAbs 1 < limit) :
    ∃ negative magnitude,
      add (.finite left leftSize) (.finite right rightSize) = .finite negative magnitude ∧
        signedUnits negative magnitude =
          roundedSum (signedUnits left leftSize + signedUnits right rightSize) := by
  unfold add roundedSum
  simp only
  generalize signedUnits left leftSize + signedUnits right rightSize = sum at inRange ⊢
  split
  · next zero =>
      refine ⟨left && right, Magnitude.zero, rfl, ?_⟩
      rw [zero, Int.natAbs_zero, if_neg (by decide)]
      have kept := Magnitude.roundedUnits_units Nat.one_pos Magnitude.zero
      rw [show Magnitude.zero.units = 0 from rfl, Nat.zero_mul] at kept
      rw [kept]
      cases (left && right) <;> rfl
  · obtain ⟨magnitude, made, units⟩ :=
      exists_ofUnits_eq_finite inRange (sum < 0)
    refine ⟨_, magnitude, made, ?_⟩
    by_cases below : sum < 0 <;> simp [signedUnits, below, units]

end Binary64

end Reckoner
