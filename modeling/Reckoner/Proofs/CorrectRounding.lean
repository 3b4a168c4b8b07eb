import Mathlib.Analysis.SpecialFunctions.Pow.Real
import Reckoner.Binary64.Elementary
import Reckoner.Proofs.EnclosureSoundness
import Reckoner.Proofs.Rounding

/-!
# Correctly rounded powers

A real number is rounded by rounding a rational number below it and one above it
to the same value. Brackets come from enclosures, so what is rounded from brackets
is the number that the enclosures bound. A power that is found is the exact power
rounded, whether it was recognised as exact, cut off beyond the range of values, or
bracketed through its logarithm.
-/

namespace Reckoner

/-! ## Roundings of rational numbers -/

namespace Binary64

open Magnitude

/-- The rounded number of units of a rational number's size. -/
def unitsOf (value : ℚ) : Nat :=
  roundedUnits (value.num.natAbs * unitsPerOne) value.den

theorem unitsPerOne_pos_rat :
    (0 : ℚ) < unitsPerOne := by
  exact_mod_cast unitsPerOne_pos

/-- The size of a nonnegative rational number as a quotient. -/
theorem natAbs_div_den
    {value : ℚ}
    (nonnegative : 0 ≤ value) :
    (value.num.natAbs : ℚ) / value.den = value := by
  rw [Nat.cast_natAbs, abs_of_nonneg (Rat.num_nonneg.mpr nonnegative), Rat.num_div_den]

/-- Greater numbers are not rounded to fewer units. -/
theorem unitsOf_mono
    {first second : ℚ}
    (nonnegative : 0 ≤ first)
    (ordered : first ≤ second) :
    unitsOf first ≤ unitsOf second := by
  apply roundedUnits_mono first.den_pos second.den_pos
  have quotients : (first.num.natAbs : ℚ) / first.den ≤ (second.num.natAbs : ℚ) / second.den := by
    rwa [natAbs_div_den nonnegative, natAbs_div_den (nonnegative.trans ordered)]
  have firstPositive : (0 : ℚ) < first.den := by exact_mod_cast first.den_pos
  have secondPositive : (0 : ℚ) < second.den := by exact_mod_cast second.den_pos
  rw [div_le_div_iff₀ firstPositive secondPositive] at quotients
  have products : first.num.natAbs * second.den ≤ second.num.natAbs * first.den := by
    exact_mod_cast quotients
  calc first.num.natAbs * unitsPerOne * second.den
      = first.num.natAbs * second.den * unitsPerOne := by ring
    _ ≤ second.num.natAbs * first.den * unitsPerOne := Nat.mul_le_mul_right _ products
    _ = second.num.natAbs * unitsPerOne * first.den := by ring

/-- Numbers of units that lie on their own grid are kept. -/
theorem unitsOf_div
    {significand : Nat}
    (bits : significand ≤ 2 ^ 53)
    (exponent : Nat) :
    unitsOf (((significand * 2 ^ exponent : Nat) : ℚ) / unitsPerOne) = significand * 2 ^ exponent := by
  have nonnegative : 0 ≤ ((significand * 2 ^ exponent : Nat) : ℚ) / unitsPerOne := by positivity
  generalize equal : ((significand * 2 ^ exponent : Nat) : ℚ) / unitsPerOne = value at nonnegative ⊢
  have positive : (0 : ℚ) < value.den := by exact_mod_cast value.den_pos
  have product :
      value.num.natAbs * unitsPerOne = significand <<< exponent * value.den := by
    rw [← natAbs_div_den nonnegative, div_eq_div_iff unitsPerOne_pos_rat.ne' positive.ne'] at equal
    rw [Nat.shiftLeft_eq]
    exact_mod_cast equal.symm
  rw [unitsOf, product, roundedUnits_shiftLeft value.den_pos bits, Nat.shiftLeft_eq]

/-- A nonnegative number is rounded to its rounded units, or overflows. -/
theorem ofRat_cases
    {value : ℚ}
    (nonnegative : 0 ≤ value) :
    (∃ magnitude, ofRat value = .finite false magnitude ∧ magnitude.units = unitsOf value) ∨
      ofRat value = .infinity false ∧ limit ≤ unitsOf value := by
  have sign : decide (value.num < 0) = false := by
    simpa using nonnegative
  have rounds := ofUnits_cases false (value.num.natAbs * unitsPerOne) value.den
  rw [ofRat, sign]
  exact rounds

/-- Numbers beyond the range of magnitudes overflow. -/
theorem ofRat_of_large
    {value : ℚ}
    (large : limit / unitsPerOne ≤ value) :
    ofRat value = .infinity false := by
  have nonnegative : (0 : ℚ) ≤ limit / unitsPerOne := by positivity
  have kept := unitsOf_div (by decide : 1 ≤ 2 ^ 53) (53 + greatestExponent)
  rw [Nat.one_mul, ← limit] at kept
  have beyond : limit ≤ unitsOf value := by
    rw [← kept]
    exact unitsOf_mono nonnegative large
  rcases ofRat_cases (nonnegative.trans large) with ⟨magnitude, -, units⟩ | ⟨overflows, -⟩
  · exact absurd magnitude.units_lt (Nat.not_lt.mpr (units ▸ beyond))
  · exact overflows

/-- Nonnegative numbers of less than half a unit are rounded to zero. -/
theorem ofRat_of_small
    {value : ℚ}
    (nonnegative : 0 ≤ value)
    (small : value < 1 / (2 * unitsPerOne)) :
    ofRat value = zero := by
  have positive : (0 : ℚ) < value.den := by exact_mod_cast value.den_pos
  have few : 2 * (value.num.natAbs * unitsPerOne) < value.den := by
    rw [← natAbs_div_den nonnegative,
      div_lt_div_iff₀ positive (mul_pos two_pos unitsPerOne_pos_rat)] at small
    have cast : value.num.natAbs * (2 * unitsPerOne) < 1 * value.den := by exact_mod_cast small
    linarith
  have none : unitsOf value = 0 := by
    have grid : gridExponent (value.num.natAbs * unitsPerOne) value.den = 0 := by
      rw [gridExponent, Nat.div_eq_of_lt (by omega)]
      rfl
    have error := (roundedUnits_error value.den_pos (value.num.natAbs * unitsPerOne)).1
    rw [← unitsOf, grid] at error
    by_contra nonzero
    have more : 1 * value.den ≤ unitsOf value * value.den :=
      Nat.mul_le_mul_right _ (Nat.pos_of_ne_zero nonzero)
    omega
  rcases ofRat_cases nonnegative with ⟨magnitude, rounds, units⟩ | ⟨-, beyond⟩
  · rw [none, units_eq, Nat.mul_eq_zero] at units
    rw [rounds, eq_zero_of_significand_eq_zero (units.resolve_right (Nat.two_pow_pos _).ne')]
    rfl
  · rw [none] at beyond
    exact absurd beyond (Nat.not_le.mpr (Nat.two_pow_pos _))

/-! ## Roundings of real numbers -/

/-- A real number between two rational numbers that are rounded to the same value. -/
def RoundsTo (exact : ℝ) (value : Binary64) : Prop :=
  ∃ lower upper : ℚ,
    lower ≤ exact ∧ exact ≤ upper ∧ ofRat lower = value ∧ ofRat upper = value

theorem roundsTo_ofRat
    (exact : ℚ) :
    RoundsTo exact (ofRat exact) :=
  ⟨exact, exact, le_rfl, le_rfl, rfl, rfl⟩

/-- A large real number is rounded like every greater one. -/
theorem RoundsTo.of_large
    {exact greater : ℝ}
    {value : Binary64}
    (rounds : RoundsTo exact value)
    (large : (limit : ℝ) / unitsPerOne ≤ exact)
    (ordered : exact ≤ greater) :
    RoundsTo greater value := by
  obtain ⟨lower, upper, above, below, lowerRounds, upperRounds⟩ := rounds
  obtain ⟨more, greaterBelow⟩ := exists_rat_gt (max greater upper)
  have beyond : (((limit / unitsPerOne : ℚ)) : ℝ) ≤ exact := by
    push_cast
    exact large
  have upperLarge : (limit : ℚ) / unitsPerOne ≤ upper :=
    Rat.cast_le.mp (beyond.trans below)
  have moreLarge : (limit : ℚ) / unitsPerOne ≤ more :=
    Rat.cast_le.mp (beyond.trans (ordered.trans ((le_max_left _ _).trans greaterBelow.le)))
  refine ⟨lower, more, above.trans ordered, (le_max_left _ _).trans greaterBelow.le,
    lowerRounds, ?_⟩
  rw [← upperRounds, ofRat_of_large moreLarge, ofRat_of_large upperLarge]

/-- The value that a number is rounded to is negative exactly if the number is. -/
theorem isNegative_ofRat
    (exact : ℚ) :
    (ofRat exact).isNegative = decide (exact < 0) := by
  rw [ofRat, isNegative_ofUnits]
  simp

/-- Numbers that are rounded to the same value do not differ in sign. -/
theorem nonneg_of_ofRat_eq
    {exact other : ℚ}
    (same : ofRat exact = ofRat other)
    (nonnegative : 0 ≤ other) :
    0 ≤ exact := by
  have signs :=
    (isNegative_ofRat exact).symm.trans ((congrArg isNegative same).trans (isNegative_ofRat other))
  simpa [not_lt.mpr nonnegative] using signs

/-- A small positive real number is rounded like every smaller one. -/
theorem RoundsTo.of_small
    {exact smaller : ℝ}
    {value : Binary64}
    (rounds : RoundsTo exact value)
    (small : exact < 1 / (2 * unitsPerOne))
    (nonnegative : 0 ≤ smaller)
    (ordered : smaller ≤ exact) :
    RoundsTo smaller value := by
  obtain ⟨lower, upper, above, below, lowerRounds, upperRounds⟩ := rounds
  have upperNonnegative : 0 ≤ upper := by
    have cast := (nonnegative.trans ordered).trans below
    exact_mod_cast cast
  have lowerNonnegative :=
    nonneg_of_ofRat_eq (lowerRounds.trans upperRounds.symm) upperNonnegative
  have lowerSmall : lower < 1 / (2 * unitsPerOne) := by
    have cast : (lower : ℝ) < ((1 / (2 * unitsPerOne) : ℚ) : ℝ) := by
      push_cast
      exact above.trans_lt small
    exact Rat.cast_lt.mp cast
  have zeroSmall : (0 : ℚ) < 1 / (2 * unitsPerOne) :=
    lowerNonnegative.trans_lt lowerSmall
  refine ⟨0, upper, by exact_mod_cast nonnegative, ordered.trans below, ?_, upperRounds⟩
  rw [← lowerRounds, ofRat_of_small le_rfl zeroSmall, ofRat_of_small lowerNonnegative lowerSmall]

end Binary64

/-! ## Brackets -/

/-- A scaled integer is the product with a power of two. -/
theorem cast_scaledByTwo
    (number shift : ℤ) :
    (scaledByTwo number shift : ℝ) = number * 2 ^ shift := by
  rw [scaledByTwo, Rat.mkRat_eq_div]
  simp only [Nat.one_shiftLeft]
  push_cast
  rcases le_total 0 shift with nonnegative | nonpositive
  · obtain ⟨count, rfl⟩ := Int.eq_ofNat_of_zero_le nonnegative
    simp
  · obtain ⟨count, same⟩ := Int.eq_ofNat_of_zero_le (Int.neg_nonneg.mpr nonpositive)
    obtain rfl : shift = -count := by omega
    simp [div_eq_mul_inv]

/-- A real number lies within a bracket. -/
structure Bracket.Holds (bracket : Bracket) (exact : ℝ) : Prop where
  lower : bracket.lower ≤ exact
  upper : exact ≤ bracket.upper

namespace Enclosure

variable
  {places : Nat}

/-- The bracket of an enclosure holds the number, times the power of two. -/
theorem Encloses.toBracket
    {value : Enclosure places}
    {exact : ℝ}
    (encloses : value.Encloses exact)
    (shift : ℤ) :
    (value.toBracket shift).Holds (exact * 2 ^ shift) := by
  have scale : (steps places : ℝ) = 2 ^ places := by
    rw [steps, Nat.one_shiftLeft]
    push_cast
    rfl
  have arranged :
      exact * 2 ^ shift = exact * steps places * 2 ^ (shift - places) := by
    rw [scale, zpow_sub₀ two_ne_zero, zpow_natCast]
    field_simp
  constructor
  · rw [arranged, Enclosure.toBracket, cast_scaledByTwo]
    exact mul_le_mul_of_nonneg_right encloses.lower (by positivity)
  · rw [arranged, Enclosure.toBracket, cast_scaledByTwo]
    exact mul_le_mul_of_nonneg_right encloses.upper (by positivity)

/-- An exponential is bracketed, of an argument moved into the range from -800 to 800. -/
theorem Encloses.exp?
    {argument : Enclosure places}
    {x : ℝ}
    (encloses : argument.Encloses x)
    {bracket : Bracket}
    (found : argument.exp? = some bracket) :
    bracket.Holds (Real.exp (max (-800) (min 800 x))) := by
  have moved := encloses.clamp (-800) 800
  push_cast at moved
  unfold Enclosure.exp? at found
  simp only at found
  generalize Int.fdiv _ _ = power at found
  have reduced := moved.sub (encloses_logTwo.scale power)
  split at found
  · next inRange =>
      obtain ⟨above, below⟩ := reduced.within inRange
      push_cast at above below
      obtain rfl := Option.some.inj found
      have holds := (reduced.expSeries (abs_le.mpr ⟨above, below⟩)).toBracket power
      have exponential :
          Real.exp (max (-800) (min 800 x) - power * Real.log 2) * 2 ^ power =
            Real.exp (max (-800) (min 800 x)) := by
        rw [Real.exp_sub, ← Real.log_zpow, Real.exp_log (by positivity)]
        field_simp
      rwa [exponential] at holds
  · cases found

end Enclosure

namespace Magnitude

open Enclosure

/-- A fraction of a power of two as that power and an inverse hyperbolic tangent. -/
theorem log_eq_artanh
    {leading units : ℝ}
    (positive : 0 < leading)
    (least : leading ≤ units) :
    Real.log units =
      Real.log leading + 2 * Real.artanh ((units - leading) / (units + leading)) := by
  have sum : 0 < units + leading := by linarith
  have small : (units - leading) / (units + leading) ≤ 1 := by
    rw [div_le_one sum]
    linarith
  have nonnegative : 0 ≤ (units - leading) / (units + leading) :=
    div_nonneg (by linarith) sum.le
  have quotient :
      (1 + (units - leading) / (units + leading)) / (1 - (units - leading) / (units + leading)) =
        units / leading := by
    have above :
        1 + (units - leading) / (units + leading) = 2 * units / (units + leading) := by
      field_simp
      ring
    have below :
        1 - (units - leading) / (units + leading) = 2 * leading / (units + leading) := by
      field_simp
      ring
    rw [above, below, div_div_div_cancel_right₀ sum.ne', mul_div_mul_left _ _ two_ne_zero]
  rw [Real.artanh_eq_half_log ⟨by linarith, small⟩, quotient,
    Real.log_div (by linarith) positive.ne']
  ring

/-- The logarithm of a magnitude is enclosed. -/
theorem encloses_log
    {magnitude : Magnitude}
    (nonzero : magnitude.units ≠ 0)
    (places : Nat) :
    (magnitude.log places).Encloses
      (Real.log ((magnitude.units : ℝ) / Binary64.unitsPerOne)) := by
  have least : 2 ^ magnitude.units.log2 ≤ magnitude.units := Nat.log2_self_le nonzero
  have less : magnitude.units < 2 ^ magnitude.units.log2 * 2 := by
    rw [← Nat.pow_succ]
    exact Nat.lt_log2_self
  unfold Magnitude.log Magnitude.leadingPower
  simp only [Nat.one_shiftLeft]
  generalize magnitude.units.log2 = exponent at least less ⊢
  generalize magnitude.units = units at nonzero least less ⊢
  have positive : 0 < 2 ^ exponent := Nat.two_pow_pos exponent
  have ratio :
      (ofFraction (units - 2 ^ exponent : Nat) (units + 2 ^ exponent) :
        Enclosure places).Encloses _ :=
    encloses_ofFraction _ (by omega)
  have small :
      |(((units - 2 ^ exponent : Nat) : ℤ) : ℝ) / ((units + 2 ^ exponent : Nat) : ℝ)| ≤ 1 / 2 := by
    rw [Int.cast_natCast, abs_of_nonneg (by positivity), div_le_div_iff₀ (by positivity) two_pos]
    norm_cast
    omega
  have encloses :=
    (encloses_logTwo.scale ((exponent : ℤ) - 1074)).add ((ratio.artanhSeries small).scale 2)
  have value :
      Real.log ((units : ℝ) / Binary64.unitsPerOne) =
        (((exponent : ℤ) - 1074 : ℤ) : ℝ) * Real.log 2 +
          ((2 : ℤ) : ℝ) * Real.artanh ((((units - 2 ^ exponent : Nat) : ℤ) : ℝ) /
            ((units + 2 ^ exponent : Nat) : ℝ)) := by
    have nonzeroReal : (units : ℝ) ≠ 0 := by exact_mod_cast nonzero
    have unitsReal : (Binary64.unitsPerOne : ℝ) ≠ 0 := by
      exact_mod_cast Binary64.unitsPerOne_pos.ne'
    rw [Real.log_div nonzeroReal unitsReal,
      log_eq_artanh (by positivity : (0 : ℝ) < 2 ^ exponent) (by exact_mod_cast least)]
    have one : Real.log Binary64.unitsPerOne = 1074 * Real.log 2 := by
      rw [Binary64.unitsPerOne_eq, Nat.cast_pow, Real.log_pow, Binary64.halfPlaces_eq]
      norm_num
    rw [one]
    push_cast [least]
    rw [Real.log_pow]
    ring
  rwa [value]

end Magnitude

namespace Binary64

open Magnitude

/-- Rounding from brackets fails, or both bounds of some bracket are rounded to the result. -/
theorem ofBrackets_cases
    (bracket? : Nat → Option Bracket)
    (attempts places : Nat) :
    ofBrackets bracket? attempts places = .nan ∨
      ∃ reached bracket,
        bracket? reached = some bracket ∧
          ofRat bracket.lower = ofBrackets bracket? attempts places ∧
          ofRat bracket.upper = ofBrackets bracket? attempts places := by
  induction attempts generalizing places with
  | zero =>
      exact .inl rfl
  | succ attempts inductionHypothesis =>
      rw [ofBrackets]
      cases found : bracket? places with
      | none =>
          exact inductionHypothesis (2 * places)
      | some bracket =>
          simp only
          split
          · next same =>
              exact .inr ⟨places, bracket, found, rfl, same.symm⟩
          · exact inductionHypothesis (2 * places)

/-- Rounding from brackets that hold a number fails or rounds that number. -/
theorem roundsTo_ofBrackets
    {bracket? : Nat → Option Bracket}
    {exact : ℝ}
    (holds : ∀ places bracket, bracket? places = some bracket → bracket.Holds exact)
    (attempts places : Nat) :
    ofBrackets bracket? attempts places = .nan ∨
      RoundsTo exact (ofBrackets bracket? attempts places) := by
  rcases ofBrackets_cases bracket? attempts places with
    failed | ⟨reached, bracket, found, lower, upper⟩
  · exact .inl failed
  · have within := holds reached bracket found
    exact .inr ⟨bracket.lower, bracket.upper, within.lower, within.upper, lower, upper⟩

/-! ## Powers -/

theorem cast_unitsPerOne :
    (unitsPerOne : ℝ) = 2 ^ 1074 := by
  rw [unitsPerOne_eq, Nat.cast_pow, Nat.cast_ofNat, halfPlaces_eq]

/-- Values stay below this power of two. -/
theorem limit_div_unitsPerOne :
    (limit : ℝ) / unitsPerOne = 2 ^ 1024 := by
  have split : 53 + greatestExponent = 1024 + 1074 := by
    rw [greatestExponent_eq]
  rw [limit, cast_unitsPerOne, split, Nat.cast_pow, Nat.cast_ofNat, pow_add,
    mul_div_cancel_right₀]
  positivity

/-- A power of two is rounded like one that is cut off far beyond the range of values. -/
theorem roundsTo_scaledByTwo
    (total : ℤ) :
    RoundsTo ((2 : ℝ) ^ total) (ofRat (scaledByTwo 1 (max (-1200) (min 1200 total)))) := by
  have cutOff := roundsTo_ofRat (scaledByTwo 1 (max (-1200) (min 1200 total)))
  rw [cast_scaledByTwo, Int.cast_one, one_mul] at cutOff
  rcases lt_or_ge 1200 total with above | notAbove
  · rw [min_eq_left above.le, max_eq_right (by decide)] at cutOff ⊢
    refine cutOff.of_large ?_ (zpow_le_zpow_right₀ one_le_two above.le)
    rw [limit_div_unitsPerOne, ← zpow_natCast]
    exact zpow_le_zpow_right₀ one_le_two (by decide)
  · rw [min_eq_right notAbove] at cutOff ⊢
    rcases lt_or_ge total (-1200) with below | notBelow
    · rw [max_eq_left below.le] at cutOff ⊢
      refine cutOff.of_small ?_ (by positivity) (zpow_le_zpow_right₀ one_le_two below.le)
      rw [cast_unitsPerOne, one_div, ← pow_succ', ← zpow_natCast, ← zpow_neg]
      exact zpow_lt_zpow_right₀ one_lt_two (by decide)
    · rwa [max_eq_right notBelow] at cutOff ⊢

/-- Successive exact square roots are roots. -/
theorem pow_of_exactRoots?
    {count odd root : Nat}
    {power rootPower : ℤ}
    (found : exactRoots? count odd power = some (root, rootPower)) :
    ((root : ℝ) * 2 ^ rootPower) ^ 2 ^ count = odd * 2 ^ power := by
  induction count generalizing odd power with
  | zero =>
      cases found
      simp
  | succ count inductionHypothesis =>
      simp only [exactRoots?] at found
      split at found
      · next exact =>
          obtain ⟨square, even⟩ := exact
          have halves : power / 2 + power / 2 = power := by
            omega
          rw [pow_succ, pow_mul, inductionHypothesis found, sq, mul_mul_mul_comm,
            ← zpow_add₀ two_ne_zero, halves]
          exact_mod_cast congrArg (fun odd : Nat => (odd : ℝ) * 2 ^ power) square
      · cases found

/-- A common divisor with a power of two is a power of two. -/
theorem gcd_eq_two_pow
    (number exponent : Nat) :
    Nat.gcd number (1 <<< exponent) = 2 ^ (Nat.gcd number (1 <<< exponent)).log2 := by
  have divides := Nat.gcd_dvd_right number (1 <<< exponent)
  rw [Nat.one_shiftLeft] at divides ⊢
  obtain ⟨power, -, equal⟩ := (Nat.dvd_prime_pow Nat.prime_two).mp divides
  rw [equal, Nat.log2_two_pow]

/-- A power of a repeated root, where the exponent undoes all of the roots. -/
theorem rpow_pow_two_pow
    {root : ℝ}
    (nonnegative : 0 ≤ root)
    {fewer places : Nat}
    (ordered : fewer ≤ places)
    (count : ℤ) :
    (root ^ 2 ^ (places - fewer)) ^ ((count * 2 ^ fewer : ℝ) / 2 ^ places) = root ^ count := by
  obtain ⟨more, rfl⟩ := Nat.exists_eq_add_of_le' ordered
  rw [Nat.add_sub_cancel, ← Real.rpow_natCast, ← Real.rpow_mul nonnegative, ← Real.rpow_intCast]
  congr 1
  push_cast
  field_simp
  ring

/-- A count with a sign. -/
def signedCount (negative : Bool) (count : Nat) : ℤ :=
  if negative then -count else count

/-- Units with a power of two taken out are that power of as many units with a sign. -/
theorem signedUnits_of_units_eq
    {magnitude : Magnitude}
    {twos count : Nat}
    (units : magnitude.units = 2 ^ twos * count)
    (negative : Bool) :
    signedUnits negative magnitude = signedCount negative count * 2 ^ twos := by
  rw [signedUnits, signedCount, units]
  cases negative <;> push_cast <;> simp [mul_comm]

/-- A size with a power of two taken out. -/
theorem cast_mul_div_unitsPerOne
    (twos odd : Nat) :
    ((2 ^ twos * odd : Nat) : ℝ) / unitsPerOne = odd * 2 ^ ((twos : ℤ) - 1074) := by
  rw [cast_unitsPerOne, zpow_sub₀ two_ne_zero, zpow_natCast, zpow_ofNat, Nat.cast_mul,
    Nat.cast_pow, Nat.cast_ofNat, mul_comm, mul_div_assoc]

/--
A power that is recognised as exact is an integer power of a number that the base is
a repeated square of, with a root of one or with a positive exponent.
-/
theorem exists_root_of_exactPower?
    {base exponent : Magnitude}
    {negative : Bool}
    {power : ℚ}
    (found : exactPower? base negative exponent = some power) :
    ∃ (root count : Nat) (rootPower : ℤ),
      (base.units / unitsPerOne : ℝ) ^ (signedUnits negative exponent / unitsPerOne : ℝ) =
          ((root : ℝ) * 2 ^ rootPower) ^ signedCount negative count ∧
        (root = 1 ∧
            power = scaledByTwo 1 (max (-1200) (min 1200
              (rootPower * signedCount negative count))) ∨
          negative = false ∧ power = scaledByTwo (root ^ count : Nat) (rootPower * count)) := by
  have whole_eq :
      Nat.gcd exponent.units unitsPerOne =
        2 ^ (Nat.gcd exponent.units unitsPerOne).log2 :=
    gcd_eq_two_pow exponent.units 1074
  have twos_eq := gcd_eq_two_pow base.units 2100
  have whole_dvd := Nat.gcd_dvd_left exponent.units unitsPerOne
  have whole_le := Nat.gcd_dvd_right exponent.units unitsPerOne
  have twos_dvd := Nat.gcd_dvd_left base.units (1 <<< 2100)
  unfold exactPower? at found
  simp only [Option.bind_eq_bind] at found
  obtain ⟨⟨root, rootPower⟩, roots, rest⟩ := Option.bind_eq_some_iff.mp found
  simp only at rest
  have exactly := pow_of_exactRoots? roots
  -- Both divisors are replaced by powers of two, so that the divisions can be carried out.
  clear found roots
  generalize Nat.gcd exponent.units unitsPerOne = whole at *
  generalize Nat.gcd base.units (1 <<< 2100) = twos at *
  generalize whole.log2 = fewer at *
  generalize twos.log2 = evens at *
  subst whole_eq twos_eq
  obtain ⟨count, units⟩ := whole_dvd
  obtain ⟨odd, baseUnits⟩ := twos_dvd
  have positive : (0 : ℤ) < 2 ^ fewer := by positivity
  have signed := signedUnits_of_units_eq units negative
  have ordered : fewer ≤ 1074 := by
    rw [unitsPerOne_eq, Nat.pow_dvd_pow_iff_le_right (by decide), halfPlaces_eq] at whole_le
    exact whole_le
  rw [units, Nat.mul_div_cancel_left _ (Nat.two_pow_pos fewer), signed, ← mul_assoc,
    Nat.cast_pow, Nat.cast_ofNat, Int.mul_ediv_cancel _ positive.ne'] at rest
  rw [baseUnits, Nat.mul_div_cancel_left _ (Nat.two_pow_pos evens)] at exactly
  refine ⟨root, count, rootPower, ?_, ?_⟩
  · have baseValue :
        (base.units : ℝ) / unitsPerOne = ((root : ℝ) * 2 ^ rootPower) ^ 2 ^ (1074 - fewer) := by
      rw [exactly, baseUnits, cast_mul_div_unitsPerOne]
    have exponentValue :
        (signedUnits negative exponent : ℝ) / unitsPerOne =
          (signedCount negative count * 2 ^ fewer : ℝ) / 2 ^ 1074 := by
      rw [signed, cast_unitsPerOne]
      push_cast
      rfl
    rw [baseValue, exponentValue, rpow_pow_two_pow (by positivity) ordered]
  · split at rest
    · next rootIsOne =>
        exact .inl ⟨rootIsOne, (Option.some.inj rest).symm⟩
    · split at rest
      · next short =>
          simp only [Bool.and_eq_true, Bool.not_eq_true', decide_eq_true_eq] at short
          exact .inr ⟨short.1, (Option.some.inj rest).symm⟩
      · cases rest

/-- The exponential of 800 is beyond the range of values. -/
theorem large_exp :
    (limit : ℝ) / unitsPerOne ≤ Real.exp 800 := by
  have bound := Real.log_two_lt_d9
  rw [limit_div_unitsPerOne, ← Real.log_le_iff_le_exp (by positivity), Real.log_pow]
  push_cast
  linarith

/-- The exponential of -800 is less than half a unit. -/
theorem small_exp :
    Real.exp (-800) < 1 / (2 * unitsPerOne) := by
  have bound := Real.log_two_lt_d9
  rw [cast_unitsPerOne, ← pow_succ', one_div, ← Real.lt_log_iff_exp_lt (by positivity),
    Real.log_inv, Real.log_pow]
  push_cast
  linarith

/-- An exponential is rounded like that of its argument moved into the range from -800 to 800. -/
theorem RoundsTo.exp
    {x : ℝ}
    {value : Binary64}
    (rounds : RoundsTo (Real.exp (max (-800) (min 800 x))) value) :
    RoundsTo (Real.exp x) value := by
  rcases le_total 800 x with above | notAbove
  · rw [min_eq_left above, max_eq_right (by norm_num)] at rounds
    exact rounds.of_large large_exp (Real.exp_le_exp.mpr above)
  · rw [min_eq_right notAbove] at rounds
    rcases le_total x (-800) with below | notBelow
    · rw [max_eq_left below] at rounds
      exact rounds.of_small small_exp (Real.exp_pos x).le (Real.exp_le_exp.mpr below)
    · rwa [max_eq_right notBelow] at rounds

/-- A power of a magnitude is not found, or the exact power rounded. -/
theorem powMagnitude_cases
    {base : Magnitude}
    (nonzero : base.units ≠ 0)
    (negative : Bool)
    (exponent : Magnitude) :
    powMagnitude base negative exponent = .nan ∨
      RoundsTo
        ((base.units / unitsPerOne : ℝ) ^ (signedUnits negative exponent / unitsPerOne : ℝ))
        (powMagnitude base negative exponent) := by
  unfold powMagnitude
  split
  · next power found =>
      right
      obtain ⟨root, count, rootPower, value, ⟨rfl, rfl⟩ | ⟨rfl, rfl⟩⟩ :=
        exists_root_of_exactPower? found
      · rw [value, Nat.cast_one, one_mul, ← zpow_mul]
        exact roundsTo_scaledByTwo _
      · have cast :
            ((root : ℝ) * 2 ^ rootPower) ^ signedCount false count =
              (scaledByTwo (root ^ count : Nat) (rootPower * count) : ℝ) := by
          rw [cast_scaledByTwo, signedCount, if_neg (by decide), mul_zpow, ← zpow_mul,
            zpow_natCast]
          push_cast
          rfl
        rw [value, cast]
        exact roundsTo_ofRat _
  · simp only
    have basePositive : (0 : ℝ) < base.units / unitsPerOne :=
      div_pos (Nat.cast_pos.mpr (Nat.pos_of_ne_zero nonzero)) (Nat.cast_pos.mpr unitsPerOne_pos)
    generalize factor_eq : mkRat (signedUnits negative exponent) unitsPerOne = factor
    have quotient : (factor.num : ℝ) / factor.den = signedUnits negative exponent / unitsPerOne := by
      rw [← Rat.cast_def, ← factor_eq, Rat.mkRat_eq_div, Rat.cast_div, Rat.cast_natCast,
        Rat.cast_intCast]
    rw [Real.rpow_def_of_pos basePositive]
    refine (roundsTo_ofBrackets (fun places bracket found => ?_) _ _).imp_right RoundsTo.exp
    have encloses := ((encloses_log nonzero places).scale factor.num).divideBy factor.den_pos
    rw [← quotient, mul_div_assoc', mul_comm (Real.log _)]
    exact encloses.exp? found

theorem toRat?_one :
    one.toRat? = some 1 := by
  obtain ⟨magnitude, made, units⟩ := exists_one_eq
  rw [made, toRat?_finite, signedUnits, if_neg (by decide), units, Int.cast_natCast,
    div_self unitsPerOne_pos_rat.ne']

/-- Zeros have the exact value zero, and no other numbers have. -/
theorem isZero_iff
    {value : Binary64}
    {exact : ℚ}
    (has : value.toRat? = some exact) :
    value.isZero = true ↔ exact = 0 := by
  obtain ⟨negative, magnitude, rfl, rfl⟩ := exists_finite_of_toRat? has
  rw [div_eq_zero_iff, or_iff_left unitsPerOne_pos_rat.ne', Int.cast_eq_zero]
  have zero : magnitude.units = 0 ↔ magnitude.significand = 0 := by
    rw [units_eq, Nat.mul_eq_zero, or_iff_left (Nat.two_pow_pos _).ne']
  cases negative <;> simp [isZero, signedUnits, zero]

/-- A power of a positive number is not found, or the exact power rounded. -/
theorem pow_cases
    {base exponent : Binary64}
    {x y : ℚ}
    (baseValue : base.toRat? = some x)
    (positive : 0 < x)
    (exponentValue : exponent.toRat? = some y) :
    base.pow exponent = .nan ∨ RoundsTo ((x : ℝ) ^ (y : ℝ)) (base.pow exponent) := by
  unfold pow
  split
  · next trivial =>
      right
      have value : (x : ℝ) ^ (y : ℝ) = ((1 : ℚ) : ℝ) := by
        rw [Bool.or_eq_true, isZero_iff exponentValue, decide_eq_true_eq] at trivial
        rcases trivial with rfl | isOne
        · simp
        · rw [isOne, toRat?_one] at baseValue
          rw [← Option.some.inj baseValue]
          simp
      have rounds : one = ofRat 1 := by
        rw [one, ofNat, ofRat, Rat.num_one, Rat.den_one, Int.natAbs_one,
          decide_eq_false (by decide)]
      rw [value, rounds]
      exact roundsTo_ofRat 1
  · obtain ⟨baseSign, size, rfl, rfl⟩ := exists_finite_of_toRat? baseValue
    obtain ⟨exponentSign, exponentSize, rfl, rfl⟩ := exists_finite_of_toRat? exponentValue
    have signed : 0 < signedUnits baseSign size := by
      rw [div_pos_iff_of_pos_right unitsPerOne_pos_rat] at positive
      exact_mod_cast positive
    obtain rfl : baseSign = false := by
      cases baseSign with
      | false => rfl
      | true =>
          rw [signedUnits, if_pos rfl] at signed
          omega
    have units : size.units ≠ 0 := by
      simpa [signedUnits, Nat.pos_iff_ne_zero] using signed
    have significand : size.significand ≠ 0 := by
      rw [units_eq] at units
      exact left_ne_zero_of_mul units
    have powers := powMagnitude_cases units exponentSign exponentSize
    have base : (((signedUnits false size : ℚ) / unitsPerOne : ℚ) : ℝ) = size.units / unitsPerOne := by
      rw [signedUnits, if_neg (by decide), Rat.cast_div, Rat.cast_natCast, Int.cast_natCast,
        Rat.cast_natCast]
    have exponent :
        (((signedUnits exponentSign exponentSize : ℚ) / unitsPerOne : ℚ) : ℝ) =
          signedUnits exponentSign exponentSize / unitsPerOne := by
      rw [Rat.cast_div, Rat.cast_natCast, Rat.cast_intCast]
    simpa [base, exponent, significand] using powers

end Binary64

end Reckoner
