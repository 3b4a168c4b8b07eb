import Reckoner.Proofs.CorrectRounding

/-!
# Bounds on rounded results

Sums, products and quotients are rounded once. A result is not less than any value
that the exact result is not less than, as rounding is monotone and keeps values;
and a result in the normal range is not less than the exact one by more than half
a unit in the last place.
-/

namespace Reckoner

/-- The relative error of one rounding, one part in `2 ^ 53`. -/
def roundoff : ℚ :=
  1 / 2 ^ 53

namespace Magnitude

open Binary64

/-! ## Relative errors -/

section Relative

variable
  {numerator denominator : Nat}

/-- In the normal range a grid step is small against the quotient. -/
theorem step_mul_le
    (normal : gridExponent numerator denominator = 0 → 2 ^ 52 * denominator ≤ numerator) :
    2 ^ 52 * (2 ^ gridExponent numerator denominator * denominator) ≤ numerator := by
  rcases Nat.eq_zero_or_pos (gridExponent numerator denominator) with least | coarse
  · rw [least, Nat.pow_zero, Nat.one_mul]
    exact normal least
  · have above := le_div_of_gridExponent_pos coarse
    calc 2 ^ 52 * (2 ^ gridExponent numerator denominator * denominator)
        = 2 ^ (gridExponent numerator denominator + 52) * denominator := by ring
      _ ≤ numerator / denominator * denominator := Nat.mul_le_mul_right _ above
      _ ≤ numerator := Nat.div_mul_le_self _ _

/-- In the normal range rounding moves a quotient by at most one part in `2 ^ 53`. -/
theorem roundedUnits_relative
    (positive : 0 < denominator)
    (normal : gridExponent numerator denominator = 0 → 2 ^ 52 * denominator ≤ numerator) :
    (2 ^ 53 - 1) * numerator ≤ 2 ^ 53 * (roundedUnits numerator denominator * denominator) ∧
      2 ^ 53 * (roundedUnits numerator denominator * denominator) ≤ (2 ^ 53 + 1) * numerator := by
  have small := step_mul_le normal
  obtain ⟨above, below⟩ := roundedUnits_error positive numerator
  generalize roundedUnits numerator denominator * denominator = rounded at above below ⊢
  generalize 2 ^ gridExponent numerator denominator * denominator = step at small above below
  omega

/-- An integer number of units is moved by at most one part in `2 ^ 53`. -/
theorem roundedUnits_one_relative
    (units : Nat) :
    (2 ^ 53 - 1) * units ≤ 2 ^ 53 * roundedUnits units 1 ∧
      2 ^ 53 * roundedUnits units 1 ≤ (2 ^ 53 + 1) * units := by
  rcases Nat.eq_zero_or_pos (gridExponent units 1) with least | coarse
  · have kept : roundedUnits units 1 = units := by
      rw [roundedUnits, gridSteps, least, Nat.shiftLeft_zero, Nat.pow_zero, Nat.mul_one]
      simpa using halfEven_mul units 1 Nat.one_pos
    rw [kept]
    omega
  · have relative :=
      roundedUnits_relative Nat.one_pos fun least => absurd least (Nat.ne_of_gt coarse)
    simpa using relative

end Relative

/-- The value of a magnitude. -/
def size (magnitude : Magnitude) : ℚ :=
  magnitude.units / unitsPerOne

theorem size_nonneg
    (magnitude : Magnitude) :
    0 ≤ magnitude.size :=
  div_nonneg (Nat.cast_nonneg _) unitsPerOne_pos_rat.le

end Magnitude

namespace Binary64

open Magnitude

theorem toRat?_finite_false
    (magnitude : Magnitude) :
    (finite false magnitude).toRat? = some magnitude.size := by
  rw [toRat?_finite]
  rfl

theorem toRat?_finite_true
    (magnitude : Magnitude) :
    (finite true magnitude).toRat? = some (-magnitude.size) := by
  rw [toRat?_finite, signedUnits, if_pos rfl, Int.cast_neg, neg_div]
  rfl

/-- A value with a positive exact value has a positive sign. -/
theorem exists_finite_false_of_pos
    {value : Binary64}
    {exact : ℚ}
    (has : value.toRat? = some exact)
    (positive : 0 < exact) :
    ∃ magnitude, value = .finite false magnitude ∧ magnitude.size = exact := by
  obtain ⟨negative, magnitude, rfl, -⟩ := exists_finite_of_toRat? has
  cases negative with
  | false =>
      rw [toRat?_finite_false] at has
      exact ⟨magnitude, rfl, Option.some.inj has⟩
  | true =>
      rw [toRat?_finite_true] at has
      have nonnegative := magnitude.size_nonneg
      have negated := Option.some.inj has
      linarith

/-! ## Bounds of values -/

/-- A value that is not less than a number: finite and not less, or positive infinity. -/
def AtLeast (bound : ℚ) (value : Binary64) : Prop :=
  value = .infinity false ∨ ∃ exact, value.toRat? = some exact ∧ bound ≤ exact

/-- A value that is not greater than a number: finite and not greater, or negative infinity. -/
def AtMost (bound : ℚ) (value : Binary64) : Prop :=
  value = .infinity true ∨ ∃ exact, value.toRat? = some exact ∧ exact ≤ bound

theorem toRat?_neg
    {value : Binary64}
    {exact : ℚ}
    (has : value.toRat? = some exact) :
    value.neg.toRat? = some (-exact) := by
  obtain ⟨negative, magnitude, rfl, -⟩ := exists_finite_of_toRat? has
  cases negative with
  | false =>
      rw [toRat?_finite_false] at has
      rw [← Option.some.inj has]
      exact toRat?_finite_true magnitude
  | true =>
      rw [toRat?_finite_true] at has
      have opposite : (finite true magnitude).neg = .finite false magnitude := rfl
      rw [← Option.some.inj has, opposite, toRat?_finite_false]
      simp

theorem AtLeast.neg
    {bound : ℚ}
    {value : Binary64}
    (atLeast : value.AtLeast bound) :
    value.neg.AtMost (-bound) := by
  rcases atLeast with rfl | ⟨exact, has, above⟩
  · exact .inl rfl
  · exact .inr ⟨-exact, toRat?_neg has, neg_le_neg above⟩

theorem isNaN_of_toRat?
    {value : Binary64}
    {exact : ℚ}
    (has : value.toRat? = some exact) :
    value.isNaN = false := by
  obtain ⟨negative, magnitude, rfl, -⟩ := exists_finite_of_toRat? has
  rfl

theorem AtMost.isNaN
    {bound : ℚ}
    {value : Binary64}
    (atMost : value.AtMost bound) :
    value.isNaN = false := by
  rcases atMost with rfl | ⟨exact, has, -⟩
  · rfl
  · exact isNaN_of_toRat? has

theorem AtLeast.mono
    {bound less : ℚ}
    {value : Binary64}
    (atLeast : value.AtLeast bound)
    (ordered : less ≤ bound) :
    value.AtLeast less :=
  atLeast.imp_right fun ⟨exact, has, above⟩ => ⟨exact, has, ordered.trans above⟩

/-- A value of at least a positive number is infinite, or finite with a positive sign. -/
theorem AtLeast.cases_pos
    {bound : ℚ}
    {value : Binary64}
    (atLeast : value.AtLeast bound)
    (positive : 0 < bound) :
    value = .infinity false ∨
      ∃ magnitude, value = .finite false magnitude ∧ bound ≤ magnitude.size := by
  refine atLeast.imp_right ?_
  rintro ⟨exact, has, above⟩
  obtain ⟨magnitude, finite, rfl⟩ := exists_finite_false_of_pos has (by linarith)
  exact ⟨magnitude, finite, above⟩

/-! ## Rounded quotients of units -/

section OfUnits

variable
  {numerator denominator : Nat}
  (positive : 0 < denominator)

include positive

theorem toRat?_ofUnits_zero
    (negative : Bool) :
    (ofUnits negative 0 denominator).toRat? = some 0 := by
  have kept : roundedUnits 0 denominator = 0 := by
    have units : Magnitude.zero.units = 0 := rfl
    simpa [units] using roundedUnits_units positive Magnitude.zero
  obtain ⟨magnitude, made, units⟩ :=
    exists_ofUnits_eq_finite (kept.trans_lt (Nat.two_pow_pos _)) negative
  rw [kept] at units
  rw [made, toRat?_finite, signedUnits, units]
  simp

/-- A rounded quotient is not less than a magnitude that the quotient is not less than. -/
theorem atLeast_ofUnits
    {magnitude : Magnitude}
    (ordered : magnitude.units * denominator ≤ numerator) :
    (ofUnits false numerator denominator).AtLeast magnitude.size := by
  rcases ofUnits_cases false numerator denominator with
    ⟨rounded, made, units⟩ | ⟨overflows, -⟩
  · refine .inr ⟨rounded.size, by rw [made, toRat?_finite_false], ?_⟩
    refine div_le_div_of_nonneg_right ?_ unitsPerOne_pos_rat.le
    rw [Nat.cast_le, units]
    exact units_le_roundedUnits positive ordered
  · exact .inl overflows

/-- A rounded quotient in the normal range is not less by more than one part in `2 ^ 53`. -/
theorem atLeast_ofUnits_relative
    (normal : 2 ^ 52 * denominator ≤ numerator) :
    (ofUnits false numerator denominator).AtLeast
      ((1 - roundoff) * (numerator / denominator / unitsPerOne)) := by
  rcases ofUnits_cases false numerator denominator with
    ⟨rounded, made, units⟩ | ⟨overflows, -⟩
  · refine .inr ⟨rounded.size, by rw [made, toRat?_finite_false], ?_⟩
    have relative := (roundedUnits_relative positive fun _ => normal).1
    rw [← units] at relative
    have scale : (0 : ℚ) < denominator := by exact_mod_cast positive
    have cast : ((2 ^ 53 - 1 : Nat) : ℚ) * numerator ≤ 2 ^ 53 * (rounded.units * denominator) := by
      exact_mod_cast relative
    rw [Magnitude.size, ← mul_div_assoc]
    refine div_le_div_of_nonneg_right ?_ unitsPerOne_pos_rat.le
    rw [← mul_div_assoc, div_le_iff₀ scale, roundoff]
    push_cast at cast
    linarith
  · exact .inl overflows

/-- A rounded quotient is not negative if it is so in sign only as zero. -/
theorem atLeast_zero_ofUnits
    {negative : Bool}
    (signed : negative = true → numerator = 0) :
    (ofUnits negative numerator denominator).AtLeast 0 := by
  cases negative with
  | false =>
      have units : Magnitude.zero.units = 0 := rfl
      have size : Magnitude.zero.size = 0 := by
        rw [Magnitude.size, units, Nat.cast_zero, zero_div]
      rw [← size]
      exact atLeast_ofUnits positive (by rw [units, Nat.zero_mul]; exact Nat.zero_le _)
  | true =>
      rw [signed rfl]
      exact .inr ⟨0, toRat?_ofUnits_zero positive true, le_rfl⟩

end OfUnits

/-! ## Arithmetic on values that are not negative -/

theorem signedUnits_nonneg
    {negative : Bool}
    {magnitude : Magnitude}
    {exact : ℚ}
    (has : (finite negative magnitude).toRat? = some exact)
    (nonnegative : 0 ≤ exact) :
    0 ≤ signedUnits negative magnitude := by
  rw [toRat?_finite] at has
  rw [← Option.some.inj has, le_div_iff₀ unitsPerOne_pos_rat, zero_mul] at nonnegative
  exact_mod_cast nonnegative

/-- A value that is negative in sign and yet not less than zero is zero. -/
theorem units_eq_zero
    {magnitude : Magnitude}
    (nonnegative : 0 ≤ signedUnits true magnitude) :
    magnitude.units = 0 := by
  rw [signedUnits, if_pos rfl] at nonnegative
  omega

/-- A product of finite values that are not negative is not negative. -/
theorem atLeast_zero_mul
    {left right : Binary64}
    {x y : ℚ}
    (leftValue : left.toRat? = some x)
    (rightValue : right.toRat? = some y)
    (leftNonnegative : 0 ≤ x)
    (rightNonnegative : 0 ≤ y) :
    (left * right).AtLeast 0 := by
  obtain ⟨leftSign, leftSize, rfl, -⟩ := exists_finite_of_toRat? leftValue
  obtain ⟨rightSign, rightSize, rfl, -⟩ := exists_finite_of_toRat? rightValue
  have leftUnits := signedUnits_nonneg leftValue leftNonnegative
  have rightUnits := signedUnits_nonneg rightValue rightNonnegative
  refine atLeast_zero_ofUnits unitsPerOne_pos fun negative => Nat.mul_eq_zero.mpr ?_
  cases leftSign with
  | true =>
      exact .inl (units_eq_zero leftUnits)
  | false =>
      cases rightSign with
      | true =>
          exact .inr (units_eq_zero rightUnits)
      | false =>
          cases negative

/-- A quotient of a finite value by a positive one is their rounded quotient. -/
theorem finite_div
    {magnitude : Magnitude}
    (positive : 0 < magnitude.units)
    (negative : Bool)
    (size : Magnitude) :
    finite negative size / finite false magnitude =
      ofUnits negative (size.units * unitsPerOne) magnitude.units := by
  have nonzero : magnitude.significand ≠ 0 := by
    rw [units_eq] at positive
    exact (Nat.pos_of_mul_pos_right positive).ne'
  have sign : (negative ^^ false) = negative := Bool.xor_false negative
  have quotient :
      finite negative size / finite false magnitude =
        if magnitude.significand = 0 then
          if size.significand = 0 then .nan else .infinity (negative ^^ false)
        else
          ofUnits (negative ^^ false) (size.units * unitsPerOne) magnitude.units :=
    rfl
  rw [quotient, if_neg nonzero, sign]

theorem units_pos_of_size_pos
    {magnitude : Magnitude}
    (positive : 0 < magnitude.size) :
    0 < magnitude.units := by
  rw [Magnitude.size, lt_div_iff₀ unitsPerOne_pos_rat, zero_mul] at positive
  exact_mod_cast positive

/-- A quotient of a value that is not negative by a positive one is not negative. -/
theorem AtLeast.div
    {left right : Binary64}
    {y : ℚ}
    (atLeast : left.AtLeast 0)
    (rightValue : right.toRat? = some y)
    (positive : 0 < y) :
    (left / right).AtLeast 0 := by
  obtain ⟨rightSize, rfl, rfl⟩ := exists_finite_false_of_pos rightValue positive
  rcases atLeast with rfl | ⟨x, leftValue, nonnegative⟩
  · exact .inl rfl
  · obtain ⟨leftSign, leftSize, rfl, -⟩ := exists_finite_of_toRat? leftValue
    have leftUnits := signedUnits_nonneg leftValue nonnegative
    have units := units_pos_of_size_pos positive
    rw [finite_div units]
    refine atLeast_zero_ofUnits units ?_
    rintro rfl
    rw [units_eq_zero leftUnits, Nat.zero_mul]

/-- A sum of finite values is their exact sum rounded, or a zero. -/
theorem finite_add
    (left right : Bool)
    (leftSize rightSize : Magnitude) :
    finite left leftSize + finite right rightSize =
      if signedUnits left leftSize + signedUnits right rightSize = 0 then
        signedZero (left && right)
      else
        ofUnits (signedUnits left leftSize + signedUnits right rightSize < 0)
          (signedUnits left leftSize + signedUnits right rightSize).natAbs 1 :=
  rfl

/-- A sum of values that are not negative is not negative. -/
theorem AtLeast.add
    {left right : Binary64}
    (leftAtLeast : left.AtLeast 0)
    (rightAtLeast : right.AtLeast 0) :
    (left + right).AtLeast 0 := by
  rcases leftAtLeast with rfl | ⟨x, leftValue, leftNonnegative⟩
  · rcases rightAtLeast with rfl | ⟨y, rightValue, -⟩
    · exact .inl rfl
    · obtain ⟨rightSign, rightSize, rfl, -⟩ := exists_finite_of_toRat? rightValue
      exact .inl rfl
  · obtain ⟨leftSign, leftSize, rfl, -⟩ := exists_finite_of_toRat? leftValue
    rcases rightAtLeast with rfl | ⟨y, rightValue, rightNonnegative⟩
    · exact .inl rfl
    · obtain ⟨rightSign, rightSize, rfl, -⟩ := exists_finite_of_toRat? rightValue
      have leftUnits := signedUnits_nonneg leftValue leftNonnegative
      have rightUnits := signedUnits_nonneg rightValue rightNonnegative
      rw [finite_add]
      split
      · refine .inr ⟨0, ?_, le_rfl⟩
        rw [signedZero, toRat?_finite]
        cases (leftSign && rightSign) <;> simp [signedUnits, units, Magnitude.zero]
      · refine atLeast_zero_ofUnits Nat.one_pos fun negative => ?_
        rw [decide_eq_true_eq] at negative
        omega

/-! ## Arithmetic on positive values -/

/-- A product is not less than any value that the exact product is not less than. -/
theorem atLeast_mul
    {left right magnitude : Magnitude}
    (ordered : magnitude.size ≤ left.size * right.size) :
    (finite false left * finite false right).AtLeast magnitude.size := by
  refine atLeast_ofUnits unitsPerOne_pos ?_
  have scale := unitsPerOne_pos_rat
  rw [Magnitude.size, Magnitude.size, Magnitude.size, div_mul_div_comm,
    div_le_div_iff₀ scale (mul_pos scale scale), ← mul_assoc] at ordered
  have cancelled := le_of_mul_le_mul_right ordered scale
  exact_mod_cast cancelled

/-- A product in the normal range is not less than the exact one by more than one part. -/
theorem atLeast_mul_relative
    {left right : Magnitude}
    (normal : 2 ^ 52 * unitsPerOne ≤ left.units * right.units) :
    (finite false left * finite false right).AtLeast
      ((1 - roundoff) * (left.size * right.size)) := by
  have product := atLeast_ofUnits_relative unitsPerOne_pos normal
  have exact :
      left.size * right.size =
        ((left.units * right.units : Nat) : ℚ) / unitsPerOne / unitsPerOne := by
    rw [Magnitude.size, Magnitude.size]
    push_cast
    ring
  rw [exact]
  exact product

/-- A quotient in the normal range is not less than the exact one by more than one part. -/
theorem atLeast_div_relative
    {left right : Magnitude}
    (positive : 0 < right.units)
    (normal : 2 ^ 52 * right.units ≤ left.units * unitsPerOne) :
    (finite false left / finite false right).AtLeast
      ((1 - roundoff) * (left.size / right.size)) := by
  have quotient := atLeast_ofUnits_relative positive normal
  have scale := unitsPerOne_pos_rat.ne'
  have exact :
      left.size / right.size =
        ((left.units * unitsPerOne : Nat) : ℚ) / right.units / unitsPerOne := by
    rw [Magnitude.size, Magnitude.size]
    push_cast
    field_simp
  rw [exact, finite_div positive]
  exact quotient

/-! ## Around one -/

theorem size_of_units_eq
    {magnitude : Magnitude}
    (units : magnitude.units = unitsPerOne) :
    magnitude.size = 1 := by
  rw [Magnitude.size, units, div_self unitsPerOne_pos_rat.ne']

/-- An integer number of units is rounded up by at most one part in `2 ^ 53`. -/
theorem size_le_of_units_eq
    {magnitude : Magnitude}
    {number : Nat}
    (units : magnitude.units = roundedUnits number 1) :
    magnitude.size ≤ (1 + roundoff) * (number / unitsPerOne) := by
  have relative := (roundedUnits_one_relative number).2
  rw [← units] at relative
  have cast : (2 : ℚ) ^ 53 * magnitude.units ≤ (2 ^ 53 + 1) * number := by
    exact_mod_cast relative
  rw [Magnitude.size, mul_div_assoc']
  refine div_le_div_of_nonneg_right ?_ unitsPerOne_pos_rat.le
  rw [roundoff]
  linarith

/-- One and a magnitude have a finite sum, at least one and hardly too great. -/
theorem exists_one_add
    (magnitude : Magnitude) :
    ∃ sum,
      one + finite false magnitude = .finite false sum ∧
        1 ≤ sum.size ∧
        sum.size ≤ (1 + roundoff) * (1 + magnitude.size) := by
  obtain ⟨oneSize, one_eq, oneUnits⟩ := exists_one_eq
  have positive := unitsPerOne_pos
  have exact :
      signedUnits false oneSize + signedUnits false magnitude =
        ((magnitude.units + unitsPerOne : Nat) : ℤ) := by
    rw [signedUnits, signedUnits, if_neg (by decide), if_neg (by decide), oneUnits]
    push_cast
    ring
  have inRange : roundedUnits (magnitude.units + unitsPerOne) 1 < limit := by
    rw [unitsPerOne_eq]
    exact roundedUnits_add_two_pow_lt magnitude halfPlaces_large.2
  obtain ⟨sum, made, units⟩ := exists_ofUnits_eq_finite inRange false
  refine ⟨sum, ?_, ?_, ?_⟩
  · rw [one_eq, finite_add, exact, if_neg (by omega), Int.natAbs_natCast, ← made,
      decide_eq_false (by omega)]
  · rw [← size_of_units_eq oneUnits]
    refine div_le_div_of_nonneg_right ?_ unitsPerOne_pos_rat.le
    rw [Nat.cast_le, units]
    exact units_le_roundedUnits Nat.one_pos (by omega)
  · have exactSum :
        ((magnitude.units + unitsPerOne : Nat) : ℚ) / unitsPerOne = 1 + magnitude.size := by
      rw [Nat.cast_add, add_div, div_self unitsPerOne_pos_rat.ne', Magnitude.size,
        add_comm (1 : ℚ)]
    rw [← exactSum]
    exact size_le_of_units_eq units

/-- A difference of magnitudes is finite, their units subtracted and rounded. -/
theorem exists_sub
    {left right : Magnitude}
    (ordered : right.units ≤ left.units) :
    ∃ difference,
      finite false left - finite false right = .finite false difference ∧
        difference.units = roundedUnits (left.units - right.units) 1 := by
  have opposite :
      finite false left - finite false right = finite false left + finite true right :=
    rfl
  have sum :
      signedUnits false left + signedUnits true right =
        ((left.units - right.units : Nat) : ℤ) := by
    rw [signedUnits, signedUnits, if_neg (by decide), if_pos rfl]
    push_cast [ordered]
    ring
  have inRange : roundedUnits (left.units - right.units) 1 < limit :=
    (roundedUnits_le_units Nat.one_pos (by omega)).trans_lt left.units_lt
  rw [opposite, finite_add, sum]
  split
  · next equal =>
      have none : left.units - right.units = 0 := by exact_mod_cast equal
      have kept := roundedUnits_units Nat.one_pos Magnitude.zero
      exact ⟨.zero, rfl, by rw [none]; exact kept.symm⟩
  · obtain ⟨difference, made, units⟩ := exists_ofUnits_eq_finite inRange false
    rw [decide_eq_false (by omega), Int.natAbs_natCast]
    exact ⟨difference, made, units⟩

/-- What a number of at least a magnitude is rounded to is at least that magnitude. -/
theorem RoundsTo.atLeast
    {exact : ℝ}
    {value : Binary64}
    {magnitude : Magnitude}
    (rounds : RoundsTo exact value)
    (above : magnitude.size ≤ exact) :
    value.AtLeast magnitude.size := by
  obtain ⟨lower, upper, -, below, -, rfl⟩ := rounds
  have ordered : magnitude.size ≤ upper := Rat.cast_le.mp (above.trans below)
  have nonnegative : 0 ≤ upper := magnitude.size_nonneg.trans ordered
  have positive : (0 : ℚ) < upper.den := by exact_mod_cast upper.den_pos
  have sign : decide (upper.num < 0) = false := by
    simpa using nonnegative
  rw [ofRat, sign]
  refine atLeast_ofUnits upper.den_pos ?_
  rw [← natAbs_div_den nonnegative, Magnitude.size,
    div_le_div_iff₀ unitsPerOne_pos_rat positive] at ordered
  exact_mod_cast ordered

theorem two_pow_le_unitsPerOne
    {exponent : Nat}
    (small : exponent ≤ halfPlaces) :
    2 ^ exponent ≤ unitsPerOne := by
  rw [unitsPerOne_eq]
  exact Nat.pow_le_pow_right Nat.two_pos (Nat.le_succ_of_le small)

/-- Numbers up to one are rounded down by at most one part in `2 ^ 53` of one. -/
theorem le_unitsOf_div_add
    {value : ℚ}
    (nonnegative : 0 ≤ value)
    (small : value ≤ 1) :
    value ≤ unitsOf value / unitsPerOne + roundoff := by
  have scale := unitsPerOne_pos_rat
  have positive : (0 : ℚ) < value.den := by exact_mod_cast value.den_pos
  have numerator :
      ((value.num.natAbs * unitsPerOne : Nat) : ℚ) = value * unitsPerOne * value.den := by
    have quotient := natAbs_div_den nonnegative
    rw [div_eq_iff positive.ne'] at quotient
    rw [Nat.cast_mul, quotient]
    ring
  have atMostOne :
      value.num.natAbs * unitsPerOne ≤ unitsPerOne * value.den := by
    have cast : ((value.num.natAbs * unitsPerOne : Nat) : ℚ) ≤ unitsPerOne * value.den := by
      rw [numerator]
      gcongr
      exact mul_le_of_le_one_left scale.le small
    exact_mod_cast cast
  -- A grid of whole units is fine enough by itself; a coarser one is bounded by the number.
  have step :
      2 ^ 52 * 2 ^ gridExponent (value.num.natAbs * unitsPerOne) value.den ≤ unitsPerOne := by
    rcases Nat.eq_zero_or_pos (gridExponent (value.num.natAbs * unitsPerOne) value.den) with
      least | coarse
    · rw [least, Nat.pow_zero, Nat.mul_one]
      exact two_pow_le_unitsPerOne (Nat.le_of_succ_le halfPlaces_large.1)
    · have above := le_div_of_gridExponent_pos coarse
      rw [Nat.pow_add, Nat.mul_comm] at above
      exact above.trans (Nat.div_le_of_le_mul (atMostOne.trans_eq (Nat.mul_comm _ _)))
  have error := (roundedUnits_error value.den_pos (value.num.natAbs * unitsPerOne)).2
  rw [← unitsOf] at error
  generalize 2 ^ gridExponent (value.num.natAbs * unitsPerOne) value.den = grid at step error
  have stepCast : (2 : ℚ) ^ 52 * grid ≤ unitsPerOne := by exact_mod_cast step
  have errorCast :
      2 * ((value.num.natAbs * unitsPerOne : Nat) : ℚ) ≤
        2 * (unitsOf value * value.den) + grid * value.den := by
    exact_mod_cast error
  rw [numerator] at errorCast
  have cancelled : 2 * (value * unitsPerOne) ≤ 2 * unitsOf value + grid := by
    refine le_of_mul_le_mul_right ?_ positive
    linarith
  rw [div_add' _ _ _ scale.ne', le_div_iff₀ scale, roundoff]
  linarith

/-- A positive number up to one is rounded to a finite value up to one that is close to it. -/
theorem RoundsTo.exists_near
    {exact : ℝ}
    {value : Binary64}
    (rounds : RoundsTo exact value)
    (positive : 0 < exact)
    (small : exact ≤ 1) :
    ∃ magnitude,
      value = .finite false magnitude ∧
        magnitude.units ≤ unitsPerOne ∧
        exact ≤ ((magnitude.size + roundoff : ℚ) : ℝ) := by
  obtain ⟨lower, upper, above, below, lowerRounds, upperRounds⟩ := rounds
  have upperNonnegative : 0 ≤ upper := by
    have cast := positive.le.trans below
    exact_mod_cast cast
  have lowerNonnegative := nonneg_of_ofRat_eq (lowerRounds.trans upperRounds.symm) upperNonnegative
  have lowerSmall : lower ≤ 1 := by
    have cast := above.trans small
    exact_mod_cast cast
  have one := unitsOf_div (by decide : 1 ≤ 2 ^ 53) (halfPlaces + 1)
  rw [Nat.one_mul, ← unitsPerOne_eq, div_self unitsPerOne_pos_rat.ne'] at one
  have few : unitsOf lower ≤ unitsPerOne :=
    one ▸ unitsOf_mono lowerNonnegative lowerSmall
  rcases ofRat_cases lowerNonnegative with ⟨magnitude, finite, units⟩ | ⟨-, beyond⟩
  · refine ⟨magnitude, lowerRounds.symm.trans finite, units ▸ few, ?_⟩
    rcases ofRat_cases upperNonnegative with ⟨same, sameFinite, sameUnits⟩ | ⟨overflows, -⟩
    · obtain rfl : same = magnitude := by
        have equal := sameFinite.symm.trans (upperRounds.trans (lowerRounds.symm.trans finite))
        injection equal
      rcases le_total upper 1 with upperSmall | upperLarge
      · have error := le_unitsOf_div_add upperNonnegative upperSmall
        rw [← sameUnits, ← Magnitude.size] at error
        exact below.trans (Rat.cast_le.mpr error)
      · have atLeastOne : (1 : ℚ) ≤ same.size := by
          rw [Magnitude.size, le_div_iff₀ unitsPerOne_pos_rat, one_mul, sameUnits, Nat.cast_le,
            ← one]
          exact unitsOf_mono zero_le_one upperLarge
        refine small.trans ?_
        exact_mod_cast le_add_of_le_of_nonneg atLeastOne (by norm_num [roundoff])
    · rw [upperRounds, ← lowerRounds, finite] at overflows
      cases overflows
  · obtain ⟨oneSize, -, oneUnits⟩ := exists_one_eq
    have range := oneSize.units_lt
    rw [oneUnits] at range
    exact absurd range (Nat.not_lt.mpr (beyond.trans few))

/-- A value that is at least a power of two has that many units. -/
theorem two_pow_le_units
    {magnitude : Magnitude}
    {places : Nat}
    (sizable : 1 / 2 ^ places ≤ magnitude.size)
    (small : places + 52 ≤ halfPlaces) :
    2 ^ 52 ≤ magnitude.units := by
  rw [Magnitude.size, le_div_iff₀ unitsPerOne_pos_rat, div_mul_eq_mul_div, one_mul,
    div_le_iff₀ (by positivity)] at sizable
  have units : unitsPerOne ≤ magnitude.units * 2 ^ places := by exact_mod_cast sizable
  have scale := two_pow_le_unitsPerOne small
  rw [Nat.add_comm, Nat.pow_add] at scale
  exact Nat.le_of_mul_le_mul_right (scale.trans units) (Nat.two_pow_pos places)

/-! ## Differences and quotients -/

/-- What is negative in sign less a positive value is at most that value negated. -/
theorem sub_atMost
    {value : Binary64}
    (negative : value.isNegative = true)
    {magnitude : Magnitude}
    (positive : 0 < magnitude.units) :
    (value - .finite false magnitude).AtMost (-magnitude.size) := by
  cases value with
  | nan => cases negative
  | infinity sign =>
      obtain rfl : sign = true := negative
      exact .inl rfl
  | finite sign size =>
      obtain rfl : sign = true := negative
      have difference :
          finite true size - finite false magnitude = finite true size + finite true magnitude :=
        rfl
      have sum :
          signedUnits true size + signedUnits true magnitude =
            -((size.units + magnitude.units : Nat) : ℤ) := by
        rw [signedUnits, signedUnits, if_pos rfl, if_pos rfl]
        push_cast
        ring
      rw [difference, finite_add, sum, if_neg (by omega), decide_eq_true (by omega),
        Int.natAbs_neg, Int.natAbs_natCast]
      rcases ofUnits_cases true (size.units + magnitude.units) 1 with
        ⟨rounded, made, units⟩ | ⟨overflows, -⟩
      · refine .inr ⟨-rounded.size, by rw [made, toRat?_finite_true], neg_le_neg ?_⟩
        refine div_le_div_of_nonneg_right ?_ unitsPerOne_pos_rat.le
        rw [Nat.cast_le, units]
        exact units_le_roundedUnits Nat.one_pos (by omega)
      · exact .inl overflows

/-- A zero over a positive value is a zero. -/
theorem isZero_div
    {left right : Binary64}
    {divisor : ℚ}
    (zero : left.isZero = true)
    (rightValue : right.toRat? = some divisor)
    (positive : 0 < divisor) :
    (left / right).isZero = true := by
  obtain ⟨size, rfl, rfl⟩ := exists_finite_false_of_pos rightValue positive
  have units := units_pos_of_size_pos positive
  cases left with
  | nan => cases zero
  | infinity sign => cases zero
  | finite sign magnitude =>
      have isZero : magnitude = .zero :=
        Magnitude.eq_zero_of_significand_eq_zero (eq_of_beq zero)
      have none : Magnitude.zero.units * unitsPerOne = 0 :=
        Nat.zero_mul unitsPerOne
      rw [isZero, finite_div units, none]
      exact (isZero_iff (toRat?_ofUnits_zero units sign)).mpr rfl

/-- A value of at least a positive magnitude less that magnitude is not negative. -/
theorem sub_atLeast
    {value : Binary64}
    {magnitude : Magnitude}
    (positive : 0 < magnitude.size)
    (atLeast : value.AtLeast magnitude.size) :
    (value - .finite false magnitude).AtLeast 0 := by
  rcases atLeast.cases_pos positive with rfl | ⟨size, rfl, above⟩
  · exact .inl rfl
  · have ordered : magnitude.units ≤ size.units := by
      rw [Magnitude.size, Magnitude.size, div_le_div_iff_of_pos_right unitsPerOne_pos_rat] at above
      exact_mod_cast above
    obtain ⟨difference, made, -⟩ := exists_sub ordered
    exact .inr ⟨difference.size, by rw [made, toRat?_finite_false], difference.size_nonneg⟩

theorem sub_nan
    (value : Binary64) :
    value - .nan = .nan := by
  cases value <;> rfl

theorem div_nan
    (value : Binary64) :
    value / .nan = .nan := by
  cases value <;> rfl

end Binary64

end Reckoner
