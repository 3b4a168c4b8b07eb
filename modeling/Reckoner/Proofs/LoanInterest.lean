import Mathlib.Analysis.Convex.SpecificFunctions.Basic
import Reckoner.Loan
import Reckoner.Proofs.SavingsPlans

/-!
# The interest of a loan

The total interest is all payments less the principal. Payments at interest are
positive, and they make up for the principal although each step is rounded, as long
as the compound interest of one period is well above the roundings. Payments of an
interest-free loan are counted as money paid out and are negative, so that their total
less the principal is further below zero than the principal is above it.
-/

namespace Reckoner

namespace Loan

open Binary64

/-! ## Interest-free loans -/

/--
The payments of an interest-free loan are counted as money paid out, so all of them
together are negative in sign.
-/
theorem payments_negative
    {rate months payment : Binary64}
    {principal : Magnitude}
    (free : rate.isZero = true)
    (pays : Finance.payment rate months (.finite false principal) = .ok payment) :
    payment * months = .nan ∨ (payment * months).isNegative = true := by
  simp only [Finance.payment, free, if_true] at pays
  split at pays
  · cases pays
  · next nonzero =>
      obtain rfl := Except.ok.inj pays
      cases months with
      | nan =>
          exact .inl rfl
      | infinity sign =>
          exact .inl rfl
      | finite sign size =>
          have significand : size.significand ≠ 0 := by
            simpa [isZero] using nonzero
          have quotient :
              -(finite false principal) / finite sign size =
                ofUnits (true ^^ sign) (principal.units * unitsPerOne) size.units :=
            if_neg significand
          have signs : ((true ^^ sign) ^^ sign) = true := by
            cases sign <;> rfl
          right
          rw [quotient]
          rcases ofUnits_cases (true ^^ sign) (principal.units * unitsPerOne) size.units with
            ⟨rounded, made, -⟩ | ⟨overflows, -⟩
          · rw [made]
            exact (isNegative_ofUnits _ _ _).trans signs
          · have product :
                infinity (true ^^ sign) * finite sign size =
                  .infinity ((true ^^ sign) ^^ sign) :=
              if_neg significand
            rw [overflows, product, signs]
            rfl

/-- An interest-free loan costs at most the principal negated. -/
theorem totalInterest_of_free
    {rate months value : Binary64}
    {principal : Magnitude}
    {interest : ℚ}
    (free : rate.isZero = true)
    (positive : 0 < principal.units)
    (costs : totalInterest rate months (.finite false principal) = .ok value)
    (interestValue : value.toRat? = some interest) :
    interest ≤ -principal.size := by
  obtain ⟨payment, pays, rfl⟩ := Outcome.map_eq_ok_iff.mp costs
  rcases payments_negative free pays with missing | negative
  · rw [missing] at interestValue
    cases interestValue
  · rcases sub_atMost negative positive with overflows | ⟨exact, has, below⟩
    · rw [overflows] at interestValue
      cases interestValue
    · rw [has] at interestValue
      rwa [← Option.some.inj interestValue]

/-! ## Loans at interest -/

/-- Bernoulli's inequality for a discount over at least one period. -/
theorem one_sub_le_discount
    {base periods : ℝ}
    (positive : 0 < base)
    (some : 1 ≤ periods) :
    1 - periods * (1 - 1 / base) ≤ base ^ (-periods) := by
  have inverse : (0 : ℝ) < 1 / base := by positivity
  have bernoulli :=
    one_add_mul_self_le_rpow_one_add (by linarith : -1 ≤ 1 / base - 1) some
  have power : (1 + (1 / base - 1)) ^ periods = base ^ (-periods) := by
    rw [add_sub_cancel, one_div, Real.inv_rpow positive.le, Real.rpow_neg positive.le]
  rw [power] at bernoulli
  linarith

/-- At rates that are not too small the roundings do not use up the compound interest. -/
theorem annuity_margin
    {rate : ℚ}
    (sizable : 1 / 2 ^ 25 ≤ rate) :
    (1 + roundoff) * (1 - 1 / ((1 + roundoff) * (1 + rate)) + roundoff) ≤
      (1 - roundoff) ^ 2 * rate := by
  have positive : 0 < 1 + rate := by linarith [sizable, (by norm_num : (0 : ℚ) < 1 / 2 ^ 25)]
  have expanded :
      (1 + roundoff) * (1 - 1 / ((1 + roundoff) * (1 + rate)) + roundoff) =
        (1 + roundoff) ^ 2 - 1 / (1 + rate) := by
    have error : 1 + roundoff ≠ 0 := by
      norm_num [roundoff]
    field_simp
    ring
  rw [expanded, sub_le_iff_le_add, ← sub_le_iff_le_add', le_div_iff₀ positive]
  unfold roundoff
  nlinarith

section Interest

variable
  {rate months principal : Magnitude}

/-- The discount is not found, or a finite value that is hardly too small. -/
theorem discount_cases
    {base : Magnitude}
    (atLeastOne : 1 ≤ base.size)
    (some : 1 ≤ months.size) :
    (finite false base).pow (-finite false months) = .nan ∨
      ∃ discount,
        (finite false base).pow (-finite false months) = .finite false discount ∧
          discount.units ≤ unitsPerOne ∧
          1 - months.size * (1 - 1 / base.size) ≤ discount.size + roundoff := by
  have positive : 0 < base.size := by linarith
  have exponent : (-finite false months).toRat? = Option.some (-months.size) :=
    toRat?_finite_true months
  refine (pow_cases (toRat?_finite_false base) positive exponent).imp_right fun rounds => ?_
  have baseReal : (1 : ℝ) ≤ base.size := by exact_mod_cast atLeastOne
  have monthsReal : (1 : ℝ) ≤ months.size := by exact_mod_cast some
  rw [Rat.cast_neg] at rounds
  obtain ⟨discount, finite, few, near⟩ :=
    rounds.exists_near (Real.rpow_pos_of_pos (by linarith) _)
      (Real.rpow_le_one_of_one_le_of_nonpos baseReal (by linarith))
  refine ⟨discount, finite, few, ?_⟩
  have bound := (one_sub_le_discount (by linarith) monthsReal).trans near
  exact_mod_cast bound

/-- The annuity factor is zero, or a finite value up to one that is hardly too great. -/
theorem annuity_cases
    {discount : Magnitude}
    (few : discount.units ≤ unitsPerOne) :
    (Binary64.one - finite false discount).isZero = true ∨
      ∃ annuity,
        Binary64.one - finite false discount = .finite false annuity ∧
          0 < annuity.units ∧
          annuity.units ≤ unitsPerOne ∧
          annuity.size ≤ (1 + roundoff) * (1 - discount.size) := by
  obtain ⟨oneSize, one_eq, oneUnits⟩ := exists_one_eq
  obtain ⟨annuity, made, units⟩ := exists_sub (oneUnits ▸ few)
  rw [oneUnits] at units
  rw [one_eq, made]
  rcases Nat.eq_zero_or_pos annuity.units with none | positive
  · left
    rw [isZero_iff (toRat?_finite_false annuity), Magnitude.size, none, Nat.cast_zero, zero_div]
  · right
    refine ⟨annuity, rfl, positive, ?_, ?_⟩
    · rw [units, ← oneUnits]
      exact Magnitude.roundedUnits_le_units Nat.one_pos (by omega)
    · have error := size_le_of_units_eq units
      rwa [Nat.cast_sub few, sub_div, div_self unitsPerOne_pos_rat.ne'] at error

/-- A payment is hardly too small, unless it is infinite. -/
theorem payment_atLeast
    {annuity : Magnitude}
    (positive : 0 < annuity.units)
    (few : annuity.units ≤ unitsPerOne)
    (sizable : 1 / 2 ^ 25 ≤ rate.size)
    (large : 1 ≤ principal.size) :
    (finite false rate * finite false principal / finite false annuity).AtLeast
      ((1 - roundoff) ^ 2 * (rate.size * principal.size / annuity.size)) := by
  have places : 26 + 52 ≤ halfPlaces := by
    rw [halfPlaces_eq]
    decide
  have rateUnits := two_pow_le_units sizable (by omega)
  have principalUnits : unitsPerOne ≤ principal.units := by
    rw [Magnitude.size, le_div_iff₀ unitsPerOne_pos_rat, one_mul] at large
    exact_mod_cast large
  have error : (1 / 2 : ℚ) ≤ 1 - roundoff := by
    norm_num [roundoff]
  have sizes : 1 / 2 ^ 25 ≤ rate.size * principal.size :=
    sizable.trans (le_mul_of_one_le_right rate.size_nonneg large)
  have productSize : 1 / 2 ^ 26 ≤ (1 - roundoff) * (rate.size * principal.size) := by
    calc (1 / 2 ^ 26 : ℚ)
        = 1 / 2 * (1 / 2 ^ 25) := by norm_num
      _ ≤ (1 - roundoff) * (rate.size * principal.size) := by gcongr
  have product := atLeast_mul_relative (Nat.mul_le_mul rateUnits principalUnits)
  rcases product.cases_pos (lt_of_lt_of_le (by norm_num) productSize) with
    overflows | ⟨paid, finite, above⟩
  · rw [overflows]
    exact .inl rfl
  · rw [finite]
    have paidUnits := two_pow_le_units (productSize.trans above) places
    have quotient := atLeast_div_relative positive (Nat.mul_le_mul paidUnits few)
    refine quotient.mono ?_
    have annuityNonnegative := annuity.size_nonneg
    calc (1 - roundoff) ^ 2 * (rate.size * principal.size / annuity.size)
        = (1 - roundoff) *
            ((1 - roundoff) * (rate.size * principal.size) / annuity.size) := by ring
      _ ≤ (1 - roundoff) * (paid.size / annuity.size) := by
          gcongr

/-- All payments together are at least the principal. -/
theorem payments_atLeast
    {payment : Binary64}
    {bound : ℚ}
    (atLeast : payment.AtLeast bound)
    (positive : 0 < bound)
    (some : 0 < months.size)
    (enough : principal.size ≤ bound * months.size) :
    (payment * finite false months).AtLeast principal.size := by
  rcases atLeast.cases_pos positive with rfl | ⟨size, rfl, above⟩
  · have nonzero : months.significand ≠ 0 := by
      have units := units_pos_of_size_pos some
      rw [Magnitude.units_eq] at units
      exact (Nat.pos_of_mul_pos_right units).ne'
    exact .inl (if_neg nonzero)
  · exact atLeast_mul (enough.trans (mul_le_mul_of_nonneg_right above some.le))

/-- The annuity factor is at most the simple interest, the roundings included. -/
theorem annuity_le
    {base discount annuity rate periods : ℚ}
    (sizable : 1 / 2 ^ 25 ≤ rate)
    (some : 1 ≤ periods)
    (atLeastOne : 1 ≤ base)
    (baseError : base ≤ (1 + roundoff) * (1 + rate))
    (discountError : 1 - periods * (1 - 1 / base) ≤ discount + roundoff)
    (annuityError : annuity ≤ (1 + roundoff) * (1 - discount)) :
    annuity ≤ (1 - roundoff) ^ 2 * rate * periods := by
  have error : (0 : ℚ) ≤ roundoff := by
    norm_num [roundoff]
  have inverse : 1 / ((1 + roundoff) * (1 + rate)) ≤ 1 / base :=
    one_div_le_one_div_of_le (by linarith) baseError
  have margin := annuity_margin sizable
  have simple : 1 - discount ≤ (1 - 1 / ((1 + roundoff) * (1 + rate)) + roundoff) * periods := by
    nlinarith
  calc annuity
      ≤ (1 + roundoff) * (1 - discount) := annuityError
    _ ≤ (1 + roundoff) *
          ((1 - 1 / ((1 + roundoff) * (1 + rate)) + roundoff) * periods) := by gcongr
    _ = (1 + roundoff) * (1 - 1 / ((1 + roundoff) * (1 + rate)) + roundoff) * periods := by ring
    _ ≤ (1 - roundoff) ^ 2 * rate * periods := by gcongr

/-- A loan at a rate that is not too small costs no negative interest. -/
theorem totalInterest_nonneg
    {value : Binary64}
    {interest : ℚ}
    (sizable : 1 / 2 ^ 25 ≤ rate.size)
    (some : 1 ≤ months.size)
    (large : 1 ≤ principal.size)
    (costs :
      totalInterest (.finite false rate) (.finite false months) (.finite false principal) =
        .ok value)
    (interestValue : value.toRat? = Option.some interest) :
    0 ≤ interest := by
  have ratePositive : 0 < rate.size := lt_of_lt_of_le (by norm_num) sizable
  have monthsPositive : 0 < months.size := by linarith
  have principalPositive : 0 < principal.size := by linarith
  have nonzero : (finite false rate).isZero = false := by
    rw [Bool.eq_false_iff, Ne, isZero_iff (toRat?_finite_false rate)]
    exact ratePositive.ne'
  obtain ⟨payment, pays, rfl⟩ := Outcome.map_eq_ok_iff.mp costs
  obtain ⟨base, sum, atLeastOne, atMost⟩ := exists_one_add rate
  simp only [Finance.payment, nonzero, sum] at pays
  rcases discount_cases atLeastOne some with missing | ⟨discount, discounted, few, near⟩
  · rw [missing, sub_nan, div_nan] at pays
    obtain rfl := Except.ok.inj pays
    cases interestValue
  · rw [discounted] at pays
    rcases annuity_cases few with zero | ⟨annuity, found, positive, small, great⟩
    · rw [zero] at pays
      cases pays
    · have annuityPositive : 0 < annuity.size :=
        div_pos (by exact_mod_cast positive) unitsPerOne_pos_rat
      have notZero : (finite false annuity).isZero = false := by
        rw [Bool.eq_false_iff, Ne, isZero_iff (toRat?_finite_false annuity)]
        exact annuityPositive.ne'
      rw [found, notZero] at pays
      obtain rfl := Except.ok.inj pays
      have paid := payment_atLeast positive small sizable large
      have bounded := annuity_le sizable some atLeastOne atMost near great
      have error : 0 < 1 - roundoff := by
        norm_num [roundoff]
      -- Cleared of the annuity, this is its bound multiplied by the principal.
      have enough :
          principal.size ≤
            (1 - roundoff) ^ 2 * (rate.size * principal.size / annuity.size) * months.size := by
        rw [mul_div_assoc', div_mul_eq_mul_div, le_div_iff₀ annuityPositive]
        nlinarith
      have payments := payments_atLeast paid (by positivity) monthsPositive enough
      rcases sub_atLeast principalPositive payments with overflows | ⟨exact, has, nonnegative⟩
      · rw [overflows] at interestValue
        cases interestValue
      · rw [has] at interestValue
        rwa [← Option.some.inj interestValue]

end Interest

/-! ## Evaluating the interest -/

/-- The formula that asks for the interest of a loan. -/
def interestFormula : Text :=
  Text.ofString "interest(rate, months, principal)"

/-- A value of the interest is the total interest of the rate, the months and the principal. -/
theorem totalInterest_of_evaluate
    {loan : Loan}
    {value : Binary64}
    (evaluated : evaluator.evaluate loan.bindings interestFormula = .ok value) :
    totalInterest loan.rate loan.months loan.principal = .ok value := by
  have read :
      tokenize interestFormula =
        .ok [.bareName (Text.ofString "interest"), .openParen,
          .bareName (Text.ofString "rate"), .comma, .bareName (Text.ofString "months"), .comma,
          .bareName (Text.ofString "principal"), .closeParen] :=
    tokenize_of_answers rfl
  have converted :
      toPostfix [.bareName (Text.ofString "interest"), .openParen,
          .bareName (Text.ofString "rate"), .comma, .bareName (Text.ofString "months"), .comma,
          .bareName (Text.ofString "principal"), .closeParen] =
        .ok ([Text.ofString "rate", Text.ofString "months", Text.ofString "principal"].map
          Token.bareName ++ [.name (Text.ofString "interest") 3]) :=
    rfl
  have found : evaluator.functions.find? (Text.ofString "interest") = some interest :=
    rfl
  have values :
      [Text.ofString "rate", Text.ofString "months", Text.ofString "principal"].map
          (fun name => loan.bindings.find? name) =
        [loan.rate, loan.months, loan.principal].map some :=
    rfl
  have lenient :
      evaluator.evaluate loan.bindings interestFormula =
        Reckoner.evaluate loan.bindings evaluator.functions interestFormula :=
    rfl
  rw [lenient, evaluate_call_of_bareNames read converted found (by decide) (by decide) (by decide)
    values] at evaluated
  cases applied : interest.apply (Text.ofString "interest")
      [loan.rate, loan.months, loan.principal] with
  | error cause =>
      rw [applied] at evaluated
      cases evaluated
  | ok result =>
      rw [applied] at evaluated
      cases evaluated
      exact (Function.apply_eq_ok applied).1

/--
The sign of the interest. An interest-free loan costs less than nothing. A loan at a
monthly rate of at least `2 ^ -25` costs no less than nothing, if the principal and the
number of months are at least one.
-/
theorem sign_of_interest
    {loan : Loan}
    {value : Binary64}
    {principal interest : ℚ}
    (principalValue : loan.principal.toRat? = some principal)
    (positive : 0 < principal)
    (evaluated : evaluator.evaluate loan.bindings interestFormula = .ok value)
    (interestValue : value.toRat? = some interest) :
    (loan.annualRate.isZero = true → interest ≤ -principal) ∧
      ∀ rate months : ℚ,
        loan.rate.toRat? = some rate →
        loan.months.toRat? = some months →
        1 / 2 ^ 25 ≤ rate →
        1 ≤ months →
        1 ≤ principal →
        0 ≤ interest := by
  have costs := totalInterest_of_evaluate evaluated
  obtain ⟨principalSize, principalFinite, rfl⟩ :=
    exists_finite_false_of_pos principalValue positive
  rw [principalFinite] at costs
  constructor
  · intro free
    have rateFree : loan.rate.isZero = true := by
      have twelve : monthsPerYear.toRat? = some 12 := by
        decide +kernel
      exact isZero_div free twelve (by norm_num)
    exact totalInterest_of_free rateFree (units_pos_of_size_pos positive) costs interestValue
  · intro rate months rateValue monthsValue sizable some large
    obtain ⟨rateSize, rateFinite, rfl⟩ :=
      exists_finite_false_of_pos rateValue (lt_of_lt_of_le (by norm_num) sizable)
    obtain ⟨monthsSize, monthsFinite, rfl⟩ :=
      exists_finite_false_of_pos monthsValue (by linarith)
    rw [rateFinite, monthsFinite] at costs
    exact totalInterest_nonneg sizable some large costs interestValue

/-- A loan of 120 for one year at twelve percent costs no less than nothing. -/
theorem sign_of_interest_at_twelve_percent :
    let loan : Loan := {
      principal := .ofNat 120
      annualRate := .ofRat (12 / 100)
      years := .one
    }
    let value : Binary64 :=
      .finite false ⟨8942184949160832, 1024, by decide, by decide, by decide⟩
    evaluator.evaluate loan.bindings interestFormula = .ok value ∧
      value.toRat? = some (69860819915319 / 8796093022208) ∧
      (0 : ℚ) ≤ 69860819915319 / 8796093022208 := by
  intro loan value
  have principalValue : loan.principal.toRat? = some 120 := by
    decide +kernel
  have rateValue : loan.rate.toRat? = some (5764607523034235 / 576460752303423488) := by
    decide +kernel
  have monthsValue : loan.months.toRat? = some 12 := by
    decide +kernel
  have evaluated : evaluator.evaluate loan.bindings interestFormula = .ok value := by
    decide +kernel
  have interestValue : value.toRat? = some (69860819915319 / 8796093022208) := by
    decide +kernel
  exact ⟨evaluated, interestValue,
    (sign_of_interest principalValue (by norm_num) evaluated interestValue).2 _ _ rateValue
      monthsValue (by norm_num) (by norm_num) (by norm_num)⟩

-- The bound on the rate is not idle: at a rate of `2 ^ -40` the roundings outweigh the interest.
example :
    let loan : Loan := {
      principal := .ofNat 123
      annualRate := .ofRat (12 / 2 ^ 40)
      years := .ofNat 5
    }
    evaluator.evaluate loan.bindings interestFormula = .ok (.ofRat (-1 / 2 ^ 46)) := by
  decide +kernel

/-- An interest-free loan of 120 for one year costs -240, as its payments are counted negative. -/
theorem interest_of_free_loan :
    let loan : Loan := {
      principal := .ofNat 120
      annualRate := .zero
      years := .one
    }
    loan.principal.toRat? = some 120 ∧
      loan.annualRate.toRat? = some 0 ∧
      loan.years.toRat? = some 1 ∧
      evaluator.evaluate loan.bindings interestFormula = .ok (Binary64.ofNat 240).neg ∧
      (Binary64.ofNat 240).neg.toRat? = some (-240) := by
  intro loan
  refine ⟨by decide +kernel, by decide +kernel, by decide +kernel, by decide +kernel,
    by decide +kernel⟩

end Loan

end Reckoner
