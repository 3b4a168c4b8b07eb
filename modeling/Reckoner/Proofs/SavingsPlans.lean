import Reckoner.Builtin
import Reckoner.Proofs.CompleteArguments
import Reckoner.Proofs.RoundedArithmetic

/-!
# Savings plans without a present value

A plan of equal payments at a positive rate is worth no less than nothing, so its
future value, counted as money paid out, is not positive. The present value that is
left out is zero, and yet it is multiplied by the growth of the plan. If the growth
is beyond the range of values the product is not a number, and the plan has no value.
-/

namespace Reckoner

open Binary64

namespace Finance

/-- The factor by which savings grow over a number of periods. -/
def growth (rate periods : Binary64) : Binary64 :=
  (.one + rate).pow periods

section Plan

variable
  {rate periods payment : Binary64}
  {r n p : ℚ}
  (rateValue : rate.toRat? = some r)
  (periodsValue : periods.toRat? = some n)
  (paymentValue : payment.toRat? = some p)
  (positive : 0 < r)
  (periodsNonnegative : 0 ≤ n)
  (paymentNonnegative : 0 ≤ p)

include rateValue periodsValue positive

/-- The growth is not found, or the exact power of the rounded base is rounded to it. -/
theorem growth_rounds :
    growth rate periods = .nan ∨
      ∃ base : ℚ,
        (Binary64.one + rate).toRat? = some base ∧
          1 ≤ base ∧
          RoundsTo ((base : ℝ) ^ (n : ℝ)) (growth rate periods) := by
  obtain ⟨magnitude, finite, -⟩ := exists_finite_false_of_pos rateValue positive
  obtain ⟨base, sum, atLeastOne, -⟩ := exists_one_add magnitude
  have baseValue : (Binary64.one + rate).toRat? = some base.size := by
    rw [finite, sum, toRat?_finite_false]
  have power := pow_cases baseValue (by linarith) periodsValue
  exact power.imp_right fun rounds => ⟨base.size, baseValue, atLeastOne, rounds⟩

include periodsNonnegative

/-- A plan that grows to a finite value grows by a factor of at least one. -/
theorem growth_cases :
    growth rate periods = .nan ∨ growth rate periods = .infinity false ∨
      ∃ magnitude,
        growth rate periods = .finite false magnitude ∧ unitsPerOne ≤ magnitude.units := by
  refine (growth_rounds rateValue periodsValue positive).imp_right ?_
  rintro ⟨base, -, atLeastOne, rounds⟩
  obtain ⟨oneSize, -, oneUnits⟩ := exists_one_eq
  have one := size_of_units_eq oneUnits
  have power : (1 : ℝ) ≤ (base : ℝ) ^ (n : ℝ) :=
    Real.one_le_rpow (by exact_mod_cast atLeastOne) (by exact_mod_cast periodsNonnegative)
  rcases rounds.atLeast (by rw [one]; exact_mod_cast power) with overflows | ⟨exact, has, above⟩
  · exact .inl overflows
  · obtain ⟨magnitude, finite, rfl⟩ := exists_finite_false_of_pos has (by linarith)
    refine .inr ⟨magnitude, finite, ?_⟩
    rw [Magnitude.size, Magnitude.size, oneUnits,
      div_le_div_iff_of_pos_right unitsPerOne_pos_rat] at above
    exact_mod_cast above

include paymentValue paymentNonnegative

/--
The future value of a plan without a present value is not positive, unless its
growth is beyond the range of values.
-/
theorem futureValue_cases :
    (∃ magnitude, growth rate periods = .finite false magnitude) ∧
        (futureValue rate periods payment .zero).AtMost 0 ∨
      (growth rate periods).isFinite = false ∧
        futureValue rate periods payment .zero = .nan := by
  have nonzero : rate.isZero = false := by
    rw [Bool.eq_false_iff, Ne, isZero_iff rateValue]
    exact positive.ne'
  have written :
      futureValue rate periods payment .zero =
        (.zero * growth rate periods +
          payment * (growth rate periods - .one) / rate).neg := by
    rw [futureValue, nonzero]
    rfl
  rw [written]
  rcases growth_cases rateValue periodsValue positive periodsNonnegative with
    failed | overflows | ⟨magnitude, finite, atLeastOne⟩
  · right
    rw [failed]
    exact ⟨rfl, rfl⟩
  · right
    rw [overflows]
    exact ⟨rfl, rfl⟩
  · left
    refine ⟨⟨magnitude, finite⟩, ?_⟩
    rw [finite]
    obtain ⟨oneSize, one_eq, oneUnits⟩ := exists_one_eq
    obtain ⟨gain, made, -⟩ := exists_sub (oneUnits ▸ atLeastOne)
    have gainValue : (Binary64.finite false magnitude - .one).toRat? = some gain.size := by
      rw [one_eq, made, toRat?_finite_false]
    have present : (Binary64.zero * .finite false magnitude).AtLeast 0 :=
      atLeast_zero_mul (toRat?_finite_false _) (toRat?_finite_false _)
        (Magnitude.size_nonneg _) (Magnitude.size_nonneg _)
    have paid : (payment * (.finite false magnitude - .one) / rate).AtLeast 0 :=
      (atLeast_zero_mul paymentValue gainValue paymentNonnegative gain.size_nonneg).div
        rateValue positive
    simpa using (present.add paid).neg

end Plan

end Finance

open Finance

/--
A plan at a positive rate is evaluated without its present value. Its growth is the
exact power rounded, if it is found. With a finite growth the outcome is a value that
is not positive; with any other growth there is none.
-/
theorem evaluate_plan
    {bindings : Bindings}
    {rate periods payment : Binary64}
    {r n p : ℚ}
    (rateBound : bindings.find? (Text.ofString "r") = some rate)
    (periodsBound : bindings.find? (Text.ofString "n") = some periods)
    (paymentBound : bindings.find? (Text.ofString "p") = some payment)
    (rateValue : rate.toRat? = some r)
    (periodsValue : periods.toRat? = some n)
    (paymentValue : payment.toRat? = some p)
    (positive : 0 < r)
    (periodsNonnegative : 0 ≤ n)
    (paymentNonnegative : 0 ≤ p) :
    (growth rate periods = .nan ∨
        ∃ base : ℚ,
          (Binary64.one + rate).toRat? = some base ∧
            1 ≤ base ∧
            RoundsTo ((base : ℝ) ^ (n : ℝ)) (growth rate periods)) ∧
      ((growth rate periods).isFinite = true →
        ∃ value,
          evaluate bindings Builtin.table (Text.ofString "fv(r, n, p)") = .ok value ∧
            value.AtMost 0) ∧
      ((growth rate periods).isFinite = false →
        evaluate bindings Builtin.table (Text.ofString "fv(r, n, p)") =
          .error (.evaluate (.noRealValue (Text.ofString "fv")))) := by
  have read :
      tokenize (Text.ofString "fv(r, n, p)") =
        .ok [.bareName (Text.ofString "fv"), .openParen, .bareName (Text.ofString "r"), .comma,
          .bareName (Text.ofString "n"), .comma, .bareName (Text.ofString "p"), .closeParen] :=
    tokenize_of_answers rfl
  have converted :
      toPostfix [.bareName (Text.ofString "fv"), .openParen, .bareName (Text.ofString "r"), .comma,
          .bareName (Text.ofString "n"), .comma, .bareName (Text.ofString "p"), .closeParen] =
        .ok ([Text.ofString "r", Text.ofString "n", Text.ofString "p"].map Token.bareName ++
          [.name (Text.ofString "fv") 3]) :=
    rfl
  have found : Builtin.table.find? (Text.ofString "fv") = some Builtin.futureValue :=
    rfl
  have values :
      [Text.ofString "r", Text.ofString "n", Text.ofString "p"].map
          (fun name => bindings.find? name) =
        [rate, periods, payment].map some := by
    simp [rateBound, periodsBound, paymentBound]
  have numbers : ([rate, periods, payment, Binary64.zero].any Binary64.isNaN) = false := by
    simp [isNaN_of_toRat? rateValue, isNaN_of_toRat? periodsValue, isNaN_of_toRat? paymentValue,
      isNaN_of_toRat? (toRat?_finite_false Magnitude.zero), Binary64.zero, signedZero]
  have applied :
      Builtin.futureValue.apply (Text.ofString "fv") [rate, periods, payment] =
        if (futureValue rate periods payment .zero).isNaN then
          .error (.noRealValue (Text.ofString "fv"))
        else
          .ok (futureValue rate periods payment .zero) := by
    have completed :
        Builtin.futureValue.complete [rate, periods, payment] = [rate, periods, payment, .zero] :=
      rfl
    have body :
        Builtin.futureValue.body [rate, periods, payment, .zero] =
          .ok (futureValue rate periods payment .zero) :=
      rfl
    simp only [Function.apply, completed, body, numbers, Bool.not_false, Bool.and_true]
  rw [evaluate_call_of_bareNames read converted found (by decide) (by decide) (by decide) values,
    applied]
  refine ⟨growth_rounds rateValue periodsValue positive, ?_⟩
  rcases futureValue_cases rateValue periodsValue paymentValue positive periodsNonnegative
    paymentNonnegative with ⟨⟨magnitude, finite⟩, atMost⟩ | ⟨infinite, missing⟩
  · rw [finite, atMost.isNaN]
    exact ⟨fun _ => ⟨_, rfl, atMost⟩, fun infinite => absurd infinite.symm Bool.false_ne_true⟩
  · rw [infinite, missing]
    exact ⟨fun finite => absurd finite Bool.false_ne_true, fun _ => rfl⟩

/-- A plan of two payments at a rate of one has a value. -/
theorem evaluate_plan_of_two_periods :
    let bindings := Dictionary.ofList [
      (Text.ofString "r", Binary64.one),
      (Text.ofString "n", Binary64.ofNat 2),
      (Text.ofString "p", Binary64.one)]
    ∃ value,
      evaluate bindings Builtin.table (Text.ofString "fv(r, n, p)") = .ok value ∧
        value.AtMost 0 := by
  intro bindings
  have two : (Binary64.ofNat 2).toRat? = some 2 := by
    decide +kernel
  have finite : (growth .one (.ofNat 2)).isFinite = true := by
    decide +kernel
  have plan :=
    @evaluate_plan bindings .one (.ofNat 2) .one 1 2 1 (by decide +kernel) (by decide +kernel)
      (by decide +kernel) toRat?_one two toRat?_one one_pos zero_le_two zero_le_one
  exact plan.2.1 finite

/--
A plan whose payments double every period has no value after 1024 periods, as its
growth is `2 ^ 1024`.
-/
theorem evaluate_plan_of_doubling :
    let bindings := Dictionary.ofList [
      (Text.ofString "r", Binary64.one),
      (Text.ofString "n", Binary64.ofNat 1024),
      (Text.ofString "p", Binary64.one)]
    Binary64.one.toRat? = some 1 ∧
      (Binary64.ofNat 1024).toRat? = some 1024 ∧
      growth .one (.ofNat 1024) = .infinity false ∧
      evaluate bindings Builtin.table (Text.ofString "fv(r, n, p)") =
        .error (.evaluate (.noRealValue (Text.ofString "fv"))) := by
  refine ⟨toRat?_one, by decide +kernel, by decide +kernel, by decide +kernel⟩

end Reckoner
