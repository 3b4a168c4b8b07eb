import Mathlib.Analysis.SpecialFunctions.Artanh
import Mathlib.Analysis.SpecialFunctions.Exponential
import Mathlib.Analysis.SpecialFunctions.Log.Deriv
import Mathlib.Analysis.Complex.ExponentialBounds
import Reckoner.Binary64.Enclosure

/-!
# Enclosures bound real numbers

Every operation on enclosures bounds the exact result of its operation on any
real numbers within its operands. A power series is evaluated from the inside,
so each nested part bounds a tail of the series; the innermost tail is not
evaluated but known to lie in a fixed interval.
-/

namespace Reckoner

namespace Enclosure

variable
  {places : Nat}

/-- A real number lies between the bounds of an enclosure. -/
structure Encloses (value : Enclosure places) (exact : ℝ) : Prop where
  lower : (value.lower : ℝ) ≤ exact * steps places
  upper : exact * steps places ≤ value.upper

theorem steps_pos
    (places : Nat) :
    0 < steps places := by
  rw [steps, Nat.one_shiftLeft]
  exact Nat.two_pow_pos places

theorem steps_pos_real
    (places : Nat) :
    (0 : ℝ) < steps places := by
  exact_mod_cast steps_pos places

/-! ## Quotients rounded outward -/

theorem fdiv_le_div
    (numerator : Int)
    {denominator : Nat}
    (positive : 0 < denominator) :
    (Int.fdiv numerator denominator : ℝ) ≤ numerator / denominator := by
  have scale : (0 : ℝ) < denominator := by exact_mod_cast positive
  rw [le_div_iff₀ scale, Int.fdiv_eq_ediv_of_nonneg _ (Int.natCast_nonneg denominator)]
  exact_mod_cast Int.ediv_mul_le numerator (by omega : (denominator : Int) ≠ 0)

theorem div_le_neg_fdiv_neg
    (numerator : Int)
    {denominator : Nat}
    (positive : 0 < denominator) :
    (numerator / denominator : ℝ) ≤ (-Int.fdiv (-numerator) denominator : Int) := by
  have below := fdiv_le_div (-numerator) positive
  push_cast at below ⊢
  rw [neg_div] at below
  linarith

/-- A fraction with a positive denominator is enclosed. -/
theorem encloses_ofFraction
    (numerator : Int)
    {denominator : Nat}
    (positive : 0 < denominator) :
    (ofFraction numerator denominator : Enclosure places).Encloses (numerator / denominator) := by
  have arranged :
      (numerator : ℝ) / denominator * steps places =
        ((numerator * steps places : Int) : ℝ) / denominator := by
    push_cast
    ring
  constructor
  · rw [arranged]
    exact fdiv_le_div _ positive
  · rw [arranged]
    exact div_le_neg_fdiv_neg _ positive

theorem encloses_between
    {least greatest : Int}
    {exact : ℝ}
    (above : least ≤ exact)
    (below : exact ≤ greatest) :
    (between least greatest : Enclosure places).Encloses exact := by
  have scale := (steps_pos_real places).le
  constructor
  · push_cast [between]
    exact mul_le_mul_of_nonneg_right above scale
  · push_cast [between]
    exact mul_le_mul_of_nonneg_right below scale

theorem encloses_ofInt
    (value : Int) :
    (ofInt value : Enclosure places).Encloses value :=
  encloses_between le_rfl le_rfl

/-! ## Arithmetic -/

namespace Encloses

variable
  {left right value : Enclosure places}
  {x y exact : ℝ}

theorem add
    (first : left.Encloses x)
    (second : right.Encloses y) :
    (left + right).Encloses (x + y) := by
  constructor
  · have sum : (left + right).lower = left.lower + right.lower := rfl
    rw [sum, add_mul]
    push_cast
    exact add_le_add first.lower second.lower
  · have sum : (left + right).upper = left.upper + right.upper := rfl
    rw [sum, add_mul]
    push_cast
    exact add_le_add first.upper second.upper

theorem neg
    (encloses : value.Encloses exact) :
    (-value).Encloses (-exact) := by
  constructor
  · have opposite : (-value).lower = -value.upper := rfl
    rw [opposite, neg_mul]
    push_cast
    exact neg_le_neg encloses.upper
  · have opposite : (-value).upper = -value.lower := rfl
    rw [opposite, neg_mul]
    push_cast
    exact neg_le_neg encloses.lower

theorem sub
    (first : left.Encloses x)
    (second : right.Encloses y) :
    (left - right).Encloses (x - y) := by
  rw [sub_eq_add_neg]
  exact first.add second.neg

/-- A product lies between the products of bounds of one factor with the other factor. -/
theorem mul_mem_of_mem
    {lower upper x : ℝ}
    (above : lower ≤ x)
    (below : x ≤ upper)
    (factor : ℝ) :
    min (lower * factor) (upper * factor) ≤ x * factor ∧
      x * factor ≤ max (lower * factor) (upper * factor) := by
  rcases le_total 0 factor with nonnegative | nonpositive
  · exact ⟨(min_le_left _ _).trans (mul_le_mul_of_nonneg_right above nonnegative),
      (mul_le_mul_of_nonneg_right below nonnegative).trans (le_max_right _ _)⟩
  · exact ⟨(min_le_right _ _).trans (mul_le_mul_of_nonpos_right below nonpositive),
      (mul_le_mul_of_nonpos_right above nonpositive).trans (le_max_left _ _)⟩

theorem mul
    (first : left.Encloses x)
    (second : right.Encloses y) :
    (left * right).Encloses (x * y) := by
  have outer := mul_mem_of_mem first.lower first.upper (y * steps places)
  have low := mul_mem_of_mem second.lower second.upper left.lower
  have high := mul_mem_of_mem second.lower second.upper left.upper
  have scale := steps_pos_real places
  have arranged :
      x * y * steps places = x * steps places * (y * steps places) / steps places := by
    field_simp
  simp only [mul_comm _ (left.lower : ℝ), mul_comm _ (left.upper : ℝ)] at low high
  constructor
  · rw [arranged]
    refine (fdiv_le_div _ (steps_pos places)).trans ?_
    gcongr
    push_cast
    exact (min_le_min low.1 high.1).trans outer.1
  · rw [arranged]
    refine le_trans ?_ (div_le_neg_fdiv_neg _ (steps_pos places))
    gcongr
    push_cast
    exact outer.2.trans (max_le_max low.2 high.2)

theorem scale
    (encloses : value.Encloses exact)
    (factor : Int) :
    (value.scale factor).Encloses (factor * exact) := by
  have bounds := mul_mem_of_mem encloses.lower encloses.upper factor
  have arranged : factor * exact * steps places = exact * steps places * factor := by
    ring
  simp only [mul_comm _ (factor : ℝ)] at bounds
  constructor
  · rw [arranged, mul_comm]
    push_cast [Enclosure.scale]
    exact bounds.1
  · rw [arranged, mul_comm]
    push_cast [Enclosure.scale]
    exact bounds.2

theorem divideBy
    (encloses : value.Encloses exact)
    {denominator : Nat}
    (positive : 0 < denominator) :
    (value.divideBy denominator).Encloses (exact / denominator) := by
  have arranged : exact / denominator * steps places = exact * steps places / denominator := by
    ring
  constructor
  · rw [arranged]
    refine (fdiv_le_div _ positive).trans ?_
    gcongr
    exact encloses.lower
  · rw [arranged]
    refine le_trans ?_ (div_le_neg_fdiv_neg _ positive)
    gcongr
    exact encloses.upper

/-- Moving both bounds into a range encloses the number moved into that range. -/
theorem clamp
    (encloses : value.Encloses exact)
    (least greatest : Int) :
    (value.clamp least greatest).Encloses (max least (min greatest exact)) := by
  have scale := (steps_pos_real places).le
  have arranged :
      max (least : ℝ) (min greatest exact) * steps places =
        max ((least : ℝ) * steps places) (min (greatest * steps places)
          (exact * steps places)) := by
    rw [max_mul_of_nonneg _ _ scale, min_mul_of_nonneg _ _ scale]
  constructor
  · rw [arranged]
    push_cast [Enclosure.clamp]
    exact max_le_max le_rfl (min_le_min le_rfl encloses.lower)
  · rw [arranged]
    push_cast [Enclosure.clamp]
    exact max_le_max le_rfl (min_le_min le_rfl encloses.upper)

/-- What bounds within a range enclose lies within that range. -/
theorem within
    (encloses : value.Encloses exact)
    {least greatest : Int}
    (inRange : value.within least greatest = true) :
    least ≤ exact ∧ exact ≤ greatest := by
  simp only [Enclosure.within, Bool.and_eq_true, decide_eq_true_eq] at inRange
  have scale := steps_pos_real places
  have lower : ((least * steps places : Int) : ℝ) ≤ value.lower := by
    exact_mod_cast inRange.1
  have upper : (value.upper : ℝ) ≤ (greatest * steps places : Int) := by
    exact_mod_cast inRange.2
  push_cast at lower upper
  exact ⟨le_of_mul_le_mul_right (lower.trans encloses.lower) scale,
    le_of_mul_le_mul_right (encloses.upper.trans upper) scale⟩

end Encloses

/-! ## Nested series -/

/--
Nested terms enclose the first of a sequence of tails, if each term turns an
enclosure of one tail into an enclosure of the tail before it.
-/
theorem encloses_nested
    {term : Nat → Enclosure places → Enclosure places}
    {tail : Enclosure places}
    {tails : Nat → ℝ}
    (steps : ∀ index rest,
      rest.Encloses (tails (index + 1)) → (term index rest).Encloses (tails index)) :
    ∀ start count,
      tail.Encloses (tails (start + count)) →
      (nested term tail start count).Encloses (tails start) := by
  intro start count ends
  induction count generalizing start with
  | zero =>
      exact ends
  | succ count inductionHypothesis =>
      apply steps
      apply inductionHypothesis
      rwa [Nat.add_right_comm]

/-! ## The exponential series -/

/-- The exponential series from one of its terms on, divided by that term. -/
noncomputable def expTail (x : ℝ) (start : Nat) : ℝ :=
  tsum fun index : Nat => start.factorial * x ^ index / (start + index).factorial

section ExponentialTail

variable
  (x : ℝ)
  (start : Nat)

theorem abs_expTail_term_le
    (index : Nat) :
    |start.factorial * x ^ index / (start + index).factorial| ≤ |x| ^ index / index.factorial := by
  have products : (start.factorial * index.factorial : ℝ) ≤ (start + index).factorial := by
    exact_mod_cast Nat.le_of_dvd (Nat.factorial_pos _)
      (Nat.factorial_mul_factorial_dvd_factorial_add start index)
  have positive : (0 : ℝ) < index.factorial := by exact_mod_cast index.factorial_pos
  have sumPositive : (0 : ℝ) < (start + index).factorial := by
    exact_mod_cast (start + index).factorial_pos
  rw [abs_div, abs_mul, abs_pow, abs_of_pos sumPositive, Nat.abs_cast,
    div_le_div_iff₀ sumPositive positive]
  calc start.factorial * |x| ^ index * index.factorial
      = |x| ^ index * (start.factorial * index.factorial) := by ring
    _ ≤ |x| ^ index * (start + index).factorial := by gcongr

theorem summable_expTail :
    Summable fun index : Nat =>
      (start.factorial * x ^ index / (start + index).factorial : ℝ) :=
  .of_norm_bounded (Real.summable_pow_div_factorial |x|) (abs_expTail_term_le x start)

/-- A tail is its first term, one, and a multiple of the next tail. -/
theorem expTail_eq :
    expTail x start = 1 + x * expTail x (start + 1) / (start + 1 : Nat) := by
  have nonzero : (start.factorial : ℝ) ≠ 0 := by exact_mod_cast start.factorial_ne_zero
  rw [expTail, (summable_expTail x start).tsum_eq_zero_add, expTail, ← tsum_mul_left,
    ← tsum_div_const]
  congr 1
  · simp [nonzero]
  · refine tsum_congr fun index => ?_
    rw [Nat.factorial_succ start, Nat.add_right_comm start 1 index, ← Nat.add_assoc]
    have next : ((start + 1 : Nat) : ℝ) ≠ 0 := by positivity
    push_cast at next ⊢
    field_simp
    ring

theorem expTail_zero :
    expTail x 0 = Real.exp x := by
  rw [expTail, Real.exp_eq_exp_ℝ, NormedSpace.exp_eq_tsum_div]
  simp

/-- Tails of the series at arguments of size at most one are bounded. -/
theorem abs_expTail_le
    (small : |x| ≤ 1) :
    |expTail x start| ≤ 3 := by
  have bounded :
      |expTail x start| ≤ tsum fun index : Nat => |x| ^ index / (index.factorial : ℝ) := by
    rw [expTail, ← Real.norm_eq_abs]
    refine tsum_of_norm_bounded (Real.summable_pow_div_factorial |x|).hasSum fun index => ?_
    exact abs_expTail_term_le x start index
  have exponential :
      (tsum fun index : Nat => |x| ^ index / (index.factorial : ℝ)) = Real.exp |x| := by
    rw [← expTail_zero, expTail]
    simp
  rw [exponential] at bounded
  exact bounded.trans ((Real.exp_le_exp.mpr small).trans Real.exp_one_lt_three.le)

/-- Late tails are close to one. -/
theorem expTail_mem
    (small : |x| ≤ 1)
    (late : 2 ≤ start) :
    0 ≤ expTail x start ∧ expTail x start ≤ 2 := by
  have next := abs_expTail_le x (start + 1) small
  have scale : (3 : ℝ) ≤ (start + 1 : Nat) := by exact_mod_cast Nat.succ_le_succ late
  have rest : |x * expTail x (start + 1) / (start + 1 : Nat)| ≤ 1 := by
    rw [abs_div, abs_mul, Nat.abs_cast, div_le_one (by linarith)]
    calc |x| * |expTail x (start + 1)|
        ≤ 1 * 3 := by gcongr
      _ ≤ (start + 1 : Nat) := by linarith
  obtain ⟨above, below⟩ := abs_le.mp rest
  rw [expTail_eq]
  constructor <;> linarith

end ExponentialTail

/-- The exponential of a number of size at most one is enclosed. -/
theorem Encloses.expSeries
    {argument : Enclosure places}
    {x : ℝ}
    (encloses : argument.Encloses x)
    (small : |x| ≤ 1) :
    argument.expSeries.Encloses (Real.exp x) := by
  rw [← expTail_zero]
  refine encloses_nested (fun index rest restEncloses => ?_) 0 (places / 4 + 20) ?_
  · rw [expTail_eq]
    simpa using (encloses_ofInt 1).add ((encloses.mul restEncloses).divideBy index.succ_pos)
  · obtain ⟨above, below⟩ := expTail_mem x (0 + (places / 4 + 20)) small (by omega)
    exact encloses_between (by exact_mod_cast above) (by exact_mod_cast below)

/-! ## The series of the inverse hyperbolic tangent -/

/-- The series `1 + s / 3 + s ^ 2 / 5 + …` from one of its terms on, divided by that power. -/
noncomputable def artanhTail (square : ℝ) (start : Nat) : ℝ :=
  tsum fun index : Nat => square ^ index / (2 * (start + index : Nat) + 1 : Nat)

section ArtanhTail

variable
  {square : ℝ}
  (nonnegative : 0 ≤ square)
  (small : square ≤ 1 / 4)
  (start : Nat)

include nonnegative in
theorem artanhTail_term_mem
    (index : Nat) :
    0 ≤ square ^ index / (2 * (start + index : Nat) + 1 : Nat) ∧
      square ^ index / (2 * (start + index : Nat) + 1 : Nat) ≤ square ^ index := by
  have scale : (1 : ℝ) ≤ (2 * (start + index) + 1 : Nat) := by
    exact_mod_cast Nat.succ_le_succ (Nat.zero_le _)
  exact ⟨by positivity, div_le_self (by positivity) scale⟩

include nonnegative small

theorem summable_artanhTail :
    Summable fun index : Nat => square ^ index / ((2 * (start + index) + 1 : Nat) : ℝ) :=
  .of_nonneg_of_le (fun index => (artanhTail_term_mem nonnegative start index).1)
    (fun index => (artanhTail_term_mem nonnegative start index).2)
    (summable_geometric_of_lt_one nonnegative (by linarith))

/-- A tail is its first term and a multiple of the next tail. -/
theorem artanhTail_eq :
    artanhTail square start =
      1 / (2 * start + 1 : Nat) + square * artanhTail square (start + 1) := by
  rw [artanhTail, (summable_artanhTail nonnegative small start).tsum_eq_zero_add, artanhTail,
    ← tsum_mul_left]
  congrm ?_ + ?_
  · simp
  · refine tsum_congr fun index => ?_
    rw [pow_succ', mul_div_assoc, Nat.add_right_comm start 1 index, ← Nat.add_assoc]

/-- Every tail lies between zero and two. -/
theorem artanhTail_mem :
    0 ≤ artanhTail square start ∧ artanhTail square start ≤ 2 := by
  constructor
  · exact tsum_nonneg fun index => (artanhTail_term_mem nonnegative start index).1
  · have bounded :=
      (summable_artanhTail nonnegative small start).tsum_le_tsum
        (fun index => (artanhTail_term_mem nonnegative start index).2)
        (summable_geometric_of_lt_one nonnegative (by linarith))
    rw [tsum_geometric_of_lt_one nonnegative (by linarith)] at bounded
    refine bounded.trans ?_
    rw [inv_le_comm₀ (by linarith) (by norm_num)]
    linarith

end ArtanhTail

/-- The whole series gives the inverse hyperbolic tangent. -/
theorem mul_artanhTail_zero
    {x : ℝ}
    (small : |x| ≤ 1 / 2) :
    x * artanhTail (x * x) 0 = Real.artanh x := by
  obtain ⟨above, below⟩ := abs_le.mp small
  have logarithms :=
    (Real.hasSum_log_sub_log_of_abs_lt_one (small.trans_lt (by norm_num))).tsum_eq
  rw [Real.artanh_eq_half_log ⟨by linarith, by linarith⟩,
    Real.log_div (by linarith) (by linarith), ← logarithms, artanhTail, ← tsum_mul_left,
    ← tsum_mul_left]
  refine tsum_congr fun index => ?_
  rw [Nat.zero_add, pow_succ, pow_mul, sq]
  push_cast
  ring

/-- The inverse hyperbolic tangent of a number of size at most one half is enclosed. -/
theorem Encloses.artanhSeries
    {argument : Enclosure places}
    {x : ℝ}
    (encloses : argument.Encloses x)
    (small : |x| ≤ 1 / 2) :
    argument.artanhSeries.Encloses (Real.artanh x) := by
  have nonnegative : 0 ≤ x * x := mul_self_nonneg x
  have smallSquare : x * x ≤ 1 / 4 := by
    rw [← abs_mul_abs_self]
    nlinarith [abs_nonneg x]
  rw [← mul_artanhTail_zero small]
  refine encloses.mul (encloses_nested (fun index rest restEncloses => ?_) 0 (places / 2 + 8) ?_)
  · rw [artanhTail_eq nonnegative smallSquare]
    simpa using (encloses_ofFraction 1 (2 * index).succ_pos).add
      ((encloses.mul encloses).mul restEncloses)
  · obtain ⟨above, below⟩ := artanhTail_mem nonnegative smallSquare (0 + (places / 2 + 8))
    exact encloses_between (by exact_mod_cast above) (by exact_mod_cast below)

/-- The logarithm of two is enclosed. -/
theorem encloses_logTwo :
    (logTwo : Enclosure places).Encloses (Real.log 2) := by
  have third : |(1 / 3 : ℝ)| ≤ 1 / 2 := by
    rw [abs_of_pos] <;> norm_num
  have encloses : (ofFraction 1 3 : Enclosure places).Encloses (1 / 3) := by
    have fraction : (ofFraction 1 3 : Enclosure places).Encloses _ :=
      encloses_ofFraction 1 (by decide)
    simpa using fraction
  have series := (encloses.artanhSeries third).scale 2
  have value : ((2 : Int) : ℝ) * Real.artanh (1 / 3) = Real.log 2 := by
    rw [Real.artanh_eq_half_log ⟨by norm_num, by norm_num⟩]
    norm_num
    ring
  rwa [value] at series

end Enclosure

end Reckoner
