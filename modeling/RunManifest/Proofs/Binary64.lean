import Mathlib
import RunManifest.Binary64.Shortest

/-!
Contract: how far rounding to double precision goes.

Owns:
- `Binary64.magnitude`, the exact value of a number without its sign, and `Binary64.Bounded`, the
  numbers that rounding gives;
- the laws of `Binary64.roundRatio`: it gives bounded numbers, it is off by at most one part in 2^53
  where the quotient is not below one and never doubles it, and below `Binary64.overflow` it gives a
  number;
- `Binary64.value_shortest_le`, the shortest decimal of a number is not beyond the end of the
  interval of reals that round to it.
-/

set_option autoImplicit false

namespace RunManifest

/-- The exact value of a decimal. -/
def Decimal.value (decimal : Decimal) : ℚ :=
  decimal.coefficient * (10 : ℚ) ^ decimal.exponent

namespace Binary64

/-- The exact value of a number without its sign. -/
def magnitude (x : Binary64) : ℚ :=
  x.significand * (2 : ℚ) ^ x.exponent

/-- The significand has at most 53 bits and the exponent is not beyond the greatest. -/
structure Bounded (x : Binary64) : Prop where
  significand : x.significand < 2 ^ 53
  exponent : x.exponent ≤ greatestExponent

/-- The least quotient for which there is no nearest number: halfway between the greatest number and
the power of two above it. -/
def overflow : ℚ := (2 ^ 53 - 1 / 2) * (2 : ℚ) ^ greatestExponent

/-- The bound on quotients lies between two powers of ten. -/
theorem overflow_bounds : (10 : ℚ) ^ 308 < overflow ∧ 2 * overflow < 10 ^ 309 := by
  have doubled : 2 * overflow = ((2 ^ 54 - 1) * 2 ^ 971 : Nat) := by
    have power : (2 : ℚ) ^ greatestExponent = (2 ^ 971 : Nat) := by
      rw [Nat.cast_pow, ← zpow_natCast]
      rfl
    rw [overflow, power, Nat.cast_mul]
    generalize ((2 ^ 971 : Nat) : ℚ) = unit
    norm_num
    ring
  have lower : 2 * 10 ^ 308 < (2 ^ 54 - 1) * 2 ^ 971 := by decide +kernel
  have upper : (2 ^ 54 - 1) * 2 ^ 971 < 10 ^ 309 := by decide +kernel
  rw [← Nat.cast_lt (α := ℚ), ← doubled, Nat.cast_mul, Nat.cast_pow] at lower
  rw [← Nat.cast_lt (α := ℚ), ← doubled, Nat.cast_pow] at upper
  exact ⟨lt_of_mul_lt_mul_left lower (by norm_num), upper⟩

private theorem powerOfTwo_fst (exponent : Int) :
    ((powerOfTwo exponent).1 : ℚ) = (2 : ℚ) ^ exponent * (powerOfTwo exponent).2 := by
  have positive : (2 : ℚ) ≠ 0 := by norm_num
  simp only [powerOfTwo, Nat.pow_eq, Nat.cast_pow, Nat.cast_ofNat]
  rw [← zpow_natCast, ← zpow_natCast, ← zpow_add₀ positive]
  congr 1
  omega

theorem powerOfTwo_pos (exponent : Int) :
    0 < (powerOfTwo exponent).1 ∧ 0 < (powerOfTwo exponent).2 :=
  ⟨Nat.pow_pos (by decide), Nat.pow_pos (by decide)⟩

private theorem powerOfTwo_snd_pos (exponent : Int) : (0 : ℚ) < (powerOfTwo exponent).2 := by
  exact_mod_cast Nat.pow_pos (n := (-exponent).toNat) (by decide : 0 < 2)

/-! ## Whole quotients -/

/-- A rounded quotient is at most one half away from the quotient, and not more than twice as
large. -/
theorem roundQuotient_mul
    (numerator denominator : Nat) 
    (positive : 0 < denominator) :
    2 * (roundQuotient numerator denominator * denominator) ≤ 2 * numerator + denominator ∧
      roundQuotient numerator denominator * denominator ≤ 2 * numerator ∧
      2 * numerator ≤ 2 * (roundQuotient numerator denominator * denominator) + denominator := by
  have split := Nat.div_add_mod' numerator denominator
  have small := Nat.mod_lt numerator positive
  simp only [roundQuotient]
  generalize numerator / denominator = quotient at split ⊢
  generalize numerator % denominator = remainder at split small ⊢
  split_ifs with below above
  · omega
  · rw [Nat.add_mul]
    omega
  · rcases Nat.mod_two_eq_zero_or_one quotient with even | odd
    · rw [even, Nat.add_zero]
      omega
    · have notSmaller : denominator ≤ quotient * denominator :=
        Nat.le_mul_of_pos_left _ (by omega)
      rw [odd, Nat.add_mul]
      omega

private theorem roundQuotient_bounds
    (numerator : Nat)
    {denominator : Nat}
    (positive : 0 < denominator) :
    (roundQuotient numerator denominator : ℚ) ≤ numerator / denominator + 1 / 2 ∧
      (roundQuotient numerator denominator : ℚ) ≤ 2 * (numerator / denominator) ∧
      (numerator : ℚ) / denominator ≤ roundQuotient numerator denominator + 1 / 2 := by
  have isPositive : (0 : ℚ) < denominator := by exact_mod_cast positive
  obtain ⟨above, double, below⟩ := roundQuotient_mul numerator denominator positive
  have aboveQ : (2 * (roundQuotient numerator denominator * denominator) : ℚ) ≤
      2 * numerator + denominator := by exact_mod_cast above
  have doubleQ : (roundQuotient numerator denominator * denominator : ℚ) ≤ 2 * numerator := by
    exact_mod_cast double
  have belowQ : (2 * numerator : ℚ) ≤
      2 * (roundQuotient numerator denominator * denominator) + denominator := by
    exact_mod_cast below
  refine ⟨?_, ?_, ?_⟩
  · rw [div_add' _ _ _ isPositive.ne', le_div_iff₀ isPositive]
    linarith
  · rw [mul_div_assoc', le_div_iff₀ isPositive]
    exact doubleQ
  · rw [div_le_iff₀ isPositive]
    linarith

/-! ## Exponents -/

section Exponent

variable {numerator denominator : Nat} (someParts : 0 < numerator) (positive : 0 < denominator)

include someParts positive in
/-- A quotient lies between powers of two that the lengths of its parts tell. -/
theorem quotient_bounds :
    (2 : ℚ) ^ ((Nat.log2 numerator : Int) - Nat.log2 denominator - 1) < numerator / denominator ∧
      (numerator : ℚ) / denominator < 2 ^ ((Nat.log2 numerator : Int) - Nat.log2 denominator + 1) := by
  have two : (2 : ℚ) ≠ 0 := by norm_num
  have isPositive : (0 : ℚ) < denominator := by exact_mod_cast positive
  have numeratorLow : (2 : ℚ) ^ (Nat.log2 numerator : Int) ≤ numerator := by
    exact_mod_cast Nat.log2_self_le someParts.ne'
  have numeratorHigh : (numerator : ℚ) < 2 ^ ((Nat.log2 numerator : Int) + 1) := by
    exact_mod_cast Nat.lt_log2_self
  have denominatorLow : (2 : ℚ) ^ (Nat.log2 denominator : Int) ≤ denominator := by
    exact_mod_cast Nat.log2_self_le positive.ne'
  have denominatorHigh : (denominator : ℚ) < 2 ^ ((Nat.log2 denominator : Int) + 1) := by
    exact_mod_cast Nat.lt_log2_self
  constructor
  · rw [lt_div_iff₀ isPositive]
    calc (2 : ℚ) ^ ((Nat.log2 numerator : Int) - Nat.log2 denominator - 1) * denominator
        < 2 ^ ((Nat.log2 numerator : Int) - Nat.log2 denominator - 1)
            * 2 ^ ((Nat.log2 denominator : Int) + 1) := by gcongr
      _ = 2 ^ (Nat.log2 numerator : Int) := by rw [← zpow_add₀ two]; congr 1; omega
      _ ≤ numerator := numeratorLow
  · rw [div_lt_iff₀ isPositive]
    calc (numerator : ℚ) < 2 ^ ((Nat.log2 numerator : Int) + 1) := numeratorHigh
      _ = 2 ^ ((Nat.log2 numerator : Int) - Nat.log2 denominator + 1)
            * 2 ^ (Nat.log2 denominator : Int) := by rw [← zpow_add₀ two]; congr 1; omega
      _ ≤ 2 ^ ((Nat.log2 numerator : Int) - Nat.log2 denominator + 1) * denominator := by gcongr

include someParts positive in
/-- The exponent of a quotient leaves at most 53 bits for its significand, and no fewer unless it is
the least. -/
theorem exponentOfRatio_spec :
    (numerator : ℚ) / denominator < 2 ^ 53 * 2 ^ exponentOfRatio numerator denominator ∧
      (leastExponent < exponentOfRatio numerator denominator →
        2 ^ 52 * (2 : ℚ) ^ exponentOfRatio numerator denominator ≤ numerator / denominator) := by
  have two : (2 : ℚ) ≠ 0 := by norm_num
  have isPositive : (0 : ℚ) < denominator := by exact_mod_cast positive
  obtain ⟨above, below⟩ := quotient_bounds someParts positive
  have isGuess : ∀ guess : Int, numerator * (powerOfTwo guess).2 <
      Nat.pow 2 53 * (denominator * (powerOfTwo guess).1) ↔
        (numerator : ℚ) / denominator < 2 ^ 53 * 2 ^ guess := by
    intro guess
    rw [div_lt_iff₀ isPositive, Nat.pow_eq, ← Nat.cast_lt (α := ℚ)]
    simp only [Nat.cast_mul, Nat.cast_pow, Nat.cast_ofNat, powerOfTwo_fst]
    have regrouped : (2 : ℚ) ^ 53 * (denominator * (2 ^ guess * (powerOfTwo guess).2)) =
        2 ^ 53 * 2 ^ guess * denominator * (powerOfTwo guess).2 := by ring
    rw [regrouped, mul_lt_mul_iff_left₀ (powerOfTwo_snd_pos guess)]
  have step : ∀ guess : Int, (2 : ℚ) ^ 52 * 2 ^ (guess + 1) = 2 ^ 53 * 2 ^ guess := by
    intro guess
    rw [zpow_add_one₀ two]
    ring
  have low : ∀ guess : Int, (2 : ℚ) ^ 52 * 2 ^ (guess - 53) = 2 ^ (guess - 1) := by
    intro guess
    rw [← zpow_natCast, ← zpow_add₀ two]
    congr 1
    omega
  have high : ∀ guess : Int, (2 : ℚ) ^ 53 * 2 ^ (guess - 53 + 1) = 2 ^ (guess + 1) := by
    intro guess
    rw [← zpow_natCast, ← zpow_add₀ two]
    congr 1
    omega
  have grows : ∀ exponent : Int,
      (2 : ℚ) ^ 53 * 2 ^ exponent ≤ 2 ^ 53 * 2 ^ max exponent leastExponent := by
    intro exponent
    gcongr
    · norm_num
    · exact le_max_left _ _
  simp only [exponentOfRatio]
  generalize (Nat.log2 numerator : Int) - Nat.log2 denominator = difference at *
  split_ifs with small
  · rw [isGuess] at small
    refine ⟨small.trans_le (grows _), fun notLeast => ?_⟩
    rw [max_eq_left (by omega), low]
    exact above.le
  · rw [isGuess, not_lt] at small
    refine ⟨?_, fun notLeast => ?_⟩
    · refine lt_of_lt_of_le ?_ (grows _)
      rw [high]
      exact below
    · rw [max_eq_left (by omega), step]
      exact small

end Exponent

/-! ## Rounded quotients -/

/-- The significand of a rounded quotient before a carry. -/
def significandOfRatio (numerator denominator : Nat) : Nat :=
  roundQuotient (numerator * (powerOfTwo (exponentOfRatio numerator denominator)).2)
    (denominator * (powerOfTwo (exponentOfRatio numerator denominator)).1)

section Ratio

variable {numerator denominator : Nat} {x : Binary64}

/-- The significand at its exponent is at most half a last place away from the quotient, and not
more than twice as large. -/
theorem significandOfRatio_bounds (numerator : Nat) (positive : 0 < denominator) :
    (significandOfRatio numerator denominator * 2 ^ exponentOfRatio numerator denominator : ℚ) ≤
        numerator / denominator + 2 ^ exponentOfRatio numerator denominator / 2 ∧
      (significandOfRatio numerator denominator * 2 ^ exponentOfRatio numerator denominator : ℚ) ≤
        2 * (numerator / denominator) ∧
      (numerator / denominator : ℚ) ≤
        significandOfRatio numerator denominator * 2 ^ exponentOfRatio numerator denominator
          + 2 ^ exponentOfRatio numerator denominator / 2 := by
  have unit : (0 : ℚ) < 2 ^ exponentOfRatio numerator denominator := by positivity
  have scaled : ((numerator * (powerOfTwo (exponentOfRatio numerator denominator)).2 : Nat) : ℚ) /
      (denominator * (powerOfTwo (exponentOfRatio numerator denominator)).1 : Nat) =
        numerator / denominator / 2 ^ exponentOfRatio numerator denominator := by
    rw [Nat.cast_mul, Nat.cast_mul, powerOfTwo_fst, ← mul_assoc,
      mul_div_mul_right _ _ (powerOfTwo_snd_pos _).ne', div_div]
  obtain ⟨above, double, below⟩ := roundQuotient_bounds
    (numerator * (powerOfTwo (exponentOfRatio numerator denominator)).2)
    (Nat.mul_pos positive (Nat.pow_pos (by decide)) :
      0 < denominator * (powerOfTwo (exponentOfRatio numerator denominator)).1)
  rw [← significandOfRatio, scaled] at above double below
  rw [div_add' _ _ _ unit.ne', le_div_iff₀ unit] at above
  rw [← mul_div_assoc, le_div_iff₀ unit] at double
  rw [div_le_iff₀ unit] at below
  exact ⟨by linarith, double, by linarith⟩

private theorem significandOfRatio_le (someParts : 0 < numerator) (positive : 0 < denominator) :
    significandOfRatio numerator denominator ≤ 2 ^ 53 := by
  have unit : (0 : ℚ) < 2 ^ exponentOfRatio numerator denominator := by positivity
  have above := (significandOfRatio_bounds numerator positive).1
  have small := (exponentOfRatio_spec someParts positive).1
  have below : (significandOfRatio numerator denominator : ℚ) < ((2 ^ 53 + 1 : Nat) : ℚ) := by
    refine lt_of_mul_lt_mul_right ?_ unit.le
    push_cast
    linarith
  exact Nat.lt_succ_iff.mp (by exact_mod_cast below)

private theorem roundRatio_eq (someParts : 0 < numerator) :
    roundRatio numerator denominator =
      if significandOfRatio numerator denominator = 2 ^ 53 then
        if exponentOfRatio numerator denominator + 1 ≤ greatestExponent then
          some ⟨false, 2 ^ 52, exponentOfRatio numerator denominator + 1⟩
        else none
      else if exponentOfRatio numerator denominator ≤ greatestExponent then
        some ⟨false, significandOfRatio numerator denominator,
          exponentOfRatio numerator denominator⟩
      else none := by
  rw [roundRatio, if_neg someParts.ne']
  simp only [significandOfRatio, Nat.pow_eq]
  split_ifs <;> rfl

/-- A rounded quotient is bounded. A carry does not change what it is worth. -/
theorem roundRatio_spec
    (someParts : 0 < numerator)
    (positive : 0 < denominator)
    (rounded : roundRatio numerator denominator = some x) :
    x.Bounded ∧ x.magnitude = significandOfRatio numerator denominator *
      (2 : ℚ) ^ exponentOfRatio numerator denominator := by
  have small := significandOfRatio_le someParts positive
  rw [roundRatio_eq someParts] at rounded
  split_ifs at rounded with carries inside inside
  · cases rounded
    refine ⟨⟨by norm_num, inside⟩, ?_⟩
    rw [magnitude, carries, zpow_add_one₀ two_ne_zero]
    push_cast
    ring
  · cases rounded
    exact ⟨⟨lt_of_le_of_ne small carries, inside⟩, rfl⟩

theorem bounded_zero (negative : Bool) : (zero negative).Bounded :=
  ⟨by simp [zero], by simp [zero, leastExponent, greatestExponent]⟩

@[simp] theorem magnitude_zero (negative : Bool) : (zero negative).magnitude = 0 := by
  simp [magnitude, zero]

/-- Every rounded quotient is bounded. -/
theorem bounded_of_roundRatio
    (positive : 0 < denominator)
    (rounded : roundRatio numerator denominator = some x) :
    x.Bounded := by
  rcases Nat.eq_zero_or_pos numerator with rfl | someParts
  · cases rounded
    exact bounded_zero false
  · exact (roundRatio_spec someParts positive rounded).1

/-- Rounding does not more than double a quotient. -/
theorem magnitude_le_double
    (positive : 0 < denominator)
    (rounded : roundRatio numerator denominator = some x) :
    x.magnitude ≤ 2 * (numerator / denominator) := by
  rcases Nat.eq_zero_or_pos numerator with rfl | someParts
  · cases rounded
    simp
  · rw [(roundRatio_spec someParts positive rounded).2]
    exact (significandOfRatio_bounds numerator positive).2.1

/-- A quotient that is not too small is rounded by at most one part in 2^53. -/
theorem magnitude_of_one_le
    (atLeastOne : (1 : ℚ) ≤ numerator / denominator)
    (rounded : roundRatio numerator denominator = some x) :
    x.magnitude ≤ numerator / denominator * (1 + 1 / 2 ^ 53) ∧
      (numerator / denominator : ℚ) / 2 ≤ x.magnitude := by
  have positive : 0 < denominator := by
    rcases Nat.eq_zero_or_pos denominator with rfl | positive
    · norm_num at atLeastOne
    · exact positive
  have someParts : 0 < numerator := by
    rcases Nat.eq_zero_or_pos numerator with rfl | someParts
    · norm_num at atLeastOne
    · exact someParts
  obtain ⟨above, -, below⟩ := significandOfRatio_bounds numerator positive
  obtain ⟨fits, full⟩ := exponentOfRatio_spec someParts positive
  -- The exponent is not the least one, since that leaves room for numbers far below one only.
  have notLeast : leastExponent < exponentOfRatio numerator denominator := by
    by_contra least
    have tiny : (2 : ℚ) ^ exponentOfRatio numerator denominator ≤ 2 ^ (-53 : ℤ) :=
      zpow_le_zpow_right₀ (by norm_num) (by simp only [leastExponent] at least; omega)
    norm_num at tiny
    linarith
  have lastPlace := full notLeast
  rw [(roundRatio_spec someParts positive rounded).2]
  constructor <;> linarith

/-- There is a nearest number for every quotient up to the bound. -/
theorem exists_of_lt_overflow
    (positive : 0 < denominator)
    (below : (numerator / denominator : ℚ) < overflow) :
    ∃ y, roundRatio numerator denominator = some y := by
  rcases Nat.eq_zero_or_pos numerator with rfl | someParts
  · exact ⟨_, rfl⟩
  have above := (significandOfRatio_bounds numerator positive).1
  have full := (exponentOfRatio_spec someParts positive).2
  have notBeyond : exponentOfRatio numerator denominator ≤ greatestExponent := by
    by_contra beyond
    rw [not_le] at beyond
    have lastPlace := full (by simp only [leastExponent, greatestExponent] at *; omega)
    have large : (2 : ℚ) ^ (greatestExponent + 1) ≤
        2 ^ exponentOfRatio numerator denominator :=
      zpow_le_zpow_right₀ (by norm_num) (by omega)
    rw [zpow_add_one₀ two_ne_zero] at large
    have unit : (0 : ℚ) < 2 ^ greatestExponent := by positivity
    rw [overflow] at below
    linarith
  have noCarry : significandOfRatio numerator denominator = 2 ^ 53 →
      exponentOfRatio numerator denominator + 1 ≤ greatestExponent := by
    intro carries
    by_contra atGreatest
    have isGreatest : exponentOfRatio numerator denominator = greatestExponent := by omega
    rw [carries, isGreatest] at above
    rw [overflow] at below
    push_cast at above
    linarith
  rw [roundRatio_eq someParts]
  split_ifs with carries inside
  · exact ⟨_, rfl⟩
  · exact absurd (noCarry carries) inside
  · exact ⟨_, rfl⟩

end Ratio

/-! ## Products and quotients -/

theorem ratio_snd_pos (x : Binary64) : 0 < x.ratio.2 :=
  Nat.pow_pos (by decide)

private theorem ratio_div (x : Binary64) : (x.ratio.1 : ℚ) / x.ratio.2 = x.magnitude := by
  rw [ratio, magnitude, Nat.cast_mul, powerOfTwo_fst, ← mul_assoc,
    mul_div_cancel_right₀ _ (powerOfTwo_snd_pos _).ne']

theorem magnitude_nonneg (x : Binary64) : 0 ≤ x.magnitude := by
  rw [magnitude]
  positivity

theorem magnitude_pos {x : Binary64} (nonzero : x.isZero = false) : 0 < x.magnitude := by
  have positive : 0 < x.significand := Nat.pos_of_ne_zero (by simpa [isZero] using nonzero)
  rw [magnitude]
  positivity

theorem times_quotient (x y : Binary64) :
    ((x.ratio.1 * y.ratio.1 : Nat) : ℚ) / (x.ratio.2 * y.ratio.2 : Nat) =
      x.magnitude * y.magnitude := by
  rw [Nat.cast_mul, Nat.cast_mul, mul_div_mul_comm, ratio_div, ratio_div]

theorem dividedBy_quotient (x y : Binary64) :
    ((x.ratio.1 * y.ratio.2 : Nat) : ℚ) / (x.ratio.2 * y.ratio.1 : Nat) =
      x.magnitude / y.magnitude := by
  rw [Nat.cast_mul, Nat.cast_mul, mul_div_mul_comm, ratio_div, ← ratio_div y, div_eq_mul_inv _ (_ / _),
    inv_div]

theorem ratio_fst_pos {x : Binary64} (positive : 0 < x.magnitude) : 0 < x.ratio.1 := by
  rw [← ratio_div] at positive
  by_contra zero
  rw [Nat.eq_zero_of_not_pos zero] at positive
  simp at positive

/-! ## Shortest decimals -/

/-- A decimal that rounds to a number is not beyond the upper end of its interval. -/
theorem value_le_of_reads
    {x : Binary64}
    {power : Int}
    {coefficient : Nat}
    (rounds : reads x power coefficient = true) :
    (coefficient : ℚ) * 10 ^ power ≤ (x.significand + 1 / 2) * 2 ^ x.exponent := by
  have inside : coefficient * (commonUnits x power).2 ≤
      (4 * x.significand + 2) * (commonUnits x power).1 := by
    simp only [reads] at rounds
    split at rounds
    · rw [Bool.and_eq_true, decide_eq_true_eq, decide_eq_true_eq] at rounds
      exact rounds.2
    · rw [Bool.and_eq_true, decide_eq_true_eq, decide_eq_true_eq] at rounds
      exact rounds.2.le
  have ten : (10 : ℚ) ≠ 0 := by norm_num
  have split : (10 : ℚ) ^ power * 10 ^ (-power).toNat = 10 ^ power.toNat := by
    rw [← zpow_natCast, ← zpow_natCast, ← zpow_add₀ ten]
    congr 1
    omega
  have quarters : (2 : ℚ) ^ x.exponent = 4 * 2 ^ (x.exponent - 2) := by
    rw [zpow_sub₀ two_ne_zero]
    norm_num
    ring
  have insideQ : (coefficient * ((powerOfTwo (x.exponent - 2)).2 * 10 ^ power.toNat) : ℚ) ≤
      (4 * x.significand + 2) *
        (2 ^ (x.exponent - 2) * (powerOfTwo (x.exponent - 2)).2 * 10 ^ (-power).toNat) := by
    rw [← powerOfTwo_fst]
    simp only [commonUnits, Nat.pow_eq] at inside
    exact_mod_cast inside
  have unit : (0 : ℚ) < (powerOfTwo (x.exponent - 2)).2 * 10 ^ (-power).toNat :=
    mul_pos (powerOfTwo_snd_pos _) (by positivity)
  refine le_of_mul_le_mul_right ?_ unit
  rw [quarters]
  calc (coefficient : ℚ) * 10 ^ power * ((powerOfTwo (x.exponent - 2)).2 * 10 ^ (-power).toNat)
      = coefficient * ((powerOfTwo (x.exponent - 2)).2 * (10 ^ power * 10 ^ (-power).toNat)) := by
        ring
    _ = coefficient * ((powerOfTwo (x.exponent - 2)).2 * 10 ^ power.toNat) := by rw [split]
    _ ≤ _ := insideQ
    _ = _ := by ring

private theorem value_le_of_onGrid?
    {x : Binary64}
    {power : Int}
    {decimal : Decimal}
    (found : onGrid? x power = some decimal) :
    decimal.value ≤ (x.significand + 1 / 2) * 2 ^ x.exponent := by
  simp only [onGrid?] at found
  split at found
  · rename_i lower upper
    cases found
    dsimp only [Decimal.value]
    split
    · exact value_le_of_reads lower
    · exact value_le_of_reads upper
  · rename_i lower _
    cases found
    exact value_le_of_reads lower
  · rename_i _ upper
    cases found
    exact value_le_of_reads upper
  · cases found

private theorem value_le_of_searchGrids
    {x : Binary64}
    {count : Nat}
    {power : Int}
    {decimal : Decimal}
    (found : searchGrids x count power = some decimal) :
    decimal.value ≤ (x.significand + 1 / 2) * 2 ^ x.exponent := by
  induction count generalizing power with
  | zero => cases found
  | succ count inductionHypothesis =>
      rw [searchGrids] at found
      split at found
      · rename_i here
        cases found
        exact value_le_of_onGrid? here
      · exact inductionHypothesis found

/-- Zeros at the end of a coefficient make no difference to the value. -/
theorem value_stripZeros (count : Nat) (decimal : Decimal) :
    (stripZeros count decimal).value = decimal.value := by
  induction count generalizing decimal with
  | zero => rfl
  | succ count inductionHypothesis =>
      rw [stripZeros]
      split
      · rename_i endsInZero
        have tens : (decimal.coefficient : ℚ) = 10 * (decimal.coefficient / 10 : Nat) := by
          exact_mod_cast (Nat.mul_div_cancel' (Nat.dvd_of_mod_eq_zero endsInZero.1)).symm
        rw [inductionHypothesis, Decimal.value, Decimal.value, tens,
          zpow_add_one₀ (by norm_num)]
        ring
      · rfl

/-- The shortest decimal is not beyond the upper end of the interval of its number. -/
theorem value_shortest_le (x : Binary64) :
    x.shortest.value ≤ (x.significand + 1 / 2) * 2 ^ x.exponent := by
  have nothing : (⟨0, 0⟩ : Decimal).value ≤ (x.significand + 1 / 2) * 2 ^ x.exponent := by
    rw [Decimal.value, Nat.cast_zero, zero_mul]
    positivity
  rw [shortest]
  split
  · exact nothing
  · rw [value_stripZeros]
    cases found : searchGrids x 20 (startingPower x) with
    | none => exact nothing
    | some decimal => exact value_le_of_searchGrids found

end Binary64

end RunManifest
