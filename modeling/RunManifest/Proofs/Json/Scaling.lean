import RunManifest.Json.Literal
import RunManifest.Proofs.Binary64

/-!
Contract: the numbers of double precision that digits are read as.

Owns:
- `powerOfTen_spec`, how far a rounded power of ten is from the exact one;
- `bounded_of_floatOfParts`, what is read from a significand and a power of ten is bounded;
- `exists_floatOfParts`, it is read at all unless its exact value comes close to the least number
  that is too large.
-/

set_option autoImplicit false

namespace RunManifest.Json

open Binary64

/-! ## Powers of ten -/

/-- A power of ten that can be represented is rounded by at most one part in 2^53. -/
theorem powerOfTen_spec {exponent : Nat} (representable : exponent ≤ 308) :
    (powerOfTen exponent).Bounded ∧
      (powerOfTen exponent).magnitude ≤ 10 ^ exponent * (1 + 1 / 2 ^ 53) ∧
      (10 : ℚ) ^ exponent / 2 ≤ (powerOfTen exponent).magnitude := by
  have isPower : ((Nat.pow 10 exponent : Nat) : ℚ) / (1 : Nat) = 10 ^ exponent := by
    rw [Nat.pow_eq]
    push_cast
    ring
  have atLeastOne : (1 : ℚ) ≤ 10 ^ exponent := one_le_pow₀ (by norm_num)
  have below : (10 : ℚ) ^ exponent < overflow :=
    (pow_le_pow_right₀ (by norm_num) representable).trans_lt overflow_bounds.1
  rw [← isPower] at atLeastOne below
  obtain ⟨power, rounded⟩ := exists_of_lt_overflow (by decide) below
  have isRounded : powerOfTen exponent = power := by rw [powerOfTen, rounded, Option.getD_some]
  have bounds := magnitude_of_one_le atLeastOne rounded
  rw [isPower] at bounds
  rw [isRounded]
  exact ⟨bounded_of_roundRatio (by decide) rounded, bounds⟩

private theorem powerOfTen_pos {exponent : Nat} (representable : exponent ≤ 308) :
    0 < (powerOfTen exponent).magnitude :=
  lt_of_lt_of_le (by positivity) (powerOfTen_spec representable).2.2

/-! ## Scaling -/

/-- A scaled magnitude is bounded. -/
theorem bounded_of_scale
    {count : Nat}
    {magnitude x : Binary64}
    {exponent : Int}
    (bounded : magnitude.Bounded)
    (scaled : scale count magnitude exponent = some x) :
    x.Bounded := by
  induction count generalizing magnitude exponent with
  | zero =>
      cases scaled
      exact bounded_zero false
  | succ count inductionHypothesis =>
      have bounded_quotient : ∀ {power : Nat} {y : Binary64}, power ≤ 308 →
          magnitude.dividedBy (powerOfTen power) = some y → y.Bounded := by
        intro power y representable divided
        exact bounded_of_roundRatio (Nat.mul_pos (ratio_snd_pos _)
          (ratio_fst_pos (powerOfTen_pos representable))) divided
      rw [scale] at scaled
      split_ifs at scaled with near up zero
      · exact bounded_of_roundRatio (Nat.mul_pos (ratio_snd_pos _) (ratio_snd_pos _)) scaled
      · exact bounded_quotient (by omega) scaled
      · cases scaled
        exact bounded
      · obtain ⟨smaller, divided, later⟩ := Option.bind_eq_some_iff.mp scaled
        exact inductionHypothesis (bounded_quotient le_rfl divided) later

/-- Nothing gets too large on the way down. -/
theorem exists_scale_down
    (count : Nat)
    {magnitude : Binary64}
    {exponent : Int}
    (down : exponent < 0)
    (small : magnitude.magnitude ≤ 2 ^ 65) :
    ∃ x, scale count magnitude exponent = some x := by
  have room : (2 : ℚ) ^ 66 < overflow :=
    calc (2 : ℚ) ^ 66 < 10 ^ 20 := by norm_num
      _ ≤ 10 ^ 308 := pow_le_pow_right₀ (by norm_num) (by norm_num)
      _ < overflow := overflow_bounds.1
  induction count generalizing magnitude exponent with
  | zero => exact ⟨_, rfl⟩
  | succ count inductionHypothesis =>
      have quotient : ∀ power : Nat, power ≤ 308 →
          0 < magnitude.ratio.2 * (powerOfTen power).ratio.1 ∧
          ∃ y, magnitude.dividedBy (powerOfTen power) = some y := by
        intro power representable
        have positive := powerOfTen_pos representable
        have denominator := Nat.mul_pos (ratio_snd_pos magnitude) (ratio_fst_pos positive)
        refine ⟨denominator, exists_of_lt_overflow denominator ?_⟩
        rw [dividedBy_quotient, div_lt_iff₀ positive]
        have atLeastOne : (1 : ℚ) ≤ 10 ^ power := one_le_pow₀ (by norm_num)
        have half : 1 / 2 ≤ (powerOfTen power).magnitude :=
          le_trans (by linarith) (powerOfTen_spec representable).2.2
        calc magnitude.magnitude ≤ 2 ^ 65 := small
          _ < overflow * (1 / 2) := by linarith
          _ ≤ overflow * (powerOfTen power).magnitude := by gcongr
      rw [scale]
      split_ifs with near up zero up
      · omega
      · exact (quotient _ (by omega)).2
      · exact ⟨_, rfl⟩
      · omega
      · obtain ⟨denominator, smaller, divided⟩ := quotient 308 le_rfl
        rw [divided]
        refine inductionHypothesis (by omega) ?_
        have double := magnitude_le_double denominator divided
        rw [dividedBy_quotient] at double
        have two : 2 ≤ (powerOfTen 308).magnitude := by
          have ten : (10 : ℚ) ^ 1 ≤ 10 ^ 308 := pow_le_pow_right₀ (by norm_num) (by norm_num)
          have half := (powerOfTen_spec (le_refl 308)).2.2
          rw [pow_one] at ten
          generalize (10 : ℚ) ^ 308 = power at ten half
          linarith
        have notLarger : magnitude.magnitude / (powerOfTen 308).magnitude ≤ 2 ^ 64 := by
          rw [div_le_iff₀ (powerOfTen_pos le_rfl)]
          calc magnitude.magnitude ≤ 2 ^ 64 * 2 := by linarith
            _ ≤ 2 ^ 64 * (powerOfTen 308).magnitude := by gcongr
        linarith

/-- Nothing gets too large on the way up as long as there is room for two roundings. -/
theorem exists_scale_up
    (count : Nat)
    {magnitude : Binary64}
    {exponent : Int}
    (up : 0 ≤ exponent)
    (whole : magnitude.magnitude = 0 ∨ 1 / 2 ≤ magnitude.magnitude)
    (room : magnitude.magnitude * (10 ^ exponent * (1 + 1 / 2 ^ 53)) < overflow) :
    ∃ x, scale (count + 1) magnitude exponent = some x := by
  obtain ⟨power, rfl⟩ := Int.eq_ofNat_of_zero_le up
  rw [zpow_natCast] at room
  rw [scale]
  split_ifs with near zero
  · have representable : power ≤ 308 := by omega
    refine exists_of_lt_overflow (Nat.mul_pos (ratio_snd_pos _) (ratio_snd_pos _)) ?_
    rw [times_quotient]
    refine lt_of_le_of_lt ?_ room
    gcongr
    · exact magnitude_nonneg _
    · exact (powerOfTen_spec representable).2.1
  · exact ⟨_, rfl⟩
  · -- From here on a number that is not zero is beyond the bound.
    exfalso
    have half := whole.resolve_left (magnitude_pos (by simpa using zero)).ne'
    have large : (10 : ℚ) ^ 309 ≤ 10 ^ power := pow_le_pow_right₀ (by norm_num) (by omega)
    have beyond : 1 / 2 * ((10 : ℚ) ^ 309 * 1) ≤
        magnitude.magnitude * (10 ^ power * (1 + 1 / 2 ^ 53)) := by
      gcongr
      norm_num
    have bound := overflow_bounds.2
    generalize (10 : ℚ) ^ 309 = limit at beyond bound
    linarith

/-- Parts of a number are read as a bounded one. -/
theorem bounded_of_floatOfParts
    {negative : Bool}
    {significand : Nat}
    {exponent : Int}
    {x : Binary64}
    (isFloat : floatOfParts negative significand exponent = some (.float x)) :
    x.Bounded := by
  obtain ⟨magnitude, rounded, continued⟩ := Option.bind_eq_some_iff.mp isFloat
  obtain ⟨scaled, isScaled, same⟩ := Option.map_eq_some_iff.mp continued
  cases same
  have bounded := bounded_of_scale (bounded_of_roundRatio (by decide) rounded) isScaled
  exact ⟨bounded.significand, bounded.exponent⟩

/-- Parts of a number are read unless rounding the significand and the power of ten can make it too
large. -/
theorem exists_floatOfParts
    (negative : Bool)
    {significand : Nat}
    {exponent : Int}
    (fits : significand < Word64.unsignedBound)
    (room : (significand : ℚ) * 10 ^ exponent * (1 + 1 / 2 ^ 53) ^ 2 < overflow) :
    ∃ x, floatOfParts negative significand exponent = some (.float x) := by
  have isWhole : (significand : ℚ) / (1 : Nat) = significand := by simp
  have small : (significand : ℚ) < 2 ^ 64 := by exact_mod_cast fits
  have below : (significand : ℚ) / (1 : Nat) < overflow := by
    rw [isWhole]
    calc (significand : ℚ) < 10 ^ 20 := small.trans (by norm_num)
      _ ≤ 10 ^ 308 := pow_le_pow_right₀ (by norm_num) (by norm_num)
      _ < overflow := overflow_bounds.1
  obtain ⟨magnitude, rounded⟩ := exists_of_lt_overflow (by decide) below
  have double := magnitude_le_double (by decide) rounded
  rw [isWhole] at double
  obtain ⟨scaled, isScaled⟩ : ∃ x, scale 3 magnitude exponent = some x := by
    rcases lt_or_ge exponent 0 with down | up
    · exact exists_scale_down 3 down (by linarith)
    · rcases Nat.eq_zero_or_pos significand with rfl | positive
      · have nothing : magnitude.magnitude = 0 :=
          le_antisymm (by simpa using double) (magnitude_nonneg _)
        refine exists_scale_up 2 up (.inl nothing) ?_
        rw [nothing, zero_mul]
        exact lt_of_le_of_lt (by positivity) below
      · have atLeastOne : (1 : ℚ) ≤ significand / (1 : Nat) := by
          rw [isWhole]
          exact_mod_cast positive
        obtain ⟨above, half⟩ := magnitude_of_one_le atLeastOne rounded
        refine exists_scale_up 2 up (.inr (by linarith)) (lt_of_le_of_lt ?_ room)
        rw [isWhole] at above
        calc magnitude.magnitude * ((10 : ℚ) ^ exponent * (1 + 1 / 2 ^ 53))
            ≤ (significand : ℚ) * (1 + 1 / 2 ^ 53) * (10 ^ exponent * (1 + 1 / 2 ^ 53)) := by gcongr
          _ = (significand : ℚ) * 10 ^ exponent * (1 + 1 / 2 ^ 53) ^ 2 := by ring
  rw [floatOfParts, rounded, Option.bind_some, isScaled]
  exact ⟨_, rfl⟩

end RunManifest.Json
