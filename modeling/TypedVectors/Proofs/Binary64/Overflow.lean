import TypedVectors.Proofs.Binary64.Places

/-!
Finite numbers rounded to decimal places, at the ends of the range. The scaled number may leave the
range, and so may the multiple of the power of ten. Every other step of the rounding keeps a finite
number finite, as long as the power of ten is a number itself.
-/
namespace TypedVectors

/-- A quotient that does not pass a number of 53 leading bits is not rounded past it. -/
theorem roundSteps_le {num den bound : ℕ} (positive : 0 < den)
    (leading : bound % twoTo (binaryLog bound + 1 - 53) = 0) (below : num ≤ bound * den) :
    roundSteps num den ≤ bound := by
  have quotient : num / den ≤ bound := Nat.div_le_of_le_mul (by rwa [Nat.mul_comm])
  have log := binaryLog_mono quotient
  have error := neg_le_of_abs_le (roundSteps_error positive num)
  have rounded : twoTo (binaryLog (num / den) + 1 - 53) ∣ roundSteps num den :=
    Nat.dvd_mul_left _ _
  have bounded : twoTo (binaryLog (num / den) + 1 - 53) ∣ bound :=
    Nat.dvd_trans (twoTo_dvd (by omega)) (Nat.dvd_of_mod_eq_zero leading)
  have wide := twoTo_pos (binaryLog (num / den) + 1 - 53)
  generalize twoTo (binaryLog (num / den) + 1 - 53) = gap at *
  -- Both numbers are multiples of the last bit, and the error is at most half of it.
  by_contra above
  have apart : gap ≤ roundSteps num den - bound :=
    Nat.le_of_dvd (by omega) (Nat.dvd_sub rounded bounded)
  have step : ((bound + gap : ℕ) : ℚ) ≤ roundSteps num den := by exact_mod_cast (by omega)
  have within : (num : ℚ) / den ≤ bound := by
    rw [div_le_iff₀ (by exact_mod_cast positive)]
    exact_mod_cast below
  have width : (0 : ℚ) < gap := by exact_mod_cast wide
  push_cast at step
  linarith

/-- From two to the power 53 on the rounded quotient is at most an eighth above the exact one. -/
theorem roundSteps_mul_le {num den : ℕ} (positive : 0 < den)
    (large : twoTo 53 ≤ roundSteps num den) : 8 * (roundSteps num den * den) ≤ 9 * num := by
  have scale : (0 : ℚ) < den := by exact_mod_cast positive
  rcases roundSteps_cases positive num with ⟨small, _⟩ | ⟨_, error⟩
  · exact absurd large (Nat.not_le.2 small)
  · have nine : (9 : ℚ) ≤ twoTo 53 := by
      exact_mod_cast (by decide : 9 ≤ twoTo 53)
    have near := mul_le_mul_of_nonneg_left nine (abs_nonneg ((num : ℚ) / den - roundSteps num den))
    have distance := neg_le_abs ((num : ℚ) / den - roundSteps num den)
    have quotient : 8 * (roundSteps num den : ℚ) ≤ 9 * (num / den) := by linarith
    rw [← mul_div_assoc, le_div_iff₀ scale, mul_assoc] at quotient
    exact_mod_cast quotient

namespace Binary64

variable {x digits : Binary64} {negative : Bool} {steps power j : ℕ}
  {representable : Representable steps}

/-- The number of ones nearest to a count of steps, from the middle up. -/
def nearestOnes (steps : ℕ) : ℕ := (2 * steps + unit) / (2 * unit)

theorem isFinite_ofSteps {num den : ℕ} :
    (ofSteps negative num den).isFinite ↔ roundSteps num den < stepLimit := by
  unfold ofSteps
  split
  · next bounded => exact iff_of_true rfl bounded
  · next unbounded => exact iff_of_false Bool.false_ne_true unbounded

/-- Numbers from two to the power 53 on are whole. -/
theorem unit_dvd_steps (representable : Representable steps) (large : twoTo 53 * unit ≤ steps) :
    unit ∣ steps := by
  refine Nat.dvd_trans (twoTo_dvd ?_) (Nat.dvd_of_mod_eq_zero representable.1)
  have log := binaryLog_mono large
  rw [unit, ← twoTo_add, binaryLog_twoTo] at log
  omega

theorem representable_ones (representable : Representable steps) :
    Representable (nearestOnes steps * unit) := by
  rcases Nat.lt_or_ge steps (twoTo 53 * unit) with small | large
  · have few : nearestOnes steps < twoTo 53 + 1 := by
      have one := unit_pos
      rw [nearestOnes, Nat.div_lt_iff_lt_mul (by omega)]
      generalize unit = unit at *
      linarith
    obtain ⟨fits, -⟩ := ofSteps_shifted false (Nat.le_of_lt_succ few)
    exact fits
  · obtain ⟨count, ones⟩ := unit_dvd_steps representable large
    rw [Nat.mul_comm] at ones
    rwa [nearestOnes, ones, nearest_whole, ← ones]

theorem roundHalfAway_ones (negative : Bool) (representable : Representable steps) :
    (finite negative steps representable).roundHalfAway =
      finite negative (nearestOnes steps * unit) (representable_ones representable) := by
  rw [roundHalfAway_finite]
  exact ofSteps_finite negative (roundSteps_of_leading (representable_ones representable).1) _

theorem representable_quotient (representable : Representable steps) (large : unit ≤ power) :
    Representable (roundSteps (steps * unit) power) := by
  have kept := roundSteps_le (Nat.lt_of_lt_of_le unit_pos large) representable.1
    (Nat.mul_le_mul_left steps large)
  exact ⟨roundSteps_leading _ _, Nat.lt_of_le_of_lt kept representable.2⟩

theorem div_representable (representable : Representable steps)
    {powerFits : Representable power} (large : unit ≤ power) :
    finite negative steps representable / finite false power powerFits =
      finite negative (roundSteps (steps * unit) power)
        (representable_quotient representable large) := by
  rw [div_finite (Nat.lt_of_lt_of_le unit_pos large).ne', Bool.bne_false]
  exact ofSteps_finite negative rfl _

/-- Every power of ten that is a number is at least one. -/
theorem powerOfTen_number (high : j ≤ 308) : ∃ power fits,
    powerOfTen j = finite false power fits ∧ unit ≤ power := by
  rcases Nat.lt_or_ge 15 j with above | small
  · obtain ⟨power, fits, same, large⟩ := isLarge_cases (isLarge_powerOfTen (by omega) high)
    exact ⟨power, fits, same, Nat.le_trans (Nat.le_mul_of_pos_left _ (twoTo_pos 33)) large⟩
  · obtain ⟨fits, same⟩ := powerOfTen_finite small
    exact ⟨_, fits, same, Nat.le_mul_of_pos_left _ (tenTo_pos j)⟩

/-- The result is finite as long as a count of steps is in the range, and else infinite. -/
structure WithinRange (negative : Bool) (scaled : ℕ) (result : Binary64) : Prop where
  inside : roundSteps scaled 1 < stepLimit → result.isFinite
  outside : stepLimit ≤ roundSteps scaled 1 → result = infinite negative

theorem withinRange_ofSteps (negative : Bool) (scaled : ℕ) :
    WithinRange negative scaled (ofSteps negative scaled 1) :=
  ⟨isFinite_ofSteps.2, ofSteps_infinite negative⟩

/-! The magnitude of a finite number, rounded. -/

/-- The steps of the multiple of a power that is nearest to a magnitude. -/
def nearestMultiple (steps power : ℕ) : ℕ := nearestOnes (roundSteps (steps * unit) power) * power

theorem roundMagnitude_down (places : digits.toInt? = some (-(j : ℤ))) (positive : 0 < j)
    {powerFits : Representable power} (same : powerOfTen j = finite false power powerFits)
    (large : unit ≤ power) : roundMagnitude (finite false steps representable) digits =
      ofSteps false (nearestMultiple steps power) 1 := by
  rw [roundMagnitude_downward _ places positive, same, div_representable representable large,
    roundHalfAway_ones, mul_finite]
  exact ofSteps_congr (roundSteps_scaled _ _)

theorem withinRange_up (places : digits.toInt? = some (j : ℤ)) (small : j ≤ 15) :
    WithinRange false (steps * tenTo j)
      (roundMagnitude (finite false steps representable) digits) := by
  obtain ⟨fits, same⟩ := powerOfTen_finite small
  have large : unit ≤ tenTo j * unit := Nat.le_mul_of_pos_left _ (tenTo_pos j)
  have scaled : roundSteps (steps * (tenTo j * unit)) unit = roundSteps (steps * tenTo j) 1 := by
    rw [← Nat.mul_assoc, Nat.mul_right_comm, roundSteps_scaled]
  rw [roundMagnitude_upward _ places, same, mul_finite, ofSteps_congr scaled, Bool.bne_false]
  refine ⟨fun inside => ?_, fun outside => ?_⟩
  · have representable : Representable (roundSteps (steps * tenTo j) 1) :=
      ⟨roundSteps_leading _ _, inside⟩
    rw [ofSteps_finite false rfl representable, roundHalfAway_ones, div_representable _ large]
    rfl
  · rw [ofSteps_infinite false outside]
    rfl

/-! The sign of a finite number. -/

theorem isFinite_signum_mul {z : Binary64} (bounded : z.isFinite) :
    ((finite negative steps representable).signum * z).isFinite := by
  obtain ⟨fits, same⟩ := signum_finite negative representable
  cases z with
  | nan | infinite _ => cases bounded
  | finite other steps' representable' =>
    have fewer : (if steps = 0 then 0 else 1) * steps' ≤ steps' * 1 := by
      split
      · omega
      · omega
    rw [same, mul_finite, isFinite_ofSteps, roundSteps_scaled]
    exact Nat.lt_of_le_of_lt (roundSteps_le one_pos representable'.1 fewer) representable'.2

theorem signum_mul_infinite (nonzero : steps ≠ 0) :
    (finite negative steps representable).signum * infinite false = infinite negative := by
  obtain ⟨fits, same⟩ := signum_finite negative representable
  have product : (if steps = 0 then 0 else 1) * unit ≠ 0 := by
    rw [if_neg nonzero, Nat.one_mul]
    exact unit_pos.ne'
  rw [same]
  change Binary64.mul _ _ = _
  rw [Binary64.mul, if_neg product, Bool.bne_false]

theorem isFinite_unsignedZero (x : Binary64) : x.unsignedZero.isFinite = x.isFinite := by
  have positive : isFinite 0 = true := by decide +kernel
  unfold unsignedZero
  split
  · next zero =>
    cases x with
    | nan | infinite _ => cases zero
    | finite _ _ _ => exact positive
  · rfl

theorem WithinRange.signed {scaled : ℕ} {z : Binary64} (range : WithinRange false scaled z)
    (zero : steps = 0 → scaled = 0) : WithinRange negative scaled
      ((finite negative steps representable).signum * z).unsignedZero := by
  refine ⟨fun inside => ?_, fun outside => ?_⟩
  · rw [isFinite_unsignedZero]
    exact isFinite_signum_mul (range.inside inside)
  · have nonzero : steps ≠ 0 := by
      intro nothing
      rw [zero nothing, roundSteps_zero] at outside
      exact Nat.not_lt.2 outside (twoTo_pos 2098)
    rw [range.outside outside, signum_mul_infinite nonzero]
    rfl

/-! Finite numbers rounded to a whole number of places. -/

/-- The magnitude of a finite number in steps. -/
def magnitude (x : Binary64) : ℕ := x.signedSteps.natAbs

theorem magnitude_finite : (finite negative steps representable).magnitude = steps := by
  rw [magnitude, signedSteps]
  split
  · rw [Int.natAbs_neg, Int.natAbs_natCast]
  · exact Int.natAbs_natCast steps

theorem nearestOnes_zero : nearestOnes 0 = 0 := by
  have whole := nearest_whole 0
  rwa [Nat.zero_mul] at whole

theorem roundTo_up (number : x.isFinite) (places : digits.toInt? = some (j : ℤ)) (small : j ≤ 15) :
    WithinRange x.negative (x.magnitude * tenTo j) (x.roundTo digits) := by
  have low : ¬lt 15 digits := mt (fifteen_lt places).1 (by omega)
  rw [roundTo_scaled number low]
  cases x with
  | nan | infinite _ => cases number
  | finite negative steps representable =>
    rw [magnitude_finite]
    exact (withinRange_up places small).signed fun nothing => by rw [nothing, Nat.zero_mul]

theorem roundTo_down (number : x.isFinite) (places : digits.toInt? = some (-(j : ℤ)))
    (positive : 0 < j) (high : j ≤ 308) : WithinRange x.negative
      (nearestMultiple x.magnitude (powerOfTen j).magnitude) (x.roundTo digits) := by
  have low : ¬lt 15 digits := mt (fifteen_lt places).1 (by omega)
  obtain ⟨power, fits, same, large⟩ := powerOfTen_number high
  rw [roundTo_scaled number low]
  cases x with
  | nan | infinite _ => cases number
  | finite negative steps representable =>
    rw [same, magnitude_finite, magnitude_finite]
    refine WithinRange.signed ?_ fun nothing => ?_
    · rw [abs, roundMagnitude_down places positive same large]
      exact withinRange_ofSteps false _
    · rw [nothing, nearestMultiple, Nat.zero_mul, roundSteps_zero, nearestOnes_zero, Nat.zero_mul]

/-! Magnitudes that stay in the range. -/

theorem scaled_inside (small : j ≤ 15) (moderate : steps < twoTo 2047) :
    roundSteps (steps * tenTo j) 1 < stepLimit := by
  have below := Nat.mul_lt_mul'' moderate (tenTo_lt small)
  rw [← twoTo_add, ← Nat.mul_one (twoTo _)] at below
  have rounded := roundSteps_lt_twoTo Nat.one_pos (by decide) below
  have limit : twoTo (2047 + 50 + 1) ≤ twoTo 2098 := twoTo_le (by decide)
  exact Nat.lt_of_lt_of_le rounded limit

/-- The multiple is nothing, the power itself or at most one and a half times the magnitude. -/
theorem multiple_inside (fits : Representable power) (large : unit ≤ power)
    (moderate : steps < twoTo 2097) : roundSteps (nearestMultiple steps power) 1 < stepLimit := by
  have quotient : twoTo 53 ≤ roundSteps (steps * unit) power →
      8 * (roundSteps (steps * unit) power * power) ≤ 9 * (steps * unit) :=
    roundSteps_mul_le (Nat.lt_of_lt_of_le unit_pos large)
  unfold nearestMultiple
  generalize roundSteps (steps * unit) power = rounded at *
  have one := unit_pos
  have wide : twoTo 53 ≤ unit := twoTo_le (by decide)
  have ones : nearestOnes rounded * (2 * unit) ≤ 2 * rounded + unit := Nat.div_mul_le_self _ _
  generalize nearestOnes rounded = count at *
  rcases Nat.lt_or_ge count 2 with few | many
  · have kept : count * power ≤ power * 1 := by
      rw [Nat.mul_comm power]
      exact Nat.mul_le_mul_right _ (by omega)
    exact Nat.lt_of_le_of_lt (roundSteps_le one_pos fits.1 kept) fits.2
  · have twice := Nat.mul_le_mul_right (2 * unit) many
    have error := quotient (by omega)
    have ratio : 3 * (count * unit) ≤ 4 * rounded := by linarith
    have bound : 2 * (count * power) ≤ 3 * steps := by
      have scaled := Nat.mul_le_mul_right power ratio
      refine Nat.le_of_mul_le_mul_right ?_ one
      linarith
    have limit : Representable (3 * twoTo 2096) := by decide +kernel
    have double : twoTo 2097 = 2 * twoTo 2096 := twoTo_succ 2096
    have below : count * power ≤ 3 * twoTo 2096 * 1 := by omega
    exact Nat.lt_of_le_of_lt (roundSteps_le one_pos limit.1 below) limit.2

end Binary64
end TypedVectors
