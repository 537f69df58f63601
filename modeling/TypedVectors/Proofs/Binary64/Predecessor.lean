import TypedVectors.Proofs.Binary64.Tolerance

/-!
One less than a number that is at least one. A number with a fraction lies below two to the power
53, where one is a multiple of its last bit, so that the difference is exact and keeps the fraction.
A whole number gives a whole number, rounded once.
-/
namespace TypedVectors
namespace Binary64

variable {x : Binary64} {steps count : ℕ} {representable : Representable steps}

theorem representable_unit : Representable unit := by
  obtain ⟨fits, -⟩ := ofSteps_shifted false (by decide : 1 ≤ twoTo 53)
  rwa [Nat.one_mul] at fits

theorem one_eq : (1 : Binary64) = finite false unit representable_unit := by
  have literal : (1 : Binary64) = ofNat 1 := rfl
  rw [literal, ofNat, Nat.one_mul]
  exact ofSteps_finite false (roundSteps_of_leading representable_unit.1) _

/-- Numbers from one on are positive counts of steps. -/
theorem one_le_success (finite : x.isFinite) (first : Binary64.le 1 x) :
    ∃ steps representable, x = .finite false steps representable ∧ unit ≤ steps := by
  have positive := unit_pos
  rw [one_eq, le_iff rfl finite, signedSteps_false] at first
  cases x with
  | nan | infinite _ => cases finite
  | finite negative steps representable =>
    cases negative with
    | false => exact ⟨steps, representable, rfl, Int.ofNat_le.1 first⟩
    | true =>
      have below : (Binary64.finite true steps representable).signedSteps = -(steps : ℤ) := rfl
      omega

theorem sub_one (first : unit ≤ steps) :
    finite false steps representable - 1 = ofSteps false (steps - unit) 1 := by
  have total : (finite false steps representable).signedSteps +
      (finite true unit representable_unit).signedSteps = ((steps - unit : ℕ) : ℤ) := by
    change (steps : ℤ) + -(unit : ℤ) = _
    omega
  have negative : (if ((steps - unit : ℕ) : ℤ) = 0 then false && true
      else decide (((steps - unit : ℕ) : ℤ) < 0)) = false := by
    split
    · rfl
    · exact decide_eq_false (by omega)
  rw [one_eq]
  change finite false steps representable + finite true unit representable_unit = _
  rw [add_finite, total]
  dsimp only
  rw [negative, Int.natAbs_natCast]

theorem representable_sub_unit (representable : Representable steps) (fraction : ¬unit ∣ steps) :
    Representable (steps - unit) := by
  have fewer := binaryLog_mono (Nat.sub_le steps unit)
  have divides := Nat.dvd_of_mod_eq_zero representable.1
  have low : binaryLog steps + 1 - 53 ≤ 1074 := by
    by_contra high
    exact fraction (Nat.dvd_trans (twoTo_dvd (by omega)) divides)
  have shorter : twoTo (binaryLog (steps - unit) + 1 - 53) ∣ twoTo (binaryLog steps + 1 - 53) :=
    twoTo_dvd (by omega)
  have leading := Nat.dvd_trans shorter (Nat.dvd_sub divides (twoTo_dvd low))
  exact ⟨Nat.mod_eq_zero_of_dvd leading,
    Nat.lt_of_le_of_lt (Nat.sub_le steps unit) representable.2⟩

theorem sub_one_fraction (representable : Representable steps) (first : unit ≤ steps)
    (fraction : ¬unit ∣ steps) :
    ∃ fits, finite false steps representable - 1 = finite false (steps - unit) fits := by
  have fits := representable_sub_unit representable fraction
  refine ⟨fits, ?_⟩
  rw [sub_one first]
  exact ofSteps_finite false (roundSteps_of_leading fits.1) fits

theorem sub_one_whole (representable : Representable steps) (ones : steps = (count + 1) * unit) :
    ∃ fits, finite false steps representable - 1 =
      finite false (roundSteps count 1 * unit) fits := by
  have rest : steps - unit = count * unit := by rw [ones, Nat.add_one_mul, Nat.add_sub_cancel]
  have first : unit ≤ steps := by
    rw [ones]
    exact Nat.le_mul_of_pos_left unit (Nat.add_one_pos count)
  have rounded := roundSteps_le one_pos representable.1
    (Nat.le_trans (Nat.sub_le steps unit) (Nat.mul_one steps).ge)
  have leading := roundSteps_leading (steps - unit) 1
  rw [rest, roundSteps_units] at rounded leading
  refine ⟨⟨leading, Nat.lt_of_le_of_lt rounded representable.2⟩, ?_⟩
  rw [sub_one first, rest]
  exact ofSteps_finite false (roundSteps_units count) _

theorem isWhole_iff (representable : Representable steps) :
    (finite false steps representable).isWhole ↔ unit ∣ steps := by
  rw [isWhole, toInt?, Nat.dvd_iff_mod_eq_zero]
  split
  · next ones => exact iff_of_true rfl ones
  · next fraction => exact iff_of_false Bool.false_ne_true fraction

/-- Beside a number with a fraction, the rounding of a count does not matter. -/
theorem lt_ofNat_fraction (representable : Representable steps) (fraction : ¬unit ∣ steps)
    (count : ℕ) :
    (finite false steps representable).lt (ofNat count) ↔ steps / unit < count := by
  have small : steps < twoTo 53 * unit :=
    Nat.not_le.1 (mt (unit_dvd_steps representable) fraction)
  rw [ofNat, lt_level (ne_nan_of_finite rfl) (ofSteps_ne_nan _ _ _), level_ofSteps, level_finite,
    if_neg Bool.false_ne_true, if_neg Bool.false_ne_true, Int.ofNat_lt,
    Nat.div_lt_iff_lt_mul unit_pos]
  rcases Nat.le_total count (twoTo 53) with few | many
  · have kept : roundSteps (count * unit) 1 = count * unit := roundSteps_shifted few 1074
    rw [kept, Nat.min_eq_left (shifted_lt_stepLimit few).le]
  · have reached := Nat.mul_le_mul_right unit (le_roundSteps_large many)
    rw [← roundSteps_units] at reached
    have units := Nat.mul_le_mul_right unit many
    have limit := representable.2
    exact iff_of_true (by omega) (by omega)

end Binary64
end TypedVectors
