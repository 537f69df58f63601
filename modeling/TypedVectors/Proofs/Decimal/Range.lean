import TypedVectors.Proofs.Decimal.Leading

/-!
Fifteen digits at the ends of the range of numbers. They never take a number to zero, but the
largest numbers reach past the range, from the middle of the two decimals of fifteen digits around
its end.
-/
namespace TypedVectors.Decimal

/-- The least magnitude, in steps, whose fifteen digits reach past the range of numbers. -/
def roundingLimit : ℕ := 1797693134862315 * tenTo 293 * Binary64.unit

theorem roundingLimit_pos : 0 < roundingLimit :=
  Nat.mul_pos (Nat.mul_pos (by decide) (tenTo_pos 293)) Binary64.unit_pos

theorem roundingLimit_le : tenTo 308 * Binary64.unit ≤ roundingLimit := by
  rw [show 308 = 15 + 293 from rfl, tenTo_add]
  exact Nat.mul_le_mul_right _ (Nat.mul_le_mul_right _ (by decide))

theorem stepLimit_le : stepLimit ≤ tenTo 309 * Binary64.unit := by decide +kernel

/-- The last fifteen digit decimal below the end of the range and the first above it. The former
stays below it even when it is rounded to 53 leading bits. -/
theorem stepLimit_between :
    179769313486231 * (tenTo 294 * Binary64.unit) * 9007199254740992 <
        stepLimit * 9007199254740991 ∧
      stepLimit ≤ 179769313486232 * (tenTo 294 * Binary64.unit) := by
  decide +kernel

theorem roundingLimit_eq :
    ((179769313486232 : ℕ) - 1 / 2 : ℚ) * (tenTo 294 * Binary64.unit : ℕ) = roundingLimit := by
  rw [show 294 = 293 + 1 from rfl, tenTo_add, show tenTo 1 = 10 from rfl, roundingLimit]
  generalize tenTo 293 = power, Binary64.unit = unit
  push_cast
  ring

/-- The last digit of the largest numbers goes up at the limit. -/
theorem le_coefficient_top {steps : ℕ} (top : leadingExponent steps = 308) :
    179769313486232 ≤ (ofLeading 15 steps).coefficient ↔ roundingLimit ≤ steps := by
  have exponent : (ofLeading 15 steps).exponent = (294 : ℕ) := by
    rw [exponent_ofLeading, top]
    rfl
  rw [le_coefficient_iff, exponent, scale_natCast, roundingLimit_eq]
  exact Nat.cast_le

section

variable {steps : ℕ} (nonzero : steps ≠ 0) (bounded : steps < stepLimit)
include nonzero bounded

theorem fifteen_ne_zero : (ofLeading 15 steps).rounded ≠ 0 := by
  have lower := (leadingExponent_bounds nonzero bounded).1
  have error := (abs_le.1 (fifteen_error steps)).1
  have digits : scale (leadingExponent steps) =
      100000000000000 * scale (leadingExponent steps - 14) := by
    rw [show leadingExponent steps = leadingExponent steps - 14 + (14 : ℕ) by push_cast; ring,
      scale_add]
    norm_num [tenTo]
  have one : (1 : ℚ) ≤ steps := by exact_mod_cast Nat.pos_of_ne_zero nonzero
  intro zero
  have either := (ofLeading 15 steps).rounded_cases
  rw [zero] at either
  rcases either with ⟨_, nearest⟩ | ⟨large, _⟩
  · have near := (abs_le.1 nearest.error).2
    rw [Nat.cast_zero, sub_zero] at near
    linarith only [near, error, digits, lower, one]
  · exact absurd (twoTo_pos 53) (Nat.not_lt.2 large)

theorem leadingExponent_le : leadingExponent steps ≤ 308 := by
  have lower := (leadingExponent_bounds nonzero bounded).1
  by_contra above
  have reach := (scale_mono (show ((309 : ℕ) : ℤ) ≤ leadingExponent steps by omega)).trans lower
  rw [scale_natCast] at reach
  have low : tenTo 309 * Binary64.unit ≤ steps := by exact_mod_cast reach
  exact absurd bounded (Nat.not_lt.2 (stepLimit_le.trans low))

theorem fifteen_below (below : steps < roundingLimit) :
    (ofLeading 15 steps).inSteps ≤ 179769313486231 * scale 294 := by
  rcases (leadingExponent_le nonzero bounded).lt_or_eq with lower | top
  · have reach : (ofLeading 15 steps).inSteps ≤ scale (leadingExponent steps + 1) := by
      have unit := scale_pos (leadingExponent steps - 14)
      rcases fifteen_reach nonzero bounded with same | short
      · exact same.le
      · linarith only [short, unit]
    have power := scale_add 294 14
    have unit := scale_pos 294
    norm_num [tenTo] at power
    linarith only [reach, scale_mono (show leadingExponent steps + 1 ≤ 308 by omega), power, unit]
  · have digits := Nat.le_of_lt_succ (not_le.1 (mt (le_coefficient_top top).1 (Nat.not_le.2 below)))
    rw [inSteps_fifteen, top]
    exact mul_le_mul_of_nonneg_right (by exact_mod_cast digits) (scale_pos 294).le

theorem fifteen_above (reached : roundingLimit ≤ steps) :
    179769313486232 * scale 294 ≤ (ofLeading 15 steps).inSteps := by
  have top : leadingExponent steps = 308 := by
    refine le_antisymm (leadingExponent_le nonzero bounded) ?_
    by_contra lower
    have less := (leadingExponent_bounds nonzero bounded).2.trans_le
      (scale_mono (show leadingExponent steps + 1 ≤ (308 : ℕ) by omega))
    rw [scale_natCast] at less
    have below : steps < tenTo 308 * Binary64.unit := by exact_mod_cast less
    exact absurd (roundingLimit_le.trans reached) (Nat.not_le.2 below)
  have digits := (le_coefficient_top top).2 reached
  rw [inSteps_fifteen, top]
  exact mul_le_mul_of_nonneg_right (by exact_mod_cast digits) (scale_pos 294).le

/-- Fifteen digits reach past the range exactly from the limit on. -/
theorem stepLimit_le_rounded_iff :
    stepLimit ≤ (ofLeading 15 steps).rounded ↔ roundingLimit ≤ steps := by
  have below := fifteen_below nonzero bounded
  have above := fifteen_above nonzero bounded
  have either := (ofLeading 15 steps).rounded_cases
  obtain ⟨within, past⟩ := stepLimit_between
  rw [show scale 294 = (tenTo 294 * Binary64.unit : ℕ) from scale_natCast 294] at below above
  generalize tenTo 294 = ten, Binary64.unit = unit at *
  constructor
  · intro reached
    by_contra less
    have value := below (Nat.not_le.1 less)
    rcases either with ⟨small, _⟩ | ⟨_, near⟩
    · have limit : twoTo 53 ≤ stepLimit := twoTo_le (show 53 ≤ 2098 by omega)
      exact absurd (limit.trans reached) (Nat.not_le.2 small)
    · have close := (near_bounds near).2
      have low : 179769313486231 * ((ten * unit : ℕ) : ℚ) * 9007199254740992 <
          stepLimit * 9007199254740991 := by
        exact_mod_cast within
      have high : (stepLimit : ℚ) ≤ (ofLeading 15 steps).rounded := by exact_mod_cast reached
      linarith only [close, value, low, high]
  · intro reached
    refine twoTo_le_rounded (le_trans ?_ (above reached))
    exact_mod_cast past

end

end TypedVectors.Decimal
