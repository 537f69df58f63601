import Mathlib.Algebra.Order.Field.Rat
import Mathlib.Algebra.Order.Floor.Semifield
import Mathlib.Data.Nat.Cast.Order.Field
import Mathlib.Data.Rat.Floor
import Mathlib.Tactic.FieldSimp
import Mathlib.Tactic.Linarith
import Mathlib.Tactic.Positivity
import TypedVectors.Proofs.Binary64.Rounding

/-!
Rounding against the exact quotient. Below two to the power 53 the rounded number is a nearest whole
number, the even one of two, and from there on it is near in proportion. Both depend on the quotient
alone, not on how it is written.
-/
namespace TypedVectors

/-- No whole number is nearer, and of two that are equally near this is the even one. -/
def NearestTo (x : ℚ) (k : ℕ) : Prop := |x - k| < 1 / 2 ∨ |x - k| = 1 / 2 ∧ k % 2 = 0

namespace NearestTo

variable {x y : ℚ} {k other : ℕ}

theorem error (nearest : NearestTo x k) : |x - k| ≤ 1 / 2 := by
  rcases nearest with near | ⟨tie, _⟩
  · exact near.le
  · exact tie.le

/-- What lies no further from a number than something that rounds to it rounds to it as well. -/
theorem of_nearer (nearest : NearestTo x k) (nearer : |y - k| ≤ |x - k|) : NearestTo y k := by
  rcases nearest with near | ⟨tie, even⟩
  · exact .inl (nearer.trans_lt near)
  · rcases nearer.lt_or_eq with strict | same
    · exact .inl (strict.trans_eq tie)
    · exact .inr ⟨same.trans tie, even⟩

theorem unique (here : NearestTo x k) (there : NearestTo x other) : k = other := by
  have through : |(k : ℚ) - other| ≤ |x - k| + |x - other| := by
    rw [abs_sub_comm x k]
    exact abs_sub_le _ x _
  have whole : ∀ apart : ℤ, apart ≤ (k : ℤ) - other ∨ apart ≤ -((k : ℤ) - other) →
      (apart : ℚ) ≤ |(k : ℚ) - other| := fun apart bound => by exact_mod_cast le_abs.2 bound
  by_contra different
  have apart : (1 : ℚ) ≤ |(k : ℚ) - other| := by exact_mod_cast whole 1 (by omega)
  have hereError := here.error
  have thereError := there.error
  rcases here with near | ⟨tie, even⟩
  · linarith
  · rcases there with near | ⟨otherTie, otherEven⟩
    · linarith
    · -- Two even numbers differ by two at least.
      have further : (2 : ℚ) ≤ |(k : ℚ) - other| := by exact_mod_cast whole 2 (by omega)
      linarith

end NearestTo

theorem quotient_eq {den : ℕ} (positive : 0 < den) (num : ℕ) :
    (num : ℚ) / den = (num / den : ℕ) + (num % den : ℕ) / (den : ℚ) := by
  have nonzero : (den : ℚ) ≠ 0 := by exact_mod_cast positive.ne'
  have split : (num : ℚ) = den * (num / den : ℕ) + (num % den : ℕ) := by
    exact_mod_cast (Nat.div_add_mod num den).symm
  field_simp
  linarith

theorem div_lt_half_iff {den : ℕ} (positive : 0 < den) (num : ℕ) :
    (num : ℚ) / den < 1 / 2 ↔ 2 * num < den := by
  rw [div_lt_div_iff₀ (by exact_mod_cast positive) two_pos, one_mul, mul_comm]
  exact_mod_cast Iff.rfl

theorem half_lt_div_iff {den : ℕ} (positive : 0 < den) (num : ℕ) :
    1 / 2 < (num : ℚ) / den ↔ den < 2 * num := by
  rw [div_lt_div_iff₀ two_pos (by exact_mod_cast positive), one_mul, mul_comm]
  exact_mod_cast Iff.rfl

theorem nearestTo_nearestEven {den : ℕ} (positive : 0 < den) (num : ℕ) :
    NearestTo ((num : ℚ) / den) (nearestEven num den) := by
  have scale : (0 : ℚ) < den := by exact_mod_cast positive
  have rest_lt : ((num % den : ℕ) : ℚ) / den < 1 := by
    rw [div_lt_one scale]
    exact_mod_cast Nat.mod_lt num positive
  have rest_nonneg : 0 ≤ ((num % den : ℕ) : ℚ) / den := by positivity
  have half := div_lt_half_iff positive (num % den)
  have upper := half_lt_div_iff positive (num % den)
  rw [quotient_eq positive]
  unfold nearestEven
  dsimp only
  generalize num / den = floor
  generalize num % den = rest at *
  generalize (rest : ℚ) / den = fraction at *
  split
  · next low =>
    left
    rw [add_sub_cancel_left, abs_of_nonneg rest_nonneg]
    exact half.2 low
  · next notLow =>
    split
    · next high =>
      left
      have above := upper.2 high
      push_cast
      rw [abs_lt]
      constructor
      · linarith
      · linarith
    · next notHigh =>
      right
      have middle : fraction = 1 / 2 :=
        le_antisymm (not_lt.1 (mt upper.1 notHigh)) (not_lt.1 (mt half.1 notLow))
      rcases Nat.mod_two_eq_zero_or_one floor with even | odd
      · rw [even, Nat.add_zero, add_sub_cancel_left, middle]
        exact ⟨by norm_num, even⟩
      · rw [odd, middle]
        push_cast
        refine ⟨?_, by omega⟩
        rw [add_sub_add_left_eq_sub]
        norm_num

theorem nearestEven_eq_iff {num den k : ℕ} (positive : 0 < den) :
    nearestEven num den = k ↔ NearestTo ((num : ℚ) / den) k := by
  constructor
  · rintro rfl
    exact nearestTo_nearestEven positive num
  · exact (nearestTo_nearestEven positive num).unique

theorem nearestEven_congr {num den num' den' : ℕ} (positive : 0 < den) (positive' : 0 < den')
    (same : (num : ℚ) / den = num' / den') : nearestEven num den = nearestEven num' den' := by
  rw [nearestEven_eq_iff positive, same, ← nearestEven_eq_iff positive']

theorem roundSteps_congr {num den num' den' : ℕ} (positive : 0 < den) (positive' : 0 < den')
    (same : (num : ℚ) / den = num' / den') : roundSteps num den = roundSteps num' den' := by
  have floors : num / den = num' / den' := by
    rw [← Nat.floor_div_eq_div (K := ℚ), same, Nat.floor_div_eq_div]
  unfold roundSteps
  dsimp only
  rw [floors]
  generalize hgap : twoTo (binaryLog (num' / den') + 1 - 53) = gap
  have gapPositive : 0 < gap := hgap ▸ twoTo_pos _
  rw [nearestEven_congr (Nat.mul_pos positive gapPositive) (Nat.mul_pos positive' gapPositive)]
  push_cast
  rw [← div_div, same, div_div]

theorem roundSteps_eq_nearestEven {num den : ℕ} (small : num / den < twoTo 53) :
    roundSteps num den = nearestEven num den := by
  have whole : twoTo (binaryLog (num / den) + 1 - 53) = 1 := by
    have log : binaryLog (num / den) < 53 := by
      by_cases zero : num / den = 0
      · rw [zero]
        decide
      · exact (binaryLog_lt_iff zero).2 small
    rw [Nat.sub_eq_zero_of_le log]
    rfl
  unfold roundSteps
  dsimp only
  rw [whole, Nat.mul_one, Nat.mul_one]

section Rounding

variable {num den : ℕ} (positive : 0 < den)
include positive

theorem roundSteps_of_nearest {steps : ℕ} (small : steps < twoTo 53)
    (nearest : NearestTo ((num : ℚ) / den) steps) : roundSteps num den = steps := by
  have below : num / den < steps + 1 := by
    have floor : ((num / den : ℕ) : ℚ) ≤ num / den := Nat.cast_div_le
    have error := (abs_le.1 nearest.error).2
    have strict : ((num / den : ℕ) : ℚ) < ((steps + 1 : ℕ) : ℚ) := by
      push_cast
      linarith
    exact_mod_cast strict
  rw [roundSteps_eq_nearestEven (by omega)]
  exact (nearestEven_eq_iff positive).2 nearest

/-- The error is at most half the distance between numbers of 53 leading bits. -/
theorem roundSteps_error (num : ℕ) :
    |(num : ℚ) / den - roundSteps num den| ≤ twoTo (binaryLog (num / den) + 1 - 53) / 2 := by
  unfold roundSteps
  dsimp only
  generalize hgap : twoTo (binaryLog (num / den) + 1 - 53) = gap
  have gapPositive : 0 < gap := hgap ▸ twoTo_pos _
  have scale : (0 : ℚ) < gap := by exact_mod_cast gapPositive
  have error := (nearestTo_nearestEven (Nat.mul_pos positive gapPositive) num).error
  generalize nearestEven num (den * gap) = leading at error
  have scaled : (num : ℚ) / den - (leading * gap : ℕ) =
      (num / (den * gap : ℕ) - leading) * gap := by
    push_cast
    field_simp
  rw [scaled, abs_mul, abs_of_pos scale]
  linarith [mul_le_mul_of_nonneg_right error scale.le]

/-- What is rounded to less than two to the power 53 is nearest, and what is rounded to more is near
in proportion. -/
theorem roundSteps_cases (num : ℕ) :
    roundSteps num den < twoTo 53 ∧ NearestTo ((num : ℚ) / den) (roundSteps num den) ∨
      twoTo 53 ≤ roundSteps num den ∧
        |(num : ℚ) / den - roundSteps num den| * twoTo 53 ≤ roundSteps num den := by
  rcases Nat.lt_or_ge (num / den) (twoTo 53) with low | high
  · have nearest := nearestTo_nearestEven positive num
    rw [← roundSteps_eq_nearestEven low] at nearest
    rcases Nat.lt_or_ge (roundSteps num den) (twoTo 53) with small | large
    · exact .inl ⟨small, nearest⟩
    · refine .inr ⟨large, ?_⟩
      have bound : ((twoTo 53 : ℕ) : ℚ) ≤ roundSteps num den := by exact_mod_cast large
      have power : (0 : ℚ) < twoTo 53 := by exact_mod_cast twoTo_pos 53
      linarith [mul_le_mul_of_nonneg_right nearest.error power.le]
  · refine .inr ⟨twoTo_le_roundSteps high, ?_⟩
    have nonzero : num / den ≠ 0 := Nat.ne_of_gt (Nat.lt_of_lt_of_le (twoTo_pos 53) high)
    have log : 53 ≤ binaryLog (num / den) + 1 := by
      by_contra low
      exact Nat.not_lt.2 high ((binaryLog_lt_iff nonzero).1 (by omega))
    have spread : twoTo (binaryLog (num / den) + 1 - 53) * twoTo 53 =
        2 * twoTo (binaryLog (num / den)) := by
      rw [← twoTo_add, Nat.sub_add_cancel log, twoTo_add, Nat.mul_comm]
      rfl
    have leading : ((twoTo (binaryLog (num / den)) : ℕ) : ℚ) ≤ roundSteps num den := by
      exact_mod_cast twoTo_binaryLog_le_roundSteps nonzero
    have power : (0 : ℚ) < twoTo 53 := by exact_mod_cast twoTo_pos 53
    calc |(num : ℚ) / den - roundSteps num den| * twoTo 53
        ≤ twoTo (binaryLog (num / den) + 1 - 53) / 2 * twoTo 53 :=
          mul_le_mul_of_nonneg_right (roundSteps_error positive num) power.le
      _ = ((twoTo (binaryLog (num / den) + 1 - 53) * twoTo 53 : ℕ) : ℚ) / 2 := by
          push_cast
          ring
      _ = twoTo (binaryLog (num / den)) := by
          rw [spread]
          push_cast
          ring
      _ ≤ roundSteps num den := leading

end Rounding

end TypedVectors
