import Mathlib.Tactic.ByContra
import TypedVectors.Binary64.Arithmetic

/-!
Rounding whole numbers: those of at most 53 leading bits are kept, and no larger one becomes small.
The whole part of a number has no more leading bits than the number, so that cutting is exact.
-/
namespace TypedVectors

theorem div_le_nearestEven (num den : Nat) : num / den ≤ nearestEven num den := by
  unfold nearestEven
  dsimp only
  split <;> try split
  all_goals omega

theorem nearestEven_of_dvd {num den : Nat} (positive : 0 < den) (whole : den ∣ num) :
    nearestEven num den = num / den := by
  unfold nearestEven
  dsimp only
  rw [Nat.mod_eq_zero_of_dvd whole, if_pos (by omega)]

theorem roundSteps_of_leading {n : Nat} (leading : n % twoTo (binaryLog n + 1 - 53) = 0) :
    roundSteps n 1 = n := by
  have whole := Nat.dvd_of_mod_eq_zero leading
  unfold roundSteps
  dsimp only
  rw [Nat.div_one, Nat.one_mul, nearestEven_of_dvd (twoTo_pos _) whole, Nat.div_mul_cancel whole]

theorem roundSteps_small {n : Nat} (small : n < twoTo 53) : roundSteps n 1 = n := by
  have log : binaryLog n < 53 := by
    by_cases zero : n = 0
    · rw [zero]
      decide
    · exact (binaryLog_lt_iff zero).2 small
  refine roundSteps_of_leading ?_
  rw [Nat.sub_eq_zero_of_le log]
  exact Nat.mod_one n

theorem twoTo_binaryLog_le {n : Nat} (nonzero : n ≠ 0) : twoTo (binaryLog n) ≤ n :=
  Nat.not_lt.1 fun below => Nat.lt_irrefl _ ((binaryLog_lt_iff nonzero).2 below)

/-- The leading bit of a quotient stays when it is rounded. -/
theorem twoTo_binaryLog_le_roundSteps {num den : Nat} (nonzero : num / den ≠ 0) :
    twoTo (binaryLog (num / den)) ≤ roundSteps num den := by
  have leading := twoTo_binaryLog_le nonzero
  have kept : num / den / twoTo (binaryLog (num / den) + 1 - 53) ≤
      nearestEven num (den * twoTo (binaryLog (num / den) + 1 - 53)) := by
    rw [Nat.div_div_eq_div_mul]
    exact div_le_nearestEven _ _
  unfold roundSteps
  dsimp only
  generalize num / den = quotient at *
  rcases Nat.lt_or_ge (binaryLog quotient) 52 with low | high
  · have whole : twoTo (binaryLog quotient + 1 - 53) = 1 := by
      rw [Nat.sub_eq_zero_of_le (by omega)]
      rfl
    rw [whole, Nat.div_one] at kept
    rw [whole, Nat.mul_one]
    exact Nat.le_trans leading kept
  · have split : twoTo 52 * twoTo (binaryLog quotient + 1 - 53) = twoTo (binaryLog quotient) := by
      rw [← twoTo_add, show 52 + (binaryLog quotient + 1 - 53) = binaryLog quotient by omega]
    rw [← split] at leading
    have bits := (Nat.le_div_iff_mul_le (twoTo_pos _)).2 leading
    rw [← split]
    exact Nat.mul_le_mul_right _ (Nat.le_trans bits kept)

theorem twoTo_le_roundSteps {num den exponent : Nat} (large : twoTo exponent ≤ num / den) :
    twoTo exponent ≤ roundSteps num den := by
  have nonzero : num / den ≠ 0 := Nat.ne_of_gt (Nat.lt_of_lt_of_le (twoTo_pos exponent) large)
  refine Nat.le_trans (twoTo_le ?_) (twoTo_binaryLog_le_roundSteps nonzero)
  by_contra low
  exact Nat.not_lt.2 large ((binaryLog_lt_iff nonzero).1 (Nat.not_le.1 low))

/-- Larger numbers are kept to 53 leading bits, so that they stay large. -/
theorem le_roundSteps_large {n : Nat} (large : twoTo 53 ≤ n) : twoTo 53 ≤ roundSteps n 1 :=
  twoTo_le_roundSteps (by rwa [Nat.div_one])

theorem binaryLog_mono {m n : Nat} (below : m ≤ n) : binaryLog m ≤ binaryLog n := by
  by_cases zero : m = 0
  · subst zero
    exact Nat.zero_le _
  · refine Nat.le_of_lt_succ ((binaryLog_lt_iff zero).2 ?_)
    exact Nat.lt_of_le_of_lt below (lt_twoTo_binaryLog n)

namespace Binary64

theorem ofSteps_congr {negative : Bool} {num den num' den' : Nat}
    (same : roundSteps num den = roundSteps num' den') :
    ofSteps negative num den = ofSteps negative num' den' := by
  unfold ofSteps
  simp only [same]

theorem ofSteps_ne_nan (negative : Bool) (num den : Nat) : ofSteps negative num den ≠ nan := by
  unfold ofSteps
  split
  · exact nofun
  · exact nofun

theorem ofSteps_finite {num den steps : Nat} (negative : Bool)
    (rounded : roundSteps num den = steps) (representable : Representable steps) :
    ofSteps negative num den = finite negative steps representable := by
  subst rounded
  have bounded : roundSteps num den < stepLimit := representable.2
  unfold ofSteps
  rw [dif_pos bounded]

theorem ofSteps_infinite {num den : Nat} (negative : Bool)
    (large : stepLimit ≤ roundSteps num den) : ofSteps negative num den = infinite negative := by
  have unbounded : ¬roundSteps num den < stepLimit := Nat.not_lt.2 large
  unfold ofSteps
  rw [dif_neg unbounded]

theorem leading_whole {steps : Nat} (leading : steps % twoTo (binaryLog steps + 1 - 53) = 0) :
    steps / unit * unit % twoTo (binaryLog (steps / unit * unit) + 1 - 53) = 0 := by
  have fewer := binaryLog_mono (Nat.div_mul_le_self steps unit)
  have divides := Nat.dvd_of_mod_eq_zero leading
  refine Nat.mod_eq_zero_of_dvd ?_
  -- The zeros below the leading bits end below one or reach above it.
  rcases Nat.le_total (binaryLog (steps / unit * unit) + 1 - 53) 1074 with low | high
  · exact Nat.dvd_trans (twoTo_dvd low) (Nat.dvd_mul_left unit _)
  · have whole : unit ∣ steps := Nat.dvd_trans (twoTo_dvd (by omega)) divides
    rw [Nat.div_mul_cancel whole]
    exact Nat.dvd_trans (twoTo_dvd (by omega)) divides

theorem unit_pos : 0 < unit := twoTo_pos 1074

/-- The whole part of a finite number is the number of ones in it, toward zero. -/
theorem toInt?_trunc {x : Binary64} (finite : x.isFinite) :
    x.trunc.toInt? = some (x.signedSteps.tdiv unit) := by
  cases x with
  | nan | infinite negative => cases finite
  | finite negative steps representable =>
    have kept := roundSteps_of_leading (leading_whole representable.1)
    have bounded : roundSteps (steps / unit * unit) 1 < stepLimit := by
      rw [kept]
      exact Nat.lt_of_le_of_lt (Nat.div_mul_le_self steps unit) representable.2
    have ones : roundSteps (steps / unit * unit) 1 / unit = steps / unit := by
      rw [kept, Nat.mul_div_cancel _ unit_pos]
    have whole : roundSteps (steps / unit * unit) 1 % unit = 0 := by
      rw [kept]
      exact Nat.mul_mod_left _ _
    rw [trunc, ofSteps, dif_pos bounded]
    unfold toInt? signedSteps
    dsimp only
    rw [if_pos whole, ones]
    cases negative with
    | false => rfl
    | true => rw [if_pos rfl, if_pos rfl, Int.neg_tdiv, Int.ofNat_tdiv]

end Binary64
end TypedVectors
