import TypedVectors.Proofs.Binary64.Overflow

/-!
The order of double precision numbers as that of whole numbers. Every number but not-a-number has a
level, its count of steps or the limit for the infinite ones. Rounding keeps the order, and with it
sums and multiples do.
-/
namespace TypedVectors

theorem NearestTo.mono {x y : ℚ} {k other : ℕ} (below : x ≤ y) (first : NearestTo x k)
    (second : NearestTo y other) : k ≤ other := by
  by_contra above
  have step : (other : ℚ) + 1 ≤ k := by exact_mod_cast Nat.lt_of_not_le above
  have upper := (abs_le.1 first.error).1
  have lower := (abs_le.1 second.error).2
  -- Both numbers lie in the middle between the whole ones, which cannot go both ways.
  have same : x = y := by linarith
  subst same
  exact above (first.unique second).le

theorem nearestEven_mono {num den num' den' : ℕ} (positive : 0 < den) (positive' : 0 < den')
    (below : (num : ℚ) / den ≤ num' / den') : nearestEven num den ≤ nearestEven num' den' :=
  (nearestTo_nearestEven positive num).mono below (nearestTo_nearestEven positive' num')

theorem roundSteps_mono {num den num' den' : ℕ} (positive : 0 < den) (positive' : 0 < den')
    (below : (num : ℚ) / den ≤ num' / den') : roundSteps num den ≤ roundSteps num' den' := by
  have floors : num / den ≤ num' / den' := by
    rw [← Nat.floor_div_eq_div (K := ℚ), ← Nat.floor_div_eq_div (K := ℚ)]
    exact Nat.floor_le_floor below
  rcases (binaryLog_mono floors).eq_or_lt with same | fewer
  · -- The same bits are cut off on both sides.
    unfold roundSteps
    dsimp only
    rw [same]
    have gap := twoTo_pos (binaryLog (num' / den') + 1 - 53)
    generalize twoTo (binaryLog (num' / den') + 1 - 53) = width at *
    refine Nat.mul_le_mul_right width
      (nearestEven_mono (Nat.mul_pos positive gap) (Nat.mul_pos positive' gap) ?_)
    push_cast
    rw [← div_div, ← div_div]
    exact div_le_div_of_nonneg_right below (Nat.cast_nonneg _)
  · -- A power of two lies between the two quotients.
    have nonzero : num' / den' ≠ 0 := by
      intro nothing
      have zero : binaryLog 0 = 0 := by decide
      rw [nothing, zero] at fewer
      exact Nat.not_lt_zero _ fewer
    have leading : twoTo (binaryLog (num' / den')) %
        twoTo (binaryLog (twoTo (binaryLog (num' / den'))) + 1 - 53) = 0 := by
      rw [binaryLog_twoTo]
      exact Nat.mod_eq_zero_of_dvd (twoTo_dvd (by omega))
    have reach : num ≤ twoTo (binaryLog (num' / den')) * den := by
      have next : num < (num / den + 1) * den := by
        rw [Nat.add_one_mul]
        exact Nat.lt_div_mul_add positive
      have power := Nat.lt_of_lt_of_le (lt_twoTo_binaryLog (num / den)) (twoTo_le fewer)
      exact Nat.le_trans next.le (Nat.mul_le_mul_right den power)
    exact Nat.le_trans (roundSteps_le positive leading reach)
      (twoTo_binaryLog_le_roundSteps nonzero)

theorem roundSteps_one_mono {m n : ℕ} (below : m ≤ n) : roundSteps m 1 ≤ roundSteps n 1 := by
  refine roundSteps_mono one_pos one_pos ?_
  rw [Nat.cast_one, div_one, div_one]
  exact_mod_cast below

namespace Binary64

variable {x y z : Binary64} {m n : ℤ} {negative : Bool} {steps : ℕ}
  {representable : Representable steps}

/-- The place of a number in the order: its count of steps, and the limit for infinite numbers. -/
def level : Binary64 → ℤ
  | nan => 0
  | infinite negative => if negative then -(stepLimit : ℤ) else stepLimit
  | finite negative steps _ => if negative then -(steps : ℤ) else steps

theorem level_infinite :
    (infinite negative).level = if negative then -(stepLimit : ℤ) else stepLimit := rfl

theorem level_finite : (finite negative steps representable).level =
    if negative then -(steps : ℤ) else steps := rfl

/-- A count of steps rounded to the level of a number. -/
def roundedLevel (n : ℤ) : ℤ :=
  if n < 0 then -((min (roundSteps n.natAbs 1) stepLimit : ℕ) : ℤ)
  else (min (roundSteps n.natAbs 1) stepLimit : ℕ)

theorem stepLimit_pos : 0 < stepLimit := twoTo_pos 2098

theorem level_bounds (x : Binary64) : -(stepLimit : ℤ) ≤ x.level ∧ x.level ≤ stepLimit := by
  have positive := stepLimit_pos
  cases x with
  | nan => exact ⟨neg_nonpos.2 (Int.natCast_nonneg _), Int.natCast_nonneg _⟩
  | infinite negative =>
    rw [level_infinite]
    split <;> omega
  | finite negative steps representable =>
    have inside := representable.2
    rw [level_finite]
    split <;> omega

theorem level_finite_bounds (finite : x.isFinite) :
    -(stepLimit : ℤ) < x.level ∧ x.level < stepLimit := by
  cases x with
  | nan | infinite _ => cases finite
  | finite negative steps representable =>
    have inside := representable.2
    rw [level_finite]
    split <;> omega

theorem isFinite_of_level (number : x ≠ nan) (low : -(stepLimit : ℤ) < x.level)
    (high : x.level < stepLimit) : x.isFinite := by
  cases x with
  | nan => exact absurd rfl number
  | finite _ _ _ => rfl
  | infinite negative =>
    cases negative with
    | false => exact absurd high (lt_irrefl _)
    | true => exact absurd low (lt_irrefl _)

theorem ne_nan_of_finite (finite : x.isFinite) : x ≠ nan := by
  rintro rfl
  cases finite

theorem isNaN_eq_false (number : x ≠ nan) : x.isNaN = false := by
  cases x with
  | nan => exact absurd rfl number
  | infinite _ | finite _ _ _ => rfl

section Comparison

variable (left : x ≠ nan) (right : y ≠ nan)
include left right

theorem compare?_level : x.compare? y = some (compare x.level y.level) := by
  have positive : (0 : ℤ) < stepLimit := by exact_mod_cast stepLimit_pos
  cases x with
  | nan => exact absurd rfl left
  | infinite a =>
    cases y with
    | nan => exact absurd rfl right
    | infinite b =>
      have above : compare (stepLimit : ℤ) (-stepLimit) = .gt := compare_gt_iff_gt.2 (by omega)
      have below : compare (-(stepLimit : ℤ)) stepLimit = .lt := compare_lt_iff_lt.2 (by omega)
      cases a with
      | false =>
        cases b with
        | false => exact congrArg some (compare_eq_iff_eq.2 rfl).symm
        | true => exact congrArg some above.symm
      | true =>
        cases b with
        | false => exact congrArg some below.symm
        | true => exact congrArg some (compare_eq_iff_eq.2 rfl).symm
    | finite b steps representable =>
      have bounds := level_finite_bounds (x := finite b steps representable) rfl
      cases a with
      | false => exact congrArg some (compare_gt_iff_gt.2 bounds.2).symm
      | true => exact congrArg some (compare_lt_iff_lt.2 bounds.1).symm
  | finite a steps representable =>
    cases y with
    | nan => exact absurd rfl right
    | infinite b =>
      have bounds := level_finite_bounds (x := finite a steps representable) rfl
      cases b with
      | false => exact congrArg some (compare_lt_iff_lt.2 bounds.2).symm
      | true => exact congrArg some (compare_gt_iff_gt.2 bounds.1).symm
    | finite _ _ _ => rfl

theorem lt_level : x.lt y ↔ x.level < y.level := by
  rw [lt, compare?_level left right, beq_iff_eq, Option.some_inj, compare_lt_iff_lt]

theorem le_level : x.le y ↔ x.level ≤ y.level := by
  rw [le, Bool.or_eq_true, lt_level left right, compare?_level left right, beq_iff_eq,
    Option.some_inj, compare_eq_iff_eq, le_iff_lt_or_eq]

theorem min_cases : x.min y = x ∧ x.level ≤ y.level ∨ x.min y = y ∧ y.level ≤ x.level := by
  have first := lt_level left right
  have second := lt_level right left
  unfold Binary64.min
  rw [isNaN_eq_false left, isNaN_eq_false right, Bool.false_or, if_neg Bool.false_ne_true]
  split
  · next below => exact .inl ⟨rfl, (first.1 below).le⟩
  · next notBelow =>
    have reached := not_lt.1 (mt first.2 notBelow)
    split
    · exact .inr ⟨rfl, reached⟩
    · next notAbove =>
      have same := not_lt.1 (mt second.2 notAbove)
      split
      · exact .inl ⟨rfl, same⟩
      · exact .inr ⟨rfl, reached⟩

theorem max_cases : x.max y = x ∧ y.level ≤ x.level ∨ x.max y = y ∧ x.level ≤ y.level := by
  have first := lt_level left right
  have second := lt_level right left
  unfold Binary64.max
  rw [isNaN_eq_false left, isNaN_eq_false right, Bool.false_or, if_neg Bool.false_ne_true]
  split
  · next below => exact .inr ⟨rfl, (first.1 below).le⟩
  · next notBelow =>
    have reached := not_lt.1 (mt first.2 notBelow)
    split
    · exact .inl ⟨rfl, reached⟩
    · next notAbove =>
      have same := not_lt.1 (mt second.2 notAbove)
      split
      · exact .inr ⟨rfl, same⟩
      · exact .inl ⟨rfl, reached⟩

theorem level_min : (x.min y).level = Min.min x.level y.level := by
  rcases min_cases left right with ⟨same, below⟩ | ⟨same, below⟩
  · rw [same, min_eq_left below]
  · rw [same, min_eq_right below]

theorem level_max : (x.max y).level = Max.max x.level y.level := by
  rcases max_cases left right with ⟨same, below⟩ | ⟨same, below⟩
  · rw [same, max_eq_left below]
  · rw [same, max_eq_right below]

theorem min_ne_nan : x.min y ≠ nan := by
  rcases min_cases left right with ⟨same, -⟩ | ⟨same, -⟩
  · rwa [same]
  · rwa [same]

theorem max_ne_nan : x.max y ≠ nan := by
  rcases max_cases left right with ⟨same, -⟩ | ⟨same, -⟩
  · rwa [same]
  · rwa [same]

end Comparison

theorem roundedLevel_zero : roundedLevel 0 = 0 := by
  rw [roundedLevel, if_neg (lt_irrefl 0), Int.natAbs_zero, roundSteps_zero, Nat.zero_min,
    Nat.cast_zero]

theorem roundedLevel_mono (below : m ≤ n) : roundedLevel m ≤ roundedLevel n := by
  unfold roundedLevel
  split
  · next negative =>
    split
    · have rounded := roundSteps_one_mono (m := n.natAbs) (n := m.natAbs) (by omega)
      omega
    · omega
  · have rounded := roundSteps_one_mono (m := m.natAbs) (n := n.natAbs) (by omega)
    rw [if_neg (by omega)]
    omega

theorem level_ofSteps (negative : Bool) (num den : ℕ) : (ofSteps negative num den).level =
    if negative then -((min (roundSteps num den) stepLimit : ℕ) : ℤ)
    else (min (roundSteps num den) stepLimit : ℕ) := by
  unfold ofSteps
  split
  · next bounded =>
    rw [Nat.min_eq_left bounded.le]
    rfl
  · next unbounded =>
    rw [Nat.min_eq_right (Nat.not_lt.1 unbounded)]
    rfl

theorem roundedLevel_signed (negative : Bool) (steps : ℕ) :
    roundedLevel (if negative then -(steps : ℤ) else steps) =
      if negative then -((min (roundSteps steps 1) stepLimit : ℕ) : ℤ)
      else (min (roundSteps steps 1) stepLimit : ℕ) := by
  unfold roundedLevel
  cases negative with
  | false => rw [if_neg Bool.false_ne_true, if_neg (by omega), if_neg Bool.false_ne_true,
      Int.natAbs_natCast]
  | true =>
    rw [if_pos rfl, if_pos rfl, Int.natAbs_neg, Int.natAbs_natCast]
    by_cases zero : steps = 0
    · rw [zero, roundSteps_zero, Nat.zero_min]
      rfl
    · rw [if_pos (by omega)]

/-- A finite number is at the level of its steps, which are not rounded any more. -/
theorem roundedLevel_level (finite : x.isFinite) : roundedLevel x.level = x.level := by
  cases x with
  | nan | infinite _ => cases finite
  | finite negative steps representable =>
    rw [level_finite, roundedLevel_signed, roundSteps_of_leading representable.1,
      Nat.min_eq_left representable.2.le]

theorem level_add (left : x.isFinite) (right : y.isFinite) :
    (x + y).level = roundedLevel (x.level + y.level) := by
  cases x with
  | nan | infinite _ => cases left
  | finite a steps leftFits =>
    cases y with
    | nan | infinite _ => cases right
    | finite b steps' rightFits =>
      rw [add_finite, level_ofSteps]
      change _ = roundedLevel ((finite a steps leftFits).signedSteps +
        (finite b steps' rightFits).signedSteps)
      generalize (finite a steps leftFits).signedSteps +
        (finite b steps' rightFits).signedSteps = total
      unfold roundedLevel
      by_cases zero : total = 0
      · subst zero
        rw [Int.natAbs_zero, roundSteps_zero, Nat.zero_min, Nat.cast_zero, Int.neg_zero, ite_self,
          ite_self]
      · simp only [zero, if_false, decide_eq_true_eq]

theorem add_ne_nan (left : x.isFinite) (right : y ≠ nan) : x + y ≠ nan := by
  cases x with
  | nan | infinite _ => cases left
  | finite _ _ _ =>
    cases y with
    | nan => exact absurd rfl right
    | infinite _ => exact nofun
    | finite _ _ _ =>
      rw [add_finite]
      exact ofSteps_ne_nan _ _ _

theorem level_add_mono (left : x.isFinite) (first : y ≠ nan) (second : z ≠ nan)
    (below : y.level ≤ z.level) : (x + y).level ≤ (x + z).level := by
  cases x with
  | nan | infinite _ => cases left
  | finite a steps representable =>
    cases y with
    | nan => exact absurd rfl first
    | infinite b =>
      cases b with
      | true => exact (level_bounds _).1
      | false =>
        cases z with
        | nan => exact absurd rfl second
        | infinite c =>
          cases c with
          | false => exact le_rfl
          | true => exact below
        | finite c others fits =>
          have bounds := level_finite_bounds (x := finite c others fits) rfl
          exact absurd below (not_le.2 bounds.2)
    | finite b others fits =>
      cases z with
      | nan => exact absurd rfl second
      | infinite c =>
        cases c with
        | false => exact (level_bounds _).2
        | true =>
          have bounds := level_finite_bounds (x := finite b others fits) rfl
          exact absurd below (not_le.2 bounds.1)
      | finite c rest restFits =>
        rw [level_add rfl rfl, level_add rfl rfl]
        exact roundedLevel_mono (by omega)

theorem level_zero : (0 : Binary64).level = 0 := by
  rw [zero_eq]
  rfl

theorem zero_ne_nan : (0 : Binary64) ≠ nan := by
  rw [zero_eq]
  exact nofun

theorem zero_lt_level (finite : x.isFinite) : Binary64.lt 0 x ↔ 0 < x.level := by
  rw [lt_level zero_ne_nan (ne_nan_of_finite finite), level_zero]

theorem level_lt_zero (finite : x.isFinite) : x.lt 0 ↔ x.level < 0 := by
  rw [lt_level (ne_nan_of_finite finite) zero_ne_nan, level_zero]

section Multiple

variable {count : ℕ} (small : count ≤ twoTo 53) (finite : y.isFinite)
include small finite

theorem mul_ofNat_ne_nan : ofNat count * y ≠ nan := by
  obtain ⟨fits, kept⟩ := ofSteps_shifted false small
  cases y with
  | nan | infinite _ => cases finite
  | finite _ _ _ =>
    rw [ofNat, kept, mul_finite]
    exact ofSteps_ne_nan _ _ _

theorem level_mul_ofNat : (ofNat count * y).level = roundedLevel (count * y.level) := by
  obtain ⟨fits, kept⟩ := ofSteps_shifted false small
  cases y with
  | nan | infinite _ => cases finite
  | finite negative steps representable =>
    have scaled : roundSteps (count * unit * steps) unit = roundSteps (count * steps) 1 :=
      roundSteps_scaled count steps
    rw [ofNat, kept, mul_finite, level_ofSteps, scaled]
    have signed : (count : ℤ) * (if negative then -(steps : ℤ) else steps) =
        if negative then -((count * steps : ℕ) : ℤ) else (count * steps : ℕ) := by
      push_cast
      split <;> ring
    rw [level_finite, signed, roundedLevel_signed, Bool.false_bne]

end Multiple

/-! Whole numbers: their levels are whole counts of ones. -/

theorem signedSteps_eq_level (finite : x.isFinite) : x.signedSteps = x.level := by
  cases x with
  | nan | infinite _ => cases finite
  | finite _ _ _ => rfl

theorem level_whole (whole : x.toInt? = some n) : x.level = n * unit := by
  obtain ⟨_, representable, rfl, sign⟩ := toInt?_success whole
  rw [← signedSteps_eq_level rfl, signedSteps_eq sign]

theorem toInt?_of_level (finite : x.isFinite) (ones : x.level = n * unit) :
    x.toInt? = some n := by
  have positive := natCast_unit_pos
  cases x with
  | nan | infinite _ => cases finite
  | finite negative steps representable =>
    rw [level_finite] at ones
    have magnitude : steps = n.natAbs * unit := by
      have natural := congrArg Int.natAbs ones
      rw [Int.natAbs_mul, Int.natAbs_natCast] at natural
      cases negative with
      | false => rwa [if_neg Bool.false_ne_true, Int.natAbs_natCast] at natural
      | true => rwa [if_pos rfl, Int.natAbs_neg, Int.natAbs_natCast] at natural
    unfold toInt?
    dsimp only
    rw [if_pos (by rw [magnitude, Nat.mul_mod_left]), Option.some_inj]
    refine Int.eq_of_mul_eq_mul_right positive.ne' ?_
    rw [← ones, magnitude, Nat.mul_div_cancel _ unit_pos]
    push_cast
    split <;> ring

theorem unit_dvd_stepLimit : unit ∣ stepLimit := twoTo_dvd (by decide)

theorem unit_dvd_roundedLevel (ones : (unit : ℤ) ∣ n) : (unit : ℤ) ∣ roundedLevel n := by
  have rounded : unit ∣ min (roundSteps n.natAbs 1) stepLimit := by
    obtain ⟨count, whole⟩ := Int.natCast_dvd.1 ones
    rw [whole, Nat.mul_comm, roundSteps_units]
    rcases Nat.le_total (roundSteps count 1 * unit) stepLimit with below | above
    · rw [Nat.min_eq_left below]
      exact Nat.dvd_mul_left _ _
    · rw [Nat.min_eq_right above]
      exact unit_dvd_stepLimit
  have signed := Int.natCast_dvd_natCast.2 rounded
  unfold roundedLevel
  split
  · exact Int.dvd_neg.2 signed
  · exact signed

theorem unit_dvd_level_infinite : (unit : ℤ) ∣ (infinite negative).level := by
  have limit := Int.natCast_dvd_natCast.2 unit_dvd_stepLimit
  rw [level_infinite]
  split
  · exact Int.dvd_neg.2 limit
  · exact limit

theorem unit_dvd_level_add (left : x.isFinite) (right : y ≠ nan)
    (leftOnes : (unit : ℤ) ∣ x.level) (rightOnes : (unit : ℤ) ∣ y.level) :
    (unit : ℤ) ∣ (x + y).level := by
  cases y with
  | nan => exact absurd rfl right
  | infinite negative =>
    cases x with
    | nan | infinite _ => cases left
    | finite _ _ _ => exact unit_dvd_level_infinite
  | finite _ _ _ =>
    rw [level_add left rfl]
    exact unit_dvd_roundedLevel (Int.dvd_add leftOnes rightOnes)

theorem fitsInteger_iff_level : x.fitsInteger ↔
    x ≠ nan ∧ (unit : ℤ) ∣ x.level ∧ x.level.natAbs ≤ integerLimit * unit := by
  have positive := unit_pos
  constructor
  · intro fits
    obtain ⟨n, whole, limited⟩ := fitsInteger_iff.1 fits
    refine ⟨ne_nan_of_finite (isFinite_of_whole whole), ?_, ?_⟩
    · rw [level_whole whole]
      exact Int.dvd_mul_left _ _
    · rw [level_whole whole, Int.natAbs_mul, Int.natAbs_natCast]
      exact Nat.mul_le_mul_right unit limited
  · rintro ⟨number, ⟨n, ones⟩, limited⟩
    have few : integerLimit ≤ twoTo 53 := by decide
    have inside := shifted_lt_stepLimit few
    have finite := isFinite_of_level number (by omega) (by omega)
    rw [Int.mul_comm] at ones
    rw [ones, Int.natAbs_mul, Int.natAbs_natCast] at limited
    exact fitsInteger_iff.2 ⟨n, toInt?_of_level finite ones,
      Nat.le_of_mul_le_mul_right limited positive⟩

section Whole

variable (left : x.toInt? = some m) (right : y.toInt? = some n)
include left right

theorem le_whole : x.le y ↔ m ≤ n := by
  rw [le_level (ne_nan_of_finite (isFinite_of_whole left))
    (ne_nan_of_finite (isFinite_of_whole right)), level_whole left, level_whole right]
  exact mul_le_mul_iff_left₀ natCast_unit_pos

theorem equals_whole : x.equals y ↔ m = n := by
  have positive := natCast_unit_pos
  rw [equals, compare?_level (ne_nan_of_finite (isFinite_of_whole left))
    (ne_nan_of_finite (isFinite_of_whole right)), level_whole left, level_whole right, beq_iff_eq,
    Option.some_inj, compare_eq_iff_eq]
  exact mul_left_inj' positive.ne'

theorem toInt?_min : (x.min y).toInt? = some (Min.min m n) := by
  have order := mul_le_mul_iff_left₀ (b := m) (c := n) natCast_unit_pos
  have reverse := mul_le_mul_iff_left₀ (b := n) (c := m) natCast_unit_pos
  rcases min_cases (ne_nan_of_finite (isFinite_of_whole left))
    (ne_nan_of_finite (isFinite_of_whole right)) with ⟨same, below⟩ | ⟨same, below⟩
  all_goals rw [level_whole left, level_whole right] at below
  · rw [same, left, min_eq_left (order.1 below)]
  · rw [same, right, min_eq_right (reverse.1 below)]

theorem toInt?_max : (x.max y).toInt? = some (Max.max m n) := by
  have order := mul_le_mul_iff_left₀ (b := m) (c := n) natCast_unit_pos
  have reverse := mul_le_mul_iff_left₀ (b := n) (c := m) natCast_unit_pos
  rcases max_cases (ne_nan_of_finite (isFinite_of_whole left))
    (ne_nan_of_finite (isFinite_of_whole right)) with ⟨same, below⟩ | ⟨same, below⟩
  all_goals rw [level_whole left, level_whole right] at below
  · rw [same, left, max_eq_left (reverse.1 below)]
  · rw [same, right, max_eq_right (order.1 below)]

end Whole
end Binary64
end TypedVectors
