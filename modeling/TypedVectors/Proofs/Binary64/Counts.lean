import TypedVectors.Proofs.Binary64.Order

/-!
Counts in double precision. Up to 2⁵³ sums are exact, and a counter that has got there stays there.
A product that does not pass a limit is exact, and once it does every further factor keeps it past
the limit, rounded or infinite. A product with zero is zero or, beside an infinite one, not a
number, and passes no limit.
-/
namespace TypedVectors
namespace Binary64

variable {x y z : Binary64} {ones most m n k : ℕ}

theorem count_unique (here : x.toInt? = some (m : ℤ)) (there : x.toInt? = some (n : ℤ)) :
    m = n := by
  rwa [here, Option.some_inj, Int.ofNat_inj] at there

section Sum

variable (left : x.toInt? = some (m : ℤ)) (right : y.toInt? = some (n : ℤ))
include left right

theorem toInt?_add_count (small : m + n ≤ twoTo 53) :
    (x + y).toInt? = some ((m + n : ℕ) : ℤ) := by
  rw [Nat.cast_add]
  exact toInt?_of_eq_ofInt (unsignedZero_add left right) (by omega)

end Sum

section Counter

/-- The counter of a loop after so many rounds. -/
def counter : ℕ → Binary64
  | 0 => 0
  | rounds + 1 => counter rounds + 1

theorem toInt?_one : (1 : Binary64).toInt? = some ((1 : ℕ) : ℤ) := by decide +kernel

/-- The number after 2⁵³ is rounded to it. -/
theorem toInt?_add_one_last (last : x.toInt? = some (twoTo 53 : ℤ)) :
    (x + 1).toInt? = some (twoTo 53 : ℤ) := by
  rw [← toInt?_unsignedZero, unsignedZero_add last toInt?_one]
  decide +kernel

theorem toInt?_counter (rounds : ℕ) :
    (counter rounds).toInt? = some ((min rounds (twoTo 53) : ℕ) : ℤ) := by
  induction rounds with
  | zero => decide +kernel
  | succ rounds ih =>
    rcases Nat.lt_or_ge rounds (twoTo 53) with before | there
    · rw [Nat.min_eq_left before.le] at ih
      rw [Nat.min_eq_left before]
      exact toInt?_add_count ih toInt?_one before
    · rw [Nat.min_eq_right there] at ih
      rw [Nat.min_eq_right (Nat.le_succ_of_le there)]
      exact toInt?_add_one_last ih

/-- A loop goes on below its limit. No counter gets past 2⁵³. -/
theorem counter_lt_iff (limit : x.toInt? = some (n : ℤ)) (rounds : ℕ) :
    (counter rounds).lt x ↔ min rounds (twoTo 53) < n := by
  rw [lt_whole (toInt?_counter rounds) limit, Int.ofNat_lt]

end Counter

/-- At least so many ones. -/
inductive AtLeast (ones : ℕ) : Binary64 → Prop
  | finite {steps : ℕ} (representable : Representable steps) (many : ones * unit ≤ steps) :
      AtLeast ones (.finite false steps representable)
  | infinite : AtLeast ones (.infinite false)

theorem atLeast_ofSteps {num den : ℕ} (positive : 0 < den) (small : ones ≤ twoTo 53)
    (many : ones * unit * den ≤ num) : AtLeast ones (ofSteps false num den) := by
  have kept : roundSteps (ones * unit) 1 = ones * unit := roundSteps_shifted small 1074
  have rounded : roundSteps (ones * unit) 1 ≤ roundSteps num den := by
    refine roundSteps_mono one_pos positive ?_
    rw [Nat.cast_one, div_one, le_div_iff₀ (by exact_mod_cast positive)]
    exact_mod_cast many
  rw [kept] at rounded
  unfold ofSteps
  split
  · exact .finite _ rounded
  · exact .infinite

theorem atLeast_ofNat (small : ones ≤ twoTo 53) (many : ones ≤ m) : AtLeast ones (ofNat m) := by
  refine atLeast_ofSteps one_pos small ?_
  rw [Nat.mul_one]
  exact Nat.mul_le_mul_right unit many

theorem AtLeast.lt (past : AtLeast (most + 1) x) (small : most < twoTo 53) :
    (ofNat most).lt x := by
  have level := level_whole (toInt?_ofNat small.le)
  have next : most * unit < (most + 1) * unit :=
    Nat.mul_lt_mul_of_pos_right (Nat.lt_succ_self most) unit_pos
  have below : ((most : ℤ) * unit) < x.level := by
    cases past with
    | finite representable many =>
      rw [level_finite, if_neg Bool.false_ne_true]
      exact_mod_cast Nat.lt_of_lt_of_le next many
    | infinite =>
      rw [level_infinite, if_neg Bool.false_ne_true]
      exact_mod_cast shifted_lt_stepLimit small.le
  have number : x ≠ nan := by
    cases past with
    | finite _ _ => exact nofun
    | infinite => exact nofun
  have count : ofNat most ≠ nan := ofSteps_ne_nan _ _ _
  rwa [lt_level count number, level]

/-- A positive whole number is made of its ones. -/
theorem positive_success (whole : y.toInt? = some (n : ℤ)) (positive : 0 < n) :
    ∃ representable, y = finite false (n * unit) representable := by
  obtain ⟨negative, representable, same, sign⟩ := toInt?_success whole
  have bit : negative = false := by
    rw [sign (by omega)]
    exact decide_eq_false (by omega)
  subst bit
  exact ⟨representable, same⟩

theorem infinite_mul {a b : Bool} {steps : ℕ} {representable : Representable steps} :
    infinite a * finite b steps representable =
      if steps = 0 then nan else infinite (a != b) := by
  change Binary64.mul _ _ = _
  rw [Binary64.mul]

theorem AtLeast.mul (many : AtLeast ones x) (whole : y.toInt? = some (n : ℤ)) (positive : 0 < n)
    (small : k ≤ twoTo 53) (fewer : k ≤ ones * n) : AtLeast k (x * y) := by
  obtain ⟨fits, rfl⟩ := positive_success whole positive
  cases many with
  | finite representable many =>
    rw [mul_finite, Bool.bne_false]
    refine atLeast_ofSteps unit_pos small ?_
    refine Nat.le_trans ?_ (Nat.mul_le_mul_right (n * unit) many)
    generalize unit = unit
    calc k * unit * unit ≤ ones * n * unit * unit := by gcongr
      _ = ones * unit * (n * unit) := by ring
  | infinite =>
    have nonzero : n * unit ≠ 0 := (Nat.mul_pos positive unit_pos).ne'
    rw [infinite_mul, if_neg nonzero]
    exact .infinite

/-! Zeros and not-a-number are at level zero. -/

theorem level_mul_zero (x : Binary64) (zero : y.toInt? = some 0) : (x * y).level = 0 := by
  obtain ⟨negative, representable, rfl, -⟩ := toInt?_success zero
  have nothing : (0 : ℤ).natAbs * unit = 0 := by rw [Int.natAbs_zero, Nat.zero_mul]
  cases x with
  | nan => rfl
  | infinite sign =>
    rw [infinite_mul, if_pos nothing]
    rfl
  | finite sign steps fits =>
    rw [mul_finite, nothing, Nat.mul_zero, ofSteps_zero, level_finite]
    split
    · rfl
    · rfl

theorem level_zero_mul (zero : x.level = 0) (finite : y.isFinite) : (x * y).level = 0 := by
  cases y with
  | nan | infinite _ => cases finite
  | finite sign steps fits =>
    cases x with
    | nan => rfl
    | infinite negative =>
      have positive := stepLimit_pos
      rw [level_infinite] at zero
      split at zero <;> omega
    | finite negative others otherFits =>
      have nothing : others = 0 := by
        rw [level_finite] at zero
        split at zero <;> omega
      rw [mul_finite, nothing, Nat.zero_mul, ofSteps_zero, level_finite]
      split
      · rfl
      · rfl

theorem not_lt_of_level_zero (zero : x.level = 0) (count : ℕ) : (ofNat count).lt x = false := by
  by_cases number : x = nan
  · rw [number, lt, compare?_nan]
    rfl
  · have present : ofNat count ≠ nan := ofSteps_ne_nan _ _ _
    refine eq_false_of_ne_true (mt (lt_level present number).1 (not_lt.2 ?_))
    rw [zero, ofNat, level_ofSteps, if_neg Bool.false_ne_true]
    exact Int.natCast_nonneg _

theorem not_lt_whole (small : most ≤ twoTo 53) (whole : x.toInt? = some (m : ℤ))
    (within : m ≤ most) : (ofNat most).lt x = false :=
  eq_false_of_ne_true (mt (lt_whole (toInt?_ofNat small) whole).1 (by omega))

theorem min_mul_le {limit : ℕ} (positive : 0 < n) : min (m * n) limit ≤ min m limit * n := by
  rcases Nat.le_total m limit with below | above
  · rw [Nat.min_eq_left below]
    exact Nat.min_le_left _ _
  · rw [Nat.min_eq_right above]
    exact Nat.le_trans (Nat.min_le_right _ _) (Nat.le_mul_of_pos_right limit positive)

section Product

variable (small : most < twoTo 53) (m : ℕ) (second : y.toInt? = some (n : ℤ))
  (third : z.toInt? = some (k : ℤ))
include small second third

theorem lt_product (past : most < m * n * k) : (ofNat most).lt (ofNat m * y * z) := by
  have nonzero : m * n * k ≠ 0 := (Nat.zero_lt_of_lt past).ne'
  have last : 0 < k := Nat.pos_of_ne_zero (right_ne_zero_of_mul nonzero)
  have middle : 0 < n := Nat.pos_of_ne_zero (right_ne_zero_of_mul (left_ne_zero_of_mul nonzero))
  -- Each product counts as far as one past the limit.
  have first : AtLeast (min m (most + 1)) (ofNat m) :=
    atLeast_ofNat (by omega) (Nat.min_le_left _ _)
  have pair : AtLeast (min (m * n) (most + 1)) (ofNat m * y) :=
    first.mul second middle (by omega) (min_mul_le middle)
  have triple : AtLeast (most + 1) (ofNat m * y * z) := by
    refine pair.mul third last small (Nat.le_trans ?_ (min_mul_le last))
    omega
  exact triple.lt small

theorem not_lt_product (within : m * n * k ≤ most) :
    (ofNat most).lt (ofNat m * y * z) = false := by
  have finite := isFinite_of_whole third
  have middle := isFinite_of_whole second
  by_cases nothing : m * n * k = 0
  · refine not_lt_of_level_zero ?_ most
    rcases Nat.mul_eq_zero.1 nothing with pair | rfl
    · refine level_zero_mul ?_ finite
      rcases Nat.mul_eq_zero.1 pair with rfl | rfl
      · exact level_zero_mul level_zero middle
      · exact level_mul_zero _ second
    · exact level_mul_zero _ third
  · have last : 0 < k := Nat.pos_of_ne_zero (right_ne_zero_of_mul nothing)
    have middle : 0 < n := Nat.pos_of_ne_zero (right_ne_zero_of_mul (left_ne_zero_of_mul nothing))
    have pairWithin : m * n ≤ most := Nat.le_trans (Nat.le_mul_of_pos_right _ last) within
    have firstWithin : m ≤ most := Nat.le_trans (Nat.le_mul_of_pos_right _ middle) pairWithin
    have first : (ofNat m).toInt? = Option.some (m : ℤ) := toInt?_ofNat (by omega)
    have pair : (ofNat m * y).toInt? = Option.some ((m * n : ℕ) : ℤ) := by
      rw [Nat.cast_mul]
      exact toInt?_mul first second (by rw [← Nat.cast_mul, Int.natAbs_natCast]; omega)
    have triple : (ofNat m * y * z).toInt? = Option.some ((m * n * k : ℕ) : ℤ) := by
      rw [Nat.cast_mul (m * n)]
      exact toInt?_mul pair third (by rw [← Nat.cast_mul, Int.natAbs_natCast]; omega)
    exact not_lt_whole small.le triple within

/-- A limit is passed by a product as it is computed exactly when the product passes it. -/
theorem lt_product_iff : (ofNat most).lt (ofNat m * y * z) ↔ most < m * n * k := by
  rcases Nat.lt_or_ge most (m * n * k) with past | within
  · exact iff_of_true (lt_product small m second third past) past
  · exact iff_of_false (ne_true_of_eq_false (not_lt_product small m second third within))
      (not_lt.2 within)

end Product

end Binary64
end TypedVectors
