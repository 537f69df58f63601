import Mathlib.Algebra.Order.Ring.Int
import TypedVectors.Cell.Basic
import TypedVectors.Proofs.Binary64.Nearest

/-!
Whole numbers in double precision. Sums, differences and products of whole numbers are the exact
ones, rounded once, and below two to the power 53 they are not rounded at all. What is left free is
the sign of zero, which `unsignedZero` takes away.
-/
namespace TypedVectors

theorem twoTo_lt {m n : ℕ} (below : m < n) : twoTo m < twoTo n :=
  Nat.pow_lt_pow_right (by decide) below

theorem roundSteps_zero (den : ℕ) : roundSteps 0 den = 0 := by simp [roundSteps, nearestEven]

/-- A number of at most 53 bits is kept, also with zeros after them. -/
theorem roundSteps_shifted {n : ℕ} (small : n ≤ twoTo 53) (zeros : ℕ) :
    roundSteps (n * twoTo zeros) 1 = n * twoTo zeros := by
  refine roundSteps_of_leading (Nat.mod_eq_zero_of_dvd ?_)
  rcases Nat.lt_or_eq_of_le small with below | limit
  · by_cases zero : n * twoTo zeros = 0
    · rw [zero]
      exact Nat.dvd_zero _
    · have bound : n * twoTo zeros < twoTo (53 + zeros) := by
        rw [twoTo_add]
        exact Nat.mul_lt_mul_of_pos_right below (twoTo_pos zeros)
      have log := (binaryLog_lt_iff zero).2 bound
      exact Nat.dvd_trans (twoTo_dvd (by omega)) (Nat.dvd_mul_left _ n)
  · rw [limit, ← twoTo_add, binaryLog_twoTo]
    exact twoTo_dvd (by omega)

namespace Binary64

variable {x y : Binary64} {m n : ℤ}

theorem compare?_nan (x : Binary64) : x.compare? nan = none := by
  cases x with
  | nan | infinite _ | finite _ _ _ => rfl

theorem le_nan (x : Binary64) : x.le nan = false := by
  rw [le, lt, compare?_nan]
  rfl

section Order

variable (left : x.isFinite) (right : y.isFinite)
include left right

theorem compare?_finite : x.compare? y = some (compare x.signedSteps y.signedSteps) := by
  cases x with
  | nan | infinite _ => cases left
  | finite _ _ _ =>
    cases y with
    | nan | infinite _ => cases right
    | finite _ _ _ => rfl

theorem lt_iff : x.lt y ↔ x.signedSteps < y.signedSteps := by
  rw [lt, compare?_finite left right, beq_iff_eq, Option.some_inj, compare_lt_iff_lt]

theorem le_iff : x.le y ↔ x.signedSteps ≤ y.signedSteps := by
  rw [le, Bool.or_eq_true, lt_iff left right, compare?_finite left right, beq_iff_eq,
    Option.some_inj, compare_eq_iff_eq, le_iff_lt_or_eq]

end Order

theorem natCast_unit_pos : (0 : ℤ) < unit := Int.natCast_pos.2 unit_pos

/-- Whether a sign bit is that of a whole number; zero has either. -/
def SignOf (negative : Bool) (n : ℤ) : Prop := n ≠ 0 → negative = decide (n < 0)

theorem SignOf.mul {a b : Bool} (left : SignOf a m) (right : SignOf b n) :
    SignOf (a != b) (m * n) := by
  intro nonzero
  obtain ⟨leftNonzero, rightNonzero⟩ := mul_ne_zero_iff.1 nonzero
  rw [left leftNonzero, right rightNonzero, Bool.eq_iff_iff, bne_iff_ne, decide_eq_true_eq,
    mul_neg_iff, ne_eq, decide_eq_decide]
  omega

theorem signOf_true {k : ℕ} : SignOf true (-(k : ℤ)) := by
  intro nonzero
  exact (decide_eq_true (by omega)).symm

theorem signOf_false {k : ℕ} : SignOf false (k : ℤ) := by
  intro nonzero
  exact (decide_eq_false (by omega)).symm

/-- A whole number is finite, and its ones are counted in steps. -/
theorem toInt?_success (whole : x.toInt? = some n) :
    ∃ negative representable, x = finite negative (n.natAbs * unit) representable ∧
      SignOf negative n := by
  cases x with
  | nan | infinite _ => cases whole
  | finite negative steps representable =>
    have positive := unit_pos
    unfold toInt? at whole
    dsimp only at whole
    generalize unit = unit at *
    split at whole
    · next ones =>
      obtain ⟨count, rfl⟩ := Nat.dvd_of_mod_eq_zero ones
      rw [Nat.mul_div_cancel_left count positive, Option.some_inj] at whole
      subst whole
      cases negative with
      | false => exact ⟨false, by rwa [Nat.mul_comm], by simp [Nat.mul_comm], signOf_false⟩
      | true =>
        exact ⟨true, by simpa [Nat.mul_comm] using representable, by simp [Nat.mul_comm],
          signOf_true⟩
    · cases whole

theorem isZero_iff (whole : x.toInt? = some n) : x.isZero ↔ n = 0 := by
  obtain ⟨sign, representable, rfl, -⟩ := toInt?_success whole
  have one := unit_pos
  rw [isZero, beq_iff_eq, Nat.mul_eq_zero, Int.natAbs_eq_zero]
  omega

theorem isFinite_of_whole (whole : x.toInt? = some n) : x.isFinite := by
  obtain ⟨_, _, rfl, _⟩ := toInt?_success whole
  rfl

section Zero

theorem representable_zero : Representable 0 := ⟨Nat.zero_mod _, twoTo_pos 2098⟩

theorem ofSteps_zero (negative : Bool) (den : ℕ) :
    ofSteps negative 0 den = finite negative 0 representable_zero :=
  ofSteps_finite negative (roundSteps_zero den) representable_zero

theorem zero_eq : (0 : Binary64) = finite false 0 representable_zero := by
  have literal : (0 : Binary64) = ofNat 0 := rfl
  rw [literal, ofNat, Nat.zero_mul, ofSteps_zero]

theorem toInt?_zero (negative : Bool) (representable : Representable 0) :
    (finite negative 0 representable).toInt? = some 0 := by
  simp [toInt?]

end Zero

theorem isZero_ofSteps {negative : Bool} {steps : ℕ} (nonzero : roundSteps steps 1 ≠ 0) :
    (ofSteps negative steps 1).isZero = false := by
  unfold ofSteps
  split
  · exact beq_false_of_ne nonzero
  · rfl

theorem unit_le_roundSteps {k : ℕ} (positive : k ≠ 0) : unit ≤ roundSteps (k * unit) 1 := by
  refine twoTo_le_roundSteps ?_
  rw [Nat.div_one]
  exact Nat.le_mul_of_pos_left _ (Nat.pos_of_ne_zero positive)

theorem unsignedZero_ofSteps {negative : Bool} (sign : SignOf negative n) :
    (ofSteps negative (n.natAbs * unit) 1).unsignedZero = ofInt n := by
  by_cases zero : n = 0
  · subst zero
    rw [ofInt, Int.natAbs_zero, Nat.zero_mul, ofSteps_zero, ofSteps_zero]
    exact zero_eq
  · have reached := unit_le_roundSteps (Int.natAbs_ne_zero.2 zero)
    have nonzero : roundSteps (n.natAbs * unit) 1 ≠ 0 :=
      Nat.ne_of_gt (Nat.lt_of_lt_of_le unit_pos reached)
    rw [unsignedZero, isZero_ofSteps nonzero, if_neg Bool.false_ne_true, sign zero, ofInt]

theorem unsignedZero_eq_ofInt (whole : x.toInt? = some n) : x.unsignedZero = ofInt n := by
  obtain ⟨negative, representable, rfl, sign⟩ := toInt?_success whole
  rw [← unsignedZero_ofSteps sign,
    ofSteps_finite negative (roundSteps_of_leading representable.1) representable]

theorem toInt?_unsignedZero (x : Binary64) : x.unsignedZero.toInt? = x.toInt? := by
  unfold unsignedZero
  split
  · next zero =>
    cases x with
    | nan | infinite _ => cases zero
    | finite negative steps representable =>
      obtain rfl : steps = 0 := by simpa [isZero] using zero
      rw [zero_eq, toInt?_zero, toInt?_zero]
  · rfl

theorem shifted_lt_stepLimit {k : ℕ} (small : k ≤ twoTo 53) : k * unit < stepLimit := by
  refine Nat.lt_of_le_of_lt (Nat.mul_le_mul_right unit small) ?_
  rw [unit, ← twoTo_add]
  exact twoTo_lt (by omega)

theorem ofSteps_shifted (negative : Bool) {k : ℕ} (small : k ≤ twoTo 53) :
    ∃ representable, ofSteps negative (k * unit) 1 = finite negative (k * unit) representable := by
  have kept : roundSteps (k * unit) 1 = k * unit := roundSteps_shifted small 1074
  have representable : Representable (k * unit) :=
    ⟨kept ▸ roundSteps_leading _ _, shifted_lt_stepLimit small⟩
  exact ⟨representable, ofSteps_finite negative kept representable⟩

theorem toInt?_finite (negative : Bool) {ones : ℕ} (representable : Representable (ones * unit)) :
    (finite negative (ones * unit) representable).toInt? =
      some (if negative then -(ones : ℤ) else ones) := by
  unfold toInt?
  dsimp only
  rw [if_pos (Nat.mul_mod_left _ _), Nat.mul_div_cancel _ unit_pos]

theorem toInt?_of_sign {negative : Bool} (sign : SignOf negative n)
    (representable : Representable (n.natAbs * unit)) :
    (finite negative (n.natAbs * unit) representable).toInt? = some n := by
  rw [toInt?_finite, Option.some_inj]
  by_cases zero : n = 0
  · subst zero
    cases negative with
    | false | true => rfl
  · rw [sign zero]
    split
    · next below =>
      have low := of_decide_eq_true below
      omega
    · next above =>
      have high := of_decide_eq_false (eq_false_of_ne_true above)
      omega

theorem toInt?_ofInt (small : n.natAbs ≤ twoTo 53) : (ofInt n).toInt? = some n := by
  obtain ⟨representable, kept⟩ := ofSteps_shifted (decide (n < 0)) small
  rw [ofInt, kept, toInt?_of_sign fun _ => rfl]

theorem toInt?_ofNat {k : ℕ} (small : k ≤ twoTo 53) : (ofNat k).toInt? = some (k : ℤ) := by
  obtain ⟨representable, kept⟩ := ofSteps_shifted false small
  rw [ofNat, kept]
  exact toInt?_of_sign signOf_false representable

theorem toInt?_of_eq_ofInt (same : x.unsignedZero = ofInt n) (small : n.natAbs ≤ twoTo 53) :
    x.toInt? = some n := by
  rw [← toInt?_unsignedZero, same, toInt?_ofInt small]

theorem signedSteps_false {steps : ℕ} (representable : Representable steps) :
    (finite false steps representable).signedSteps = steps := rfl

section Finite

variable {a b : Bool} {left right : ℕ} {leftFits : Representable left}
  {rightFits : Representable right}

theorem add_finite : finite a left leftFits + finite b right rightFits =
    let total := (finite a left leftFits).signedSteps + (finite b right rightFits).signedSteps
    ofSteps (if total = 0 then a && b else total < 0) total.natAbs 1 := by
  change Binary64.add _ _ = _
  rw [Binary64.add]

theorem mul_finite : finite a left leftFits * finite b right rightFits =
    ofSteps (a != b) (left * right) unit := by
  change Binary64.mul _ _ = _
  rw [Binary64.mul]

end Finite

theorem signedSteps_eq {negative : Bool} {n : ℤ} (sign : SignOf negative n)
    (representable : Representable (n.natAbs * unit)) :
    (finite negative (n.natAbs * unit) representable).signedSteps = n * unit := by
  unfold signedSteps
  dsimp only
  generalize unit = unit
  by_cases zero : n = 0
  · subst zero
    cases negative <;> simp
  · rw [sign zero]
    split
    · next below =>
      have low := of_decide_eq_true below
      push_cast
      rw [abs_of_neg low]
      ring
    · next above =>
      have high := of_decide_eq_false (eq_false_of_ne_true above)
      push_cast
      rw [abs_of_nonneg (not_lt.1 high)]

theorem unsignedZero_add (left : x.toInt? = some m) (right : y.toInt? = some n) :
    (x + y).unsignedZero = ofInt (m + n) := by
  obtain ⟨a, _, rfl, leftSign⟩ := toInt?_success left
  obtain ⟨b, _, rfl, rightSign⟩ := toInt?_success right
  rw [add_finite, signedSteps_eq leftSign, signedSteps_eq rightSign]
  dsimp only
  rw [← add_mul, Int.natAbs_mul, Int.natAbs_natCast, unsignedZero_ofSteps]
  intro nonzero
  have positive := natCast_unit_pos
  generalize unit = unit at *
  rw [if_neg (mul_ne_zero nonzero positive.ne'), decide_eq_decide]
  constructor
  · exact fun below => neg_of_mul_neg_left below positive.le
  · exact fun below => mul_neg_of_neg_of_pos below positive

theorem toInt?_neg (x : Binary64) : (-x).toInt? = x.toInt?.map Neg.neg := by
  cases x with
  | nan | infinite _ => rfl
  | finite negative steps representable =>
    change (finite (!negative) steps representable).toInt? = _
    simp only [toInt?]
    generalize unit = scale
    split
    · cases negative with
      | false => rfl
      | true => simp
    · rfl

theorem unsignedZero_sub (left : x.toInt? = some m) (right : y.toInt? = some n) :
    (x - y).unsignedZero = ofInt (m - n) := by
  have negated : (-y).toInt? = some (-n) := by rw [toInt?_neg, right, Option.map_some]
  exact unsignedZero_add left negated

theorem unsignedZero_mul (left : x.toInt? = some m) (right : y.toInt? = some n) :
    (x * y).unsignedZero = ofInt (m * n) := by
  obtain ⟨a, _, rfl, leftSign⟩ := toInt?_success left
  obtain ⟨b, _, rfl, rightSign⟩ := toInt?_success right
  have product : roundSteps (m.natAbs * unit * (n.natAbs * unit)) unit =
      roundSteps ((m * n).natAbs * unit) 1 := by
    have positive := unit_pos
    generalize unit = unit at *
    have nonzero : (unit : ℚ) ≠ 0 := by exact_mod_cast positive.ne'
    refine roundSteps_congr positive one_pos ?_
    rw [Int.natAbs_mul]
    push_cast
    field_simp
  rw [mul_finite, ofSteps_congr product, unsignedZero_ofSteps (leftSign.mul rightSign)]

theorem toInt?_mul (left : x.toInt? = some m) (right : y.toInt? = some n)
    (small : (m * n).natAbs ≤ twoTo 53) : (x * y).toInt? = some (m * n) :=
  toInt?_of_eq_ofInt (unsignedZero_mul left right) small

theorem steps_of_ofSteps {negative sign : Bool} {num den steps : ℕ}
    {representable : Representable steps}
    (same : ofSteps negative num den = finite sign steps representable) :
    roundSteps num den = steps := by
  unfold ofSteps at same
  split at same
  · exact (finite.inj same).2
  · cases same

theorem fitsInteger_iff :
    x.fitsInteger ↔ ∃ n, x.toInt? = some n ∧ n.natAbs ≤ integerLimit := by
  rw [fitsInteger, Option.any_eq_true]
  simp only [decide_eq_true_eq]

theorem toInt?_limited (whole : x.toInt? = some n) :
    x.fitsInteger ↔ n.natAbs ≤ integerLimit := by
  rw [fitsInteger_iff, whole]
  simp

/-- Rounding makes no integer of a number out of range. -/
theorem fitsInteger_ofInt : (ofInt n).fitsInteger ↔ n.natAbs ≤ integerLimit := by
  rcases Nat.le_total n.natAbs (twoTo 53) with small | large
  · exact toInt?_limited (toInt?_ofInt small)
  · have limit : integerLimit < twoTo 53 := by decide
    refine iff_of_false (fun fits => ?_) (by omega)
    obtain ⟨z, whole, fits⟩ := fitsInteger_iff.1 fits
    obtain ⟨sign, representable, same, -⟩ := toInt?_success whole
    have rounded := steps_of_ofSteps same
    have reached : twoTo (53 + 1074) ≤ roundSteps (n.natAbs * unit) 1 := by
      refine twoTo_le_roundSteps ?_
      rw [Nat.div_one, twoTo_add]
      exact Nat.mul_le_mul_right _ large
    rw [rounded, twoTo_add] at reached
    have above : twoTo 53 ≤ z.natAbs := Nat.le_of_mul_le_mul_right reached unit_pos
    omega

end Binary64
end TypedVectors
