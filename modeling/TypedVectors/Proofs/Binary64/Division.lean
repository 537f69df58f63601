import TypedVectors.Proofs.Binary64.Whole

/-!
Quotients of whole numbers in double precision. The quotient is rounded, but never onto or across a
multiple of a large power of two that is further away than the error of rounding. So the rounded
quotient of small whole numbers has the floor of the exact one and is whole only where that is.
-/
namespace TypedVectors

section Apart

variable {num den limit : ℕ} (positive : 0 < den) (large : twoTo 53 ≤ limit)
include positive large

theorem roundSteps_lt_of_apart (below : (limit : ℚ) < (limit - (num : ℚ) / den) * twoTo 53) :
    roundSteps num den < limit := by
  rcases roundSteps_cases positive num with ⟨small, _⟩ | ⟨_, error⟩
  · exact Nat.lt_of_lt_of_le small large
  · by_contra reached
    have above : (limit : ℚ) ≤ roundSteps num den := by exact_mod_cast Nat.not_lt.1 reached
    have power : (1 : ℚ) ≤ twoTo 53 := by exact_mod_cast twoTo_pos 53
    generalize (roundSteps num den : ℚ) = rounded at *
    have wider : (rounded - limit) * 1 ≤ (rounded - limit) * twoTo 53 :=
      mul_le_mul_of_nonneg_left power (by linarith)
    have distance := neg_le_abs ((num : ℚ) / den - rounded)
    have scaled := mul_le_mul_of_nonneg_right distance (zero_le_one.trans power)
    linarith

theorem lt_roundSteps_of_apart (above : (limit : ℚ) < ((num : ℚ) / den - limit) * twoTo 53) :
    limit < roundSteps num den := by
  have power : (0 : ℚ) < twoTo 53 := by exact_mod_cast twoTo_pos 53
  have beyond : (limit : ℚ) < (num : ℚ) / den := by
    have nonneg : (0 : ℚ) ≤ limit := by positivity
    have gap := pos_of_mul_pos_left (nonneg.trans_lt above) power.le
    linarith
  rcases roundSteps_cases positive num with ⟨small, nearest⟩ | ⟨_, error⟩
  · have next : (roundSteps num den : ℚ) + 1 ≤ limit := by
      exact_mod_cast Nat.succ_le_of_lt (Nat.lt_of_lt_of_le small large)
    have near := (abs_le.1 nearest.error).2
    linarith
  · by_contra reached
    have below : (roundSteps num den : ℚ) ≤ limit := by exact_mod_cast Nat.not_lt.1 reached
    have distance := le_abs_self ((num : ℚ) / den - roundSteps num den)
    have closer : (num : ℚ) / den - limit ≤ |(num : ℚ) / den - roundSteps num den| := by linarith
    have scaled := mul_le_mul_of_nonneg_right closer power.le
    linarith

end Apart

/-- A multiple of a power stays apart from the quotient by more than the error. -/
theorem scaled_apart {bits b c apart power : ℚ} (divisor : 0 < b) (factor : 0 < power)
    (nonneg : 0 ≤ bits) (small : c * b < bits) (one : 1 ≤ apart) :
    c * power < apart * power / b * bits := by
  rw [div_mul_eq_mul_div, lt_div_iff₀ divisor]
  calc c * power * b = c * b * power := by ring
    _ < bits * power := mul_lt_mul_of_pos_right small factor
    _ = 1 * (power * bits) := by ring
    _ ≤ apart * (power * bits) := mul_le_mul_of_nonneg_right one (mul_nonneg factor.le nonneg)
    _ = apart * power * bits := by ring

/-- The quotient of small numbers, counted in a large power of two, keeps its side of each count. -/
theorem roundSteps_quotient {a b c zeros : ℕ} (positive : 0 < b) (factor : 0 < c)
    (small : c * b < twoTo 53) (large : 53 ≤ zeros) :
    (roundSteps (a * twoTo zeros) b < c * twoTo zeros ↔ a < c * b) ∧
      (roundSteps (a * twoTo zeros) b = c * twoTo zeros ↔ a = c * b) := by
  have reach : twoTo 53 ≤ c * twoTo zeros :=
    Nat.le_trans (twoTo_le large) (Nat.le_mul_of_pos_left _ factor)
  have bits : (c : ℚ) * b < twoTo 53 := by exact_mod_cast small
  have nonneg : (0 : ℚ) ≤ twoTo 53 := Nat.cast_nonneg _
  have divisor : (0 : ℚ) < b := by exact_mod_cast positive
  have factor : (0 : ℚ) < twoTo zeros := by exact_mod_cast twoTo_pos zeros
  have whole : (c * twoTo zeros : ℕ) = (c * b : ℚ) * twoTo zeros / b := by
    push_cast
    field_simp
  have quotient : (a * twoTo zeros : ℕ) / (b : ℚ) = a * twoTo zeros / b := by push_cast; rfl
  rcases Nat.lt_trichotomy a (c * b) with below | rfl | above
  · have step : (1 : ℚ) ≤ c * b - a := by
      have next : (a : ℚ) + 1 ≤ c * b := by exact_mod_cast below
      linarith
    have rounded : roundSteps (a * twoTo zeros) b < c * twoTo zeros := by
      refine roundSteps_lt_of_apart positive reach ?_
      rw [quotient, whole, ← sub_div, ← sub_mul, ← whole]
      push_cast
      exact scaled_apart divisor factor nonneg bits step
    omega
  · have shifted : roundSteps (c * b * twoTo zeros) b = c * twoTo zeros := by
      have fits : c ≤ twoTo 53 := by
        have wider := Nat.le_mul_of_pos_right c positive
        omega
      rw [← roundSteps_shifted fits zeros]
      refine roundSteps_congr positive one_pos ?_
      push_cast
      field_simp
    omega
  · have step : (1 : ℚ) ≤ a - c * b := by
      have next : (c : ℚ) * b + 1 ≤ a := by exact_mod_cast above
      linarith
    have rounded : c * twoTo zeros < roundSteps (a * twoTo zeros) b := by
      refine lt_roundSteps_of_apart positive reach ?_
      rw [quotient, whole, ← sub_div, ← sub_mul, ← whole]
      push_cast
      exact scaled_apart divisor factor nonneg bits step
    omega

theorem roundSteps_quotient_eq_zero {a b zeros : ℕ} (positive : 0 < b) (small : b < twoTo 53)
    (large : 53 ≤ zeros) : roundSteps (a * twoTo zeros) b = 0 ↔ a = 0 := by
  constructor
  · intro zero
    by_contra nonzero
    have below : b ≤ a * twoTo zeros :=
      Nat.le_trans (Nat.le_trans (Nat.le_of_lt small) (twoTo_le large))
        (Nat.le_mul_of_pos_left _ (Nat.pos_of_ne_zero nonzero))
    have one : twoTo 0 ≤ roundSteps (a * twoTo zeros) b :=
      twoTo_le_roundSteps ((Nat.le_div_iff_mul_le positive).2 (by rwa [twoTo, Nat.pow_eq,
        Nat.pow_zero, Nat.one_mul]))
    exact absurd zero (Nat.ne_of_gt (Nat.lt_of_lt_of_le (twoTo_pos 0) one))
  · rintro rfl
    rw [Nat.zero_mul, roundSteps_zero]

section Floor

variable {a b zeros : ℕ} (positive : 0 < b) (small : a + b < twoTo 53) (large : 53 ≤ zeros)
include positive small large

theorem floor_roundSteps : roundSteps (a * twoTo zeros) b / twoTo zeros = a / b := by
  have floor := Nat.div_mul_le_self a b
  have next : a < (a / b + 1) * b := by
    rw [Nat.add_one_mul]
    exact Nat.lt_div_mul_add positive
  have upper := (roundSteps_quotient positive (Nat.succ_pos _)
    (by rw [Nat.succ_mul]; omega : (a / b).succ * b < twoTo 53) large).1.2 next
  refine Nat.div_eq_of_lt_le ?_ upper
  rcases Nat.eq_zero_or_pos (a / b) with zero | reached
  · rw [zero, Nat.zero_mul]
    exact Nat.zero_le _
  · have lower := (roundSteps_quotient (a := a) positive reached (by omega) large).1
    exact Nat.not_lt.1 fun below => absurd (lower.1 below) (Nat.not_lt.2 floor)

theorem whole_roundSteps : roundSteps (a * twoTo zeros) b % twoTo zeros = 0 ↔ a % b = 0 := by
  have floor := Nat.div_mul_le_self a b
  have counted : roundSteps (a * twoTo zeros) b % twoTo zeros = 0 ↔
      roundSteps (a * twoTo zeros) b = a / b * twoTo zeros := by
    rw [← floor_roundSteps positive small large]
    generalize roundSteps (a * twoTo zeros) b = rounded
    have split := Nat.div_add_mod' rounded (twoTo zeros)
    omega
  have divided : a % b = 0 ↔ a = a / b * b := by
    have split := Nat.div_add_mod' a b
    omega
  rw [counted, divided]
  rcases Nat.eq_zero_or_pos (a / b) with zero | reached
  · rw [zero, Nat.zero_mul, Nat.zero_mul]
    exact roundSteps_quotient_eq_zero positive (by omega) large
  · exact (roundSteps_quotient positive reached (by omega) large).2

end Floor

/-- A quotient rounded down with what it leaves: the rest has the sign of the divisor and is
smaller. -/
structure FloorDivision (m n q r : ℤ) : Prop where
  split : m = q * n + r
  sign : r = 0 ∨ r.sign = n.sign
  small : r.natAbs < n.natAbs

theorem floorDivision_of_pos {n : ℤ} (positive : 0 < n) (m : ℤ) :
    FloorDivision m n (m.fdiv n) (m.fmod n) := by
  have nonneg := Int.fmod_nonneg_of_pos m positive
  have below := Int.fmod_lt_of_pos m positive
  refine ⟨(Int.fdiv_mul_add_fmod m n).symm, ?_, by omega⟩
  rcases nonneg.eq_or_lt with zero | above
  · exact .inl zero.symm
  · exact .inr ((Int.sign_eq_one_iff_pos.2 above).trans (Int.sign_eq_one_iff_pos.2 positive).symm)

theorem floorDivision {n : ℤ} (nonzero : n ≠ 0) (m : ℤ) :
    FloorDivision m n (m.fdiv n) (m.fmod n) := by
  rcases nonzero.lt_or_gt with negative | positive
  · -- Both signs are turned, so that the divisor is positive.
    obtain ⟨split, sign, small⟩ := floorDivision_of_pos (Int.neg_pos_of_neg negative) (-m)
    rw [Int.neg_fdiv_neg, Int.neg_fmod_neg] at split
    rw [Int.neg_fmod_neg] at sign small
    refine ⟨by linarith, sign.imp (fun zero => by omega) fun same => ?_, by omega⟩
    rwa [Int.sign_neg, Int.sign_neg, neg_inj] at same
  · exact floorDivision_of_pos positive m

namespace Binary64

variable {x y : Binary64} {m n : ℤ}

theorem natCast_fdiv (a b : ℕ) : (a : ℤ).fdiv b = (a / b : ℕ) := by
  rw [Int.fdiv_eq_ediv_of_nonneg _ (Int.natCast_nonneg b), Int.natCast_ediv]

theorem neg_natCast_fdiv {a b : ℕ} (positive : b ≠ 0) :
    (-(a : ℤ)).fdiv b = -((if a % b != 0 then a / b + 1 else a / b : ℕ) : ℤ) := by
  have zero : (b : ℤ) ≠ 0 := by exact_mod_cast positive
  simp only [Int.neg_fdiv, natCast_fdiv, Int.natCast_dvd_natCast, Nat.dvd_iff_mod_eq_zero]
  by_cases whole : a % b = 0
  · simp [whole]
  · simp only [zero, whole, bne_iff_ne, ne_eq, not_false_eq_true, if_true, or_self, if_false]
    omega

theorem fdiv_of_mul_nonneg {m n : ℤ} (nonneg : 0 ≤ m * n) :
    m.fdiv n = (m.natAbs / n.natAbs : ℕ) := by
  rw [← natCast_fdiv]
  rcases mul_nonneg_iff.1 nonneg with ⟨left, right⟩ | ⟨left, right⟩
  · rw [Int.natAbs_of_nonneg left, Int.natAbs_of_nonneg right]
  · rw [Int.ofNat_natAbs_of_nonpos left, Int.ofNat_natAbs_of_nonpos right, Int.neg_fdiv_neg]

/-- The magnitude of a quotient rounded down, from the magnitudes and the sign. -/
theorem fdiv_magnitude {m n : ℤ} {negative : Bool} (nonzero : n ≠ 0)
    (sign : SignOf negative (m * n)) :
    (m.fdiv n).natAbs =
        (if negative && m.natAbs % n.natAbs != 0 then m.natAbs / n.natAbs + 1
          else m.natAbs / n.natAbs) ∧
      SignOf negative (m.fdiv n) := by
  by_cases zero : m = 0
  · subst zero
    simp [SignOf]
  have divisor : n.natAbs ≠ 0 := Int.natAbs_ne_zero.2 nonzero
  have product := mul_ne_zero zero nonzero
  rw [sign product]
  -- Both signs together decide whether the magnitude is rounded up.
  have opposite : m * n < 0 → m.fdiv n =
      -((if m.natAbs % n.natAbs != 0 then m.natAbs / n.natAbs + 1
        else m.natAbs / n.natAbs : ℕ) : ℤ) := by
    intro below
    rw [← neg_natCast_fdiv divisor]
    rcases mul_neg_iff.1 below with ⟨high, left⟩ | ⟨low, right⟩
    · rw [Int.natAbs_of_nonneg high.le, Int.ofNat_natAbs_of_nonpos left.le, Int.neg_fdiv_neg]
    · rw [Int.ofNat_natAbs_of_nonpos low.le, Int.natAbs_of_nonneg right.le, neg_neg]
  rcases product.lt_or_gt with below | above
  · have value := opposite below
    rw [decide_eq_true below, Bool.true_and]
    generalize (if m.natAbs % n.natAbs != 0 then m.natAbs / n.natAbs + 1
      else m.natAbs / n.natAbs) = magnitude at *
    rw [value, Int.natAbs_neg, Int.natAbs_natCast]
    exact ⟨rfl, signOf_true⟩
  · rw [fdiv_of_mul_nonneg above.le, decide_eq_false (not_lt.2 above.le), Bool.false_and,
      Int.natAbs_natCast]
    exact ⟨rfl, signOf_false⟩

theorem natAbs_fdiv_le (nonzero : n ≠ 0) : (m.fdiv n).natAbs ≤ m.natAbs := by
  have sign : SignOf (decide (m * n < 0)) (m * n) := fun _ => rfl
  have split := Nat.div_add_mod' m.natAbs n.natAbs
  have wider : m.natAbs / n.natAbs ≤ m.natAbs / n.natAbs * n.natAbs :=
    Nat.le_mul_of_pos_right _ (Int.natAbs_pos.2 nonzero)
  rw [(fdiv_magnitude nonzero sign).1]
  split
  · next rest =>
    have remains : m.natAbs % n.natAbs ≠ 0 := bne_iff_ne.1 (Bool.and_eq_true_iff.1 rest).2
    omega
  · omega

theorem div_finite {a b : Bool} {left right : ℕ} {leftFits : Representable left}
    {rightFits : Representable right} (nonzero : right ≠ 0) :
    finite a left leftFits / finite b right rightFits = ofSteps (a != b) (left * unit) right := by
  change Binary64.div _ _ = _
  rw [Binary64.div, if_neg nonzero, ofQuotient]

/-- What rounding down makes of a finite number. -/
theorem floor_finite {negative : Bool} {steps : ℕ} {representable : Representable steps} :
    (finite negative steps representable).floor =
      ofSteps negative ((if negative && steps % unit != 0 then steps / unit + 1
        else steps / unit) * unit) 1 := by
  rw [floor]

/-- The quotient of whole numbers in ones, before the rounded number is looked at. -/
theorem roundSteps_ones (a : ℕ) {b : ℕ} (positive : 0 < b) :
    roundSteps (a * unit * unit) (b * unit) = roundSteps (a * unit) b := by
  have one := unit_pos
  generalize unit = unit at *
  refine roundSteps_congr (Nat.mul_pos positive one) positive ?_
  have nonzero : (unit : ℚ) ≠ 0 := by exact_mod_cast one.ne'
  have divisor : (b : ℚ) ≠ 0 := by exact_mod_cast positive.ne'
  push_cast
  field_simp

section Quotient

variable (left : x.toInt? = some m) (right : y.toInt? = some n) (nonzero : n ≠ 0)
  (small : m.natAbs + n.natAbs < twoTo 53)
include left right nonzero small

theorem div_whole : ∃ sign representable,
    x / y = finite sign (roundSteps (m.natAbs * unit) n.natAbs) representable ∧
      SignOf sign (m * n) := by
  obtain ⟨a, leftFits, rfl, leftSign⟩ := toInt?_success left
  obtain ⟨b, rightFits, rfl, rightSign⟩ := toInt?_success right
  have positive : 0 < n.natAbs := Int.natAbs_pos.2 nonzero
  have floor : roundSteps (m.natAbs * unit) n.natAbs / unit = m.natAbs / n.natAbs :=
    floor_roundSteps positive small (by decide)
  have representable : Representable (roundSteps (m.natAbs * unit) n.natAbs) := by
    refine ⟨roundSteps_leading _ _, Nat.lt_trans ?_ (shifted_lt_stepLimit (Nat.le_of_lt small))⟩
    rw [← Nat.div_lt_iff_lt_mul unit_pos, floor]
    have fewer := Nat.div_le_self m.natAbs n.natAbs
    omega
  refine ⟨a != b, representable, ?_, leftSign.mul rightSign⟩
  rw [div_finite (Nat.mul_ne_zero positive.ne' unit_pos.ne'),
    ofSteps_finite _ (roundSteps_ones _ positive) representable]

theorem unsignedZero_floorDiv : (x.floorDiv y).unsignedZero = ofInt (m.fdiv n) := by
  have positive : 0 < n.natAbs := Int.natAbs_pos.2 nonzero
  obtain ⟨negative, representable, quotient, signed⟩ := div_whole left right nonzero small
  obtain ⟨magnitude, sign⟩ := fdiv_magnitude nonzero signed
  have floor : roundSteps (m.natAbs * unit) n.natAbs / unit = m.natAbs / n.natAbs :=
    floor_roundSteps positive small (by decide)
  have whole : roundSteps (m.natAbs * unit) n.natAbs % unit = 0 ↔ m.natAbs % n.natAbs = 0 :=
    whole_roundSteps positive small (by decide)
  have parts : (roundSteps (m.natAbs * unit) n.natAbs % unit != 0) =
      (m.natAbs % n.natAbs != 0) := by
    rw [Bool.eq_iff_iff, bne_iff_ne, bne_iff_ne, not_iff_not]
    exact whole
  rw [floorDiv, quotient, floor_finite, floor, parts, ← magnitude, unsignedZero_ofSteps sign]

theorem unsignedZero_floorMod : (x.floorMod y).unsignedZero = ofInt (m.fmod n) := by
  have divisor : y.isZero = false := by
    obtain ⟨b, rightFits, rfl, -⟩ := toInt?_success right
    exact beq_false_of_ne (Nat.mul_ne_zero (Int.natAbs_ne_zero.2 nonzero) unit_pos.ne')
  obtain ⟨split, -, rest⟩ := floorDivision nonzero m
  have magnitude : (m.fdiv n * n).natAbs ≤ twoTo 53 := by omega
  have fewer := natAbs_fdiv_le (m := m) nonzero
  have quotient := toInt?_of_eq_ofInt (unsignedZero_floorDiv left right nonzero small) (by omega)
  have product := toInt?_mul quotient right magnitude
  rw [floorMod, divisor, if_neg Bool.false_ne_true, unsignedZero_sub left product, Int.fmod_def,
    Int.mul_comm n]

end Quotient

end Binary64
end TypedVectors
