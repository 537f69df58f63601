import TypedVectors.Proofs.Binary64.Division
import TypedVectors.Proofs.Binary64.PowersOfTen
import TypedVectors.Proofs.Binary64.Restoration

/-!
Whole numbers rounded to decimal places. At places after the point the number is scaled up and back,
which may miss it; at places before the point it is rounded half away from zero, exactly, as far as
the power of ten is a number.
-/
namespace TypedVectors

theorem twoTo_succ (n : ℕ) : twoTo (n + 1) = 2 * twoTo n := by
  rw [twoTo_add, Nat.mul_comm]
  rfl

theorem roundSteps_lt_twoTo {num den exponent : ℕ} (positive : 0 < den) (large : 53 ≤ exponent)
    (below : num < twoTo exponent * den) : roundSteps num den < twoTo (exponent + 1) := by
  rcases roundSteps_cases positive num with ⟨small, _⟩ | ⟨_, error⟩
  · exact Nat.lt_of_lt_of_le small (twoTo_le (by omega))
  · have scale : (0 : ℚ) < den := by exact_mod_cast positive
    have quotient : (num : ℚ) / den < twoTo exponent := by
      rw [div_lt_iff₀ scale]
      exact_mod_cast below
    have distance := neg_le_abs ((num : ℚ) / den - roundSteps num den)
    have two : (2 : ℚ) ≤ twoTo 53 := by exact_mod_cast twoTo_le (m := 1) (n := 53) (by decide)
    have nonneg := abs_nonneg ((num : ℚ) / den - roundSteps num den)
    have half := mul_le_mul_of_nonneg_left two nonneg
    have double : (twoTo (exponent + 1) : ℚ) = 2 * twoTo exponent := by
      exact_mod_cast twoTo_succ exponent
    have bound : (roundSteps num den : ℚ) < twoTo (exponent + 1) := by linarith
    exact_mod_cast bound

/-- Whether a whole number comes back from being scaled by a power of ten: the product is rounded by
no more than the power times half the distance between the numbers of 53 bits near the number. -/
def Restored (n : ℤ) (places : ℕ) : Prop :=
  ((roundSteps (n.natAbs * tenTo places) 1 : ℤ) - n.natAbs * tenTo places).natAbs * twoTo 53 ≤
    tenTo places * twoTo (binaryLog n.natAbs)

instance (n : ℤ) (places : ℕ) : Decidable (Restored n places) :=
  inferInstanceAs (Decidable (_ ≤ _))

theorem restored_iff {n : ℤ} {places : ℕ} : Restored n places ↔
    |(roundSteps (n.natAbs * tenTo places) 1 : ℚ) - n.natAbs * tenTo places| * twoTo 53 ≤
      tenTo places * twoTo (binaryLog n.natAbs) := by
  rw [Restored, ← Nat.cast_le (α := ℚ), Nat.cast_mul, Nat.cast_mul, Nat.cast_natAbs,
    Int.cast_abs, Int.cast_sub, Int.cast_mul]
  simp only [Int.cast_natCast]

theorem tenTo_eq (places : ℕ) : tenTo places = 5 ^ places * twoTo places := by
  rw [tenTo, twoTo, Nat.pow_eq, Nat.pow_eq, ← Nat.mul_pow]

/-- A product that needs no more than 53 bits is not rounded. -/
theorem restored_of_small {n : ℤ} {places : ℕ} (small : n.natAbs * 5 ^ places ≤ twoTo 53) :
    Restored n places := by
  have shifted := roundSteps_shifted small places
  rw [Nat.mul_assoc, ← tenTo_eq] at shifted
  rw [Restored, shifted, ← Nat.cast_mul, sub_self, Int.natAbs_zero, Nat.zero_mul]
  exact Nat.zero_le _

/-- A whole number rounded to a multiple of a power, half away from zero. -/
def roundedToMultiple (n : ℤ) (power : ℕ) : ℤ :=
  n.sign * (power * ((2 * n.natAbs + power) / (2 * power)) : ℕ)

theorem multiple_le (a power : ℕ) : power * ((2 * a + power) / (2 * power)) ≤ 2 * a := by
  have low := Nat.div_mul_le_self (2 * a + power) (2 * power)
  rcases Nat.eq_zero_or_pos ((2 * a + power) / (2 * power)) with zero | positive
  · rw [zero, Nat.mul_zero]
    exact Nat.zero_le _
  · have reached := Nat.le_mul_of_pos_right power positive
    linarith

namespace Binary64

variable {x digits : Binary64} {n k : ℤ} {a j power : ℕ}

theorem lt_whole {m : ℤ} {y : Binary64} (left : x.toInt? = some m) (right : y.toInt? = some n) :
    x.lt y ↔ m < n := by
  obtain ⟨a, leftFits, rfl, leftSign⟩ := toInt?_success left
  obtain ⟨b, rightFits, rfl, rightSign⟩ := toInt?_success right
  rw [lt_iff rfl rfl, signedSteps_eq leftSign, signedSteps_eq rightSign]
  exact mul_lt_mul_iff_left₀ natCast_unit_pos

theorem toInt?_zero_eq : toInt? 0 = some 0 := toInt?_ofNat (twoTo_pos 53).le

theorem toInt?_fifteen : toInt? 15 = some 15 := toInt?_ofNat (by decide)

theorem mul_nan (x : Binary64) : x * nan = nan := by
  cases x with
  | nan | infinite _ | finite _ _ _ => rfl

theorem div_infinite {a b : Bool} {steps : ℕ} {representable : Representable steps} :
    finite a steps representable / infinite b = finite (a != b) 0 representable_zero := by
  change Binary64.div _ _ = _
  rw [Binary64.div, ofSteps_zero]

theorem zero_mul_infinite {a b : Bool} :
    finite a 0 representable_zero * infinite b = nan := by
  change Binary64.mul _ _ = _
  rw [Binary64.mul, if_pos rfl]

theorem abs_whole (whole : x.toInt? = some n) :
    ∃ representable, x.abs = finite false (n.natAbs * unit) representable := by
  obtain ⟨sign, representable, rfl, -⟩ := toInt?_success whole
  exact ⟨representable, rfl⟩

theorem SignOf.sign {negative : Bool} (signOf : SignOf negative n) : SignOf negative n.sign := by
  intro nonzero
  rw [signOf (mt Int.sign_eq_zero_iff_zero.2 nonzero), decide_eq_decide, Int.sign_neg_iff]

/-- The sign of a finite number as a number: one, or zero for the zeros. -/
theorem signum_finite {steps : ℕ} (negative : Bool) (representable : Representable steps) :
    ∃ fits, (finite negative steps representable).signum =
      finite negative ((if steps = 0 then 0 else 1) * unit) fits := by
  have ones : (if steps = 0 then 0 else unit) = (if steps = 0 then 0 else 1) * unit := by
    split
    · exact (Nat.zero_mul _).symm
    · exact (Nat.one_mul _).symm
  have few : (if steps = 0 then 0 else 1) ≤ twoTo 53 := by
    split
    · exact Nat.zero_le _
    · exact twoTo_pos 53
  rw [signum, ones]
  exact ofSteps_shifted negative few

theorem signum_whole (whole : x.toInt? = some n) :
    ∃ sign representable, x.signum = finite sign (n.sign.natAbs * unit) representable ∧
      SignOf sign n.sign := by
  obtain ⟨sign, fits, rfl, signOf⟩ := toInt?_success whole
  obtain ⟨one, same⟩ := signum_finite sign fits
  have ones : (if n.natAbs * unit = 0 then 0 else 1) = n.sign.natAbs := by
    rw [Int.natAbs_sign]
    simp only [Nat.mul_eq_zero, unit_pos.ne', or_false, Int.natAbs_eq_zero]
  simp only [ones] at same
  exact ⟨sign, _, same, signOf.sign⟩

theorem roundSteps_scaled (a power : ℕ) :
    roundSteps (a * unit * power) unit = roundSteps (a * power) 1 := by
  have one := unit_pos
  generalize unit = unit at *
  refine roundSteps_congr one one_pos ?_
  have nonzero : (unit : ℚ) ≠ 0 := by exact_mod_cast one.ne'
  push_cast
  field_simp

/-! The sign of a whole number puts back what the magnitude left out. -/

theorem toInt?_signum_mul {z : Binary64} {m : ℤ} (whole : x.toInt? = some n)
    (magnitude : z.toInt? = some m) (small : m.natAbs ≤ twoTo 53) :
    (x.signum * z).toInt? = some (n.sign * m) := by
  obtain ⟨sign, representable, same, signOf⟩ := signum_whole whole
  have signum : x.signum.toInt? = some n.sign := by rw [same, toInt?_of_sign signOf]
  refine toInt?_mul signum magnitude ?_
  rw [Int.natAbs_mul, Int.natAbs_sign]
  split
  · omega
  · omega

theorem toInt?_signum_mul_none {z : Binary64} (whole : x.toInt? = some n) (nonzero : n ≠ 0)
    (bounded : z.isFinite) (part : z.toInt? = none) : (x.signum * z).toInt? = none := by
  obtain ⟨sign, one, same, -⟩ := signum_whole whole
  cases z with
  | nan | infinite _ => cases bounded
  | finite negative steps representable =>
    have product : roundSteps (n.sign.natAbs * unit * steps) unit = steps := by
      rw [roundSteps_scaled, Int.natAbs_sign_of_ne_zero nonzero, Nat.one_mul,
        roundSteps_of_leading representable.1]
    rw [same, mul_finite, ofSteps_finite _ product representable]
    unfold toInt? at *
    dsimp only at *
    split at part
    · cases part
    · next rest => rw [if_neg rest]

theorem toInt?_zero_mul {z : Binary64} (zero : x.toInt? = some 0) (bounded : z.isFinite) :
    (x * z).toInt? = some 0 := by
  obtain ⟨sign, fits, rfl, -⟩ := toInt?_success zero
  cases z with
  | nan | infinite _ => cases bounded
  | finite negative steps representable =>
    rw [mul_finite, Int.natAbs_zero, Nat.zero_mul, Nat.zero_mul, ofSteps_zero]
    exact toInt?_zero _ _

/-! The power of ten for a whole number of places. -/

theorem powerOfTenSize_whole (whole : digits.toInt? = some k) :
    powerOfTenSize digits = powerOfTen k.natAbs := by
  rw [powerOfTenSize, whole]

theorem downward (places : digits.toInt? = some (-(j : ℤ))) (positive : 0 < j) : digits.lt 0 := by
  rw [lt_whole places toInt?_zero_eq]
  omega

/-! A magnitude is rounded between two operations with one power of ten. -/

theorem roundMagnitude_downward (x : Binary64) (places : digits.toInt? = some (-(j : ℤ)))
    (positive : 0 < j) :
    roundMagnitude x digits = (x / powerOfTen j).roundHalfAway * powerOfTen j := by
  rw [roundMagnitude, powerOfTenSize_whole places, Int.natAbs_neg, Int.natAbs_natCast,
    downward places positive, if_pos rfl]

theorem roundMagnitude_upward (x : Binary64) (places : digits.toInt? = some (j : ℤ)) :
    roundMagnitude x digits = (x * powerOfTen j).roundHalfAway / powerOfTen j := by
  have upward : digits.lt 0 = false := by
    rw [Bool.eq_false_iff, ne_eq, lt_whole places toInt?_zero_eq]
    omega
  rw [roundMagnitude, powerOfTenSize_whole places, Int.natAbs_natCast, upward,
    if_neg Bool.false_ne_true]

theorem powerOfTen_finite (small : j ≤ 15) :
    ∃ representable, powerOfTen j = finite false (tenTo j * unit) representable := by
  obtain ⟨sign, representable, same, signOf⟩ := toInt?_success (toInt?_powerOfTen small)
  have positive := tenTo_pos j
  obtain rfl : sign = false := (signOf (by omega)).trans (decide_eq_false (by omega))
  exact ⟨representable, same⟩

theorem tenTo_lt (small : j ≤ 15) : tenTo j < twoTo 50 :=
  Nat.lt_of_le_of_lt (tenTo_le small) (by decide)

/-! Rounding half away from zero. -/

theorem roundHalfAway_finite {negative : Bool} {steps : ℕ} {representable : Representable steps} :
    (finite negative steps representable).roundHalfAway =
      ofSteps negative ((2 * steps + unit) / (2 * unit) * unit) 1 := by
  rw [roundHalfAway]

theorem nearest_whole (count : ℕ) : (2 * (count * unit) + unit) / (2 * unit) = count := by
  have one := unit_pos
  generalize unit = unit at *
  refine Nat.div_eq_of_lt_le ?_ ?_
  · linarith
  · linarith

/-- A whole number has no other nearest whole number. -/
theorem roundHalfAway_whole {negative : Bool} {count : ℕ}
    (representable : Representable (count * unit)) :
    (finite negative (count * unit) representable).roundHalfAway =
      finite negative (count * unit) representable := by
  rw [roundHalfAway_finite, nearest_whole,
    ofSteps_finite _ (roundSteps_of_leading representable.1)]

theorem roundHalfAway_zero (negative : Bool) :
    (finite negative 0 representable_zero).roundHalfAway =
      finite negative 0 representable_zero := by
  have one := unit_pos
  have half : (2 * 0 + unit) / (2 * unit) = 0 := Nat.div_eq_of_lt (by omega)
  rw [roundHalfAway_finite, half, Nat.zero_mul, ofSteps_zero]

theorem toInt?_roundHalfAway {steps count : ℕ} {representable : Representable steps}
    (middle : (2 * steps + unit) / (2 * unit) = count) (small : count ≤ twoTo 53) :
    (finite false steps representable).roundHalfAway.toInt? = some (count : ℤ) := by
  obtain ⟨fits, kept⟩ := ofSteps_shifted false small
  rw [roundHalfAway_finite, middle, kept]
  exact toInt?_of_sign signOf_false fits

theorem unit_eq_double : unit = 2 * twoTo 1073 := by
  rw [unit, show 1074 = 1073 + 1 by decide, twoTo_succ]

/-- The quotient by a power, rounded half away from zero, is that of whole numbers. -/
theorem half_roundSteps (positive : 0 < power) (small : 2 * a + power < twoTo 53) :
    (2 * roundSteps (a * unit) power + unit) / (2 * unit) = (2 * a + power) / (2 * power) := by
  -- Counted in halves of a unit, the rounded quotient of twice the number keeps its floor.
  have floor : roundSteps (2 * a * twoTo 1073) power / twoTo 1073 = 2 * a / power :=
    floor_roundSteps positive small (by decide)
  have half := twoTo_pos 1073
  rw [unit_eq_double, ← Nat.mul_assoc, Nat.mul_comm a]
  generalize twoTo 1073 = scale at *
  generalize roundSteps (2 * a * scale) power = rounded at *
  calc (2 * rounded + 2 * scale) / (2 * (2 * scale))
    _ = (rounded + scale) / (2 * scale) := by
      rw [← Nat.mul_add, Nat.mul_div_mul_left _ _ two_pos]
    _ = (rounded / scale + 1) / 2 := by
      rw [Nat.mul_comm, ← Nat.div_div_eq_div_mul, Nat.add_div_right _ half]
    _ = (2 * a / power + 1) / 2 := by rw [floor]
    _ = (2 * a + power) / (2 * power) := by
      rw [Nat.mul_comm 2 power, ← Nat.div_div_eq_div_mul, Nat.add_div_right _ positive]

/-! Quotients of whole numbers, and products. -/

theorem representable_roundSteps {exponent : ℕ} (positive : 0 < power) (below : a < twoTo exponent)
    (inside : exponent < 1024) : Representable (roundSteps (a * unit) power) := by
  have scaled := Nat.mul_lt_mul_of_pos_right below unit_pos
  have reach : twoTo exponent * unit = twoTo (exponent + 1074) := by rw [unit, ← twoTo_add]
  rw [reach] at scaled
  have rounded := roundSteps_lt_twoTo positive (by omega)
    (Nat.lt_of_lt_of_le scaled (Nat.le_mul_of_pos_right _ positive))
  exact ⟨roundSteps_leading _ _, Nat.lt_of_lt_of_le rounded (twoTo_le (by omega))⟩

theorem roundSteps_units (a : ℕ) : roundSteps (a * unit) 1 = roundSteps a 1 * unit :=
  roundSteps_mul_twoTo a 1074

theorem roundSteps_product (a b : ℕ) :
    roundSteps (a * unit * (b * unit)) unit = roundSteps (a * b) 1 * unit := by
  rw [roundSteps_scaled, ← Nat.mul_assoc, roundSteps_units]

/-- By an exact power the quotient is that of whole numbers. -/
theorem toInt?_quotient_exact {fits : Representable (a * unit)}
    {powerFits : Representable (power * unit)} (positive : 0 < power) (limited : a < twoTo 31)
    (moderate : power < twoTo 50) :
    (finite false (a * unit) fits / finite false (power * unit) powerFits).roundHalfAway.toInt? =
      some (((2 * a + power) / (2 * power) : ℕ) : ℤ) := by
  have sum : 2 * a + power < twoTo 53 := by
    have bits : 2 * twoTo 31 + twoTo 50 ≤ twoTo 53 := by decide
    omega
  rw [div_finite (Nat.mul_ne_zero positive.ne' unit_pos.ne'),
    ofSteps_finite _ (roundSteps_ones a positive)
      (representable_roundSteps positive limited (by decide))]
  refine toInt?_roundHalfAway (half_roundSteps positive sum) ?_
  have fewer := Nat.div_le_self (2 * a + power) (2 * power)
  omega

/-- By a large power the quotient is less than one half. -/
theorem toInt?_quotient_large {steps : ℕ} {fits : Representable (a * unit)}
    {powerFits : Representable steps} (limited : a < twoTo 31) (large : twoTo 33 * unit ≤ steps) :
    (finite false (a * unit) fits / finite false steps powerFits).roundHalfAway.toInt? =
      some 0 := by
  have positive : 0 < steps := Nat.lt_of_lt_of_le (Nat.mul_pos (twoTo_pos 33) unit_pos) large
  have below : roundSteps (a * unit * unit) steps < twoTo (1072 + 1) := by
    refine roundSteps_lt_twoTo positive (by decide) ?_
    have scaled := Nat.mul_lt_mul_of_pos_right
      (Nat.mul_lt_mul_of_pos_right limited unit_pos) unit_pos
    have reach : twoTo 31 * unit = twoTo 1072 * twoTo 33 := by
      rw [unit, ← twoTo_add, ← twoTo_add]
    rw [reach, Nat.mul_assoc (twoTo 1072)] at scaled
    exact Nat.lt_of_lt_of_le scaled (Nat.mul_le_mul_left _ large)
  have representable : Representable (roundSteps (a * unit * unit) steps) :=
    ⟨roundSteps_leading _ _, Nat.lt_trans below (twoTo_lt (by decide))⟩
  rw [div_finite positive.ne', ofSteps_finite _ rfl representable]
  have zero : (2 * roundSteps (a * unit * unit) steps + unit) / (2 * unit) = 0 := by
    have half := unit_eq_double
    refine Nat.div_eq_of_lt ?_
    generalize twoTo (1072 + 1) = power at *
    omega
  exact toInt?_roundHalfAway zero (Nat.zero_le _)

/-! The magnitude of a whole number, scaled up and back. -/

section Scaled

variable (limited : n.natAbs < twoTo 31) (small : j ≤ 15)
include limited small

theorem product_lt : n.natAbs * tenTo j < twoTo 81 := by
  have below := Nat.mul_lt_mul'' limited (tenTo_lt small)
  rwa [← twoTo_add] at below

theorem representable_product : Representable (roundSteps (n.natAbs * tenTo j) 1 * unit) := by
  rw [← roundSteps_units]
  exact representable_roundSteps one_pos (product_lt limited small) (by decide)

theorem representable_restored :
    Representable (roundSteps (roundSteps (n.natAbs * tenTo j) 1 * unit) (tenTo j)) := by
  have product := product_lt limited small
  rw [← Nat.mul_one (twoTo 81)] at product
  have below := roundSteps_lt_twoTo one_pos (by decide) product
  exact representable_roundSteps (tenTo_pos j) below (by decide)

variable (whole : x.toInt? = some n) (places : digits.toInt? = some (j : ℤ))
include whole places

/-- Scaling up and back makes two roundings of the magnitude. -/
theorem roundMagnitude_places :
    roundMagnitude x.abs digits =
      finite false (roundSteps (roundSteps (n.natAbs * tenTo j) 1 * unit) (tenTo j))
        (representable_restored limited small) := by
  obtain ⟨fits, magnitude⟩ := abs_whole whole
  obtain ⟨powerFits, power⟩ := powerOfTen_finite small
  have positive := tenTo_pos j
  rw [roundMagnitude_upward _ places, power, magnitude, mul_finite,
    ofSteps_finite _ (roundSteps_product _ _) (representable_product limited small),
    roundHalfAway_whole, div_finite (Nat.mul_ne_zero positive.ne' unit_pos.ne')]
  exact ofSteps_finite _ (roundSteps_ones _ positive) _

/-- What scaling up and back leaves is the magnitude where it is restored, and else not whole. -/
theorem toInt?_roundMagnitude_places :
    (roundMagnitude x.abs digits).toInt? =
      if Restored n j then some (n.natAbs : ℤ) else none := by
  have positive := tenTo_pos j
  have fits : tenTo j < twoTo 53 := Nat.lt_trans (tenTo_lt small) (twoTo_lt (by decide))
  rw [roundMagnitude_places limited small whole places, toInt?]
  by_cases zero : n = 0
  · subst zero
    have kept : Restored 0 j := restored_of_small (by simp)
    rw [if_pos kept]
    simp [roundSteps_zero]
  · have magnitude := Int.natAbs_ne_zero.2 zero
    have restored : roundSteps (roundSteps (n.natAbs * tenTo j) 1 * unit) (tenTo j) =
        n.natAbs * unit ↔ Restored n j :=
      (roundSteps_restored limited positive magnitude fits (by decide)).trans restored_iff.symm
    have only : roundSteps (roundSteps (n.natAbs * tenTo j) 1 * unit) (tenTo j) % unit = 0 →
        roundSteps (roundSteps (n.natAbs * tenTo j) 1 * unit) (tenTo j) = n.natAbs * unit :=
      restored_of_whole limited positive magnitude fits (by decide)
    -- A number that is not restored is not whole either, so that there is no wrong whole number.
    have one := unit_pos
    generalize unit = unit at *
    generalize roundSteps (roundSteps (n.natAbs * tenTo j) 1 * unit) (tenTo j) = rounded at *
    by_cases back : rounded = n.natAbs * unit
    · rw [if_pos (restored.1 back), back, if_pos (Nat.mul_mod_left _ _),
        Nat.mul_div_cancel _ one, if_neg Bool.false_ne_true]
    · rw [if_neg (mt restored.2 back), if_neg (mt only back)]

end Scaled

/-! The magnitude of a whole number, rounded to a power of ten. -/

theorem toInt?_roundMagnitude_tens (limited : n.natAbs < twoTo 31) (whole : x.toInt? = some n)
    (places : digits.toInt? = some (-(j : ℤ))) (positive : 0 < j) (high : j ≤ 308) :
    (roundMagnitude x.abs digits).toInt? =
      some ((tenTo j * ((2 * n.natAbs + tenTo j) / (2 * tenTo j)) : ℕ) : ℤ) := by
  obtain ⟨fits, magnitude⟩ := abs_whole whole
  rw [roundMagnitude_downward _ places positive, magnitude]
  -- Up to the fifteenth the power is exact; of the others it is enough that they are large.
  rcases Nat.lt_or_ge 15 j with above | small
  · obtain ⟨steps, powerFits, power, large⟩ :=
      isLarge_cases (isLarge_powerOfTen (by omega) high)
    have wide : twoTo 32 ≤ tenTo j :=
      Nat.le_trans (by decide : twoTo 32 ≤ tenTo 16) (tenTo_le above)
    have double : twoTo 32 = 2 * twoTo 31 := twoTo_succ 31
    have zero : (2 * n.natAbs + tenTo j) / (2 * tenTo j) = 0 := Nat.div_eq_of_lt (by omega)
    rw [zero, Nat.mul_zero, power]
    exact toInt?_zero_mul (toInt?_quotient_large limited large) rfl
  · obtain ⟨powerFits, power⟩ := powerOfTen_finite small
    have factor := toInt?_powerOfTen small
    rw [power] at factor
    have reached := multiple_le n.natAbs (tenTo j)
    have bits : 2 * twoTo 31 ≤ twoTo 53 := by decide
    rw [power, Nat.mul_comm (tenTo j) (_ / _), Nat.cast_mul]
    refine toInt?_mul (toInt?_quotient_exact (tenTo_pos j) limited (tenTo_lt small)) factor ?_
    rw [← Nat.cast_mul, Int.natAbs_natCast, Nat.mul_comm]
    omega

/-- By an infinite power the quotient is zero, and zero times the power is not a number. -/
theorem roundMagnitude_infinite (finite : x.isFinite) (downward : digits.lt 0)
    (power : powerOfTenSize digits = infinite false) : roundMagnitude x.abs digits = nan := by
  cases x with
  | nan | infinite _ => cases finite
  | finite negative steps representable =>
    rw [roundMagnitude, power, downward, if_pos rfl, abs, div_infinite, roundHalfAway_zero,
      zero_mul_infinite]

/-! Whole numbers rounded, for every whole number of places. -/

theorem fifteen_lt (places : digits.toInt? = some k) : lt 15 digits ↔ 15 < k :=
  lt_whole toInt?_fifteen places

theorem roundTo_kept (high : lt 15 digits) : x.roundTo digits = x := by
  rw [roundTo, high, Bool.or_true, if_pos rfl]

/-- From fifteen places down the magnitude is rounded and takes the sign back. -/
theorem roundTo_scaled (finite : x.isFinite) (low : ¬lt 15 digits) :
    x.roundTo digits = (x.signum * roundMagnitude x.abs digits).unsignedZero := by
  rw [roundTo, eq_false_of_ne_true low, finite, Bool.not_true, Bool.or_false,
    if_neg Bool.false_ne_true]

/-- With an infinite power nothing is left. -/
theorem roundTo_infinite (finite : x.isFinite) (low : ¬lt 15 digits) (downward : digits.lt 0)
    (power : powerOfTenSize digits = infinite false) : x.roundTo digits = nan := by
  rw [roundTo_scaled finite low, roundMagnitude_infinite finite downward power, mul_nan]
  rfl

theorem roundTo_past (finite : x.isFinite) (places : digits.toInt? = some (-(j : ℤ)))
    (high : 308 < j) : x.roundTo digits = nan := by
  have low : ¬lt 15 digits := mt (fifteen_lt places).1 (by omega)
  refine roundTo_infinite finite low (downward places (by omega)) ?_
  rw [powerOfTenSize_whole places, Int.natAbs_neg, Int.natAbs_natCast, powerOfTen_infinite high]

variable (whole : x.toInt? = some n)
include whole

theorem toInt?_roundTo_scaled (low : ¬lt 15 digits) :
    (x.roundTo digits).toInt? = (x.signum * roundMagnitude x.abs digits).toInt? := by
  rw [roundTo_scaled (isFinite_of_whole whole) low, toInt?_unsignedZero]

variable (limited : n.natAbs < twoTo 31)
include limited

theorem toInt?_roundTo_tens (places : digits.toInt? = some (-(j : ℤ))) (positive : 0 < j)
    (high : j ≤ 308) : (x.roundTo digits).toInt? = some (roundedToMultiple n (tenTo j)) := by
  have low : ¬lt 15 digits := mt (fifteen_lt places).1 (by omega)
  have reached := multiple_le n.natAbs (tenTo j)
  have bits : 2 * twoTo 31 ≤ twoTo 53 := by decide
  rw [toInt?_roundTo_scaled whole low]
  refine toInt?_signum_mul whole (toInt?_roundMagnitude_tens limited whole places positive high) ?_
  rw [Int.natAbs_natCast]
  omega

theorem toInt?_roundTo_places (places : digits.toInt? = some (j : ℤ)) (small : j ≤ 15) :
    (x.roundTo digits).toInt? = if Restored n j then some n else none := by
  have low : ¬lt 15 digits := mt (fifteen_lt places).1 (by omega)
  have magnitude := toInt?_roundMagnitude_places limited small whole places
  rw [toInt?_roundTo_scaled whole low]
  by_cases restored : Restored n j
  · rw [if_pos restored] at magnitude ⊢
    have bits : twoTo 31 ≤ twoTo 53 := twoTo_le (by decide)
    rw [toInt?_signum_mul whole magnitude (by omega), Int.sign_mul_natAbs]
  · have nonzero : n ≠ 0 := by
      rintro rfl
      exact restored (restored_of_small (by simp))
    rw [if_neg restored] at magnitude ⊢
    refine toInt?_signum_mul_none whole nonzero ?_ magnitude
    rw [roundMagnitude_places limited small whole places]
    rfl

end Binary64
end TypedVectors
