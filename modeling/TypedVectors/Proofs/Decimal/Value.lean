import Mathlib.Algebra.Order.Field.Power
import TypedVectors.Decimal.Basic
import TypedVectors.Proofs.Binary64.Nearest

/-!
The exact values of decimals. A decimal reads as the number that is nearest to its value, also where
the power of ten is not worked out, so that decimals of one value read alike.
-/
namespace TypedVectors

theorem cast_tenTo (n : ℕ) : ((tenTo n : ℕ) : ℚ) = 10 ^ n := Nat.cast_pow 10 n

namespace Decimal

/-- How many steps a power of ten has. -/
def scale (exponent : ℤ) : ℚ := 10 ^ exponent * Binary64.unit

/-- The value of a decimal in steps. -/
def inSteps (d : Decimal) : ℚ := d.coefficient * scale d.exponent

theorem scale_pos (exponent : ℤ) : 0 < scale exponent :=
  mul_pos (zpow_pos (by norm_num) exponent) (by exact_mod_cast Binary64.unit_pos)

theorem scale_add (exponent : ℤ) (more : ℕ) :
    scale (exponent + more) = tenTo more * scale exponent := by
  unfold scale
  rw [cast_tenTo, zpow_add₀ (by norm_num), zpow_natCast]
  ring

theorem scale_natCast (n : ℕ) : scale n = ((tenTo n * Binary64.unit : ℕ) : ℚ) := by
  rw [scale, zpow_natCast]
  push_cast [cast_tenTo]
  rfl

theorem scale_mono {low high : ℤ} (below : low ≤ high) : scale low ≤ scale high := by
  obtain ⟨more, rfl⟩ := Int.le.dest below
  have positive := scale_pos low
  have power : (1 : ℚ) ≤ tenTo more := by exact_mod_cast tenTo_pos more
  rw [scale_add]
  nlinarith

/-- Numerator and denominator of the value in steps. -/
def fraction (d : Decimal) : ℕ × ℕ :=
  (d.coefficient * tenTo d.exponent.toNat * Binary64.unit, tenTo (-d.exponent).toNat)

theorem fraction_pos (d : Decimal) : 0 < d.fraction.2 := tenTo_pos _

theorem fraction_eq (d : Decimal) : (d.fraction.1 : ℚ) / d.fraction.2 = d.inSteps := by
  unfold fraction inSteps scale
  push_cast [cast_tenTo]
  obtain ⟨n, up | down⟩ := Int.eq_nat_or_neg d.exponent
  · rw [up, Int.toNat_natCast, Int.toNat_neg_natCast, pow_zero, div_one, zpow_natCast]
    ring
  · rw [down, neg_neg, Int.toNat_natCast, Int.toNat_neg_natCast, pow_zero, zpow_neg, zpow_natCast]
    ring

/-- The steps of the magnitude that a decimal reads as, as long as it is not too large. -/
def rounded (d : Decimal) : ℕ := roundSteps d.fraction.1 d.fraction.2

theorem rounded_congr {d other : Decimal} (same : d.inSteps = other.inSteps) :
    d.rounded = other.rounded :=
  roundSteps_congr d.fraction_pos other.fraction_pos (by rw [fraction_eq, fraction_eq, same])

theorem rounded_cases (d : Decimal) :
    d.rounded < twoTo 53 ∧ NearestTo d.inSteps d.rounded ∨
      twoTo 53 ≤ d.rounded ∧ |d.inSteps - d.rounded| * twoTo 53 ≤ d.rounded := by
  rw [← fraction_eq]
  exact roundSteps_cases d.fraction_pos d.fraction.1

theorem rounded_of_nearest {d : Decimal} {steps : ℕ} (small : steps < twoTo 53)
    (nearest : NearestTo d.inSteps steps) : d.rounded = steps :=
  roundSteps_of_nearest d.fraction_pos small (by rwa [fraction_eq])

theorem rounded_zero {d : Decimal} (zero : d.coefficient = 0) : d.rounded = 0 := by
  refine rounded_of_nearest (twoTo_pos 53) (.inl ?_)
  rw [inSteps, zero]
  norm_num

theorem twoTo_le_rounded {d : Decimal} {exponent : ℕ} (large : (twoTo exponent : ℚ) ≤ d.inSteps) :
    twoTo exponent ≤ d.rounded := by
  refine twoTo_le_roundSteps ((Nat.le_div_iff_mul_le d.fraction_pos).2 ?_)
  rw [← fraction_eq, le_div_iff₀ (by exact_mod_cast d.fraction_pos)] at large
  exact_mod_cast large

theorem rounded_overflow {d : Decimal} (nonzero : d.coefficient ≠ 0) (far : 400 < d.exponent) :
    stepLimit ≤ d.rounded := by
  refine twoTo_le_roundSteps ((Nat.le_div_iff_mul_le d.fraction_pos).2 ?_)
  have exponent : (-d.exponent).toNat = 0 := by omega
  have power : tenTo 400 ≤ tenTo d.exponent.toNat := tenTo_le (by omega)
  have limit : twoTo 2098 ≤ tenTo 400 * Binary64.unit := by decide +kernel
  unfold fraction
  dsimp only
  rw [exponent, show tenTo 0 = 1 from rfl, Nat.mul_one]
  generalize tenTo 400 = low, twoTo 2098 = bound, Binary64.unit = unit at *
  calc bound ≤ low * unit := limit
    _ ≤ tenTo d.exponent.toNat * unit := Nat.mul_le_mul_right _ power
    _ ≤ d.coefficient * tenTo d.exponent.toNat * unit := by
      rw [Nat.mul_assoc]
      exact Nat.le_mul_of_pos_left _ (Nat.pos_of_ne_zero nonzero)

theorem rounded_underflow {d : Decimal} (far : d.exponent < -400 - binaryLog d.coefficient) :
    d.rounded = 0 := by
  refine roundSteps_of_nearest d.fraction_pos (twoTo_pos 53) (.inl ?_)
  have small : 2 * d.fraction.1 < d.fraction.2 := by
    have up : d.exponent.toNat = 0 := by omega
    have down : 400 + (binaryLog d.coefficient + 1) ≤ (-d.exponent).toNat := by omega
    have power : tenTo 400 * tenTo (binaryLog d.coefficient + 1) ≤ tenTo (-d.exponent).toNat := by
      rw [← tenTo_add]
      exact tenTo_le down
    have digits : d.coefficient < tenTo (binaryLog d.coefficient + 1) :=
      Nat.lt_of_lt_of_le (lt_twoTo_binaryLog d.coefficient) (Nat.pow_le_pow_left (by decide) _)
    have limit : 2 * Binary64.unit ≤ tenTo 400 := by decide +kernel
    have positive := tenTo_pos 400
    unfold fraction
    dsimp only
    rw [up, show tenTo 0 = 1 from rfl, Nat.mul_one]
    generalize tenTo 400 = low, Binary64.unit = unit at *
    calc 2 * (d.coefficient * unit) = 2 * unit * d.coefficient := by ring
      _ ≤ low * d.coefficient := Nat.mul_le_mul_right _ limit
      _ < low * tenTo (binaryLog d.coefficient + 1) := Nat.mul_lt_mul_of_pos_left digits positive
      _ ≤ tenTo (-d.exponent).toNat := power
  have positive : (0 : ℚ) < d.fraction.2 := by exact_mod_cast d.fraction_pos
  generalize d.fraction.1 = num, d.fraction.2 = den at *
  rw [Nat.cast_zero, sub_zero, abs_of_nonneg (by positivity), div_lt_div_iff₀ positive two_pos]
  exact_mod_cast (by omega : num * 2 < 1 * den)

/-- A decimal reads as the number nearest to its value. -/
theorem toBinary64_eq (negative : Bool) (d : Decimal) :
    d.toBinary64 negative = Binary64.ofSteps negative d.fraction.1 d.fraction.2 := by
  have zero : roundSteps 0 1 = 0 := by decide
  unfold toBinary64
  split
  · next nothing => exact Binary64.ofSteps_congr (zero.trans (rounded_zero nothing).symm)
  · next nonzero =>
    split
    · next far => exact (Binary64.ofSteps_infinite negative (rounded_overflow nonzero far)).symm
    · split
      · next far => exact Binary64.ofSteps_congr (zero.trans (rounded_underflow far).symm)
      · split
        · next up =>
          have exponent : (-d.exponent).toNat = 0 := by omega
          unfold fraction
          rw [exponent]
          rfl
        · next down =>
          have exponent : d.exponent.toNat = 0 := by omega
          unfold fraction
          dsimp only
          rw [exponent, show tenTo 0 = 1 from rfl, Nat.mul_one]
          rfl

theorem toBinary64_whole (negative : Bool) (n : ℕ) :
    toBinary64 negative ⟨n, 0⟩ = Binary64.ofQuotient negative n 1 := by
  have fraction : (⟨n, 0⟩ : Decimal).fraction = (n * 1 * Binary64.unit, 1) := rfl
  rw [toBinary64_eq, fraction, Nat.mul_one]
  rfl

theorem toBinary64_finite {d : Decimal} {steps : ℕ} (negative : Bool) (rounded : d.rounded = steps)
    (representable : Representable steps) :
    d.toBinary64 negative = .finite negative steps representable := by
  rw [toBinary64_eq]
  exact Binary64.ofSteps_finite negative rounded representable

theorem toBinary64_infinite {d : Decimal} (negative : Bool) (large : stepLimit ≤ d.rounded) :
    d.toBinary64 negative = .infinite negative := by
  rw [toBinary64_eq]
  exact Binary64.ofSteps_infinite negative large

theorem toBinary64_congr {d other : Decimal} (negative : Bool) (same : d.inSteps = other.inSteps) :
    d.toBinary64 negative = other.toBinary64 negative := by
  rw [toBinary64_eq, toBinary64_eq]
  exact Binary64.ofSteps_congr (rounded_congr same)

end Decimal
end TypedVectors
