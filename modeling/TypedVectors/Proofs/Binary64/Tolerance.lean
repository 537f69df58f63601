import TypedVectors.Proofs.Binary64.Order

/-!
Quotients of whole numbers rounded down with a tolerance. A quotient by a number of so many bits
that is below a whole number is below it by more than one in the place after these bits. Rounding
does not pass the last number of so many places, and a small number added does not pass the last one
of one place more.
-/
namespace TypedVectors
namespace Binary64

/-- The last number of so many binary places below a count of ones, in steps. -/
def lastBelow (count places : ℕ) : ℕ := (count * twoTo places - 1) * twoTo (1074 - places)

section LastBelow

variable {count places : ℕ}

theorem lastBelow_add (counted : 0 < count) (few : places ≤ 1074) :
    lastBelow count places + twoTo (1074 - places) = count * unit := by
  have positive : 1 ≤ count * twoTo places := Nat.mul_pos counted (twoTo_pos places)
  have split : unit = twoTo places * twoTo (1074 - places) := by
    rw [unit, ← twoTo_add, Nat.add_sub_cancel' few]
  rw [lastBelow, ← Nat.add_one_mul, Nat.sub_add_cancel positive, split, Nat.mul_assoc]

/-- One place more is nearer by half. -/
theorem lastBelow_next (counted : 0 < count) (few : places < 1074) :
    lastBelow count places + twoTo (1074 - (places + 1)) = lastBelow count (places + 1) := by
  have first := lastBelow_add counted (Nat.le_of_lt few)
  have second : lastBelow count (places + 1) + twoTo (1074 - (places + 1)) = count * unit :=
    lastBelow_add counted few
  have double : twoTo (1074 - places) = twoTo (1074 - (places + 1)) * 2 := by
    rw [(by omega : 1074 - places = 1074 - (places + 1) + 1)]
    exact twoTo_add _ 1
  omega

theorem lastBelow_leading (fits : count * twoTo places ≤ twoTo 53) :
    lastBelow count places % twoTo (binaryLog (lastBelow count places) + 1 - 53) = 0 := by
  have kept : roundSteps (lastBelow count places) 1 = lastBelow count places :=
    roundSteps_shifted (by omega) _
  have leading := roundSteps_leading (lastBelow count places) 1
  rwa [kept] at leading

end LastBelow

section Floor

variable {x : Binary64}

theorem floor_eq_trunc (nonneg : 0 ≤ x.level) : x.floor = x.trunc := by
  cases x with
  | nan | infinite _ => rfl
  | finite negative steps representable =>
    rw [level_finite] at nonneg
    rw [floor_finite, trunc]
    cases negative with
    | false => rfl
    | true =>
      have nothing : steps = 0 := by
        rw [if_pos rfl] at nonneg
        omega
      rw [nothing, Nat.zero_mod, if_neg (by decide)]

theorem toInt?_floor (finite : x.isFinite) (nonneg : 0 ≤ x.level) :
    x.floor.toInt? = some (x.level.tdiv unit) := by
  rw [floor_eq_trunc nonneg, toInt?_trunc finite, signedSteps_eq_level finite]

end Floor

section Quotient

variable {a b places : ℕ} (positive : 0 < b)
include positive

/-- A quotient by a number of so many bits is not rounded past as many places. -/
theorem roundSteps_le_lastBelow (bits : b ≤ twoTo places) (few : places ≤ 1074)
    (fits : (a / b + 1) * twoTo places ≤ twoTo 53) :
    roundSteps (a * unit) b ≤ lastBelow (a / b + 1) places := by
  refine roundSteps_le positive (lastBelow_leading fits) ?_
  have next : a + 1 ≤ (a / b + 1) * b := by
    rw [Nat.add_one_mul]
    exact Nat.lt_div_mul_add positive
  have ones := Nat.mul_le_mul_right unit next
  have gap : twoTo (1074 - places) * b ≤ unit := by
    refine Nat.le_trans (Nat.mul_le_mul_left _ bits) ?_
    rw [← twoTo_add, Nat.sub_add_cancel few, unit]
  have product : (a / b + 1) * b * unit =
      lastBelow (a / b + 1) places * b + twoTo (1074 - places) * b := by
    rw [← Nat.add_mul, lastBelow_add (Nat.add_one_pos _) few, Nat.mul_right_comm]
  rw [Nat.add_one_mul, product] at ones
  omega

end Quotient

section Tolerance

variable {a b tolerance : ℕ} (positive : 0 < b) (divisor : b < twoTo 31) (dividend : a < twoTo 32)
  (small : tolerance * twoTo 32 ≤ unit)
include positive divisor dividend small

theorem tolerant_lt :
    roundSteps (roundSteps (a * unit) b + tolerance) 1 < (a / b + 1) * unit := by
  have bits : binaryLog b < 31 := (binaryLog_lt_iff positive.ne').2 divisor
  have low := twoTo_binaryLog_le positive.ne'
  have high := lt_twoTo_binaryLog b
  -- The quotient keeps as many places as the divisor has bits, and the sum one more.
  generalize binaryLog b = log at *
  have range : twoTo (log + 2) ≤ twoTo 32 := twoTo_le (by omega)
  have fits : (a / b + 1) * twoTo (log + 2) ≤ twoTo 53 := by
    have fewer := Nat.le_trans (Nat.mul_le_mul_left (a / b) low) (Nat.div_mul_le_self a b)
    have limit : twoTo 32 * 4 + twoTo 32 ≤ twoTo 53 := by decide
    have four : twoTo (log + 2) = twoTo log * 4 := twoTo_add log 2
    calc (a / b + 1) * twoTo (log + 2) = a / b * twoTo log * 4 + twoTo (log + 2) := by
          rw [Nat.add_one_mul, four, Nat.mul_assoc]
      _ ≤ twoTo 53 := by omega
  have quotient : roundSteps (a * unit) b ≤ lastBelow (a / b + 1) (log + 1) :=
    roundSteps_le_lastBelow positive high.le (by omega)
      (Nat.le_trans (Nat.mul_le_mul_left _ (twoTo_le (Nat.le_succ _))) fits)
  have tolerated : tolerance ≤ twoTo (1074 - (log + 2)) := by
    refine Nat.le_of_mul_le_mul_right (Nat.le_trans small ?_) (twoTo_pos 32)
    rw [unit, ← twoTo_add]
    exact twoTo_le (by omega)
  have next : lastBelow (a / b + 1) (log + 1) + twoTo (1074 - (log + 2)) =
      lastBelow (a / b + 1) (log + 2) := lastBelow_next (Nat.add_one_pos _) (by omega)
  have last := lastBelow_add (Nat.add_one_pos (a / b)) (by omega : log + 2 ≤ 1074)
  have apart := twoTo_pos (1074 - (log + 2))
  have total : roundSteps (a * unit) b + tolerance ≤ lastBelow (a / b + 1) (log + 2) * 1 := by
    omega
  have rounded := roundSteps_le one_pos (lastBelow_leading fits) total
  omega

/-- A tolerance of at most two to the power -32 changes no quotient rounded down. -/
theorem floor_tolerant :
    roundSteps (roundSteps (a * unit) b + tolerance) 1 / unit = a / b := by
  have bits : twoTo 31 + twoTo 32 ≤ twoTo 53 := by decide
  have floor : roundSteps (a * unit) b / unit = a / b :=
    floor_roundSteps positive (by omega) (by decide)
  have fewer := Nat.div_le_self a b
  have kept : roundSteps (a / b * unit) 1 = a / b * unit := roundSteps_shifted (by omega) 1074
  refine Nat.div_eq_of_lt_le ?_ (tolerant_lt positive divisor dividend small)
  rw [← kept]
  refine roundSteps_one_mono ?_
  rw [← floor]
  exact Nat.le_trans (Nat.div_mul_le_self _ _) (Nat.le_add_right _ _)

/-- A quotient kept as a number, with a tolerance added and rounded down. -/
theorem toInt?_floor_tolerant {x y : Binary64} (left : x.isFinite) (right : y.isFinite)
    (quotient : x.level = roundSteps (a * unit) b) (added : y.level = tolerance) :
    (x + y).floor.toInt? = some ((a / b : ℕ) : ℤ) := by
  have below := tolerant_lt positive divisor dividend small
  have fewer := Nat.div_le_self a b
  have bits : twoTo 32 < twoTo 53 := by decide
  have inside : (a / b + 1) * unit < stepLimit := shifted_lt_stepLimit (by omega)
  have level : (x + y).level = (roundSteps (roundSteps (a * unit) b + tolerance) 1 : ℕ) := by
    have rounded := roundedLevel_signed false (roundSteps (a * unit) b + tolerance)
    rw [if_neg Bool.false_ne_true, if_neg Bool.false_ne_true, Nat.min_eq_left (by omega)] at rounded
    rw [level_add left right, quotient, added, ← Nat.cast_add, rounded]
  have finite : (x + y).isFinite :=
    isFinite_of_level (add_ne_nan left (ne_nan_of_finite right)) (by omega) (by omega)
  rw [toInt?_floor finite (by omega), level, ← Int.ofNat_tdiv,
    floor_tolerant positive divisor dividend small]

end Tolerance
end Binary64
end TypedVectors
