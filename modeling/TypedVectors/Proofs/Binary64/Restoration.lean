import TypedVectors.Proofs.Binary64.Whole

/-!
Products that are divided again. The product of a number of at most 31 bits and a factor is rounded,
and the quotient by the same factor is rounded once more. That gives the number back exactly when
the first error is small enough, and else a number that is not whole.
-/
namespace TypedVectors

theorem binaryLog_eq {n k : ℕ} (low : twoTo k ≤ n) (high : n < twoTo (k + 1)) :
    binaryLog n = k := by
  have nonzero : n ≠ 0 := Nat.ne_of_gt (Nat.lt_of_lt_of_le (twoTo_pos k) low)
  have below := (binaryLog_lt_iff nonzero).2 high
  have above := mt (binaryLog_lt_iff nonzero).1 (Nat.not_lt.2 low)
  omega

theorem binaryLog_mul_twoTo {n : ℕ} (nonzero : n ≠ 0) (zeros : ℕ) :
    binaryLog (n * twoTo zeros) = binaryLog n + zeros := by
  refine binaryLog_eq ?_ ?_
  · rw [twoTo_add]
    exact Nat.mul_le_mul_right _ (twoTo_binaryLog_le nonzero)
  · rw [Nat.add_right_comm, twoTo_add]
    exact Nat.mul_lt_mul_of_pos_right (lt_twoTo_binaryLog n) (twoTo_pos zeros)

/-- Zeros after a number stay when it is rounded. -/
theorem roundSteps_mul_twoTo (n zeros : ℕ) :
    roundSteps (n * twoTo zeros) 1 = roundSteps n 1 * twoTo zeros := by
  rcases Nat.le_total n (twoTo 53) with small | large
  · rw [roundSteps_shifted small]
    have shifted := roundSteps_shifted small 0
    rw [show twoTo 0 = 1 from rfl, Nat.mul_one] at shifted
    rw [shifted]
  · have nonzero : n ≠ 0 := Nat.ne_of_gt (Nat.lt_of_lt_of_le (twoTo_pos 53) large)
    have log : 53 ≤ binaryLog n := by
      by_contra low
      exact Nat.not_lt.2 large ((binaryLog_lt_iff nonzero).1 (Nat.not_le.1 low))
    unfold roundSteps
    dsimp only
    rw [Nat.div_one, Nat.div_one, binaryLog_mul_twoTo nonzero,
      show binaryLog n + zeros + 1 - 53 = binaryLog n + 1 - 53 + zeros by omega, twoTo_add,
      Nat.one_mul, Nat.one_mul, ← Nat.mul_assoc]
    congr 2
    have power : (twoTo zeros : ℚ) ≠ 0 := by exact_mod_cast (twoTo_pos zeros).ne'
    refine nearestEven_congr (Nat.mul_pos (twoTo_pos _) (twoTo_pos _)) (twoTo_pos _) ?_
    push_cast
    rw [mul_div_mul_right _ _ power]

/-- The error of rounding a whole number, in proportion to it. -/
theorem roundSteps_relative (n : ℕ) : |(roundSteps n 1 : ℚ) - n| * twoTo 53 ≤ n := by
  rw [abs_sub_comm]
  rcases Nat.lt_or_ge n (twoTo 53) with small | large
  · rw [roundSteps_small small, sub_self, abs_zero, zero_mul]
    exact Nat.cast_nonneg n
  · have nonzero : n ≠ 0 := Nat.ne_of_gt (Nat.lt_of_lt_of_le (twoTo_pos 53) large)
    have log : 53 ≤ binaryLog n + 1 := by
      by_contra low
      exact Nat.not_lt.2 large ((binaryLog_lt_iff nonzero).1 (by omega))
    have spread : twoTo (binaryLog n + 1 - 53) * twoTo 53 = 2 * twoTo (binaryLog n) := by
      rw [← twoTo_add, Nat.sub_add_cancel log, twoTo_add, Nat.mul_comm]
      rfl
    have error := roundSteps_error one_pos n
    rw [Nat.cast_one, div_one, Nat.div_one] at error
    have power : (0 : ℚ) ≤ twoTo 53 := Nat.cast_nonneg _
    have leading : (twoTo (binaryLog n) : ℚ) ≤ n := by exact_mod_cast twoTo_binaryLog_le nonzero
    have scaled := mul_le_mul_of_nonneg_right error power
    have cast : (twoTo (binaryLog n + 1 - 53) : ℚ) * twoTo 53 = 2 * twoTo (binaryLog n) := by
      exact_mod_cast spread
    linarith

theorem nearestTo_even_iff {x : ℚ} {k : ℕ} (even : k % 2 = 0) :
    NearestTo x k ↔ |x - k| ≤ 1 / 2 := by
  refine ⟨NearestTo.error, fun near => ?_⟩
  rcases near.lt_or_eq with strict | tie
  · exact .inl strict
  · exact .inr ⟨tie, even⟩

/-- A number of leading bits is the rounded one when it is nearest, counted in the last bit. -/
theorem roundSteps_eq_iff {num den log : ℕ} (positive : 0 < den)
    (quotient : binaryLog (num / den) = log) (bits : ℕ) :
    roundSteps num den = bits * twoTo (log + 1 - 53) ↔
      NearestTo ((num : ℚ) / (den * twoTo (log + 1 - 53) : ℕ)) bits := by
  rw [← nearestEven_eq_iff (Nat.mul_pos positive (twoTo_pos _)), roundSteps, quotient]
  exact Nat.mul_left_inj (twoTo_pos _).ne'

section Restoration

variable {a p : ℕ} (small : a < twoTo 31) (positive : 0 < p)
include small positive

/-- The product is off by less than a small part of the factor. -/
theorem product_error : |(roundSteps (a * p) 1 : ℚ) - a * p| * twoTo 22 < p := by
  have error := roundSteps_relative (a * p)
  push_cast at error
  have factor : (0 : ℚ) < p := by exact_mod_cast positive
  have bound : (a : ℚ) * p < twoTo 31 * p :=
    mul_lt_mul_of_pos_right (by exact_mod_cast small) factor
  have split : (twoTo 53 : ℚ) = twoTo 22 * twoTo 31 := by exact_mod_cast twoTo_add 22 31
  have power : (0 : ℚ) < twoTo 31 := by exact_mod_cast twoTo_pos 31
  rw [split, ← mul_assoc] at error
  refine lt_of_mul_lt_mul_right ?_ power.le
  linarith

omit small in
/-- How far the quotient is from the number, counted in a power of two. -/
theorem restored_distance (zeros : ℕ) :
    |(roundSteps (a * p) 1 * twoTo zeros : ℕ) / (p : ℚ) - (a * twoTo zeros : ℕ)| =
      |(roundSteps (a * p) 1 : ℚ) - a * p| / p * twoTo zeros := by
  have factor : (0 : ℚ) < p := by exact_mod_cast positive
  have power : (0 : ℚ) < twoTo zeros := by exact_mod_cast twoTo_pos zeros
  have scaled : (roundSteps (a * p) 1 * twoTo zeros : ℕ) / (p : ℚ) - (a * twoTo zeros : ℕ) =
      ((roundSteps (a * p) 1 : ℚ) - a * p) / p * twoTo zeros := by
    push_cast
    field_simp
  rw [scaled, abs_mul, abs_div, abs_of_pos factor, abs_of_pos power]

variable (nonzero : a ≠ 0) (fits : p < twoTo 53)
include nonzero fits

/-- The rounded product is as many times the factor as the number, down to a power of two. -/
theorem product_binade : twoTo (binaryLog a) * p ≤ roundSteps (a * p) 1 ∧
    roundSteps (a * p) 1 < twoTo (binaryLog a + 1) * p := by
  have error := product_error small positive
  have wide : (1 : ℚ) ≤ twoTo 22 := by exact_mod_cast twoTo_pos 22
  have near : |(roundSteps (a * p) 1 : ℚ) - a * p| < p :=
    (le_mul_of_one_le_right (abs_nonneg _) wide).trans_lt error
  obtain ⟨low, high⟩ := abs_lt.1 near
  constructor
  · rcases (twoTo_binaryLog_le nonzero).eq_or_lt with power | above
    · rw [← power, binaryLog_twoTo, Nat.mul_comm, roundSteps_shifted fits.le]
    · have step : ((twoTo (binaryLog a) : ℚ) + 1) * p ≤ a * p :=
        mul_le_mul_of_nonneg_right (by exact_mod_cast above) (Nat.cast_nonneg p)
      have cast : ((twoTo (binaryLog a) * p : ℕ) : ℚ) ≤ roundSteps (a * p) 1 := by
        push_cast
        linarith
      exact_mod_cast cast
  · have step : ((a : ℚ) + 1) * p ≤ twoTo (binaryLog a + 1) * p :=
      mul_le_mul_of_nonneg_right (by exact_mod_cast lt_twoTo_binaryLog a) (Nat.cast_nonneg p)
    have cast : (roundSteps (a * p) 1 : ℚ) < ((twoTo (binaryLog a + 1) * p : ℕ) : ℚ) := by
      push_cast
      linarith
    exact_mod_cast cast

theorem binaryLog_restored (zeros : ℕ) :
    binaryLog (roundSteps (a * p) 1 * twoTo zeros / p) = binaryLog a + zeros := by
  obtain ⟨low, high⟩ := product_binade small positive nonzero fits
  refine binaryLog_eq ?_ ?_
  · rw [Nat.le_div_iff_mul_le positive, twoTo_add, Nat.mul_right_comm]
    exact Nat.mul_le_mul_right _ low
  · rw [Nat.div_lt_iff_lt_mul positive, Nat.add_right_comm, twoTo_add, Nat.mul_right_comm]
    exact Nat.mul_lt_mul_of_pos_right high (twoTo_pos zeros)

/-- The quotient of the rounded product restores the number exactly when the product was rounded by
no more than the factor times half the distance between the numbers of 53 bits near the number. -/
theorem roundSteps_restored {zeros : ℕ} (large : 53 ≤ zeros) :
    roundSteps (roundSteps (a * p) 1 * twoTo zeros) p = a * twoTo zeros ↔
      |(roundSteps (a * p) 1 : ℚ) - a * p| * twoTo 53 ≤ p * twoTo (binaryLog a) := by
  have factor : (0 : ℚ) < p := by exact_mod_cast positive
  have log : binaryLog a < 31 := (binaryLog_lt_iff nonzero).2 small
  have quotient := binaryLog_restored small positive nonzero fits zeros
  have bits : a * twoTo zeros =
      a * twoTo (52 - binaryLog a) * twoTo (binaryLog a + zeros + 1 - 53) := by
    rw [Nat.mul_assoc, ← twoTo_add]
    congr 2
    omega
  have even : a * twoTo (52 - binaryLog a) % 2 = 0 := by
    rw [show 52 - binaryLog a = 51 - binaryLog a + 1 by omega, twoTo_add, ← Nat.mul_assoc]
    exact Nat.mul_mod_left _ _
  have distance : ((roundSteps (a * p) 1 * twoTo zeros : ℕ) : ℚ) /
        (p * twoTo (binaryLog a + zeros + 1 - 53) : ℕ) - (a * twoTo (52 - binaryLog a) : ℕ) =
      ((roundSteps (a * p) 1 : ℚ) - a * p) / p * twoTo (52 - binaryLog a) := by
    have split : (twoTo zeros : ℚ) =
        twoTo (52 - binaryLog a) * twoTo (binaryLog a + zeros + 1 - 53) := by
      rw [← Nat.cast_mul, ← twoTo_add]
      congr 2
      omega
    have gap : (0 : ℚ) < twoTo (binaryLog a + zeros + 1 - 53) := by exact_mod_cast twoTo_pos _
    simp only [Nat.cast_mul]
    rw [split]
    generalize (twoTo (binaryLog a + zeros + 1 - 53) : ℚ) = gap at *
    field_simp
  have half : (twoTo 53 : ℚ) = 2 * twoTo (52 - binaryLog a) * twoTo (binaryLog a) := by
    rw [mul_assoc, ← Nat.cast_mul, ← twoTo_add, show 52 - binaryLog a + binaryLog a = 52 by omega]
    exact_mod_cast Nat.mul_comm (twoTo 52) 2
  have leading : (0 : ℚ) < twoTo (binaryLog a) := by exact_mod_cast twoTo_pos _
  have scale : (0 : ℚ) < twoTo (52 - binaryLog a) := by exact_mod_cast twoTo_pos _
  rw [bits, roundSteps_eq_iff positive quotient, nearestTo_even_iff even, distance, abs_mul,
    abs_div, abs_of_pos factor, abs_of_pos scale, half]
  generalize |(roundSteps (a * p) 1 : ℚ) - a * p| = error
  rw [div_mul_eq_mul_div, div_le_div_iff₀ factor two_pos, ← mul_le_mul_iff_left₀ leading]
  constructor
  · intro near
    linarith
  · intro near
    linarith

/-- The quotient is so near the number that it is no other whole number. -/
theorem restored_of_whole {zeros : ℕ} (large : 53 ≤ zeros)
    (whole : roundSteps (roundSteps (a * p) 1 * twoTo zeros) p % twoTo zeros = 0) :
    roundSteps (roundSteps (a * p) 1 * twoTo zeros) p = a * twoTo zeros := by
  have factor : (0 : ℚ) < p := by exact_mod_cast positive
  have log : binaryLog a < 31 := (binaryLog_lt_iff nonzero).2 small
  have distance := restored_distance (a := a) positive zeros
  have relative : |(roundSteps (a * p) 1 : ℚ) - a * p| / p * twoTo 22 < 1 := by
    rw [div_mul_eq_mul_div, div_lt_one factor]
    exact product_error small positive
  have error := roundSteps_error positive (roundSteps (a * p) 1 * twoTo zeros)
  rw [binaryLog_restored small positive nonzero fits] at error
  have fine : twoTo (binaryLog a + zeros + 1 - 53) * twoTo 22 ≤ twoTo zeros := by
    rw [← twoTo_add]
    exact twoTo_le (by omega)
  obtain ⟨b, same⟩ := Nat.dvd_of_mod_eq_zero whole
  rw [Nat.mul_comm (twoTo zeros)] at same
  rw [same] at error ⊢
  have scale : (0 : ℚ) < twoTo zeros := by exact_mod_cast twoTo_pos zeros
  have gap : (twoTo (binaryLog a + zeros + 1 - 53) : ℚ) * 4 ≤ twoTo zeros := by
    have four : twoTo 2 ≤ twoTo 22 := twoTo_le (by decide)
    exact_mod_cast (Nat.mul_le_mul_left _ four).trans fine
  have near : |(roundSteps (a * p) 1 : ℚ) - a * p| / p < 1 / 4 := by
    have four : (4 : ℚ) ≤ twoTo 22 := by exact_mod_cast twoTo_le (m := 2) (n := 22) (by decide)
    have nonneg : 0 ≤ |(roundSteps (a * p) 1 : ℚ) - a * p| / p := by positivity
    linarith [mul_le_mul_of_nonneg_left four nonneg]
  have nearScaled := mul_lt_mul_of_pos_right near scale
  have apart : |((b * twoTo zeros : ℕ) : ℚ) - (a * twoTo zeros : ℕ)| < twoTo zeros := by
    refine (abs_sub_le _ ((roundSteps (a * p) 1 * twoTo zeros : ℕ) / (p : ℚ)) _).trans_lt ?_
    rw [abs_sub_comm, distance]
    linarith
  rw [Nat.cast_mul, Nat.cast_mul, ← sub_mul, abs_mul, abs_of_pos scale,
    mul_lt_iff_lt_one_left scale] at apart
  have close : |(b : ℤ) - a| < 1 := by exact_mod_cast apart
  have equal := Int.abs_lt_one_iff.1 close
  rw [show b = a by omega]

end Restoration
end TypedVectors
