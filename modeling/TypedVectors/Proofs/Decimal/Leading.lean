import TypedVectors.Proofs.Decimal.Value

/-!
Leading digits. The power of ten of the leading digit is found for every number, and a number that
is kept to fifteen digits keeps all of them: rounding it to fifteen digits once more gives the same
number again. Its shortest text has no more than these digits.
-/
namespace TypedVectors.Decimal

theorem overPowerOfTen_pos (steps : ℕ) (exponent : ℤ) : 0 < (overPowerOfTen steps exponent).2 := by
  have positive := Binary64.unit_pos
  unfold overPowerOfTen
  generalize Binary64.unit = unit at *
  split
  · exact Nat.mul_pos positive (tenTo_pos _)
  · exact positive

theorem overPowerOfTen_eq (steps : ℕ) (exponent : ℤ) :
    ((overPowerOfTen steps exponent).1 : ℚ) / (overPowerOfTen steps exponent).2 =
      steps / scale exponent := by
  unfold overPowerOfTen scale
  split
  · next up =>
    push_cast [cast_tenTo]
    rw [← zpow_natCast, Int.toNat_of_nonneg up, mul_comm]
  · next down =>
    push_cast [cast_tenTo]
    rw [← zpow_natCast, Int.toNat_of_nonneg (by omega), zpow_neg, ← div_eq_mul_inv,
      div_div]

/-- The estimate of the decimal exponent is right up to one. In whole numbers and with a power of
ten that makes all exponents positive, for every binary exponent that numbers have. -/
theorem estimate_checked : (List.range 2098).all fun log =>
    Nat.ble (tenTo ((30103 * log + 7669378) / 100000) * Binary64.unit) (twoTo log * tenTo 400) &&
      Nat.ble (twoTo (log + 1) * tenTo 400)
        (tenTo ((30103 * log + 7669378) / 100000 + 2) * Binary64.unit) := by
  decide +kernel

def estimate (steps : ℕ) : ℤ := ((binaryLog steps : ℤ) - 1074) * 30103 / 100000

theorem estimate_bounds {steps : ℕ} (nonzero : steps ≠ 0) (bounded : steps < stepLimit) :
    scale (estimate steps) ≤ steps ∧ steps < scale (estimate steps + 2) := by
  have log : binaryLog steps < 2098 := (binaryLog_lt_iff nonzero).2 bounded
  have checked := List.all_eq_true.1 estimate_checked _ (List.mem_range.2 log)
  rw [Bool.and_eq_true, Nat.ble_eq, Nat.ble_eq] at checked
  obtain ⟨lower, upper⟩ := checked
  have leading := twoTo_binaryLog_le nonzero
  have trailing := lt_twoTo_binaryLog steps
  generalize hshifted : (30103 * binaryLog steps + 7669378) / 100000 = shifted at lower upper
  have exponent : estimate steps + (400 : ℕ) = shifted := by
    unfold estimate
    omega
  have low : ((tenTo 400 : ℕ) : ℚ) * scale (estimate steps) =
      ((tenTo shifted * Binary64.unit : ℕ) : ℚ) := by
    rw [← scale_add, exponent, scale_natCast]
  have high : ((tenTo 400 : ℕ) : ℚ) * scale (estimate steps + 2) =
      ((tenTo (shifted + 2) * Binary64.unit : ℕ) : ℚ) := by
    rw [← scale_add, ← scale_natCast]
    congr 1
    push_cast
    omega
  have positive := tenTo_pos 400
  generalize tenTo 400 = shift, Binary64.unit = unit at *
  have below : tenTo shifted * unit ≤ shift * steps := by
    rw [Nat.mul_comm shift]
    exact Nat.le_trans lower (Nat.mul_le_mul_right _ leading)
  have above : shift * steps < tenTo (shifted + 2) * unit := by
    rw [Nat.mul_comm shift]
    exact Nat.lt_of_lt_of_le (Nat.mul_lt_mul_of_pos_right trailing positive) upper
  have scaled : (0 : ℚ) < shift := by exact_mod_cast positive
  constructor
  · refine le_of_mul_le_mul_left ?_ scaled
    rw [low]
    exact_mod_cast below
  · refine lt_of_mul_lt_mul_left ?_ scaled.le
    rw [high]
    exact_mod_cast above

theorem leadingExponent_eq (steps : ℕ) :
    leadingExponent steps =
      if scale (estimate steps + 1) ≤ steps then estimate steps + 1 else estimate steps := by
  have quotient := overPowerOfTen_eq steps (estimate steps + 1)
  have positive : (0 : ℚ) < (overPowerOfTen steps (estimate steps + 1)).2 := by
    exact_mod_cast overPowerOfTen_pos _ _
  have reached : (overPowerOfTen steps (estimate steps + 1)).2 ≤
      (overPowerOfTen steps (estimate steps + 1)).1 ↔ scale (estimate steps + 1) ≤ steps := by
    rw [← one_le_div (scale_pos _), ← quotient, one_le_div positive]
    exact_mod_cast Iff.rfl
  change (if (overPowerOfTen steps (estimate steps + 1)).2 ≤
    (overPowerOfTen steps (estimate steps + 1)).1 then _ else _) = _
  simp only [reached]
  rfl

/-- The leading digit of a number stands at the power of ten that is found for it. -/
theorem leadingExponent_bounds {steps : ℕ} (nonzero : steps ≠ 0) (bounded : steps < stepLimit) :
    scale (leadingExponent steps) ≤ steps ∧ steps < scale (leadingExponent steps + 1) := by
  obtain ⟨lower, upper⟩ := estimate_bounds nonzero bounded
  rw [leadingExponent_eq]
  split
  · next reached => exact ⟨reached, by rwa [add_assoc]⟩
  · next below => exact ⟨lower, not_le.1 below⟩

theorem exponent_ofLeading (count steps : ℕ) :
    (ofLeading count steps).exponent = leadingExponent steps - (count - 1 : ℕ) := rfl

/-- The digits are kept from the middle between two values up. -/
theorem le_coefficient_iff {k count steps : ℕ} :
    k ≤ (ofLeading count steps).coefficient ↔
      ((k : ℚ) - 1 / 2) * scale (ofLeading count steps).exponent ≤ steps := by
  have positive := overPowerOfTen_pos steps (ofLeading count steps).exponent
  have quotient := overPowerOfTen_eq steps (ofLeading count steps).exponent
  change k ≤ (2 * (overPowerOfTen steps (ofLeading count steps).exponent).1 +
    (overPowerOfTen steps (ofLeading count steps).exponent).2) /
    (2 * (overPowerOfTen steps (ofLeading count steps).exponent).2) ↔ _
  generalize (overPowerOfTen steps (ofLeading count steps).exponent).1 = num at *
  generalize (overPowerOfTen steps (ofLeading count steps).exponent).2 = den at *
  have scaled : (0 : ℚ) < den := by exact_mod_cast positive
  rw [← le_div_iff₀ (scale_pos _), ← quotient, le_div_iff₀ scaled,
    Nat.le_div_iff_mul_le (Nat.mul_pos two_pos positive), ← Nat.cast_le (α := ℚ)]
  push_cast
  constructor
  · intro reached
    linarith only [reached]
  · intro reached
    linarith only [reached]

/-- Keeping some digits is off by half a unit of the last one at most. -/
theorem ofLeading_error (count steps : ℕ) :
    |(ofLeading count steps).inSteps - steps| ≤ scale (ofLeading count steps).exponent / 2 := by
  have lower := le_coefficient_iff.1 (le_refl (ofLeading count steps).coefficient)
  have upper := not_le.1
    (mt le_coefficient_iff.2 (Nat.not_succ_le_self (ofLeading count steps).coefficient))
  unfold inSteps
  generalize (ofLeading count steps).coefficient = coefficient at *
  generalize scale (ofLeading count steps).exponent = unit at *
  push_cast at upper
  rw [abs_le]
  constructor
  · linarith only [upper]
  · linarith only [lower]

theorem inSteps_fifteen (steps : ℕ) : (ofLeading 15 steps).inSteps =
    (ofLeading 15 steps).coefficient * scale (leadingExponent steps - 14) := rfl

theorem fifteen_error (steps : ℕ) :
    |(ofLeading 15 steps).inSteps - steps| ≤ scale (leadingExponent steps - 14) / 2 :=
  ofLeading_error 15 steps

theorem scale_fifteen (exponent : ℤ) :
    scale (exponent + 1) = 1000000000000000 * scale (exponent - 14) := by
  rw [show exponent + 1 = exponent - 14 + (15 : ℕ) by push_cast; ring, scale_add]
  norm_num [tenTo]

/-- Two multiples of a width lie at least that width apart. -/
theorem grid_apart {width : ℚ} (positive : 0 < width) {k other : ℕ} (different : k ≠ other) :
    width ≤ |(k : ℚ) * width - other * width| := by
  have apart : (1 : ℚ) ≤ |(k : ℚ) - other| := by
    have whole : 1 ≤ (k : ℤ) - other ∨ 1 ≤ -((k : ℤ) - other) := by omega
    exact_mod_cast le_abs.2 whole
  rw [← sub_mul, abs_mul, abs_of_pos positive]
  nlinarith

theorem near_bounds {x y : ℚ} (near : |x - y| * twoTo 53 ≤ y) :
    (x - y) * 9007199254740992 ≤ y ∧ (y - x) * 9007199254740992 ≤ y := by
  rw [show ((twoTo 53 : ℕ) : ℚ) = 9007199254740992 by norm_num [twoTo]] at near
  constructor
  · linarith only [near, le_abs_self (x - y)]
  · linarith only [near, neg_le_abs (x - y)]

section Fifteen

variable {steps : ℕ} (nonzero : steps ≠ 0) (bounded : steps < stepLimit)
include nonzero bounded

/-- Fifteen digits reach up to the next power of ten, or stay a unit of the last one below it. -/
theorem fifteen_reach :
    (ofLeading 15 steps).inSteps = scale (leadingExponent steps + 1) ∨
      (ofLeading 15 steps).inSteps + scale (leadingExponent steps - 14) ≤
        scale (leadingExponent steps + 1) := by
  have above := (leadingExponent_bounds nonzero bounded).2
  have error := (abs_le.1 (fifteen_error steps)).2
  have positive := scale_pos (leadingExponent steps - 14)
  have next := scale_fifteen (leadingExponent steps)
  rw [inSteps_fifteen] at error ⊢
  generalize (ofLeading 15 steps).coefficient = coefficient at *
  rw [next] at above ⊢
  generalize scale (leadingExponent steps - 14) = unit at *
  have limit : coefficient ≤ 1000000000000000 := by
    by_contra beyond
    have more : ((1000000000000000 + 1 : ℕ) : ℚ) ≤ coefficient := by
      exact_mod_cast Nat.not_le.1 beyond
    have scaled := mul_le_mul_of_nonneg_right more positive.le
    push_cast at scaled
    linarith only [scaled, error, above, positive]
  rcases Nat.eq_or_lt_of_le limit with top | below
  · left
    rw [top]
    norm_num
  · right
    have less : ((coefficient + 1 : ℕ) : ℚ) ≤ 1000000000000000 := by exact_mod_cast below
    have scaled := mul_le_mul_of_nonneg_right less positive.le
    push_cast at scaled
    linarith only [scaled]

variable {read : ℕ} (rounded : (ofLeading 15 steps).rounded = read) (present : read ≠ 0)
  (finite : read < stepLimit)
include rounded present finite

/-- A number is not read past a power of ten that its fifteen digits do not reach. -/
theorem fifteen_top (up : leadingExponent steps < leadingExponent read) :
    (ofLeading 15 steps).inSteps = scale (leadingExponent steps + 1) := by
  have reach := (scale_mono up).trans (leadingExponent_bounds present finite).1
  have above := (leadingExponent_bounds nonzero bounded).2
  have error := (abs_le.1 (fifteen_error steps)).2
  have ten := scale_fifteen (leadingExponent steps)
  have either := (ofLeading 15 steps).rounded_cases
  rw [rounded] at either
  refine (fifteen_reach nonzero bounded).resolve_right fun short => ?_
  have later : (steps : ℚ) + 1 ≤ read := by
    have strict := above.trans_le reach
    exact_mod_cast (by exact_mod_cast strict : steps < read)
  have positive := scale_pos (leadingExponent steps - 14)
  rcases either with ⟨_, nearest⟩ | ⟨_, near⟩
  · have close := (abs_le.1 nearest.error).1
    linarith only [close, error, later, short, reach]
  · obtain ⟨_, close⟩ := near_bounds near
    linarith only [close, positive, ten, short, reach]

/-- The fifteen digits lie on the grid that the number they are read as has for fifteen digits. -/
theorem fifteen_onGrid : ∃ k : ℕ,
    (ofLeading 15 steps).inSteps = k * scale (leadingExponent read - 14) := by
  rcases le_or_gt (leadingExponent read) (leadingExponent steps) with down | up
  · refine ⟨(ofLeading 15 steps).coefficient *
      tenTo (leadingExponent steps - leadingExponent read).toNat, ?_⟩
    have finer : scale (leadingExponent steps - 14) =
        tenTo (leadingExponent steps - leadingExponent read).toNat *
          scale (leadingExponent read - 14) := by
      rw [← scale_add, Int.toNat_of_nonneg (by omega)]
      congr 1
      ring
    rw [inSteps_fifteen, finer]
    push_cast
    ring
  · have top := fifteen_top nonzero bounded rounded present finite up
    have reach := (leadingExponent_bounds present finite).1
    have either := (ofLeading 15 steps).rounded_cases
    rw [rounded, top] at either
    have positive := scale_pos (leadingExponent steps + 1)
    have one : (1 : ℚ) ≤ read := by exact_mod_cast Nat.pos_of_ne_zero present
    have next : leadingExponent read = leadingExponent steps + 1 := by
      by_contra further
      have far := (scale_mono (show leadingExponent steps + 1 + (1 : ℕ) ≤ leadingExponent read by
        push_cast
        omega)).trans reach
      rw [scale_add, show ((tenTo 1 : ℕ) : ℚ) = 10 by norm_num [tenTo]] at far
      rcases either with ⟨_, nearest⟩ | ⟨_, near⟩
      · have close := (abs_le.1 nearest.error).1
        linarith only [close, far, one]
      · obtain ⟨_, close⟩ := near_bounds near
        linarith only [close, far, one]
    refine ⟨tenTo 14, ?_⟩
    rw [top, next, ← scale_add]
    congr 1
    push_cast
    ring

/-- Rounding to fifteen digits is done once: what was read of them is read of its own fifteen. -/
theorem rounded_fifteen : (ofLeading 15 read).rounded = read := by
  obtain ⟨k, grid⟩ := fifteen_onGrid nonzero bounded rounded present finite
  have error := fifteen_error read
  have above := (leadingExponent_bounds present finite).2
  have either := (ofLeading 15 steps).rounded_cases
  rw [rounded] at either
  have positive := scale_pos (leadingExponent read - 14)
  have ten := scale_fifteen (leadingExponent read)
  by_cases same : k = (ofLeading 15 read).coefficient
  · rw [same, ← inSteps_fifteen] at grid
    rw [← rounded_congr grid, rounded]
  · have apart := grid_apart positive same
    rw [← grid, ← inSteps_fifteen] at apart
    have through := abs_sub_le (ofLeading 15 steps).inSteps read (ofLeading 15 read).inSteps
    rw [abs_sub_comm (read : ℚ)] at through
    rcases either with ⟨small, nearest⟩ | ⟨_, near⟩
    · refine rounded_of_nearest small (nearest.of_nearer ?_)
      linarith only [apart, through, error]
    · -- The number lies too near its fifteen digits for other ones to be as near.
      exfalso
      obtain ⟨high, low⟩ := near_bounds near
      have close : |(ofLeading 15 steps).inSteps - read| ≤ read / 9007199254740992 := by
        rw [abs_le]
        constructor
        · linarith only [low]
        · linarith only [high]
      linarith only [apart, through, error, close, above, ten, positive]

end Fifteen

/-! Whole numbers of at most fifteen digits. -/

theorem leadingExponent_whole {n : ℕ} (nonzero : n ≠ 0) (few : n < tenTo 15)
    (bounded : n * Binary64.unit < stepLimit) : leadingExponent (n * Binary64.unit) ≤ 14 := by
  have one := Binary64.unit_pos
  have lower := (leadingExponent_bounds (Nat.mul_ne_zero nonzero one.ne') bounded).1
  by_contra above
  have reach := (scale_mono (show ((15 : ℕ) : ℤ) ≤ _ by push_cast; omega)).trans lower
  rw [scale_natCast, Nat.cast_le] at reach
  exact absurd (Nat.le_of_mul_le_mul_right reach one) (Nat.not_le.2 few)

/-- A whole number of at most fifteen digits keeps all of them. -/
theorem rounded_whole {n : ℕ} (nonzero : n ≠ 0) (few : n < tenTo 15)
    (representable : Representable (n * Binary64.unit)) :
    (ofLeading 15 (n * Binary64.unit)).rounded = n * Binary64.unit := by
  have top := leadingExponent_whole nonzero few representable.2
  have error := fifteen_error (n * Binary64.unit)
  have positive := scale_pos (leadingExponent (n * Binary64.unit) - 14)
  obtain ⟨places, shift⟩ := Int.eq_ofNat_of_zero_le
    (show 0 ≤ 14 - leadingExponent (n * Binary64.unit) by omega)
  have onGrid : ((n * Binary64.unit : ℕ) : ℚ) =
      (n * tenTo places : ℕ) * scale (leadingExponent (n * Binary64.unit) - 14) := by
    have ones : scale 0 = Binary64.unit := by rw [scale, zpow_zero, one_mul]
    have power := scale_add (leadingExponent (n * Binary64.unit) - 14) places
    rw [show leadingExponent (n * Binary64.unit) - 14 + (places : ℤ) = 0 by omega, ones] at power
    push_cast
    rw [power, mul_assoc]
  have same : (ofLeading 15 (n * Binary64.unit)).inSteps = (n * Binary64.unit : ℕ) := by
    rw [inSteps_fifteen, onGrid] at error ⊢
    by_cases equal : (ofLeading 15 (n * Binary64.unit)).coefficient = n * tenTo places
    · rw [equal]
    · have apart := grid_apart positive equal
      linarith only [apart, error, positive]
  have kept := roundSteps_of_leading representable.1
  refine Eq.trans (roundSteps_congr (fraction_pos _) one_pos ?_) kept
  rw [fraction_eq, same, Nat.cast_one, div_one]

/-- Whether a decimal reads as a magnitude is whether it is rounded to it. -/
theorem readsAs_iff {steps : ℕ} {d : Decimal} :
    d.readsAs steps ↔ d.rounded = steps ∧ steps < stepLimit := by
  unfold readsAs
  rcases Nat.lt_or_ge d.rounded stepLimit with bounded | large
  · rw [toBinary64_finite false rfl ⟨roundSteps_leading _ _, bounded⟩]
    dsimp only
    rw [beq_iff_eq]
    constructor
    · intro same
      exact ⟨same, same ▸ bounded⟩
    · exact And.left
  · rw [toBinary64_infinite false large]
    constructor
    · intro absurd
      cases absurd
    · rintro ⟨same, small⟩
      exact absurd small (Nat.not_lt.2 (same ▸ large))

/-- The decimal of `count` digits below a magnitude, or so many units of the last digit above it. -/
def gridPoint (steps count above : ℕ) : Decimal :=
  let exponent := leadingExponent steps - (count - 1 : ℕ)
  let quotient := overPowerOfTen steps exponent
  ⟨quotient.1 / quotient.2 + above, exponent⟩

def firstReadable? (steps : ℕ) (first second : Decimal) : Option Decimal :=
  if first.readsAs steps then some first
  else if second.readsAs steps then some second
  else none

theorem readable?_cases (steps count : ℕ) :
    readable? steps count =
        firstReadable? steps (gridPoint steps count 0) (gridPoint steps count 1) ∨
      readable? steps count =
        firstReadable? steps (gridPoint steps count 1) (gridPoint steps count 0) := by
  unfold readable?
  dsimp only
  unfold gridPoint
  dsimp only
  generalize overPowerOfTen steps (leadingExponent steps - (count - 1 : ℕ)) = quotient
  generalize compare (2 * quotient.1) ((2 * (quotient.1 / quotient.2) + 1) * quotient.2) = order
  generalize (quotient.1 / quotient.2 % 2 == 0) = even
  cases order with
  | lt => exact .inl rfl
  | gt => exact .inr rfl
  | eq =>
    cases even with
    | true => exact .inl rfl
    | false => exact .inr rfl

theorem readsAs_of_firstReadable? {steps : ℕ} {first second d : Decimal}
    (found : firstReadable? steps first second = some d) : d.readsAs steps := by
  unfold firstReadable? at found
  split at found
  · next reads =>
    cases found
    exact reads
  · split at found
    · next reads =>
      cases found
      exact reads
    · cases found

theorem readsAs_of_readable? {steps count : ℕ} {d : Decimal}
    (found : readable? steps count = some d) : d.readsAs steps := by
  rcases readable?_cases steps count with same | same
  · exact readsAs_of_firstReadable? (same.symm.trans found)
  · exact readsAs_of_firstReadable? (same.symm.trans found)

theorem isSome_firstReadable? {steps : ℕ} {first second : Decimal}
    (reads : first.readsAs steps ∨ second.readsAs steps) :
    (firstReadable? steps first second).isSome := by
  unfold firstReadable?
  split
  · rfl
  · next unread =>
    rw [if_pos (reads.resolve_left unread)]
    rfl

/-- The kept digits are those below the magnitude or the next ones above it. -/
theorem ofLeading_cases (count steps : ℕ) :
    ofLeading count steps = gridPoint steps count 0 ∨
      ofLeading count steps = gridPoint steps count 1 := by
  have positive := overPowerOfTen_pos steps (leadingExponent steps - (count - 1 : ℕ))
  have split := Nat.div_add_mod (overPowerOfTen steps (leadingExponent steps - (count - 1 : ℕ))).1
    (overPowerOfTen steps (leadingExponent steps - (count - 1 : ℕ))).2
  have rest :=
    Nat.mod_lt (overPowerOfTen steps (leadingExponent steps - (count - 1 : ℕ))).1 positive
  unfold ofLeading gridPoint
  dsimp only
  generalize (overPowerOfTen steps (leadingExponent steps - (count - 1 : ℕ))).1 = num at *
  generalize (overPowerOfTen steps (leadingExponent steps - (count - 1 : ℕ))).2 = den at *
  generalize num / den = floor at *
  have twice : ∀ k, k * (2 * den) = 2 * (den * k) := fun k => by ring
  have more : den * (floor + 1) = den * floor + den := Nat.mul_succ den floor
  have most : den * (floor + 1 + 1) = den * floor + den + den := by rw [Nat.mul_succ, more]
  by_cases low : 2 * (num % den) < den
  · left
    rw [Nat.div_eq_of_lt_le (k := floor), Nat.add_zero]
    · rw [twice]
      omega
    · rw [twice, more]
      omega
  · right
    rw [Nat.div_eq_of_lt_le (k := floor + 1)]
    · rw [twice, more]
      omega
    · rw [twice, most]
      omega

theorem isSome_readable? {steps count : ℕ} (reads : (ofLeading count steps).readsAs steps) :
    (readable? steps count).isSome := by
  have either :
      (gridPoint steps count 0).readsAs steps ∨ (gridPoint steps count 1).readsAs steps := by
    rcases ofLeading_cases count steps with same | same
    · exact .inl (same ▸ reads)
    · exact .inr (same ▸ reads)
  rcases readable?_cases steps count with same | same
  · rw [same]
    exact isSome_firstReadable? either
  · rw [same]
    exact isSome_firstReadable? either.symm

/-- The shortest decimal reads back where some count of digits does. -/
theorem readsAs_shortest {steps : ℕ} (reads : (ofLeading 15 steps).readsAs steps) :
    (shortest steps).readsAs steps := by
  unfold shortest
  cases found : (List.range 17).findSome? fun more => readable? steps (more + 1) with
  | some d =>
    obtain ⟨more, _, readable⟩ := List.exists_of_findSome?_eq_some found
    exact readsAs_of_readable? readable
  | none =>
    have unread := List.findSome?_eq_none_iff.1 found 14 (by decide)
    have read := isSome_readable? reads
    rw [unread] at read
    cases read

end TypedVectors.Decimal
