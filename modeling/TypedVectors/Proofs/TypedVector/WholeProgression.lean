import Mathlib.Data.Rat.Floor
import TypedVectors.Proofs.Binary64.Tolerance
import TypedVectors.Proofs.TypedVector.Progression

/-!
Progressions of whole numbers of 32 bits are exact. The span divided by the step is rounded and the
tolerance is added to it, but neither reaches the next whole number, so that the count of cells is
that of exact arithmetic and no cell is held back.
-/
namespace TypedVectors.TypedVector

open Binary64

theorem stepTolerance_small : stepTolerance.isFinite ∧ ∃ tolerance : ℕ,
    stepTolerance.level = tolerance ∧ tolerance * twoTo 32 ≤ unit := by
  have bounds : stepTolerance.isFinite ∧ stepTolerance.level = stepTolerance.level.toNat ∧
      stepTolerance.level.toNat * twoTo 32 ≤ unit := by decide +kernel
  exact ⟨bounds.1, _, bounds.2⟩

/-- How many cells a progression has in exact arithmetic, when its step leads to the last number. -/
def exactLength (a b s : ℤ) : ℤ := if a = b then 1 else ⌊((b - a : ℤ) : ℚ) / s⌋ + 1

/-- A step that does not lead from one whole number to another. -/
def Misled (a b s : ℤ) : Prop := s = 0 ∧ a ≠ b ∨ s ≠ 0 ∧ (b - a) * s < 0

/-- The whole number that a progression steps by: the given one, or one toward the last number. -/
inductive WholeStep (a b : ℤ) : Option Binary64 → ℤ → Prop
  | given {step : Binary64} {s : ℤ} (whole : step.toInt? = some s)
    (limited : s.natAbs ≤ integerLimit) : WholeStep a b (some step) s
  | omitted : WholeStep a b none (if a ≤ b then 1 else -1)

/-- The exact progression of whole numbers, or the cause why there is none. The sign of a cell that
is zero is left free. -/
structure WholeProgression (outcome : Except Error TypedVector) (a b s : ℤ) : Prop where
  misled : (∃ error, outcome = .error error ∧ error.code? = some "INVALID_STEP") ↔ Misled a b s
  tooLong : ¬Misled a b s →
    ((∃ error, outcome = .error error ∧ error.code? = some "INVALID_ARGUMENT") ↔
      lengthLimit < exactLength a b s)
  cells : ¬Misled a b s → exactLength a b s ≤ lengthLimit → ∃ v, outcome = .ok v ∧
    v.kind = .integer ∧ v.names? = none ∧ v.length = exactLength a b s ∧
    ∀ i < v.length, ∃ x, v.cells.get? i = some (.number x) ∧ x.toInt? = some (a + i * s)

namespace WholeProgression

variable {a b s : ℤ}

theorem of_misled {error : Error} (misled : Misled a b s)
    (code : error.code? = some "INVALID_STEP") : WholeProgression (.error error) a b s where
  misled := iff_of_true ⟨error, rfl, code⟩ misled
  tooLong straight := absurd misled straight
  cells straight := absurd misled straight

theorem of_tooLong (length : Binary64) (straight : ¬Misled a b s)
    (long : lengthLimit < exactLength a b s) :
    WholeProgression (.error (.sequenceTooLong length)) a b s where
  misled := by
    have other : some "INVALID_ARGUMENT" ≠ some "INVALID_STEP" := by decide
    refine iff_of_false ?_ straight
    rintro ⟨error, refused, code⟩
    cases refused
    exact other code
  tooLong _ := iff_of_true ⟨_, rfl, rfl⟩ long
  cells _ few := absurd long (not_lt.2 few)

theorem of_ok {v : TypedVector} (straight : ¬Misled a b s) (few : exactLength a b s ≤ lengthLimit)
    (integer : v.kind = .integer) (unnamed : v.names? = none)
    (length : v.length = exactLength a b s)
    (cells : ∀ i < v.length, ∃ x, v.cells.get? i = some (.number x) ∧
      x.toInt? = some (a + i * s)) : WholeProgression (.ok v) a b s where
  misled := iff_of_false (fun ⟨_, refused, _⟩ => nomatch refused) straight
  tooLong _ := iff_of_false (fun ⟨_, refused, _⟩ => nomatch refused) (not_lt.2 few)
  cells _ _ := ⟨v, rfl, integer, unnamed, length, cells⟩

end WholeProgression

theorem floor_div_eq_fdiv (m n : ℤ) : ⌊(m : ℚ) / n⌋ = m.fdiv n := by
  rcases Int.natAbs_eq n with positive | negative
  · rw [positive, Int.cast_natCast, Rat.floor_intCast_div_natCast,
      Int.fdiv_eq_ediv_of_nonneg _ (Int.natCast_nonneg _)]
  · rw [negative, Int.cast_neg, Int.cast_natCast, ← neg_div_neg_eq, neg_neg, ← Int.cast_neg,
      Rat.floor_intCast_div_natCast, ← Int.neg_fdiv_neg, neg_neg,
      Int.fdiv_eq_ediv_of_nonneg _ (Int.natCast_nonneg _)]

theorem exactLength_eq (a b s : ℤ) : exactLength a b s = (b - a).fdiv s + 1 := by
  unfold exactLength
  split
  · next same => rw [same, Int.sub_self, Int.zero_fdiv, Int.zero_add]
  · rw [floor_div_eq_fdiv]

section Straight

variable {a b s : ℤ} (straight : ¬Misled a b s)
include straight

theorem straight_cases : 0 ≤ (b - a) * s ∧ (s = 0 → a = b) := by
  refine ⟨?_, fun zero => by_contra fun apart => straight (.inl ⟨zero, apart⟩)⟩
  by_contra against
  have below := not_le.1 against
  exact straight (.inr ⟨right_ne_zero_of_mul below.ne, below⟩)

theorem exactLength_pos : 0 < exactLength a b s := by
  rw [exactLength_eq, fdiv_of_mul_nonneg (straight_cases straight).1]
  exact Int.natCast_succ_pos _

/-- So many steps do not pass the last number. -/
theorem reached_within {i : ℕ} (index : (i : ℤ) ≤ (b - a).fdiv s) :
    0 < s ∧ i * s ≤ b - a ∨ s ≤ 0 ∧ b - a ≤ i * s := by
  obtain ⟨along, still⟩ := straight_cases straight
  rcases lt_trichotomy s 0 with negative | zero | positive
  · rw [← Int.neg_fdiv_neg, Int.fdiv_eq_ediv_of_nonneg _ (by omega),
      Int.le_ediv_iff_mul_le (by omega)] at index
    exact .inr ⟨negative.le, by linarith⟩
  · rw [still zero, zero, Int.mul_zero, Int.sub_self]
    exact .inr ⟨le_rfl, le_rfl⟩
  · rw [Int.fdiv_eq_ediv_of_nonneg _ positive.le, Int.le_ediv_iff_mul_le positive] at index
    exact .inl ⟨positive, index⟩

end Straight

/-- The bounds and the step of a progression are whole numbers of 32 bits. -/
structure WholeBounds (first last step : Binary64) (a b s : ℤ) : Prop where
  start : first.toInt? = some a
  ending : last.toInt? = some b
  step : step.toInt? = some s
  startLimited : a.natAbs ≤ integerLimit
  endingLimited : b.natAbs ≤ integerLimit
  stepLimited : s.natAbs ≤ integerLimit

namespace WholeBounds

variable {first last step : Binary64} {a b s : ℤ} (bounds : WholeBounds first last step a b s)
include bounds

theorem span_lt : (b - a).natAbs < twoTo 32 := by
  have bits : integerLimit + integerLimit < twoTo 32 := by decide
  have start := bounds.startLimited
  have ending := bounds.endingLimited
  omega

theorem toInt?_span : (last - first).toInt? = some (b - a) := by
  have bits : twoTo 32 ≤ twoTo 53 := by decide
  have far := bounds.span_lt
  exact toInt?_of_eq_ofInt (unsignedZero_sub bounds.ending bounds.start) (by omega)

/-! The count of cells. -/

section Quotient

variable (nonzero : s ≠ 0)
include nonzero

/-- The rounded quotient of the span and the step. -/
theorem quotient : ∃ sign representable, (last - first) / step =
    finite sign (roundSteps ((b - a).natAbs * unit) s.natAbs) representable ∧
      SignOf sign ((b - a) * s) := by
  have bits : twoTo 32 + integerLimit < twoTo 53 := by decide
  have far := bounds.span_lt
  have limited := bounds.stepLimited
  exact div_whole bounds.toInt?_span bounds.step nonzero (by omega)

theorem level_quotient (along : 0 ≤ (b - a) * s) : ((last - first) / step).isFinite ∧
    ((last - first) / step).level = roundSteps ((b - a).natAbs * unit) s.natAbs := by
  obtain ⟨sign, representable, quotient, signed⟩ := bounds.quotient nonzero
  rw [quotient, level_finite]
  refine ⟨rfl, ?_⟩
  -- A span of nothing may give a negative zero, whose level is that of zero.
  rcases along.eq_or_lt with zero | above
  · rw [(mul_eq_zero.1 zero.symm).resolve_right nonzero, Int.natAbs_zero, Nat.zero_mul,
      roundSteps_zero, Nat.cast_zero, Int.neg_zero, ite_self]
  · rw [signed above.ne', decide_eq_false (not_lt.2 along), if_neg Bool.false_ne_true]

theorem quotient_lt_zero : ((last - first) / step).lt 0 ↔ (b - a) * s < 0 := by
  constructor
  · intro below
    by_contra along
    obtain ⟨finite, level⟩ := bounds.level_quotient nonzero (not_lt.1 along)
    rw [level_lt_zero finite, level] at below
    omega
  · intro against
    have bits : integerLimit < twoTo 53 := by decide
    have limited := bounds.stepLimited
    obtain ⟨sign, representable, quotient, signed⟩ := bounds.quotient nonzero
    have vanishes : roundSteps ((b - a).natAbs * unit) s.natAbs = 0 ↔ (b - a).natAbs = 0 :=
      roundSteps_quotient_eq_zero (Int.natAbs_pos.2 nonzero) (by omega) (by decide)
    have reached := mt vanishes.1 (Int.natAbs_ne_zero.2 (left_ne_zero_of_mul against.ne))
    rw [quotient, level_lt_zero rfl, level_finite, signed against.ne, decide_eq_true against,
      if_pos rfl]
    omega

theorem progressionLength_eq : progressionLength first last step =
    if (b - a) * s < 0 then .error (.wrongDirection first last step)
    else .ok (((last - first) / step + stepTolerance).floor + 1) := by
  unfold progressionLength
  rw [if_neg (mt (isZero_iff bounds.step).1 nonzero)]
  dsimp only
  rw [if_congr (bounds.quotient_lt_zero nonzero) rfl rfl]

/-- The tolerance and the roundings leave the exact count. -/
theorem toInt?_length (along : 0 ≤ (b - a) * s) :
    (((last - first) / step + stepTolerance).floor + 1).toInt? = some ((b - a).fdiv s + 1) := by
  have bits : twoTo 32 < twoTo 53 := by decide
  have narrow : integerLimit < twoTo 31 := by decide
  have far := bounds.span_lt
  have limited := bounds.stepLimited
  obtain ⟨finite, level⟩ := bounds.level_quotient nonzero along
  obtain ⟨toleranceFinite, tolerance, added, small⟩ := stepTolerance_small
  have floor := toInt?_floor_tolerant (Int.natAbs_pos.2 nonzero) (by omega) far small finite
    toleranceFinite level added
  have fewer := Nat.div_le_self (b - a).natAbs s.natAbs
  rw [fdiv_of_mul_nonneg along]
  generalize (b - a).natAbs / s.natAbs = count at *
  exact toInt?_of_eq_ofInt (unsignedZero_add floor (toInt?_ofNat (by decide))) (by omega)

end Quotient

/-- A step that does not lead to the last number is refused. -/
theorem progressionLength_misled (misled : Misled a b s) : ∃ error,
    progressionLength first last step = .error error ∧ error.code? = some "INVALID_STEP" := by
  rcases misled with ⟨zero, apart⟩ | ⟨nonzero, against⟩
  · refine ⟨.zeroStep first last step, ?_, rfl⟩
    unfold progressionLength
    rw [if_pos ((isZero_iff bounds.step).2 zero),
      if_neg (mt (equals_whole bounds.start bounds.ending).1 apart)]
  · refine ⟨.wrongDirection first last step, ?_, rfl⟩
    rw [bounds.progressionLength_eq nonzero, if_pos against]

theorem progressionLength_exact (straight : ¬Misled a b s) : ∃ length,
    progressionLength first last step = .ok length ∧
      length.toInt? = some (exactLength a b s) := by
  obtain ⟨along, still⟩ := straight_cases straight
  rw [exactLength_eq]
  by_cases zero : s = 0
  · refine ⟨1, ?_, ?_⟩
    · unfold progressionLength
      rw [if_pos ((isZero_iff bounds.step).2 zero),
        if_pos ((equals_whole bounds.start bounds.ending).2 (still zero))]
    · rw [zero, Int.fdiv_zero]
      exact toInt?_ofNat (by decide)
  · rw [bounds.progressionLength_eq zero, if_neg (not_lt.2 along)]
    exact ⟨_, rfl, bounds.toInt?_length zero along⟩

/-! The cells. -/

section Straight

variable (straight : ¬Misled a b s)
include straight

/-- No cell of the exact progression is held back. -/
theorem toInt?_progressionCell {i : ℕ} (small : i ≤ twoTo 53)
    (index : (i : ℤ) ≤ (b - a).fdiv s) :
    (progressionCell first last step i).toInt? = some (a + i * s) ∧
      (a + i * s).natAbs ≤ integerLimit := by
  have bits : twoTo 32 + integerLimit < twoTo 53 := by decide
  have far := bounds.span_lt
  have startLimited := bounds.startLimited
  have endingLimited := bounds.endingLimited
  have within := reached_within straight index
  have moves : (0 < s → 0 ≤ i * s) ∧ (s ≤ 0 → i * s ≤ 0) :=
    ⟨fun positive => by positivity, mul_nonpos_of_nonneg_of_nonpos (Int.natCast_nonneg i)⟩
  generalize distance : i * s = d at *
  have product := toInt?_mul (toInt?_ofNat small) bounds.step (by omega)
  rw [distance] at product
  have free : (freeTerm first step i).toInt? = some (a + d) :=
    toInt?_of_eq_ofInt (unsignedZero_add bounds.start product) (by omega)
  have positive := lt_whole toInt?_zero_eq bounds.step
  refine ⟨?_, by omega⟩
  unfold progressionCell
  dsimp only
  split
  · next up =>
    have rises := positive.1 up
    have held := toInt?_min free bounds.ending
    rwa [min_eq_left (by omega)] at held
  · next notUp =>
    have falls := mt positive.2 notUp
    have held := toInt?_max free bounds.ending
    rwa [max_eq_left (by omega)] at held

/-- As many cells as the exact progression has are an integer vector. -/
theorem wholeProgression (few : exactLength a b s ≤ lengthLimit) :
    WholeProgression (.ok (progressionOf first last step (exactLength a b s).toNat)) a b s := by
  have positive := exactLength_pos straight
  have limit : lengthLimit ≤ twoTo 53 := by decide
  have length := exactLength_eq a b s
  have cell := fun (i : ℕ) (inside : i < (exactLength a b s).toNat) =>
    bounds.toInt?_progressionCell straight (by omega : i ≤ twoTo 53) (by omega)
  generalize counted : (exactLength a b s).toNat = count at *
  have size : (progressionOf first last step count).length = count := by
    simp [progressionOf, make, TypedVector.length]
  refine .of_ok straight few ?_ rfl (by omega) fun i inside => ?_
  · obtain ⟨whole, limited⟩ := cell (count - 1) (by omega)
    have fits := (toInt?_limited whole).2 limited
    have stepWhole : step.isWhole := Option.isSome_of_eq_some bounds.step
    unfold progressionOf
    dsimp only
    rw [stepWhole, (toInt?_limited bounds.start).2 bounds.startLimited, fits]
    rfl
  · rw [size] at inside
    refine ⟨progressionCell first last step i, ?_, (cell i inside).1⟩
    simp [progressionOf, make, inside]

end Straight
end WholeBounds

namespace WholeStep

variable {step? : Option Binary64} {a b s : ℤ} (taken : WholeStep a b step? s)
include taken

theorem bounds {first last : Binary64} (start : first.toInt? = some a)
    (ending : last.toInt? = some b) (startLimited : a.natAbs ≤ integerLimit)
    (endingLimited : b.natAbs ≤ integerLimit) :
    WholeBounds first last (stepOf first last step?) a b s := by
  have one : toInt? 1 = some 1 := toInt?_ofNat (by decide)
  cases taken with
  | given whole limited => exact ⟨start, ending, whole, startLimited, endingLimited, limited⟩
  | omitted =>
    refine ⟨start, ending, ?_, startLimited, endingLimited, ?_⟩
    · unfold stepOf
      rw [Option.getD_none, if_congr (le_whole start ending) rfl rfl]
      split
      · exact one
      · rw [toInt?_neg, one]
        rfl
    · split
      · decide
      · decide

theorem isFinite : step?.all (·.isFinite) := by
  cases taken with
  | given whole _ => exact isFinite_of_whole whole
  | omitted => rfl

end WholeStep

theorem progression_whole {first last : Binary64} {step? : Option Binary64} {a b s : ℤ}
    (start : first.toInt? = some a) (ending : last.toInt? = some b)
    (startLimited : a.natAbs ≤ integerLimit) (endingLimited : b.natAbs ≤ integerLimit)
    (step : WholeStep a b step? s) : WholeProgression (progression first last step?) a b s := by
  have bounds := step.bounds start ending startLimited endingLimited
  rw [progression_finite (isFinite_of_whole start) (isFinite_of_whole ending) step.isFinite]
  generalize stepOf first last step? = step at *
  by_cases misled : Misled a b s
  · obtain ⟨error, refused, code⟩ := bounds.progressionLength_misled misled
    rw [refused]
    exact .of_misled misled code
  · obtain ⟨length, counted, whole⟩ := bounds.progressionLength_exact misled
    have limit : Binary64.lt (.ofNat lengthLimit) length ↔ (lengthLimit : ℤ) < exactLength a b s :=
      lt_whole (toInt?_ofNat (by decide)) whole
    rw [counted, Except.bind]
    split
    · next long => exact .of_tooLong length misled (limit.1 long)
    · next few =>
      rw [whole, Option.getD_some]
      exact bounds.wholeProgression misled (not_lt.1 (mt limit.2 few))

/-- The span is two steps but one, so that the quotient is hardly below two. -/
theorem progression_whole_near : ∃ v,
    progression (.ofInt (-2147483647)) (.ofInt 2147483646) (some (.ofInt 2147483647)) = .ok v ∧
      v.kind = .integer ∧ v.length = 2 ∧
      ∀ i < v.length, ∃ x, v.cells.get? i = some (.number x) ∧
        x.toInt? = some (-2147483647 + i * 2147483647 : ℤ) := by
  have held := progression_whole (toInt?_ofInt (by decide : (-2147483647 : ℤ).natAbs ≤ _))
    (toInt?_ofInt (by decide : (2147483646 : ℤ).natAbs ≤ _)) (by decide) (by decide)
    (.given (toInt?_ofInt (by decide : (2147483647 : ℤ).natAbs ≤ _)) (by decide))
  have straight : ¬Misled (-2147483647) 2147483646 2147483647 := by
    unfold Misled
    decide
  have two : exactLength (-2147483647) 2147483646 2147483647 = 2 := by
    rw [exactLength_eq]
    decide
  obtain ⟨v, made, integer, -, length, cells⟩ := held.cells straight (two ▸ by decide)
  exact ⟨v, made, integer, by omega, cells⟩

end TypedVectors.TypedVector
