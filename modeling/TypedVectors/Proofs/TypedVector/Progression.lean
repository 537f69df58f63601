import TypedVectors.Proofs.Binary64.Order
import TypedVectors.Proofs.RadixArray.Canonical
import TypedVectors.Proofs.Success
import TypedVectors.TypedVector.Progression

/-!
Progressions of any finite numbers. Sums and multiples are rounded, but they keep the order, so that
the numbers of a progression go one way until they are held back to the last one. An integer
progression holds integers only: each of its numbers lies between its first and its last, and whole
numbers add to whole numbers however large they grow.
-/
namespace TypedVectors.TypedVector

open Binary64

/-- The number at an index of a progression before it is held back. -/
def freeTerm (first step : Binary64) (index : ℕ) : Binary64 := first + .ofNat index * step

/-- The step of a progression, by one toward the last number when none is given. -/
def stepOf (first last : Binary64) (step? : Option Binary64) : Binary64 :=
  step?.getD (if first.le last then 1 else -1)

/-- The bounds and the step of a progression are finite. -/
structure FiniteBounds (first last step : Binary64) : Prop where
  start : first.isFinite
  ending : last.isFinite
  step : step.isFinite

/-- How two numbers of a progression lie, the near one before the far one. All numbers stand for
their levels, and those at an index for the ones before and after they are held back. -/
inductive Course (first last step near far nearCell farCell : ℤ) : Prop
  | rising (up : 0 < step) (start : first ≤ near) (onward : near ≤ far)
    (nearHeld : nearCell = min near last) (farHeld : farCell = min far last)
  | falling (down : step ≤ 0) (start : near ≤ first) (onward : far ≤ near)
    (nearHeld : nearCell = max near last) (farHeld : farCell = max far last)

namespace FiniteBounds

variable {first last step : Binary64} {i j : ℕ} (bounds : FiniteBounds first last step)
include bounds

theorem freeTerm_ne_nan (small : i ≤ twoTo 53) : freeTerm first step i ≠ nan :=
  add_ne_nan bounds.start (mul_ofNat_ne_nan small bounds.step)

theorem level_freeTerm_zero : (freeTerm first step 0).level = first.level := by
  have small : 0 ≤ twoTo 53 := Nat.zero_le _
  have zero : (ofNat 0 * step).level = 0 := by
    rw [level_mul_ofNat small bounds.step, Nat.cast_zero, Int.zero_mul, roundedLevel_zero]
  have limit : (0 : ℤ) < stepLimit := by exact_mod_cast stepLimit_pos
  have finite : (ofNat 0 * step).isFinite :=
    isFinite_of_level (mul_ofNat_ne_nan small bounds.step) (by omega) (by omega)
  rw [freeTerm, level_add bounds.start finite, zero, Int.add_zero, roundedLevel_level bounds.start]

theorem freeTerm_mono (nonneg : 0 ≤ step.level) (before : i ≤ j) (small : j ≤ twoTo 53) :
    (freeTerm first step i).level ≤ (freeTerm first step j).level := by
  have fewer := Nat.le_trans before small
  refine level_add_mono bounds.start (mul_ofNat_ne_nan fewer bounds.step)
    (mul_ofNat_ne_nan small bounds.step) ?_
  rw [level_mul_ofNat fewer bounds.step, level_mul_ofNat small bounds.step]
  exact roundedLevel_mono (Int.mul_le_mul_of_nonneg_right (by omega) nonneg)

theorem freeTerm_antitone (nonpos : step.level ≤ 0) (before : i ≤ j) (small : j ≤ twoTo 53) :
    (freeTerm first step j).level ≤ (freeTerm first step i).level := by
  have fewer := Nat.le_trans before small
  refine level_add_mono bounds.start (mul_ofNat_ne_nan small bounds.step)
    (mul_ofNat_ne_nan fewer bounds.step) ?_
  rw [level_mul_ofNat fewer bounds.step, level_mul_ofNat small bounds.step]
  exact roundedLevel_mono (Int.mul_le_mul_of_nonpos_right (by omega) nonpos)

theorem unit_dvd_freeTerm (firstOnes : (unit : ℤ) ∣ first.level)
    (stepOnes : (unit : ℤ) ∣ step.level) (small : i ≤ twoTo 53) :
    (unit : ℤ) ∣ (freeTerm first step i).level := by
  refine unit_dvd_level_add bounds.start (mul_ofNat_ne_nan small bounds.step) firstOnes ?_
  rw [level_mul_ofNat small bounds.step]
  exact unit_dvd_roundedLevel (Int.dvd_mul_of_dvd_right stepOnes)

theorem progressionCell_ne_nan (small : i ≤ twoTo 53) :
    progressionCell first last step i ≠ nan := by
  have free : freeTerm first step i ≠ nan := bounds.freeTerm_ne_nan small
  have held := ne_nan_of_finite bounds.ending
  unfold progressionCell
  dsimp only
  split
  · exact min_ne_nan free held
  · exact max_ne_nan free held

section Pair

variable (before : i ≤ j) (small : j ≤ twoTo 53)
include before small

theorem course : Course first.level last.level step.level
    (freeTerm first step i).level (freeTerm first step j).level
    (progressionCell first last step i).level (progressionCell first last step j).level := by
  have fewer := Nat.le_trans before small
  have held := ne_nan_of_finite bounds.ending
  have near := bounds.freeTerm_ne_nan fewer
  have far := bounds.freeTerm_ne_nan small
  -- The number at index zero is the first one.
  have start := bounds.level_freeTerm_zero
  unfold progressionCell
  dsimp only
  split
  · next positive =>
    have up := (zero_lt_level bounds.step).1 positive
    have reached := bounds.freeTerm_mono up.le (Nat.zero_le i) fewer
    exact .rising up (start ▸ reached) (bounds.freeTerm_mono up.le before small)
      (level_min near held) (level_min far held)
  · next notPositive =>
    have down := not_lt.1 (mt (zero_lt_level bounds.step).2 notPositive)
    have reached := bounds.freeTerm_antitone down (Nat.zero_le i) fewer
    exact .falling down (start ▸ reached) (bounds.freeTerm_antitone down before small)
      (level_max near held) (level_max far held)

theorem progressionCell_mono (up : Binary64.lt 0 step) :
    (progressionCell first last step i).le (progressionCell first last step j) := by
  rw [zero_lt_level bounds.step] at up
  rw [le_level (bounds.progressionCell_ne_nan (Nat.le_trans before small))
    (bounds.progressionCell_ne_nan small)]
  rcases bounds.course before small with ⟨-, -, onward, near, far⟩ | ⟨down, -⟩
  · omega
  · omega

theorem progressionCell_antitone (down : step.lt 0) :
    (progressionCell first last step j).le (progressionCell first last step i) := by
  rw [level_lt_zero bounds.step] at down
  rw [le_level (bounds.progressionCell_ne_nan small)
    (bounds.progressionCell_ne_nan (Nat.le_trans before small))]
  rcases bounds.course before small with ⟨up, -⟩ | ⟨-, -, onward, near, far⟩
  · omega
  · omega

/-- Between integers at both ends there are integers. -/
theorem progressionCell_fitsInteger (stepWhole : step.isWhole) (firstFits : first.fitsInteger)
    (farFits : (progressionCell first last step j).fitsInteger) :
    (progressionCell first last step i).fitsInteger := by
  have fewer := Nat.le_trans before small
  have stepOnes : (unit : ℤ) ∣ step.level := by
    obtain ⟨n, whole⟩ := Option.isSome_iff_exists.1 stepWhole
    rw [level_whole whole]
    exact Int.dvd_mul_left _ _
  obtain ⟨-, firstOnes, firstLimited⟩ := fitsInteger_iff_level.1 firstFits
  obtain ⟨-, farOnes, farLimited⟩ := fitsInteger_iff_level.1 farFits
  have free := bounds.unit_dvd_freeTerm firstOnes stepOnes fewer
  refine fitsInteger_iff_level.2 ⟨bounds.progressionCell_ne_nan fewer, ?_⟩
  -- A near number past the last one is held back to it, and then so is the far number.
  rcases bounds.course before small with
    ⟨-, start, onward, near, far⟩ | ⟨-, start, onward, near, far⟩
  · refine ⟨?_, by omega⟩
    rcases le_total (freeTerm first step i).level last.level with within | past
    · rw [near, min_eq_left within]
      exact free
    · rw [min_eq_right past] at near
      rw [min_eq_right (past.trans onward)] at far
      rw [near, ← far]
      exact farOnes
  · refine ⟨?_, by omega⟩
    rcases le_total last.level (freeTerm first step i).level with within | past
    · rw [near, max_eq_left within]
      exact free
    · rw [max_eq_right past] at near
      rw [max_eq_right (onward.trans past)] at far
      rw [near, ← far]
      exact farOnes

end Pair

/-- No cell of a progression leaves the closed interval between the bounds. -/
theorem progressionCell_between (small : i ≤ twoTo 53) :
    first.le (progressionCell first last step i) ∧ (progressionCell first last step i).le last ∨
      last.le (progressionCell first last step i) ∧
        (progressionCell first last step i).le first := by
  have start := ne_nan_of_finite bounds.start
  have ending := ne_nan_of_finite bounds.ending
  have cell := bounds.progressionCell_ne_nan small
  rw [le_level start cell, le_level cell ending, le_level ending cell, le_level cell start]
  rcases bounds.course le_rfl small with ⟨-, start, -, near, -⟩ | ⟨-, start, -, near, -⟩
  · omega
  · omega

end FiniteBounds

/-! The whole progression. -/

/-- A progression of a number of cells, once the number is known. -/
def progressionOf (first last step : Binary64) (count : ℕ) : TypedVector :=
  let ending := progressionCell first last step (count - 1)
  let kind := if step.isWhole && first.fitsInteger && ending.fitsInteger then .integer else .double
  make kind (RadixArray.ofList (((List.range count).map (progressionCell first last step)).map
    .number)) none

theorem progressionOf_integer {first last step : Binary64} {count : ℕ}
    (integer : (progressionOf first last step count).kind = .integer) :
    step.isWhole ∧ first.fitsInteger ∧
      (progressionCell first last step (count - 1)).fitsInteger := by
  have decided : (if step.isWhole && first.fitsInteger &&
      (progressionCell first last step (count - 1)).fitsInteger then Kind.integer
      else .double) = .integer := integer
  split at decided
  · next fits =>
    rw [Bool.and_eq_true, Bool.and_eq_true, and_assoc] at fits
    exact fits
  · cases decided

theorem progressionOf_kind (first last step : Binary64) (count : ℕ) :
    (progressionOf first last step count).kind = .integer ∨
      (progressionOf first last step count).kind = .double := by
  unfold progressionOf
  dsimp only
  split
  · exact .inl rfl
  · exact .inr rfl

theorem toList_progressionOf (first last step : Binary64) (count : ℕ) :
    (progressionOf first last step count).cells.toList =
      ((List.range count).map (progressionCell first last step)).map .number :=
  RadixArray.toList_ofList _

theorem FiniteBounds.progressionOf_fitsInteger {first last step : Binary64}
    (bounds : FiniteBounds first last step) {count : ℕ} (few : count ≤ lengthLimit)
    (integer : (progressionOf first last step count).kind = .integer) {x : Binary64}
    (inside : x ∈ (List.range count).map (progressionCell first last step)) : x.fitsInteger := by
  have limit : lengthLimit ≤ twoTo 53 := by decide
  obtain ⟨i, index, rfl⟩ := List.mem_map.1 inside
  have below := List.mem_range.1 index
  obtain ⟨stepWhole, firstFits, farFits⟩ := progressionOf_integer integer
  exact bounds.progressionCell_fitsInteger (by omega) (by omega) stepWhole firstFits farFits

section Whole

variable {first last : Binary64} {step? : Option Binary64}

theorem progression_finite (firstFinite : first.isFinite) (lastFinite : last.isFinite)
    (stepFinite : step?.all (·.isFinite)) : progression first last step? =
      (progressionLength first last (stepOf first last step?)).bind fun length =>
        if Binary64.lt (.ofNat lengthLimit) length then .error (.sequenceTooLong length)
        else .ok (progressionOf first last (stepOf first last step?)
          (length.toInt?.getD 0).toNat) := by
  unfold progression
  rw [firstFinite, lastFinite, stepFinite]
  refine congrArg _ (funext fun length => ?_)
  dsimp only
  split
  · rfl
  · rfl

theorem isFinite_stepOf (stepFinite : step?.all (·.isFinite)) :
    (stepOf first last step?).isFinite := by
  cases step? with
  | some step => exact stepFinite
  | none =>
    unfold stepOf
    rw [Option.getD_none]
    split
    · decide +kernel
    · decide +kernel

/-- A progression that succeeds has finite bounds and so many cells. -/
theorem progression_success {v : TypedVector} (ok : progression first last step? = .ok v) :
    ∃ count ≤ lengthLimit, FiniteBounds first last (stepOf first last step?) ∧
      v = progressionOf first last (stepOf first last step?) count := by
  have finite : first.isFinite ∧ last.isFinite ∧ step?.all (·.isFinite) := by
    by_contra infinite
    have refused : (!first.isFinite || !last.isFinite || !(step?.all (·.isFinite))) = true := by
      grind
    unfold progression at ok
    rw [refused, if_pos rfl] at ok
    cases ok
  obtain ⟨firstFinite, lastFinite, stepFinite⟩ := finite
  rw [progression_finite firstFinite lastFinite stepFinite] at ok
  obtain ⟨length, -, ok⟩ := bind_success ok
  split at ok
  · cases ok
  · next few =>
    refine ⟨_, ?_, ⟨firstFinite, lastFinite, isFinite_stepOf stepFinite⟩,
      (Except.ok.inj ok).symm⟩
    cases whole : length.toInt? with
    | none => exact Nat.zero_le _
    | some n =>
      have limit := mt (lt_whole (toInt?_ofNat (by decide)) whole).2 few
      rw [Option.getD_some]
      omega

end Whole

/-- What the numbers of a progression keep to, by the step taken and the kind of the vector. -/
structure Held (first last step : Binary64) (kind : Kind) (numbers : List Binary64) : Prop where
  between : ∀ x ∈ numbers, first.le x ∧ x.le last ∨ last.le x ∧ x.le first
  rising : Binary64.lt 0 step → numbers.Pairwise fun x y => x.le y
  falling : step.lt 0 → numbers.Pairwise fun x y => y.le x
  integer : kind = .integer → ∀ x ∈ numbers, x.fitsInteger

theorem progression_held {first last : Binary64} {step? : Option Binary64} {v : TypedVector}
    (ok : progression first last step? = .ok v) : ∃ numbers,
      v.cells.toList = numbers.map .number ∧
        Held first last (stepOf first last step?) v.kind numbers := by
  obtain ⟨count, few, bounds, rfl⟩ := progression_success ok
  generalize stepOf first last step? = step at *
  have limit : lengthLimit ≤ twoTo 53 := by decide
  refine ⟨(List.range count).map (progressionCell first last step),
    toList_progressionOf first last step count, fun x inside => ?_, fun up => ?_, fun down => ?_,
    fun integer x inside => bounds.progressionOf_fitsInteger few integer inside⟩
  · obtain ⟨i, index, rfl⟩ := List.mem_map.1 inside
    have below := List.mem_range.1 index
    exact bounds.progressionCell_between (by omega)
  · refine List.pairwise_map.2 (List.pairwise_lt_range.imp_of_mem fun _ index before => ?_)
    have below := List.mem_range.1 index
    exact bounds.progressionCell_mono before.le (by omega) up
  · refine List.pairwise_map.2 (List.pairwise_lt_range.imp_of_mem fun _ index before => ?_)
    have below := List.mem_range.1 index
    exact bounds.progressionCell_antitone before.le (by omega) down

/-- From five down by twos to one half, which no cell is held back to. -/
theorem progression_held_down : ∃ v numbers, progression 5 (1 / 2) (some (-2)) = .ok v ∧
    numbers = [5, 3, 1] ∧ v.cells.toList = numbers.map .number ∧
      Held 5 (1 / 2) (-2) .integer numbers := by
  have made : (progression 5 (1 / 2) (some (-2))).map (fun v => (v.kind, v.cells.toList)) =
      .ok (.integer, [.number 5, .number 3, .number 1]) := by decide +kernel
  obtain ⟨v, ok, same⟩ := map_success made
  obtain ⟨integer, listed⟩ := Prod.mk.inj same
  obtain ⟨numbers, cells, held⟩ := progression_held ok
  refine ⟨v, numbers, ok, ?_, cells, integer ▸ held⟩
  have mapped : numbers.map Cell.number = [5, 3, 1].map Cell.number := cells.symm.trans listed
  exact List.map_injective_iff.2 (fun _ _ => Cell.number.inj) mapped

end TypedVectors.TypedVector
