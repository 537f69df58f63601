import TypedVectors.Proofs.Binary64.Whole
import TypedVectors.Proofs.Failure
import TypedVectors.Proofs.Selection.WriteTargets

/-!
Positions of both signs. They are refused in every order and beside whatever else, missing entries
and zeros included, with one exception: an infinite entry is refused before the signs are looked at.
-/
namespace TypedVectors

namespace Reference

/-- Positions of which one is at most minus one and one at least one. -/
def SignsMixed (cells : List Cell) : Prop :=
  (∃ x, .number x ∈ cells ∧ x.le (-1)) ∧ ∃ x, .number x ∈ cells ∧ Binary64.le 1 x

def infiniteSign? : Cell → Option Bool
  | .number (.infinite negative) => some negative
  | _ => none

/-- The sign of the first infinite cell. -/
def firstInfinite? (cells : List Cell) : Option Bool := cells.findSome? infiniteSign?

section Bounds

variable {x : Binary64}

theorem signedSteps_one : Binary64.signedSteps 1 = Binary64.unit := by decide +kernel

theorem finite_one : Binary64.isFinite 1 ∧ Binary64.isFinite (-1) := by decide +kernel

theorem signedSteps_minusOne : Binary64.signedSteps (-1) = -(Binary64.unit : ℤ) := by
  decide +kernel

theorem tdiv_neg_iff {steps one : ℤ} (positive : 0 < one) : steps.tdiv one < 0 ↔ steps ≤ -one := by
  constructor
  · intro below
    by_contra high
    rcases le_total 0 steps with up | down
    · exact absurd (Int.tdiv_nonneg up positive.le) (not_le.2 below)
    · have zero : (-steps).tdiv one = 0 := Int.tdiv_eq_zero_of_lt (by omega) (by omega)
      rw [Int.neg_tdiv] at zero
      omega
  · intro below
    have whole : 1 ≤ (-steps).tdiv one := by
      rw [Int.tdiv_eq_ediv_of_nonneg (by omega), Int.le_ediv_iff_mul_le positive]
      omega
    rw [Int.neg_tdiv] at whole
    omega

theorem tdiv_pos_iff {steps one : ℤ} (positive : 0 < one) : 0 < steps.tdiv one ↔ one ≤ steps := by
  have mirrored : (-steps).tdiv one < 0 ↔ -steps ≤ -one := tdiv_neg_iff positive
  rw [Int.neg_tdiv] at mirrored
  omega

theorem below_whole {p : ℤ} : (Position.whole p).below ↔ p < 0 := decide_eq_true_iff

theorem above_whole {p : ℤ} : (Position.whole p).above ↔ 0 < p := decide_eq_true_iff

theorem ofCell_finite (negative : Bool) (steps : ℕ) (representable : Representable steps) :
    Position.ofCell (.number (.finite negative steps representable)) =
      .whole ((Binary64.finite negative steps representable).signedSteps.tdiv Binary64.unit) := rfl

theorem below_iff (bounded : infiniteSign? (.number x) = none) :
    (Position.ofCell (.number x)).below ↔ x.le (-1) := by
  cases x with
  | nan => exact iff_of_false Bool.false_ne_true Bool.false_ne_true
  | infinite negative => cases bounded
  | finite negative steps representable =>
    rw [Binary64.le_iff rfl finite_one.2, signedSteps_minusOne, ofCell_finite, below_whole,
      tdiv_neg_iff Binary64.natCast_unit_pos]

theorem above_iff (bounded : infiniteSign? (.number x) = none) :
    (Position.ofCell (.number x)).above ↔ Binary64.le 1 x := by
  cases x with
  | nan =>
    rw [Binary64.le_nan]
    exact Iff.rfl
  | infinite negative => cases bounded
  | finite negative steps representable =>
    rw [Binary64.le_iff finite_one.1 rfl, signedSteps_one, ofCell_finite, above_whole,
      tdiv_pos_iff Binary64.natCast_unit_pos]

end Bounds

section Cells

variable {cells : List Cell}

/-- Cutting the entries stops at the first infinite one. -/
theorem wholePositions_eq (cells : List Cell) :
    (cells.map numberOf?).mapM Selection.wholePosition =
      match firstInfinite? cells with
      | some negative => .error (.infinitePosition negative)
      | none => .ok ((cells.map Position.ofCell).map Position.whole?) := by
  induction cells with
  | nil => rfl
  | cons cell rest ih =>
    have first : firstInfinite? (cell :: rest) =
        (infiniteSign? cell).or (firstInfinite? rest) := by
      unfold firstInfinite?
      rw [List.findSome?_cons]
      cases infiniteSign? cell with
      | none | some _ => rfl
    rw [List.map_cons, List.mapM_cons, ih, first]
    cases sign : infiniteSign? cell with
    | some negative =>
      cases cell with
      | missing | truth _ | text _ => cases sign
      | number x =>
        cases x with
        | nan | finite _ _ _ => cases sign
        | infinite _ =>
          cases sign
          rfl
    | none =>
      have bounded : Position.ofCell cell ≠ .infinite := by
        intro endless
        cases cell with
        | missing | truth _ | text _ => cases endless
        | number x =>
          cases x with
          | nan | finite _ _ _ => cases endless
          | infinite negative => cases sign
      rw [wholePosition_bounded bounded]
      cases firstInfinite? rest with
      | none | some negative => rfl

theorem any_iff {test : Position → Bool} {holds : Binary64 → Bool} (absent : test .missing = false)
    (agree : ∀ {x}, infiniteSign? (.number x) = none →
      (test (Position.ofCell (.number x)) ↔ holds x))
    (bounded : firstInfinite? cells = none) :
    (cells.map Position.ofCell).any test ↔ ∃ x, .number x ∈ cells ∧ holds x := by
  have finite := List.findSome?_eq_none_iff.1 bounded
  rw [List.any_map, List.any_eq_true]
  constructor
  · rintro ⟨cell, inside, found⟩
    cases cell with
    | missing | truth _ | text _ =>
      change test .missing = true at found
      rw [absent] at found
      cases found
    | number x => exact ⟨x, inside, (agree (finite _ inside)).1 found⟩
  · rintro ⟨x, inside, found⟩
    exact ⟨_, inside, (agree (finite _ inside)).2 found⟩

theorem signsMixed_iff (bounded : firstInfinite? cells = none) :
    SignsMixed cells ↔ (cells.map Position.ofCell).any Position.below ∧
      (cells.map Position.ofCell).any Position.above :=
  (and_congr (any_iff rfl below_iff bounded) (any_iff rfl above_iff bounded)).symm

variable {length : ℕ} {access : Access}

theorem resolvePositions_infinite {negative : Bool} (found : firstInfinite? cells = some negative) :
    Selection.resolvePositions (cells.map numberOf?) length access =
      .error (.infinitePosition negative) := by
  unfold Selection.resolvePositions
  rw [wholePositions_eq, found]
  rfl

theorem resolvePositions_mixed (bounded : firstInfinite? cells = none) (mixed : SignsMixed cells) :
    Selection.resolvePositions (cells.map numberOf?) length access = .error .mixedSigns := by
  obtain ⟨below, above⟩ := (signsMixed_iff bounded).1 mixed
  unfold Selection.resolvePositions
  rw [wholePositions_eq, bounded]
  change (if _ then _ else _) = _
  rw [any_below, any_above, below, above]
  rfl

end Cells

/-- The refusals of an entry because it is missing. -/
def RefusesMissing (cause : Error) : Prop := cause = .missingExclusion ∨ cause = .missingTarget

theorem missingTarget_fails (access : Access) :
    FailsOnly RefusesMissing (Selection.missingTarget access) := by
  cases access with
  | read => exact .ok _
  | write => exact .error (.inr rfl)

section Refusals

variable {cells : List Cell} {length : ℕ} {access : Access}

theorem addressed_fails (positions : List (Option ℤ)) :
    FailsOnly RefusesMissing (Selection.addressed access positions) := by
  refine .bind (.mapM fun position _ => ?_) fun _ _ => .ok _
  cases position with
  | none => exact (missingTarget_fails access).map some
  | some p => exact .ok _

theorem resolvePositions_unmixed (bounded : firstInfinite? cells = none)
    (unmixed : ¬SignsMixed cells) :
    FailsOnly RefusesMissing
      (Selection.resolvePositions (cells.map numberOf?) length access) := by
  rw [signsMixed_iff bounded] at unmixed
  unfold Selection.resolvePositions
  rw [wholePositions_eq, bounded]
  change FailsOnly _ (if _ then _ else _)
  rw [any_below, any_above]
  split
  · next both => exact absurd (Bool.and_eq_true_iff.1 both) unmixed
  · change FailsOnly _ (if _ then (if _ then _ else _) else _)
    split
    · split
      · exact .error (.inl rfl)
      · exact .ok _
    · exact .bind (addressed_fails _) fun _ _ => .ok _

theorem resolveMask_fails :
    FailsOnly RefusesMissing
      (Selection.resolveMask (cells.map truthOf?) length access) := by
  cases access with
  | read =>
    rw [resolveMask_read]
    exact .ok _
  | write =>
    rw [resolveMask_write, resolveMask_read]
    refine .bind (.ok _) fun _ _ => ?_
    split
    · exact .error (.inr rfl)
    · exact .ok _

theorem nameTargets_fails (v : TypedVector) (entries : List (Option String))
    (growth : Selection.Growth) :
    FailsOnly RefusesMissing (Selection.nameTargets v access entries growth) := by
  induction entries generalizing growth with
  | nil => exact .ok _
  | cons entry rest ih =>
    cases entry with
    | none =>
      refine .bind (missingTarget_fails access) fun _ _ => ?_
      exact .bind (ih growth) fun _ _ => .ok _
    | some name =>
      unfold Selection.nameTargets
      exact .bind (ih _) fun _ _ => .ok _

theorem resolve_unpositioned {v : TypedVector} {reading : Reading} (other : reading ≠ .positions) :
    FailsOnly RefusesMissing (reading.resolve v cells access) := by
  cases reading with
  | positions => exact absurd rfl other
  | mask => exact resolveMask_fails
  | names => exact .bind (nameTargets_fails _ _ _) fun _ _ => .ok _

end Refusals

end Reference

namespace TypedVector

open Reference

theorem resolveBy_positions {v : TypedVector} {spec : Operand} {access : Access}
    (read : reading? spec = some .positions) :
    v.resolveBy spec access =
      Selection.resolvePositions ((entries spec).map numberOf?) v.length access := by
  rw [resolveBy_eq, read]
  rfl

/-- Neither the signs nor an infinite entry are why an operand is refused. -/
def SignsAccepted (outcome : Except Error Resolution) : Prop :=
  outcome ≠ .error .mixedSigns ∧ ∀ negative, outcome ≠ .error (.infinitePosition negative)

theorem signsAccepted_of_failsOnly {outcome : Except Error Resolution}
    (only : FailsOnly (fun cause => RefusesMissing cause ∨ cause = .mixedSelector) outcome) :
    SignsAccepted outcome := by
  constructor
  · intro failed
    rcases only _ failed with (same | same) | same <;> cases same
  · intro negative failed
    rcases only _ failed with (same | same) | same <;> cases same

theorem resolveBy_unpositioned {v : TypedVector} {spec : Operand} {access : Access}
    (other : reading? spec ≠ some .positions) : SignsAccepted (v.resolveBy spec access) := by
  refine signsAccepted_of_failsOnly ?_
  rw [resolveBy_eq]
  cases found : reading? spec with
  | none => exact .error (.inr rfl)
  | some reading =>
    have unpositioned : reading ≠ .positions := fun same => other (same ▸ found)
    exact fun cause failed => .inl (resolve_unpositioned unpositioned cause failed)

/-- Positions of both signs are refused as such, to read and to write, in every order and beside
zeros, fractions and missing entries, unless one of them is infinite: the first infinite entry is
refused before. Nothing else is refused in either way. -/
theorem resolveBy_mixedSigns (v : TypedVector) (spec : Operand) (access : Access) :
    (v.resolveBy spec access = .error .mixedSigns ↔
        reading? spec = some .positions ∧ SignsMixed (entries spec) ∧
          firstInfinite? (entries spec) = none) ∧
      ∀ negative, v.resolveBy spec access = .error (.infinitePosition negative) ↔
        reading? spec = some .positions ∧ firstInfinite? (entries spec) = some negative := by
  by_cases read : reading? spec = some .positions
  · rw [resolveBy_positions read]
    simp only [read, true_and]
    cases found : firstInfinite? (entries spec) with
    | some first =>
      rw [resolvePositions_infinite found]
      simp
    | none =>
      by_cases mixed : SignsMixed (entries spec)
      · rw [resolvePositions_mixed found mixed]
        simp [mixed]
      · have accepted : SignsAccepted
            (Selection.resolvePositions ((entries spec).map numberOf?) v.length access) :=
          signsAccepted_of_failsOnly fun cause failed =>
            .inl (resolvePositions_unmixed found mixed cause failed)
        obtain ⟨signs, infinite⟩ := accepted
        simp [signs, infinite, mixed]
  · have accepted : SignsAccepted (v.resolveBy spec access) := resolveBy_unpositioned read
    obtain ⟨signs, infinite⟩ := accepted
    simp [signs, infinite, read]

/-- One and minus one are refused for the infinite entry that follows them. -/
theorem resolveBy_mixedSigns_infinite :
    let v := make .double (RadixArray.ofList [.number 1, .number 2]) none
    let spec := Operand.cells [.number 1, .number (-1), .number (.infinite false)]
    reading? spec = some .positions ∧ SignsMixed (entries spec) ∧
      v.resolveBy spec .read = .error (.infinitePosition false) := by
  intro v spec
  have read : reading? spec = some .positions := by decide +kernel
  have first : firstInfinite? (entries spec) = some false := by decide +kernel
  refine ⟨read, ⟨⟨-1, ?_, by decide +kernel⟩, ⟨1, ?_, by decide +kernel⟩⟩, ?_⟩
  · exact List.mem_cons_of_mem _ List.mem_cons_self
  · exact List.mem_cons_self
  · rw [resolveBy_positions read]
    exact resolvePositions_infinite first

end TypedVector
end TypedVectors
