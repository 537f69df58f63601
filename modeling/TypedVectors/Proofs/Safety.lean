import TypedVectors.Proofs.Elementwise.Selection
import TypedVectors.Proofs.Failure
import TypedVectors.Proofs.Recycling
import TypedVectors.Proofs.TypedVector.Operand
import TypedVectors.TypedVector.Progression

/-!
Operations on regular vectors fail for the sake of what they were given, and never inside:
promotions go up, and no computed index lies outside the sequence that is read or written there.
-/
namespace TypedVectors

/-- Whether an error is one inside an operation: a promotion that goes down, or an access at an
index that the operation computed and where the sequence has nothing. -/
def Error.isInternal : Error → Bool
  | narrowing .. | outOfBounds .. | unreadable _ => true
  | _ => false

abbrev Safe {α : Type} (result : Except Error α) : Prop :=
  FailsOnly (fun error => error.isInternal = false) result

theorem Kind.rank_le_character (kind : Kind) : kind.rank ≤ Kind.character.rank := by
  cases kind <;> decide

/-- Whether there is an item to read at each index, and nothing only at those below zero. -/
def RadixArray.ReadsInside {α : Type} (items : RadixArray α) (indices : List Int) : Prop :=
  (items.readAll indices).map Option.isSome = indices.map fun index => decide (0 ≤ index)

theorem RadixArray.Canonical.readsInside {α : Type} {items : RadixArray α}
    (canonical : items.Canonical) (targets : List Target) :
    items.ReadsInside (targets.map (TypedVector.insideIndex items.size)) := by
  unfold ReadsInside
  rw [canonical.size_eq, canonical, toList_ofList, readAll_insideIndex, List.map_map, List.map_map]
  refine List.map_congr_left fun target _ => ?_
  cases target with
  | missing => rfl
  | place index =>
    by_cases inside : index < items.toList.length
    · simp [TypedVector.insideIndex, Target.in?, inside]
    · simp [TypedVector.insideIndex, Target.in?, inside]

theorem safe_readAt {α : Type} {items : Array α} {index : Nat} (inside : index < items.size) :
    Safe (readAt items index) := .of_eq_ok (readAt_eq inside)

namespace TypedVector

variable {v w : TypedVector}

theorem safe_withNames (v : TypedVector) (given : List Cell) : Safe (v.withNames given) := by
  unfold withNames
  split
  · exact .error rfl
  · exact .ok _

theorem safe_cellAt (v : TypedVector) (position : Binary64) : Safe (v.cellAt position) := by
  unfold cellAt
  split
  · exact .error rfl
  · exact .ok _

theorem safe_withNamesOf (v source : TypedVector) : Safe (v.withNamesOf source) :=
  .bind (.of_eq_ok (promoted_eq_raisedCells source.kind.rank_le_character))
    fun given _ => v.safe_withNames given

theorem safe_build (kind : Kind) (cells : List Cell) (names? : Option (List Cell)) :
    Safe (build kind cells names?) := by
  unfold build
  split
  · exact .error rfl
  · cases names? with
    | none => exact .ok _
    | some names => exact safe_withNames _ names

theorem safe_progressionLength (first last step : Binary64) :
    Safe (progressionLength first last step) := by
  unfold progressionLength
  split
  · split
    · exact .ok _
    · exact .error rfl
  · dsimp only
    split
    · exact .error rfl
    · exact .ok _

theorem safe_progression (first last : Binary64) (step? : Option Binary64) :
    Safe (progression first last step?) := by
  unfold progression
  dsimp only
  split
  · exact .error rfl
  · refine .bind (safe_progressionLength first last _) fun length _ => ?_
    split
    · exact .error rfl
    · exact .ok _

end TypedVector

namespace Operand

theorem safe_toVector (operand : Operand) : Safe operand.toVector := by
  cases operand with
  | vector v => exact .ok v
  | scalar cell => exact .of_eq_ok (toVector_scalar cell)
  | cells items => exact .of_eq_ok (toVector_cells items)

theorem safe_combine {operands : List Operand}
    (fit : ∀ operand ∈ operands, operand.part.NamesFit) : Safe (combine operands) :=
  .of_eq_ok (combine_eq fit)

theorem safe_read (count : RepeatCount) (value : Binary64) : Safe (count.read value) := by
  unfold RepeatCount.read
  split
  · exact .ok _
  · exact .error rfl

theorem safe_rounds (limit : Nat) : Safe (rounds limit) := by
  unfold rounds
  split
  · exact .ok _
  · exact .error rfl

theorem safe_repeated (operand : Operand) (times each : Binary64) :
    Safe (operand.repeated times each) := by
  refine .bind (safe_read _ times) fun timesCount _ => ?_
  refine .bind (safe_read _ each) fun eachCount _ => ?_
  refine .bind operand.safe_toVector fun source _ => ?_
  dsimp only
  split
  · exact .error rfl
  · split
    · exact .error rfl
    · exact .bind (safe_rounds timesCount) fun _ _ => .ok _

end Operand

namespace Selection

theorem safe_missingTarget (access : Access) : Safe (missingTarget access) := by
  cases access with
  | read => exact .ok _
  | write => exact .error rfl

theorem safe_wholePosition (entry : Option Binary64) : Safe (wholePosition entry) := by
  unfold wholePosition
  split
  · exact .ok _
  · exact .ok _
  · exact .error rfl
  · exact .ok _

theorem safe_addressed (access : Access) (positions : List (Option Int)) :
    Safe (addressed access positions) := by
  refine .bind (.mapM fun position _ => ?_) fun targets _ => .ok _
  cases position with
  | none => exact (safe_missingTarget access).map some
  | some p => exact .ok _

theorem safe_resolvePositions (entries : List (Option Binary64)) (length : Nat) (access : Access) :
    Safe (resolvePositions entries length access) := by
  refine .bind (.mapM fun entry _ => safe_wholePosition entry) fun positions _ => ?_
  dsimp only
  split
  · exact .error rfl
  · split
    · split
      · exact .error rfl
      · exact .ok _
    · exact .bind (safe_addressed access positions) fun targets _ => .ok _

/-- A mask is read below its length, from which it starts over. -/
theorem safe_resolveMask (entries : List (Option Bool)) (length : Nat) (access : Access) :
    Safe (resolveMask entries length access) := by
  unfold resolveMask
  dsimp only
  split
  · exact .ok _
  · next nonempty =>
    have positive : 0 < entries.toArray.size := by
      rw [List.size_toArray]
      exact List.length_pos_iff.2 (by simpa using nonempty)
    refine .bind (.mapM fun index _ => ?_) fun targets _ => .ok _
    refine .bind (safe_readAt (Nat.mod_lt index positive)) fun entry _ => ?_
    rcases entry with _ | selected | _
    · exact (safe_missingTarget access).map some
    · exact .ok _
    · exact .ok _

theorem safe_nameTargets (v : TypedVector) (access : Access) (entries : List (Option String))
    (growth : Growth) : Safe (nameTargets v access entries growth) := by
  induction entries generalizing growth with
  | nil => exact .ok _
  | cons entry rest ih =>
    cases entry with
    | none =>
      refine .bind (safe_missingTarget access) fun target _ => ?_
      exact .bind (ih growth) fun resolved _ => .ok _
    | some name =>
      unfold nameTargets
      exact .bind (ih _) fun resolved _ => .ok _

theorem safe_resolveNames (v : TypedVector) (entries : List (Option String)) (access : Access) :
    Safe (resolveNames v entries access) :=
  .bind (safe_nameTargets v access entries _) fun _ _ => .ok _

end Selection

namespace Selector

theorem safe_ofCells (cells : List Cell) : Safe (ofCells cells) := by
  unfold ofCells
  dsimp only
  split
  · exact .ok _
  · split
    · exact .ok _
    · split
      · exact .ok _
      · exact .error rfl

theorem safe_ofOperand (operand : Operand) : Safe (ofOperand operand) := by
  cases operand with
  | vector v =>
    unfold ofOperand
    dsimp only
    cases v.kind <;> exact .ok _
  | scalar cell => exact safe_ofCells [cell]
  | cells cells => exact safe_ofCells cells

theorem safe_resolve (selector : Selector) (v : TypedVector) (access : Access) :
    Safe (selector.resolve v access) := by
  cases selector with
  | positions entries => exact Selection.safe_resolvePositions entries v.length access
  | mask entries => exact Selection.safe_resolveMask entries v.length access
  | names entries => exact Selection.safe_resolveNames v.indexed entries access

end Selector

namespace TypedVector

variable {v value left right : TypedVector}

theorem safe_extract (v : TypedVector) (selector : Selector) : Safe (v.extract selector) :=
  .bind (selector.safe_resolve v .read) fun _ _ => .ok _

theorem Refused.isExternal {resolved : Except Error Resolution} {given : Nat} {error : Error}
    (safe : Safe resolved) (refused : Refused resolved given error) : error.isInternal = false := by
  cases refused with
  | unresolved failed => exact safe _ failed
  | tooLong | empty => rfl

theorem safe_assign (regular : v.Regular) (valueRegular : value.Regular) (selector : Selector) :
    Safe (v.assign selector value) := by
  intro error failed
  exact ((assign_eq_error_iff regular valueRegular).1 failed).isExternal
    (selector.safe_resolve v .write)

theorem safe_requireNumeric (v : TypedVector) (operation : Operation) :
    Safe (v.requireNumeric operation) := by
  unfold requireNumeric
  split
  · exact .error rfl
  · exact .ok _

theorem safe_align (lengths : List Nat) : Safe (Recycling.align lengths) := by
  unfold Recycling.align
  dsimp only
  split
  · exact .ok _
  · split
    · exact .error rfl
    · exact .ok _

/-- Two operands that were aligned are read below their lengths. -/
theorem safe_readPair {xs ys : Array Cell} {alignment : Recycling.Alignment}
    (aligned : Recycling.align [xs.size, ys.size] = .ok alignment) (f : Cell → Cell → Tallied) :
    Safe ((List.range alignment.length).mapM fun index => (do
      let x ← readAt xs (Recycling.source xs.size index)
      let y ← readAt ys (Recycling.source ys.size index)
      return f x y : Except Error Tallied)) := by
  refine .mapM fun index inside => ?_
  have below := List.mem_range.1 inside
  refine .bind (safe_readAt (Recycling.align_inside aligned below List.mem_cons_self)) fun x _ => ?_
  refine .bind (safe_readAt (Recycling.align_inside aligned below ?_)) fun y _ => .ok _
  exact List.mem_cons_of_mem _ List.mem_cons_self

theorem safe_binary (operator : Operator) (leftRegular : left.Regular)
    (rightRegular : right.Regular) : Safe (binary operator left right) := by
  unfold binary
  refine .guarded (left.safe_requireNumeric _) (right.safe_requireNumeric _) ?_
  refine .bind (safe_align _) fun alignment aligned => ?_
  rw [← length_convertedCells leftRegular (operator.operandKind left.kind right.kind),
    ← length_convertedCells rightRegular (operator.operandKind left.kind right.kind)] at aligned
  exact .bind (safe_readPair aligned _) fun results _ => .ok _

theorem safe_roundTo (v places : TypedVector) : Safe (v.roundTo places) := by
  refine .bind (v.safe_requireNumeric _) fun _ checked => ?_
  refine .bind (places.safe_requireNumeric _) fun _ placesChecked => ?_
  -- Neither operand is text, so that both promotions go up.
  have numeric := requireNumeric_success checked
  have upward : places.kind.rank ≤ Kind.double.rank := by
    have placesNumeric := requireNumeric_success placesChecked
    revert placesNumeric
    cases places.kind <;> decide
  refine .bind (.of_eq_ok (mapM_promote (rank_le_numericKind numeric))) fun xs _ => ?_
  refine .bind (.of_eq_ok (mapM_promote upward)) fun digits _ => ?_
  refine .bind (safe_align _) fun alignment aligned => ?_
  exact .bind (safe_readPair aligned _) fun results _ => .ok _

theorem safe_negate (v : TypedVector) : Safe v.negate := by
  refine .bind (v.safe_requireNumeric _) fun _ checked => ?_
  have numeric := requireNumeric_success checked
  exact .bind (.of_eq_ok (promoted_eq_raisedCells (rank_le_numericKind numeric))) fun _ _ => .ok _

theorem safe_complement (v : TypedVector) : Safe v.complement :=
  .bind (v.safe_requireNumeric _) fun _ _ => .ok _

end TypedVector

namespace ElementFunction

theorem safe_result (f : ElementFunction) (arguments : List Cell) : Safe (f.result arguments) := by
  unfold result
  split
  · exact .ok _
  · dsimp only
    split
    · exact .ok _
    · exact .error rfl

theorem safe_apply (f : ElementFunction) {operands : List TypedVector}
    (regular : ∀ v ∈ operands, v.Regular) : Safe (f.apply operands) := by
  unfold apply
  split
  · exact .error rfl
  refine .bind (TypedVector.safe_align _) fun alignment aligned => ?_
  refine .bind (.mapM fun index inside => ?_) fun cells _ => .ok _
  refine .bind (.mapM fun column member => ?_) fun arguments _ => f.safe_result arguments
  -- Each column is as long as the operand that it was taken from.
  obtain ⟨v, among, rfl⟩ := List.mem_map.1 member
  have size : v.toArray.size = v.length := by
    rw [(regular v among).length_eq, ← TypedVector.toList_toArray, Array.length_toList]
  have below := List.mem_range.1 inside
  exact safe_readAt (Recycling.align_inside aligned below (size ▸ List.mem_map_of_mem among))

end ElementFunction
end TypedVectors
