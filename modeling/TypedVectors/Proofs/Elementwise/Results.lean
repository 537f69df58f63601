import TypedVectors.Elementwise.Function
import TypedVectors.Elementwise.Rounding
import TypedVectors.Proofs.TypedVector.Follows

/-!
Results of element operations are regular vectors whose cells are valid for the kind that the
operation announces: integer results outside the range are missing, and a function's cell of
another kind is refused. Only negation and conversion pass on what the operand's cells fulfil.
-/
namespace TypedVectors

theorem Tallied.ofInteger_belongsTo (x : Binary64) : (ofInteger x).cell.belongsTo .integer := by
  unfold ofInteger
  split
  · next fits => exact Cell.belongsTo_number.2 (.inr ⟨rfl, Binary64.fitsInteger_unsignedZero fits⟩)
  · rfl

namespace Arithmetic

theorem max_numeric {left right : Kind} (leftNumeric : left ≠ .character)
    (rightNumeric : right ≠ .character) :
    max (max left right) .integer = .integer ∨ max (max left right) .integer = .double := by
  revert leftNumeric rightNumeric
  cases left <;> cases right <;> decide

theorem resultKind_numeric (operator : Arithmetic) {left right : Kind}
    (leftNumeric : left ≠ .character) (rightNumeric : right ≠ .character) :
    operator.resultKind left right = .integer ∨ operator.resultKind left right = .double := by
  cases operator with
  | divide | power => exact .inr rfl
  | add | subtract | multiply | floorMod | floorDiv => exact max_numeric leftNumeric rightNumeric

theorem cell_belongsTo {operator : Arithmetic} {left right : Kind}
    (leftNumeric : left ≠ .character) (rightNumeric : right ≠ .character) (x y : Cell) :
    (operator.cell (operator.resultKind left right) x y).cell.belongsTo
      (operator.resultKind left right) := by
  have numeric := operator.resultKind_numeric leftNumeric rightNumeric
  unfold cell
  split
  -- Only a power is decided by one operand, and powers are double.
  · next one =>
    have power : operator = .power := by
      unfold isUnitPower at one
      simp only [Bool.and_eq_true, decide_eq_true_eq] at one
      exact one.1
    subst power
    exact Cell.belongsTo_number.2 (.inl rfl)
  · split
    · split
      · next whole =>
        split
        · rfl
        · rw [whole]
          exact Tallied.ofInteger_belongsTo _
      · next fraction => exact Cell.belongsTo_number.2 (.inl (numeric.resolve_left fraction))
    · rfl

end Arithmetic

theorem Comparison.cell_belongsTo (operator : Comparison) (x y : Cell) :
    (operator.cell x y).belongsTo .logical := by
  unfold cell
  split <;> rfl

theorem Connective.cell_belongsTo (operator : Connective) (x y : Cell) :
    (operator.cell x y).belongsTo .logical := by
  unfold cell
  dsimp only
  split
  · rfl
  · split <;> rfl

theorem Operator.cell_belongsTo {operator : Operator} {left right : Kind}
    (numeric : operator.takesText = false → left ≠ .character ∧ right ≠ .character) (x y : Cell) :
    (operator.cell (operator.operandKind left right) x y).cell.belongsTo
      (operator.resultKind left right) := by
  cases operator with
  | arithmetic operator =>
    obtain ⟨leftNumeric, rightNumeric⟩ := numeric rfl
    exact Arithmetic.cell_belongsTo leftNumeric rightNumeric x y
  | comparison operator => exact operator.cell_belongsTo x y
  | connective operator => exact operator.cell_belongsTo x y

namespace TypedVector

variable {rule : CellRule}

theorem requireNumeric_success {v : TypedVector} {operation : Operation}
    (ok : v.requireNumeric operation = .ok ()) : v.kind ≠ .character := by
  unfold requireNumeric at ok
  split at ok
  · cases ok
  · next numeric => exact numeric

theorem numericKind_cases (v : TypedVector) :
    v.numericKind = .integer ∨ v.numericKind = .double := by
  unfold numericKind
  split
  · exact .inr rfl
  · exact .inl rfl

theorem resultNames?_fit {operands : List TypedVector} {length : Nat}
    (each : ∀ v ∈ operands, v.Follows rule) {names : RadixArray String}
    (found : resultNames? operands length = some names) :
    names.Canonical ∧ names.size = length := by
  obtain ⟨v, first, named⟩ := Option.bind_eq_some_iff.1 found
  obtain ⟨canonical, fit⟩ := (each v (List.mem_of_find?_eq_some first)).names names named
  have accepted := List.find?_some first
  simp only [Bool.and_eq_true, decide_eq_true_eq] at accepted
  exact ⟨canonical, fit.trans accepted.2⟩

/-- The vector of results that are valid for its kind, under the result names. -/
theorem follows_results (stable : rule.Stable) {operands : List TypedVector} {kind : Kind}
    {cells : List Cell} {length : Nat} (each : ∀ v ∈ operands, v.Follows rule)
    (valid : ∀ cell ∈ cells, cell.belongsTo kind) (count : cells.length = length) :
    (make kind (RadixArray.ofList cells) (resultNames? operands length)).Follows rule := by
  refine follows_make (fun cell inside => stable.valid (valid cell inside)) ?_
  intro names found
  rw [count]
  exact resultNames?_fit each found

theorem follows_binary (stable : rule.Stable) {operator : Operator} {left right w : TypedVector}
    {warnings : List Warning} (leftFollows : left.Follows rule) (rightFollows : right.Follows rule)
    (ok : binary operator left right = .ok (w, warnings)) : w.Follows rule := by
  unfold binary at ok
  obtain ⟨checked, ok⟩ := guarded_success ok
  have numeric : operator.takesText = false → left.kind ≠ .character ∧ right.kind ≠ .character := by
    intro strict
    obtain ⟨leftChecked, rightChecked⟩ := checked (by rw [strict]; rfl)
    exact ⟨requireNumeric_success leftChecked, requireNumeric_success rightChecked⟩
  obtain ⟨alignment, _, ok⟩ := bind_success ok
  obtain ⟨results, computed, ok⟩ := bind_success ok
  cases pure_success ok
  refine follows_results stable ?_ ?_ ?_
  · intro v inside
    rcases List.mem_pair.1 inside with rfl | rfl
    · exact leftFollows
    · exact rightFollows
  · intro cell inside
    obtain ⟨result, member, rfl⟩ := List.mem_map.1 inside
    obtain ⟨index, _, step⟩ := exists_of_mapM computed member
    obtain ⟨x, _, step⟩ := bind_success step
    obtain ⟨y, _, step⟩ := bind_success step
    cases pure_success step
    exact Operator.cell_belongsTo numeric x y
  · rw [List.length_map, length_of_mapM computed, List.length_range]

theorem roundedCell_belongsTo {kind : Kind} (numeric : kind = .integer ∨ kind = .double)
    (value places : Cell) : (roundedCell kind value places).cell.belongsTo kind := by
  unfold roundedCell
  split
  · split
    · rfl
    · dsimp only
      split
      · next whole =>
        rw [whole]
        exact Tallied.ofInteger_belongsTo _
      · next fraction => exact Cell.belongsTo_number.2 (.inl (numeric.resolve_left fraction))
  · rfl

theorem follows_roundTo (stable : rule.Stable) {v places w : TypedVector} {warnings : List Warning}
    (follows : v.Follows rule) (ok : v.roundTo places = .ok (w, warnings)) : w.Follows rule := by
  obtain ⟨_, _, ok⟩ := bind_success ok
  obtain ⟨_, _, ok⟩ := bind_success ok
  obtain ⟨xs, _, ok⟩ := bind_success ok
  obtain ⟨digits, _, ok⟩ := bind_success ok
  obtain ⟨alignment, _, ok⟩ := bind_success ok
  obtain ⟨results, computed, ok⟩ := bind_success ok
  cases pure_success ok
  refine follows_results stable ?_ ?_ ?_
  · intro u inside
    rw [List.mem_singleton.1 inside]
    exact follows
  · intro cell inside
    obtain ⟨result, member, rfl⟩ := List.mem_map.1 inside
    obtain ⟨index, _, step⟩ := exists_of_mapM computed member
    obtain ⟨x, _, step⟩ := bind_success step
    obtain ⟨d, _, step⟩ := bind_success step
    cases pure_success step
    exact roundedCell_belongsTo v.numericKind_cases x d
  · rw [List.length_map, length_of_mapM computed, List.length_range]

theorem Follows.negate (stable : rule.Stable) {v w : TypedVector} (follows : v.Follows rule)
    (ok : v.negate = .ok w) : w.Follows rule := by
  obtain ⟨_, _, ok⟩ := bind_success ok
  obtain ⟨cells, promoted, ok⟩ := bind_success ok
  cases pure_success ok
  refine follows.withCells ?_ ?_
  · intro cell inside
    obtain ⟨source, member, rfl⟩ := List.mem_map.1 inside
    obtain ⟨original, found, step⟩ := exists_of_mapM promoted member
    obtain ⟨up, rfl⟩ := Cell.promote_success step
    exact stable.negated (stable.raise up (follows.cells original found))
  · rw [List.length_map, length_of_mapM promoted]
    rfl

theorem complementCell_belongsTo (cell : Cell) : (complementCell cell).belongsTo .logical := by
  cases cell <;> rfl

theorem Follows.complement (stable : rule.Stable) {v w : TypedVector} (follows : v.Follows rule)
    (ok : v.complement = .ok w) : w.Follows rule := by
  obtain ⟨_, _, ok⟩ := bind_success ok
  cases pure_success ok
  refine follows.withCells ?_ ?_
  · intro cell inside
    obtain ⟨truth, _, rfl⟩ := List.mem_map.1 inside
    exact stable.valid (complementCell_belongsTo truth)
  · simp [convertedCells, ← toList_toArray]

theorem Follows.absences (stable : rule.Stable) {v : TypedVector} (follows : v.Follows rule) :
    v.absences.Follows rule := by
  refine follows.withCells ?_ ?_
  · intro cell inside
    obtain ⟨tested, _, rfl⟩ := List.mem_map.1 inside
    exact stable.valid (Cell.belongsTo_truth.2 rfl)
  · rw [List.length_map, toList_toArray]

theorem Follows.convert (stable : rule.Stable) {v : TypedVector} (follows : v.Follows rule)
    (kind : Kind) : (v.convert kind).1.Follows rule := by
  refine follows.withCells ?_ ?_
  · intro cell inside
    obtain ⟨converted, member, rfl⟩ := List.mem_map.1 inside
    obtain ⟨original, found, rfl⟩ := List.mem_map.1 member
    exact stable.convert (follows.cells original found)
  · rw [List.length_map, List.length_map, toList_toArray]

end TypedVector

namespace ElementFunction

theorem result_belongsTo {f : ElementFunction} {arguments : List Cell} {cell : Cell}
    (ok : f.result arguments = .ok cell) : cell.belongsTo f.kind := by
  unfold result at ok
  split at ok
  · cases ok
    exact Cell.belongsTo_missing f.kind
  · dsimp only at ok
    split at ok
    · next valid =>
      cases ok
      exact valid
    · cases ok

theorem follows_apply {rule : CellRule} (stable : rule.Stable) {f : ElementFunction}
    {operands : List TypedVector} {w : TypedVector} {warnings : List Warning}
    (each : ∀ v ∈ operands, v.Follows rule) (ok : f.apply operands = .ok (w, warnings)) :
    w.Follows rule := by
  unfold apply at ok
  split at ok
  · cases ok
  obtain ⟨alignment, _, ok⟩ := bind_success ok
  obtain ⟨cells, computed, ok⟩ := bind_success ok
  cases pure_success ok
  refine TypedVector.follows_results stable each ?_ ?_
  · intro cell inside
    obtain ⟨index, _, step⟩ := exists_of_mapM computed inside
    obtain ⟨arguments, _, step⟩ := bind_success step
    exact result_belongsTo step
  · rw [length_of_mapM computed, List.length_range]

end ElementFunction
end TypedVectors
