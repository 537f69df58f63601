import TypedVectors.Proofs.Elementwise.Selection
import TypedVectors.Proofs.Recycling

/-!
Operations over recycled operands in closed form: which operands they take, the cells of the result
one by one, and the warnings from the two lengths and the number of results out of range.
-/
namespace TypedVectors

/-- The cell for an index, where the cells start over at their end. -/
def cycledCell (cells : List Cell) (index : Nat) : Cell :=
  (cells[index % cells.length]?).getD .missing

theorem cycledCell_map {f : Cell → Cell} (fixed : f .missing = .missing) (cells : List Cell)
    (index : Nat) : cycledCell (cells.map f) index = f (cycledCell cells index) := by
  unfold cycledCell
  rw [List.length_map, List.getElem?_map]
  cases cells[index % cells.length]? with
  | none => exact fixed.symm
  | some cell => rfl

theorem cycledCell_cases (cells : List Cell) (index : Nat) :
    cycledCell cells index = .missing ∨ cycledCell cells index ∈ cells := by
  unfold cycledCell
  cases found : cells[index % cells.length]? with
  | none => exact .inl rfl
  | some cell => exact .inr (List.mem_of_getElem? found)

/-- What is told of the lengths of two operands. -/
def recyclingWarnings (m n : Nat) : List Warning :=
  if min m n ∣ max m n then [] else [.recycledLength (max m n) (min m n)]

/-- What is told of results out of range. -/
def overflowWarnings (count : Nat) : List Warning :=
  if count = 0 then [] else [.integerOverflow count]

theorem Tallied.toList_warning? (results : List Tallied) :
    (warning? results).toList = overflowWarnings (results.countP (·.overflow)) := by
  unfold warning? overflowWarnings
  dsimp only
  split
  · rfl
  · rfl

theorem longest_pair (m n : Nat) : longest [m, n] = max m n := by simp [longest]

/-- Two lengths fit when both are zero or neither is. -/
theorem fitting_of_align {m n : Nat} {alignment : Recycling.Alignment}
    (ok : Recycling.align [m, n] = .ok alignment) : m = 0 ↔ n = 0 := by
  obtain ⟨_, ⟨empty, _⟩ | ⟨nonempty, _⟩⟩ := Recycling.align_success ok
  · rw [longest_pair] at empty
    omega
  · have left := nonempty m (by simp)
    have right := nonempty n (by simp)
    omega

theorem align_fitting {m n : Nat} (fitting : m = 0 ↔ n = 0) :
    ∃ warning?, Recycling.align [m, n] = .ok ⟨max m n, warning?⟩ ∧
      warning?.toList = recyclingWarnings m n := by
  unfold Recycling.align recyclingWarnings
  rw [longest_pair]
  dsimp only
  by_cases empty : max m n = 0
  · obtain ⟨rfl, rfl⟩ : m = 0 ∧ n = 0 := by omega
    exact ⟨none, rfl, rfl⟩
  · have inside : ¬[m, n].contains 0 := by
      simp
      omega
    rw [if_neg empty, if_neg inside]
    refine ⟨_, rfl, ?_⟩
    simp only [List.find?_cons, List.find?_nil, Nat.dvd_iff_mod_eq_zero]
    rcases Nat.le_total m n with below | below
    · rw [Nat.max_eq_right below, Nat.min_eq_left below, Nat.mod_self]
      by_cases whole : n % m = 0
      · simp [whole]
      · simp [whole, bne_iff_ne.2 whole]
    · rw [Nat.max_eq_left below, Nat.min_eq_right below, Nat.mod_self]
      by_cases whole : m % n = 0
      · simp [whole]
      · simp [whole, bne_iff_ne.2 whole]

theorem readAt_source {cells : Array Cell} (nonempty : 0 < cells.size) (index : Nat) :
    readAt cells (Recycling.source cells.size index) = .ok (cycledCell cells.toList index) := by
  have inside : index % cells.size < cells.size := Nat.mod_lt index nonempty
  rw [Recycling.source, readAt_eq inside, cycledCell, Array.length_toList,
    List.getElem?_eq_getElem (by rwa [Array.length_toList]), Array.getElem_toList]
  rfl

theorem mapM_readAt_cycled (xs ys : Array Cell) (length : Nat) (step : Cell → Cell → Tallied)
    (nonempty : length ≠ 0 → 0 < xs.size ∧ 0 < ys.size) :
    ((List.range length).mapM fun index => (do
      let x ← readAt xs (Recycling.source xs.size index)
      let y ← readAt ys (Recycling.source ys.size index)
      return step x y : Except Error Tallied)) =
      .ok ((List.range length).map fun index =>
        step (cycledCell xs.toList index) (cycledCell ys.toList index)) := by
  refine mapM_eq_ok fun index inside => ?_
  have below := List.mem_range.1 inside
  obtain ⟨left, right⟩ := nonempty (by omega)
  rw [readAt_source left, readAt_source right]
  rfl

namespace TypedVector

variable {left right w : TypedVector} {warnings : List Warning} {kind : Kind}
  {results : Nat → Tallied}

theorem WellFormed.cycledCell {v : TypedVector} (formed : v.WellFormed) (index : Nat) :
    (cycledCell v.cells.toList index).belongsTo v.kind := by
  rcases cycledCell_cases v.cells.toList index with missing | inside
  · rw [missing]
    exact Cell.belongsTo_missing v.kind
  · exact formed.cells _ inside

/-- The result of an operation over two recycled operands whose result is known for each index. -/
structure Computed (kind : Kind) (results : Nat → Tallied) (left right w : TypedVector)
    (warnings : List Warning) : Prop where
  kind : w.kind = kind
  length : w.length = max left.length right.length
  cells : w.cells.toList = (List.range w.length).map fun index => (results index).cell
  warnings : warnings = recyclingWarnings left.length right.length ++
    overflowWarnings ((List.range w.length).countP fun index => (results index).overflow)

theorem computed_make {length : Nat} (longer : length = max left.length right.length)
    (names? : Option (RadixArray String)) :
    Computed kind results left right
      (make kind (RadixArray.ofList ((List.range length).map fun index => (results index).cell))
        names?)
      (recyclingWarnings left.length right.length ++
        overflowWarnings ((List.range length).countP fun index => (results index).overflow)) := by
  have size : (make kind (RadixArray.ofList ((List.range length).map fun index =>
      (results index).cell)) names?).length = length := by
    rw [TypedVector.length, make, RadixArray.size_ofList, List.length_map, List.length_range]
  refine ⟨rfl, size.trans longer, ?_, ?_⟩
  · rw [size]
    exact RadixArray.toList_ofList _
  · rw [size]

/-- The results of an operator, index by index. -/
def operatorResult (operator : Operator) (left right : TypedVector) (index : Nat) : Tallied :=
  let kind := operator.operandKind left.kind right.kind
  operator.cell kind (cycledCell (left.convertedCells kind).toList index)
    (cycledCell (right.convertedCells kind).toList index)

/-- The results of rounding, index by index. -/
def roundedResult (left right : TypedVector) (index : Nat) : Tallied :=
  roundedCell left.numericKind (cycledCell (left.raisedCells left.numericKind) index)
    (cycledCell (right.raisedCells .double) index)

/-- The vector and the warnings of an operation whose result is known for each index. -/
def assembled (kind : Kind) (results : Nat → Tallied) (operands : List TypedVector)
    (alignment : Recycling.Alignment) : TypedVector × List Warning :=
  let results := (List.range alignment.length).map results
  (make kind (RadixArray.ofList (results.map (·.cell)))
      (resultNames? operands alignment.length),
    alignment.warning?.toList ++ (Tallied.warning? results).toList)

/-- Whether an operation takes two operands: they have fitting lengths, and are no text if it is
an operation on numbers. -/
structure Taken (numbers : Bool) (left right : TypedVector) : Prop where
  numeric : numbers → left.kind ≠ .character ∧ right.kind ≠ .character
  fitting : left.length = 0 ↔ right.length = 0

theorem requireNumeric_iff {v : TypedVector} {operation : Operation} :
    v.requireNumeric operation = .ok () ↔ v.kind ≠ .character := by
  refine ⟨fun ok text => ?_, fun numeric => requireNumeric_ok numeric operation⟩
  rw [requireNumeric, if_pos text] at ok
  cases ok

theorem taken_of_binary {operator : Operator}
    (ok : binary operator left right = .ok (w, warnings)) :
    Taken (!operator.takesText) left right := by
  unfold binary at ok
  obtain ⟨checked, ok⟩ := guarded_success ok
  obtain ⟨alignment, aligned, _⟩ := bind_success ok
  refine ⟨fun strict => ?_, fitting_of_align aligned⟩
  obtain ⟨leftNumeric, rightNumeric⟩ := checked strict
  exact ⟨requireNumeric_iff.1 leftNumeric, requireNumeric_iff.1 rightNumeric⟩

variable (leftRegular : left.Regular) (rightRegular : right.Regular)
include leftRegular rightRegular

/-- An operator on operands whose kinds it takes, once their lengths are aligned. -/
theorem binary_eq {operator : Operator}
    (numeric : (!operator.takesText) → left.kind ≠ .character ∧ right.kind ≠ .character) :
    binary operator left right = (Recycling.align [left.length, right.length]).map
      (assembled (operator.resultKind left.kind right.kind) (operatorResult operator left right)
        [left, right]) := by
  have checked : (!operator.takesText) → left.requireNumeric (.binary operator) = .ok () ∧
      right.requireNumeric (.binary operator) = .ok () := by
    intro strict
    obtain ⟨leftNumeric, rightNumeric⟩ := numeric strict
    exact ⟨requireNumeric_ok leftNumeric _, requireNumeric_ok rightNumeric _⟩
  unfold binary
  rw [guarded_eq checked]
  cases aligned : Recycling.align [left.length, right.length] with
  | error _ => rfl
  | ok alignment =>
    have fitting := fitting_of_align aligned
    have longest := (Recycling.align_success aligned).1
    rw [longest_pair] at longest
    have computed := mapM_readAt_cycled
      (left.convertedCells (operator.operandKind left.kind right.kind))
      (right.convertedCells (operator.operandKind left.kind right.kind)) alignment.length
      (operator.cell (operator.operandKind left.kind right.kind)) (by
        rw [length_convertedCells leftRegular, length_convertedCells rightRegular]
        omega)
    change (List.mapM _ _ >>= _ : Except Error _) = _
    rw [computed]
    rfl

theorem binary_computed {operator : Operator} (taken : Taken (!operator.takesText) left right) :
    ∃ w warnings, binary operator left right = .ok (w, warnings) ∧
      Computed (operator.resultKind left.kind right.kind) (operatorResult operator left right)
        left right w warnings := by
  obtain ⟨warning?, aligned, told⟩ := align_fitting taken.fitting
  refine ⟨_, _, ?_, computed_make rfl (resultNames? [left, right] (max left.length right.length))⟩
  rw [binary_eq leftRegular rightRegular taken.numeric, aligned]
  change Except.ok _ = Except.ok _
  rw [assembled, told, Tallied.toList_warning?, List.map_map, List.countP_map]
  rfl

/-- Rounding once its operands are known to be numeric. -/
theorem roundTo_eq (numeric : left.kind ≠ .character) (places : right.kind ≠ .character) :
    left.roundTo right = (do
      let alignment ← Recycling.align [left.length, right.length]
      let results ← (List.range alignment.length).mapM fun index => do
        let x ← readAt (left.raisedCells left.numericKind).toArray
          (Recycling.source (left.raisedCells left.numericKind).toArray.size index)
        let d ← readAt (right.raisedCells .double).toArray
          (Recycling.source (right.raisedCells .double).toArray.size index)
        return roundedCell left.numericKind x d
      return (make left.numericKind (RadixArray.ofList (results.map (·.cell)))
          (resultNames? [left] alignment.length),
        alignment.warning?.toList ++ (Tallied.warning? results).toList)) := by
  have upward : right.kind.rank ≤ Kind.double.rank := by
    revert places
    cases right.kind <;> decide
  unfold roundTo
  rw [requireNumeric_ok numeric, requireNumeric_ok places]
  change (Array.mapM _ _ >>= _ : Except Error _) = _
  rw [mapM_promote (rank_le_numericKind numeric), mapM_promote upward]
  change (Recycling.align [(left.raisedCells left.numericKind).toArray.size,
    (right.raisedCells .double).toArray.size] >>= _) = _
  rw [List.size_toArray, List.size_toArray, length_raisedCells leftRegular,
    length_raisedCells rightRegular]

theorem taken_of_roundTo (ok : left.roundTo right = .ok (w, warnings)) : Taken true left right := by
  obtain ⟨_, leftChecked, rest⟩ := bind_success ok
  obtain ⟨_, rightChecked, _⟩ := bind_success rest
  have numeric := requireNumeric_iff.1 leftChecked
  have places := requireNumeric_iff.1 rightChecked
  rw [roundTo_eq leftRegular rightRegular numeric places] at ok
  obtain ⟨alignment, aligned, _⟩ := bind_success ok
  exact ⟨fun _ => ⟨numeric, places⟩, fitting_of_align aligned⟩

theorem roundTo_computed (taken : Taken true left right) :
    ∃ w warnings, left.roundTo right = .ok (w, warnings) ∧
      Computed left.numericKind (roundedResult left right) left right w warnings := by
  obtain ⟨numeric, places⟩ := taken.numeric rfl
  have fitting := taken.fitting
  obtain ⟨warning?, aligned, told⟩ := align_fitting fitting
  have computed := mapM_readAt_cycled (left.raisedCells left.numericKind).toArray
    (right.raisedCells .double).toArray (max left.length right.length)
    (roundedCell left.numericKind) (by
      rw [List.size_toArray, List.size_toArray, length_raisedCells leftRegular,
        length_raisedCells rightRegular]
      omega)
  refine ⟨_, _, ?_, computed_make rfl (resultNames? [left] (max left.length right.length))⟩
  rw [roundTo_eq leftRegular rightRegular numeric places, aligned]
  change (List.mapM _ _ >>= _ : Except Error _) = _
  rw [computed]
  change Except.ok _ = Except.ok _
  rw [told, Tallied.toList_warning?, List.map_map, List.countP_map]
  rfl

end TypedVector
end TypedVectors
