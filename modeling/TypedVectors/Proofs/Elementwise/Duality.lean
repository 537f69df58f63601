import TypedVectors.Elementwise.Unary
import TypedVectors.Proofs.Binary64.Order
import TypedVectors.Proofs.Elementwise.Recycled

/-!
Comparisons and connectives are dual. Negating a comparison makes it the opposite one, swapping its
operands mirrors it, and the negation of a connective is the other connective of the negations. The
laws hold of whole outcomes: cells, names, warnings and failures.
-/
namespace TypedVectors

theorem Text.compareUnits_swap (as bs : List UInt16) :
    (compareUnits as bs).swap = compareUnits bs as := by
  induction as generalizing bs with
  | nil =>
    cases bs with
    | nil | cons _ _ => rfl
  | cons a as ih =>
    cases bs with
    | nil => rfl
    | cons b bs =>
      unfold compareUnits
      by_cases below : a < b
      · rw [if_pos below, if_neg (UInt16.lt_asymm below), if_pos below]
        rfl
      · by_cases above : b < a
        · rw [if_neg below, if_pos above, if_pos above]
          rfl
        · rw [if_neg below, if_neg above, if_neg above, if_neg below, ih]

theorem Binary64.compare?_swap (x y : Binary64) :
    (x.compare? y).map Ordering.swap = y.compare? x := by
  cases x with
  | nan =>
    cases y with
    | nan | infinite _ | finite _ _ _ => rfl
  | infinite a =>
    cases y with
    | nan => rfl
    | infinite b => exact congrArg some Std.OrientedOrd.eq_swap.symm
    | finite _ _ _ =>
      cases a with
      | false | true => rfl
  | finite _ _ _ =>
    cases y with
    | nan => rfl
    | infinite b =>
      cases b with
      | false | true => rfl
    | finite _ _ _ => exact congrArg some Std.OrientedOrd.eq_swap.symm

namespace Cell

theorem compare?_swap (x y : Cell) : (x.compare? y).map Ordering.swap = y.compare? x := by
  cases x with
  | missing =>
    cases y with
    | missing | truth _ | number _ | text _ => rfl
  | truth _ | number _ =>
    cases y with
    | missing => rfl
    | truth _ | number _ | text _ => exact Binary64.compare?_swap _ _
  | text s =>
    cases y with
    | missing => rfl
    | truth _ | number _ => exact Binary64.compare?_swap _ _
    | text t => exact congrArg some (Text.compareUnits_swap _ _)

theorem compare?_absent_left {x : Cell} (absent : TypedVector.isAbsent x) (y : Cell) :
    x.compare? y = none := by
  cases x with
  | missing =>
    cases y with
    | missing | truth _ | number _ | text _ => rfl
  | truth _ | text _ => cases absent
  | number a =>
    obtain rfl : a = .nan := by
      cases a with
      | nan => rfl
      | infinite _ | finite _ _ _ => cases absent
    cases y with
    | missing | truth _ | number _ | text _ => rfl

theorem compare?_absent {x y : Cell} (absent : TypedVector.isAbsent x ∨ TypedVector.isAbsent y) :
    x.compare? y = none := by
  rcases absent with left | right
  · exact compare?_absent_left left y
  · rw [← compare?_swap y x, compare?_absent_left right x]
    rfl

theorem numberOfTruth_ne_nan (value : Bool) : numberOfTruth value ≠ .nan := by
  have literal : ∀ n : Nat, Binary64.ofNat n ≠ .nan := fun _ => Binary64.ofSteps_ne_nan _ _ _
  unfold numberOfTruth
  split
  · exact literal 1
  · exact literal 0

/-- Valid cells of one kind have an order where neither is missing or not a number. -/
theorem compare?_present {kind : Kind} {x y : Cell} (left : x.belongsTo kind)
    (right : y.belongsTo kind)
    (present : ¬(TypedVector.isAbsent x ∨ TypedVector.isAbsent y)) :
    ∃ order, x.compare? y = some order := by
  obtain ⟨leftPresent, rightPresent⟩ := not_or.1 present
  cases x with
  | missing => exact absurd rfl leftPresent
  | truth a =>
    obtain rfl := belongsTo_truth.1 left
    cases y with
    | missing => exact absurd rfl rightPresent
    | truth b =>
      exact ⟨_, Binary64.compare?_level (numberOfTruth_ne_nan a) (numberOfTruth_ne_nan b)⟩
    | number _ | text _ => simp [belongsTo] at right
  | number a =>
    have number : a ≠ .nan := by
      rintro rfl
      exact leftPresent rfl
    cases y with
    | missing => exact absurd rfl rightPresent
    | truth b => exact ⟨_, Binary64.compare?_level number (numberOfTruth_ne_nan b)⟩
    | number b =>
      have other : b ≠ .nan := by
        rintro rfl
        exact rightPresent rfl
      exact ⟨_, Binary64.compare?_level number other⟩
    | text _ =>
      obtain rfl := belongsTo_text.1 right
      simp [belongsTo] at left
  | text s =>
    obtain rfl := belongsTo_text.1 left
    cases y with
    | missing => exact absurd rfl rightPresent
    | truth _ | number _ => simp [belongsTo] at right
    | text t => exact ⟨_, rfl⟩

end Cell

namespace Comparison

/-- The comparison that holds where this one does not. -/
def opposite : Comparison → Comparison
  | less => greaterOrEqual
  | lessOrEqual => greater
  | greater => lessOrEqual
  | greaterOrEqual => less
  | equal => unequal
  | unequal => equal

/-- The comparison that holds of the operands in the other order. -/
def mirrored : Comparison → Comparison
  | less => greater
  | lessOrEqual => greaterOrEqual
  | greater => less
  | greaterOrEqual => lessOrEqual
  | equal => equal
  | unequal => unequal

theorem holds_opposite (operator : Comparison) (order : Ordering) :
    operator.opposite.holds order = !operator.holds order := by
  cases operator <;> cases order <;> rfl

theorem holds_mirrored (operator : Comparison) (order : Ordering) :
    operator.mirrored.holds order.swap = operator.holds order := by
  cases operator <;> cases order <;> rfl

theorem cell_opposite (operator : Comparison) (x y : Cell) :
    operator.opposite.cell x y = TypedVector.complementCell (operator.cell x y) := by
  unfold cell
  cases x.compare? y with
  | none => rfl
  | some order => exact congrArg Cell.truth (operator.holds_opposite order)

theorem cell_mirrored (operator : Comparison) (x y : Cell) :
    operator.mirrored.cell y x = operator.cell x y := by
  unfold cell
  rw [← Cell.compare?_swap x y]
  cases x.compare? y with
  | none => rfl
  | some order => exact congrArg Cell.truth (operator.holds_mirrored order)

theorem cell_absent (operator : Comparison) {x y : Cell}
    (absent : TypedVector.isAbsent x ∨ TypedVector.isAbsent y) : operator.cell x y = .missing := by
  rw [cell, Cell.compare?_absent absent]

theorem cell_present (operator : Comparison) {kind : Kind} {x y : Cell} (left : x.belongsTo kind)
    (right : y.belongsTo kind)
    (present : ¬(TypedVector.isAbsent x ∨ TypedVector.isAbsent y)) :
    ∃ value, operator.cell x y = .truth value := by
  obtain ⟨order, ordered⟩ := Cell.compare?_present left right present
  exact ⟨operator.holds order, by rw [cell, ordered]⟩

end Comparison

theorem Cell.logical_cases {cell : Cell} (logical : cell.belongsTo .logical) :
    cell = missing ∨ ∃ value, cell = truth value := by
  cases cell with
  | missing => exact .inl rfl
  | truth value => exact .inr ⟨value, rfl⟩
  | number _ | text _ => simp [belongsTo] at logical

/-- The rank of a logical cell: a missing one stands between false and true. -/
def Cell.truthRank : Cell → Nat
  | truth false => 0
  | truth true => 2
  | missing | number _ | text _ => 1

namespace Connective

def dual : Connective → Connective
  | and => or
  | or => and

/-- A conjunction has the lower rank of its operands, a disjunction the higher one. -/
def rank : Connective → Nat → Nat → Nat
  | and => min
  | or => max

section

variable (operator : Connective) {x y : Cell} (left : x.belongsTo .logical)
  (right : y.belongsTo .logical)
include left right

theorem truthRank_cell : (operator.cell x y).truthRank = operator.rank x.truthRank y.truthRank := by
  rcases Cell.logical_cases left with rfl | ⟨a, rfl⟩
  · rcases Cell.logical_cases right with rfl | ⟨b, rfl⟩
    · cases operator <;> rfl
    · cases operator <;> cases b <;> rfl
  · rcases Cell.logical_cases right with rfl | ⟨b, rfl⟩
    · cases operator <;> cases a <;> rfl
    · cases operator <;> cases a <;> cases b <;> rfl

/-- Negation turns the ranks around, so that it takes the lower one to the higher one. -/
theorem cell_dual : operator.dual.cell (TypedVector.complementCell x)
    (TypedVector.complementCell y) = TypedVector.complementCell (operator.cell x y) := by
  rcases Cell.logical_cases left with rfl | ⟨a, rfl⟩
  · rcases Cell.logical_cases right with rfl | ⟨b, rfl⟩
    · cases operator <;> rfl
    · cases operator <;> cases b <;> rfl
  · rcases Cell.logical_cases right with rfl | ⟨b, rfl⟩
    · cases operator <;> cases a <;> rfl
    · cases operator <;> cases a <;> cases b <;> rfl

end
end Connective

namespace TypedVector

variable {v left right : TypedVector} {kind : Kind} {results others : Nat → Tallied}

/-- An outcome with its truth values negated and its warnings kept. -/
def negated (outcome : Except Error (TypedVector × List Warning)) :
    Except Error (TypedVector × List Warning) := do
  let (w, warnings) ← outcome
  let complement ← w.complement
  return (complement, warnings)

theorem negated_ok {w u : TypedVector} (complement : w.complement = .ok u)
    (warnings : List Warning) : negated (.ok (w, warnings)) = .ok (u, warnings) := by
  change (w.complement >>= _) = _
  rw [complement]
  rfl

/-- An operator between the negations of two vectors. -/
def ofNegated (operator : Operator) (left right : TypedVector) :
    Except Error (TypedVector × List Warning) := do
  let left ← left.complement
  let right ← right.complement
  binary operator left right

theorem toList_convertedCells (v : TypedVector) (kind : Kind) : (v.convertedCells kind).toList =
    v.cells.toList.map fun cell => (cell.convert v.kind kind).cell := Array.toList_map

theorem convertedCells_logical (cells : List Cell) (names? : Option (RadixArray String)) :
    ((make .logical (RadixArray.ofList cells) names?).convertedCells .logical).toList = cells := by
  rw [toList_convertedCells, make, RadixArray.toList_ofList]
  simp [Cell.convert_self]

theorem complement_make (cells : List Cell) (names? : Option (RadixArray String)) :
    (make .logical (RadixArray.ofList cells) names?).complement =
      .ok (make .logical (RadixArray.ofList (cells.map complementCell)) names?) := by
  have logical : (make .logical (RadixArray.ofList cells) names?).kind ≠ .character :=
    (by decide : Kind.logical ≠ .character)
  rw [complement_eq logical, convertedCells_logical]
  rfl

/-- The same results negated, with nothing out of range on either side. -/
structure NegatedResults (results others : Nat → Tallied) : Prop where
  cell : ∀ index, (others index).cell = complementCell (results index).cell
  within : ∀ index, (results index).overflow = false
  otherWithin : ∀ index, (others index).overflow = false

theorem warning?_within {length : Nat} (within : ∀ index, (results index).overflow = false) :
    Tallied.warning? ((List.range length).map results) = none := by
  have nothing : ((List.range length).map results).countP (·.overflow) = 0 := by
    rw [List.countP_map, List.countP_eq_zero]
    intro index _
    rw [Function.comp_apply, within]
    exact Bool.false_ne_true
  rw [Tallied.warning?, nothing]
  rfl

theorem negated_assembled (turned : NegatedResults results others) {operands : List TypedVector}
    (aligned : Except Error Recycling.Alignment) :
    negated (aligned.map (assembled .logical results operands)) =
      aligned.map (assembled .logical others operands) := by
  cases aligned with
  | error _ => rfl
  | ok alignment =>
    change negated (.ok (assembled .logical results operands alignment)) =
      .ok (assembled .logical others operands alignment)
    have cells : ((List.range alignment.length).map others).map (·.cell) =
        (((List.range alignment.length).map results).map (·.cell)).map complementCell := by
      simp only [List.map_map]
      exact List.map_congr_left fun index _ => turned.cell index
    unfold assembled
    dsimp only
    rw [warning?_within turned.within, warning?_within turned.otherWithin, cells]
    rw [negated_ok (complement_make _ _)]

/-- Outcomes that differ in names alone, or failures on the same two lengths. -/
inductive Mirrors : Except Error (TypedVector × List Warning) →
    Except Error (TypedVector × List Warning) → Prop
  | same {w u : TypedVector} {warnings : List Warning} (kind : u.kind = w.kind)
      (cells : u.cells = w.cells) : Mirrors (.ok (w, warnings)) (.ok (u, warnings))
  | refused (m n : Nat) : Mirrors (.error (.emptyOperand [m, n])) (.error (.emptyOperand [n, m]))

theorem mirrors_assembled (m n : Nat) (operands mirrored : List TypedVector) :
    Mirrors ((Recycling.align [m, n]).map (assembled kind results operands))
      ((Recycling.align [n, m]).map (assembled kind results mirrored)) := by
  -- Two lengths fit in either order or in none.
  by_cases fitting : m = 0 ↔ n = 0
  · obtain ⟨_, aligned, told⟩ := align_fitting fitting
    obtain ⟨_, swapped, toldSwapped⟩ := align_fitting fitting.symm
    have same : recyclingWarnings n m = recyclingWarnings m n := by
      rw [recyclingWarnings, recyclingWarnings, Nat.max_comm, Nat.min_comm]
    rw [aligned, swapped, Nat.max_comm n m]
    change Mirrors (.ok (assembled ..)) (.ok (assembled ..))
    unfold assembled
    rw [told, toldSwapped, same]
    exact .same rfl rfl
  · have unfit : ∀ {a b : Nat}, ¬(a = 0 ↔ b = 0) →
        Recycling.align [a, b] = .error (.emptyOperand [a, b]) := by
      intro a b apart
      rcases Recycling.align_cases [a, b] with ⟨_, refused⟩ | ⟨_, _, aligned⟩
      · exact refused
      · exact absurd (fitting_of_align aligned) apart
    rw [unfit fitting, unfit (mt Iff.symm fitting)]
    exact .refused m n

/-- The cell of an operand for an index, in the kind that an operator converts its operands to. -/
def operandCell (v : TypedVector) (kind : Kind) (index : Nat) : Cell :=
  cycledCell (v.convertedCells kind).toList index

theorem logical_operandCell (follows : v.Follows .validBelowDouble) (index : Nat) :
    (v.operandCell .logical index).belongsTo .logical := by
  rw [operandCell, toList_convertedCells]
  rcases cycledCell_cases (v.cells.toList.map fun cell => (cell.convert v.kind .logical).cell)
    index with missing | inside
  · rw [missing]
    rfl
  · obtain ⟨cell, member, same⟩ := List.mem_map.1 inside
    rw [← same]
    exact CellRule.stable_validBelowDouble.convert (follows.cells cell member) (by decide)

section Complement

variable (regular : v.Regular)

/-- The vector of the negations. -/
def opposed (v : TypedVector) : TypedVector :=
  v.withCells .logical ((v.convertedCells .logical).toList.map complementCell)

theorem numeric_opposed (v : TypedVector) : v.opposed.kind ≠ .character :=
  (by decide : Kind.logical ≠ .character)

theorem operandCell_opposed (v : TypedVector) (index : Nat) :
    v.opposed.operandCell .logical index = complementCell (v.operandCell .logical index) := by
  rw [operandCell, opposed, withCells, convertedCells_logical, cycledCell_map rfl]
  rfl

include regular

theorem length_opposed : v.opposed.length = v.length := by
  rw [opposed, withCells, TypedVector.length, make, RadixArray.size_ofList, List.length_map,
    Array.length_toList, length_convertedCells regular]

theorem regular_opposed : v.opposed.Regular := by
  refine regular.withCells (fun _ _ => trivial) ?_
  rw [List.length_map, Array.length_toList, length_convertedCells regular, regular.length_eq]

end Complement

theorem resultNames?_congr {operands others : List TypedVector}
    (same : List.Forall₂ (fun v w : TypedVector => w.names? = v.names? ∧ w.length = v.length)
      operands others) (length : Nat) :
    resultNames? others length = resultNames? operands length := by
  unfold resultNames?
  induction same with
  | nil => rfl
  | cons head _ ih =>
    obtain ⟨names, lengths⟩ := head
    rw [List.find?_cons, List.find?_cons, names, lengths]
    split
    · exact names
    · exact ih

theorem refused_connective (text : left.kind = .character ∨ right.kind = .character)
    (operator other : Connective) :
    (∃ operation, binary (.connective operator) left right = .error (.nonNumeric operation)) ∧
      ∃ operation, ofNegated (.connective other) left right = .error (.nonNumeric operation) := by
  have refused : ∀ {v : TypedVector} (operation : Operation), v.kind = .character →
      v.requireNumeric operation = .error (.nonNumeric operation) :=
    fun _ character => if_pos character
  have refusedComplement : ∀ {v : TypedVector}, v.kind = .character →
      v.complement = .error (.nonNumeric .complement) := by
    intro v character
    rw [complement, refused _ character]
    rfl
  by_cases leftText : left.kind = .character
  · refine ⟨⟨.binary (.connective operator), ?_⟩, .complement, ?_⟩
    · rw [binary, refused _ leftText]
      rfl
    · rw [ofNegated, refusedComplement leftText]
      rfl
  · have rightText := text.resolve_left leftText
    refine ⟨⟨.binary (.connective operator), ?_⟩, .complement, ?_⟩
    · rw [binary, requireNumeric_ok leftText, refused _ rightText]
      rfl
    · rw [ofNegated, complement_eq leftText, refusedComplement rightText]
      rfl

/-- A logical vector over recycled operands, of which something is known for each index. -/
structure LogicalResult (left right w : TypedVector) (warnings : List Warning)
    (known : Nat → Cell → Prop) : Prop where
  kind : w.kind = .logical
  length : w.length = max left.length right.length
  cells : ∀ index < w.length, ∃ cell, w.cells.toList[index]? = some cell ∧ known index cell
  warnings : warnings = recyclingWarnings left.length right.length

theorem Computed.logicalResult {w : TypedVector} {warnings : List Warning}
    (computed : Computed .logical results left right w warnings)
    (within : ∀ index, (results index).overflow = false) {known : Nat → Cell → Prop}
    (each : ∀ index, known index (results index).cell) :
    LogicalResult left right w warnings known where
  kind := computed.kind
  length := computed.length
  cells := by
    intro index below
    refine ⟨(results index).cell, ?_, each index⟩
    rw [computed.cells, List.getElem?_map, List.getElem?_range below, Option.map_some]
  warnings := by
    rw [computed.warnings]
    simp [within, overflowWarnings]

/-- What a comparison says of two cells of one kind: nothing when one is missing or not a number. -/
structure Compared (formed : Prop) (x y cell : Cell) : Prop where
  absent : isAbsent x ∨ isAbsent y → cell = .missing
  present : formed → ¬(isAbsent x ∨ isAbsent y) → ∃ value, cell = .truth value

/-- Duality of the comparisons and of the connectives of two vectors. Comparisons take cells in the
higher kind of the two, where not-a-number beside text is a word like any other. -/
structure Dual (left right : TypedVector) : Prop where
  opposite : ∀ operator : Comparison, negated (binary (.comparison operator) left right) =
    binary (.comparison operator.opposite) left right
  mirrored : ∀ operator : Comparison, Mirrors (binary (.comparison operator) left right)
    (binary (.comparison operator.mirrored) right left)
  compared : (left.length = 0 ↔ right.length = 0) → ∀ operator : Comparison, ∃ w warnings,
    binary (.comparison operator) left right = .ok (w, warnings) ∧
      LogicalResult left right w warnings fun index =>
        Compared (left.WellFormed ∧ right.WellFormed)
          (left.operandCell (max left.kind right.kind) index)
          (right.operandCell (max left.kind right.kind) index)
  dual : left.kind ≠ .character → right.kind ≠ .character → ∀ operator : Connective,
    negated (binary (.connective operator) left right) =
      ofNegated (.connective operator.dual) left right
  connected : left.kind ≠ .character → right.kind ≠ .character →
    (left.length = 0 ↔ right.length = 0) → ∀ operator : Connective, ∃ w warnings,
      binary (.connective operator) left right = .ok (w, warnings) ∧
        LogicalResult left right w warnings fun index cell => cell.belongsTo .logical ∧
          cell.truthRank = operator.rank (left.operandCell .logical index).truthRank
            (right.operandCell .logical index).truthRank
  refused : left.kind = .character ∨ right.kind = .character → ∀ operator other : Connective,
    (∃ operation, negated (binary (.connective operator) left right) =
        .error (.nonNumeric operation)) ∧
      ∃ operation, ofNegated (.connective other) left right = .error (.nonNumeric operation)

theorem valid_operandCell (formed : v.WellFormed) (kind : Kind) (index : Nat) :
    (v.operandCell kind index).belongsTo kind := by
  rw [operandCell, toList_convertedCells, cycledCell_map rfl]
  exact Cell.convert_belongsTo (formed.cycledCell index)

section Laws

variable (leftFollows : left.Follows .validBelowDouble)
  (rightFollows : right.Follows .validBelowDouble)
include leftFollows rightFollows

theorem comparison_eq (operator : Comparison) : binary (.comparison operator) left right =
    (Recycling.align [left.length, right.length]).map
      (assembled .logical (operatorResult (.comparison operator) left right) [left, right]) :=
  binary_eq leftFollows.regular rightFollows.regular fun strict => by cases strict

theorem negated_comparison (operator : Comparison) :
    negated (binary (.comparison operator) left right) =
      binary (.comparison operator.opposite) left right := by
  rw [comparison_eq leftFollows rightFollows, comparison_eq leftFollows rightFollows]
  refine negated_assembled ⟨fun index => ?_, fun _ => rfl, fun _ => rfl⟩ _
  exact operator.cell_opposite _ _

theorem mirrors_comparison (operator : Comparison) :
    Mirrors (binary (.comparison operator) left right)
      (binary (.comparison operator.mirrored) right left) := by
  have results : operatorResult (.comparison operator.mirrored) right left =
      operatorResult (.comparison operator) left right := by
    funext index
    have kinds : max right.kind left.kind = max left.kind right.kind := Kind.max_comm _ _
    simp only [operatorResult, Operator.operandKind, Operator.cell, kinds, operator.cell_mirrored]
  rw [comparison_eq leftFollows rightFollows, comparison_eq rightFollows leftFollows, results]
  exact mirrors_assembled _ _ _ _

section Numeric

variable (leftNumeric : left.kind ≠ .character) (rightNumeric : right.kind ≠ .character)
include leftNumeric rightNumeric

theorem connective_eq (operator : Connective) : binary (.connective operator) left right =
    (Recycling.align [left.length, right.length]).map
      (assembled .logical (operatorResult (.connective operator) left right) [left, right]) :=
  binary_eq leftFollows.regular rightFollows.regular fun _ => ⟨leftNumeric, rightNumeric⟩

theorem negated_connective (operator : Connective) :
    negated (binary (.connective operator) left right) =
      ofNegated (.connective operator.dual) left right := by
  have opposed : ofNegated (.connective operator.dual) left right =
      binary (.connective operator.dual) left.opposed right.opposed := by
    unfold ofNegated
    rw [complement_eq leftNumeric, complement_eq rightNumeric]
    rfl
  have names : ∀ length, resultNames? [left.opposed, right.opposed] length =
      resultNames? [left, right] length :=
    resultNames?_congr (.cons ⟨rfl, length_opposed leftFollows.regular⟩
      (.cons ⟨rfl, length_opposed rightFollows.regular⟩ .nil))
  have assembledNames : assembled .logical
      (operatorResult (.connective operator.dual) left.opposed right.opposed)
      [left.opposed, right.opposed] = assembled .logical
      (operatorResult (.connective operator.dual) left.opposed right.opposed) [left, right] := by
    funext alignment
    rw [assembled, assembled, names]
  -- Lengths and names agree on both sides, and what remains is a law of single cells.
  rw [opposed, connective_eq leftFollows rightFollows leftNumeric rightNumeric,
    binary_eq (regular_opposed leftFollows.regular) (regular_opposed rightFollows.regular)
      fun _ => ⟨numeric_opposed left, numeric_opposed right⟩,
    length_opposed leftFollows.regular, length_opposed rightFollows.regular]
  change _ = Except.map (assembled .logical _ _) _
  rw [assembledNames]
  refine negated_assembled ⟨fun index => ?_, fun _ => rfl, fun _ => rfl⟩ _
  change operator.dual.cell (left.opposed.operandCell .logical index)
    (right.opposed.operandCell .logical index) = _
  rw [operandCell_opposed, operandCell_opposed]
  exact operator.cell_dual (logical_operandCell leftFollows index)
    (logical_operandCell rightFollows index)

end Numeric

/-- Negating a comparison is the opposite comparison, swapping its operands mirrors it, and negating
a connective is the other connective of the negations, all in equal cells, names and warnings, and
in failures on the same operands. -/
theorem comparisons_connectives_dual : Dual left right where
  opposite := negated_comparison leftFollows rightFollows
  mirrored := mirrors_comparison leftFollows rightFollows
  compared := by
    intro fitting operator
    have taken : Taken (!(Operator.comparison operator).takesText) left right := ⟨nofun, fitting⟩
    obtain ⟨w, warnings, ok, computed⟩ :=
      binary_computed leftFollows.regular rightFollows.regular taken
    refine ⟨w, warnings, ok, computed.logicalResult (fun _ => rfl) fun index => ⟨?_, ?_⟩⟩
    · exact operator.cell_absent
    · rintro ⟨leftFormed, rightFormed⟩ present
      exact operator.cell_present (valid_operandCell leftFormed _ index)
        (valid_operandCell rightFormed _ index) present
  dual := negated_connective leftFollows rightFollows
  connected := by
    intro leftNumeric rightNumeric fitting operator
    have taken : Taken (!(Operator.connective operator).takesText) left right :=
      ⟨fun _ => ⟨leftNumeric, rightNumeric⟩, fitting⟩
    obtain ⟨w, warnings, ok, computed⟩ :=
      binary_computed leftFollows.regular rightFollows.regular taken
    refine ⟨w, warnings, ok, computed.logicalResult (fun _ => rfl) fun index => ⟨?_, ?_⟩⟩
    · exact operator.cell_belongsTo _ _
    · exact operator.truthRank_cell (logical_operandCell leftFollows index)
        (logical_operandCell rightFollows index)
  refused := by
    intro text operator other
    obtain ⟨⟨operation, refused⟩, refusedOther⟩ :=
      refused_connective text operator other
    exact ⟨⟨operation, by rw [refused]; rfl⟩, refusedOther⟩

end Laws

/-- Four doubles and three integers: not-a-number and a missing cell have no order, and the first
integer comes back beside the last double. -/
theorem comparisons_connectives_dual_absent :
    let left := make .double
      (RadixArray.ofList [.number 2, .number .nan, .missing, .number (-1)])
      (some (RadixArray.ofList ["a", "b", "c", "d"]))
    let right := make .integer (RadixArray.ofList [.number 2, .number 0, .number 5]) none
    left.Follows .validBelowDouble ∧ right.Follows .validBelowDouble ∧ Dual left right ∧
      (binary (.comparison .less) left right).map (fun (w, warnings) =>
          (w.cells.toList, warnings)) =
        .ok ([.truth false, .missing, .missing, .truth true], [.recycledLength 4 3]) := by
  intro left right
  have leftFollows : left.Follows .validBelowDouble := by
    refine follows_make (fun _ _ low => absurd low (by decide)) fun names named => ?_
    cases named
    exact ⟨RadixArray.canonical_ofList _, rfl⟩
  have rightFollows : right.Follows .validBelowDouble := by
    have valid : ∀ cell ∈ [Cell.number 2, .number 0, .number 5], cell.belongsTo .integer := by
      decide +kernel
    exact follows_unnamed fun cell inside _ => valid cell inside
  exact ⟨leftFollows, rightFollows, comparisons_connectives_dual leftFollows rightFollows,
    by decide +kernel⟩

end TypedVector
end TypedVectors
