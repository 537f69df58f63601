import TypedVectors.Elementwise.Rounding
import TypedVectors.Proofs.Elementwise.Results
import TypedVectors.Proofs.Selection.Assignment
import TypedVectors.Proofs.Selection.WriteTargets

/-!
Operations on elements commute with selection. An operation makes each cell of its result from the
cells at the same place and missing from missing ones, so that it may come before or after cells
are taken out by positions or by a mask.
-/
namespace TypedVectors

theorem Target.in?_map {α β : Type} (f : α → β) (items : List α) (target : Target) :
    target.in? (items.map f) = (target.in? items).map f := by
  cases target with
  | missing => rfl
  | place index => exact List.getElem?_map

/-- The cells at some targets, missing where there is none. -/
def selected (targets : List Target) (cells : List Cell) : List Cell :=
  targets.map fun target => (target.in? cells).getD .missing

theorem selected_map {f : Cell → Cell} (fixed : f .missing = .missing) (targets : List Target)
    (cells : List Cell) : selected targets (cells.map f) = (selected targets cells).map f := by
  unfold selected
  rw [List.map_map]
  refine List.map_congr_left fun target _ => ?_
  rw [Target.in?_map, Function.comp_apply]
  cases target.in? cells with
  | none => exact fixed.symm
  | some cell => rfl

/-- Both lists end at the same place, past which both cells are missing. -/
theorem selected_zipWith {f : Cell → Cell → Cell} (fixed : f .missing .missing = .missing)
    (targets : List Target) {xs ys : List Cell} (same : xs.length = ys.length) :
    selected targets (List.zipWith f xs ys) =
      List.zipWith f (selected targets xs) (selected targets ys) := by
  unfold selected
  rw [List.zipWith_map, List.zipWith_self]
  refine List.map_congr_left fun target _ => ?_
  cases target with
  | missing => exact fixed.symm
  | place index =>
    simp only [Target.in?, List.getElem?_zipWith]
    by_cases inside : index < xs.length
    · rw [List.getElem?_eq_getElem inside, List.getElem?_eq_getElem (same ▸ inside)]
      rfl
    · have past := Nat.not_lt.1 inside
      rw [List.getElem?_eq_none past, List.getElem?_eq_none (same ▸ past)]
      exact fixed.symm

/-- Operands of one length are read side by side. -/
theorem mapM_readAt_pair {α β γ : Type} {xs : Array α} {ys : Array β} {length : Nat}
    (left : xs.size = length) (right : ys.size = length) (f : α → β → γ) :
    ((List.range length).mapM fun index => (do
      let x ← readAt xs (Recycling.source xs.size index)
      let y ← readAt ys (Recycling.source ys.size index)
      return f x y : Except Error γ)) = .ok (List.zipWith f xs.toList ys.toList) := by
  refine mapM_of_forall₂ (List.forall₂_iff_get.2 ⟨by simp [left, right], fun index below _ => ?_⟩)
  have bound : index < length := by simpa using below
  have inside : index < xs.size := left ▸ bound
  have within : index < ys.size := right ▸ bound
  simp only [List.get_eq_getElem, List.getElem_range, Recycling.source, Nat.mod_eq_of_lt inside,
    Nat.mod_eq_of_lt within, readAt_eq inside, readAt_eq within, List.getElem_zipWith,
    Array.getElem_toList]
  rfl

theorem align_same (length : Nat) : Recycling.align [length, length] = .ok ⟨length, none⟩ := by
  have longest : longest [length, length] = length := by simp [longest]
  unfold Recycling.align
  rw [longest]
  dsimp only
  split
  · next zero => rw [zero]
  · next nonempty =>
    rw [if_neg (by simpa using Ne.symm nonempty)]
    simp

namespace TypedVector

variable {v w left right : TypedVector}

/-- The names at some targets, empty where there is none. -/
def selectedNames (targets : List Target) (names : RadixArray String) : RadixArray String :=
  RadixArray.ofList (targets.map fun target => (target.in? names.toList).getD "")

theorem extracted_make (kind : Kind) (cells : List Cell) (names? : Option (RadixArray String))
    (targets : List Target) :
    (make kind (RadixArray.ofList cells) names?).extracted targets =
      make kind (RadixArray.ofList (selected targets cells))
        (names?.map (selectedNames targets)) := by
  unfold extracted make
  rw [RadixArray.toList_ofList]
  rfl

theorem toList_extracted (v : TypedVector) (targets : List Target) :
    (v.extracted targets).cells.toList = selected targets v.cells.toList :=
  RadixArray.toList_ofList _

theorem length_convertedCells (follows : v.Regular) (kind : Kind) :
    (v.convertedCells kind).size = v.length := by
  rw [convertedCells, Array.size_map, follows.length_eq, ← toList_toArray, Array.length_toList]

theorem convertedCells_extracted (kind : Kind) (targets : List Target) :
    ((v.extracted targets).convertedCells kind).toList =
      selected targets (v.convertedCells kind).toList := by
  unfold convertedCells
  rw [Array.toList_map, Array.toList_map, toList_toArray, toList_toArray, toList_extracted,
    selected_map rfl]
  rfl

theorem raisedCells_extracted (kind : Kind) (targets : List Target) :
    (v.extracted targets).raisedCells kind = selected targets (v.raisedCells kind) := by
  unfold raisedCells
  rw [toList_extracted, selected_map (Cell.raise_missing v.kind kind)]
  rfl

theorem resultNames?_pair (same : left.length = right.length) :
    resultNames? [left, right] right.length = left.names?.or right.names? := by
  unfold resultNames?
  cases named : left.names? with
  | some names => simp [named, same]
  | none => cases other : right.names? <;> simp [named, other]

/-- The result cells of an operator between two vectors of one length. -/
def paired (operator : Operator) (left right : TypedVector) : List Cell :=
  let kind := operator.operandKind left.kind right.kind
  List.zipWith (fun x y => (operator.cell kind x y).cell)
    (left.convertedCells kind).toList (right.convertedCells kind).toList

theorem requireNumeric_ok (numeric : v.kind ≠ .character) (operation : Operation) :
    v.requireNumeric operation = .ok () := if_neg numeric

theorem binary_paired {operator : Operator}
    (accepts : operator.takesText = false → left.kind ≠ .character ∧ right.kind ≠ .character)
    (leftRegular : left.Regular) (rightRegular : right.Regular)
    (same : left.length = right.length) :
    (binary operator left right).map Prod.fst =
      .ok (make (operator.resultKind left.kind right.kind)
        (RadixArray.ofList (paired operator left right)) (left.names?.or right.names?)) := by
  have checked : (!operator.takesText) → left.requireNumeric (.binary operator) = .ok () ∧
      right.requireNumeric (.binary operator) = .ok () := by
    intro strict
    obtain ⟨leftNumeric, rightNumeric⟩ := accepts (by simpa using strict)
    exact ⟨requireNumeric_ok leftNumeric _, requireNumeric_ok rightNumeric _⟩
  have computed := mapM_readAt_pair
    ((length_convertedCells leftRegular (operator.operandKind left.kind right.kind)).trans same)
    (length_convertedCells rightRegular (operator.operandKind left.kind right.kind))
    (operator.cell (operator.operandKind left.kind right.kind))
  unfold binary
  rw [guarded_eq checked, same, align_same]
  change Except.map Prod.fst (List.mapM _ _ >>= _) = _
  rw [computed]
  change Except.ok _ = Except.ok _
  rw [List.map_zipWith, resultNames?_pair same]
  rfl

theorem operator_cell_missing (operator : Operator) (kind : Kind) :
    (operator.cell kind .missing .missing).cell = .missing := by
  cases operator with
  | arithmetic operator => cases operator <;> rfl
  | comparison operator => rfl
  | connective operator => cases operator <;> rfl

theorem paired_extracted (operator : Operator) (leftRegular : left.Regular)
    (rightRegular : right.Regular) (same : left.length = right.length) (targets : List Target) :
    paired operator (left.extracted targets) (right.extracted targets) =
      selected targets (paired operator left right) := by
  unfold paired
  rw [selected_zipWith (operator_cell_missing operator _)]
  · simp only [convertedCells_extracted]
    rfl
  · rw [Array.length_toList, Array.length_toList, length_convertedCells leftRegular,
      length_convertedCells rightRegular, same]

/-- Rounding makes integers of truth values and keeps the other kinds. -/
theorem rank_le_numericKind (numeric : v.kind ≠ .character) : v.kind.rank ≤ v.numericKind.rank := by
  unfold numericKind
  revert numeric
  cases v.kind <;> decide

def rounded (v places : TypedVector) : List Cell :=
  List.zipWith (fun value digits => (roundedCell v.numericKind value digits).cell)
    (v.raisedCells v.numericKind) (places.raisedCells .double)

theorem mapM_promote {kind : Kind} (up : v.kind.rank ≤ kind.rank) :
    v.toArray.mapM (·.promote v.kind kind) = .ok (v.raisedCells kind).toArray := by
  rw [Array.mapM_eq_mapM_toList, promoted_eq_raisedCells up]
  rfl

theorem roundTo_rounded (numeric : left.kind ≠ .character) (places : right.kind ≠ .character)
    (leftRegular : left.Regular) (rightRegular : right.Regular)
    (same : left.length = right.length) :
    (left.roundTo right).map Prod.fst =
      .ok (make left.numericKind (RadixArray.ofList (rounded left right)) left.names?) := by
  have upward : right.kind.rank ≤ Kind.double.rank := by
    revert places
    cases right.kind <;> decide
  have size : (left.raisedCells left.numericKind).toArray.size = right.length := by
    rw [List.size_toArray, length_raisedCells leftRegular, same]
  have digits : (right.raisedCells .double).toArray.size = right.length := by
    rw [List.size_toArray, length_raisedCells rightRegular]
  have computed := mapM_readAt_pair size digits (roundedCell left.numericKind)
  rw [size, digits] at computed
  have names : resultNames? [left] right.length = left.names? := by
    unfold resultNames?
    cases named : left.names? <;> simp [named, same]
  unfold roundTo
  rw [requireNumeric_ok numeric, requireNumeric_ok places]
  change Except.map Prod.fst (Array.mapM _ _ >>= _) = _
  rw [mapM_promote (rank_le_numericKind numeric), mapM_promote upward]
  change Except.map Prod.fst (Recycling.align _ >>= _) = _
  rw [size, digits, align_same]
  change Except.map Prod.fst (List.mapM _ _ >>= _) = _
  rw [computed]
  change Except.ok _ = Except.ok _
  rw [List.map_zipWith, names]
  rfl

theorem rounded_extracted (leftRegular : left.Regular) (rightRegular : right.Regular)
    (same : left.length = right.length) (targets : List Target) :
    rounded (left.extracted targets) (right.extracted targets) =
      selected targets (rounded left right) := by
  unfold rounded
  rw [selected_zipWith rfl]
  · simp only [raisedCells_extracted]
    rfl
  · rw [length_raisedCells leftRegular, length_raisedCells rightRegular, same]

theorem negate_eq (numeric : v.kind ≠ .character) :
    v.negate = .ok (v.withCells v.numericKind
      ((v.raisedCells v.numericKind).map (negatedCell v.numericKind))) := by
  unfold negate
  rw [requireNumeric_ok numeric]
  change Except.bind (v.toArray.toList.mapM _) _ = _
  rw [promoted_eq_raisedCells (rank_le_numericKind numeric)]
  rfl

theorem complement_eq (numeric : v.kind ≠ .character) :
    v.complement =
      .ok (v.withCells .logical ((v.convertedCells .logical).toList.map complementCell)) := by
  unfold complement
  rw [requireNumeric_ok numeric]
  rfl

theorem convert_eq (v : TypedVector) (kind : Kind) :
    (v.convert kind).1 = v.withCells kind (v.convertedCells kind).toList := by
  unfold convert convertedCells
  dsimp only
  rw [List.map_map, Array.toList_map]
  rfl

variable {spec : Operand} {read : Resolution}

open Reference in
/-- What positions and masks address follows from the length alone. -/
theorem resolveBy_congr (unnamed : reading? spec ≠ some .names) (same : w.length = v.length)
    (access : Access) : w.resolveBy spec access = v.resolveBy spec access := by
  rw [resolveBy_eq, resolveBy_eq]
  cases found : reading? spec with
  | none => rfl
  | some reading =>
    dsimp only
    unfold Reading.resolve
    cases reading with
    | positions =>
      change Selection.resolvePositions _ w.length _ = Selection.resolvePositions _ v.length _
      rw [same]
    | mask =>
      change Selection.resolveMask _ w.length _ = Selection.resolveMask _ v.length _
      rw [same]
    | names => exact absurd found unnamed

theorem extractBy_of_length (unnamed : Reference.reading? spec ≠ some .names)
    (found : v.resolveBy spec .read = .ok read) (regular : w.Regular) (same : w.length = v.length) :
    w.extractBy spec = .ok (w.extracted read.targets) := by
  rw [extractBy_eq regular, resolveBy_congr unnamed same, found]
  rfl

/-- An operation on whole vectors and the same one on selected cells both succeed, and selecting
from the first result gives the second. -/
def SelectsAlike (spec : Operand) (whole part : Except Error TypedVector) : Prop :=
  ∃ w, whole = .ok w ∧ ∃ u, w.extractBy spec = .ok u ∧ part = .ok u

/-- All operations on the elements of two vectors, and on what is selected from them. -/
structure OperationsSelectAlike (spec : Operand) (left right left' right' : TypedVector) :
    Prop where
  binary : ∀ operator : Operator,
    (operator.takesText = false → left.kind ≠ .character ∧ right.kind ≠ .character) →
    SelectsAlike spec ((binary operator left right).map Prod.fst)
      ((TypedVector.binary operator left' right').map Prod.fst)
  roundTo : left.kind ≠ .character → right.kind ≠ .character →
    SelectsAlike spec ((left.roundTo right).map Prod.fst) ((left'.roundTo right').map Prod.fst)
  negate : left.kind ≠ .character → SelectsAlike spec left.negate left'.negate
  complement : left.kind ≠ .character → SelectsAlike spec left.complement left'.complement
  convert : ∀ kind, SelectsAlike spec (.ok (left.convert kind).1) (.ok (left'.convert kind).1)

theorem selectsAlike_make (unnamed : Reference.reading? spec ≠ some .names)
    (found : v.resolveBy spec .read = .ok read) {kind : Kind} {cells : List Cell}
    {names? : Option (RadixArray String)} (count : cells.length = v.length)
    (regular : (make kind (RadixArray.ofList cells) names?).Regular) :
    SelectsAlike spec (.ok (make kind (RadixArray.ofList cells) names?))
      (.ok (make kind (RadixArray.ofList (selected read.targets cells))
        (names?.map (selectedNames read.targets)))) := by
  have length : (make kind (RadixArray.ofList cells) names?).length = v.length := by
    rw [make, TypedVector.length, RadixArray.size_ofList, count]
  refine ⟨_, rfl, _, extractBy_of_length unnamed found regular length, ?_⟩
  rw [extracted_make]

theorem selectsAlike_withCells (unnamed : Reference.reading? spec ≠ some .names)
    (found : v.resolveBy spec .read = .ok read) (regular : v.Regular) {kind : Kind}
    {cells : List Cell} (count : cells.length = v.length) :
    SelectsAlike spec (.ok (v.withCells kind cells))
      (.ok ((v.extracted read.targets).withCells kind (selected read.targets cells))) :=
  selectsAlike_make unnamed found count
    (regular.withCells (fun _ _ => trivial) (count.trans regular.length_eq))

theorem selectsAlike_binary {operator : Operator}
    (accepts : operator.takesText = false → left.kind ≠ .character ∧ right.kind ≠ .character)
    (leftRegular : left.Regular) (rightRegular : right.Regular)
    (same : left.length = right.length) (unnamed : Reference.reading? spec ≠ some .names)
    (found : left.resolveBy spec .read = .ok read) :
    SelectsAlike spec ((binary operator left right).map Prod.fst)
      ((binary operator (left.extracted read.targets) (right.extracted read.targets)).map
        Prod.fst) := by
  have whole := binary_paired accepts leftRegular rightRegular same
  have kinds : operator.takesText = false → (left.extracted read.targets).kind ≠ .character ∧
      (right.extracted read.targets).kind ≠ .character := accepts
  have part := binary_paired kinds (regular_extracted left read.targets)
    (regular_extracted right read.targets) (by rw [length_extracted, length_extracted])
  rw [paired_extracted operator leftRegular rightRegular same] at part
  have count : (paired operator left right).length = left.length := by
    rw [paired, List.length_zipWith, Array.length_toList, Array.length_toList,
      length_convertedCells leftRegular, length_convertedCells rightRegular, same, Nat.min_self]
  obtain ⟨⟨w, warnings⟩, ok, result⟩ := map_success whole
  have regular := follows_binary CellRule.stable_any leftRegular rightRegular ok
  rw [show w = _ from result] at regular
  have alike := selectsAlike_make unnamed found count regular
  rw [whole, part]
  rwa [Option.map_or] at alike

theorem selectsAlike_roundTo (numeric : left.kind ≠ .character) (places : right.kind ≠ .character)
    (leftRegular : left.Regular) (rightRegular : right.Regular)
    (same : left.length = right.length) (unnamed : Reference.reading? spec ≠ some .names)
    (found : left.resolveBy spec .read = .ok read) :
    SelectsAlike spec ((left.roundTo right).map Prod.fst)
      (((left.extracted read.targets).roundTo (right.extracted read.targets)).map Prod.fst) := by
  have whole := roundTo_rounded numeric places leftRegular rightRegular same
  have numeric' : (left.extracted read.targets).kind ≠ .character := numeric
  have places' : (right.extracted read.targets).kind ≠ .character := places
  have part := roundTo_rounded numeric' places' (regular_extracted left read.targets)
    (regular_extracted right read.targets) (by rw [length_extracted, length_extracted])
  rw [rounded_extracted leftRegular rightRegular same] at part
  have count : (rounded left right).length = left.length := by
    rw [rounded, List.length_zipWith, length_raisedCells leftRegular,
      length_raisedCells rightRegular, same, Nat.min_self]
  rw [whole, part]
  exact selectsAlike_withCells unnamed found leftRegular count

theorem selectsAlike_negate (numeric : v.kind ≠ .character) (regular : v.Regular)
    (unnamed : Reference.reading? spec ≠ some .names)
    (found : v.resolveBy spec .read = .ok read) :
    SelectsAlike spec v.negate (v.extracted read.targets).negate := by
  have numeric' : (v.extracted read.targets).kind ≠ .character := numeric
  rw [negate_eq numeric, negate_eq numeric', raisedCells_extracted, ← selected_map rfl]
  refine selectsAlike_withCells unnamed found regular ?_
  rw [List.length_map, length_raisedCells regular]

theorem selectsAlike_complement (numeric : v.kind ≠ .character) (regular : v.Regular)
    (unnamed : Reference.reading? spec ≠ some .names)
    (found : v.resolveBy spec .read = .ok read) :
    SelectsAlike spec v.complement (v.extracted read.targets).complement := by
  have numeric' : (v.extracted read.targets).kind ≠ .character := numeric
  rw [complement_eq numeric, complement_eq numeric', convertedCells_extracted, ← selected_map rfl]
  refine selectsAlike_withCells unnamed found regular ?_
  rw [List.length_map, Array.length_toList, length_convertedCells regular]

theorem selectsAlike_convert (regular : v.Regular) (unnamed : Reference.reading? spec ≠ some .names)
    (found : v.resolveBy spec .read = .ok read) (kind : Kind) :
    SelectsAlike spec (.ok (v.convert kind).1)
      (.ok ((v.extracted read.targets).convert kind).1) := by
  rw [convert_eq, convert_eq, convertedCells_extracted]
  refine selectsAlike_withCells unnamed found regular ?_
  rw [Array.length_toList, length_convertedCells regular]

/-- Operations on elements commute with selection by positions or a mask: wherever the selector is
accepted and an operation takes the kinds of its operands. -/
theorem operations_selectAlike (leftRegular : left.Regular) (rightRegular : right.Regular)
    (same : left.length = right.length) (unnamed : Reference.reading? spec ≠ some .names)
    {left' : TypedVector} (accepted : left.extractBy spec = .ok left') :
    ∃ right', right.extractBy spec = .ok right' ∧
      OperationsSelectAlike spec left right left' right' := by
  rw [extractBy_eq leftRegular] at accepted
  obtain ⟨read, found, rfl⟩ := map_success accepted
  exact ⟨right.extracted read.targets,
    extractBy_of_length unnamed found rightRegular same.symm,
    { binary := fun _ accepts =>
        selectsAlike_binary accepts leftRegular rightRegular same unnamed found
      roundTo := fun numeric places =>
        selectsAlike_roundTo numeric places leftRegular rightRegular same unnamed found
      negate := fun numeric => selectsAlike_negate numeric leftRegular unnamed found
      complement := fun numeric => selectsAlike_complement numeric leftRegular unnamed found
      convert := selectsAlike_convert leftRegular unnamed found }⟩

/-- A named and an unnamed vector, of which a place is taken twice, one missing and one past the
end: the power of a missing cell to zero is one, and that of two missing cells is missing. -/
theorem operations_selectAlike_power :
    let left := make .integer (RadixArray.ofList [.missing, .number 2])
      (some (RadixArray.ofList ["a", "b"]))
    let right := make .double (RadixArray.ofList [.number 0, .number 3]) none
    let spec : Operand := .cells [.number 1, .missing, .number 2, .number 1, .number 9]
    left.Regular ∧ right.Regular ∧ left.length = right.length ∧
      ∃ left' right', left.extractBy spec = .ok left' ∧ right.extractBy spec = .ok right' ∧
        SelectsAlike spec ((binary (.arithmetic .power) left right).map Prod.fst)
          ((binary (.arithmetic .power) left' right').map Prod.fst) := by
  intro left right spec
  have leftRegular : left.Regular := by
    refine follows_make (fun _ _ => trivial) fun names named => ?_
    cases named
    exact ⟨RadixArray.canonical_ofList _, rfl⟩
  have rightRegular : right.Regular := follows_unnamed fun _ _ => trivial
  have same : left.length = right.length := by decide
  have unnamed : Reference.reading? spec ≠ some .names := by decide
  have found : left.resolveBy spec .read =
      .ok ⟨[.place 0, .missing, .place 1, .place 0, .place 8], 9, []⟩ := by decide +kernel
  have accepted := extractBy_of_length unnamed found leftRegular rfl
  obtain ⟨right', taken, alike⟩ :=
    operations_selectAlike leftRegular rightRegular same unnamed accepted
  exact ⟨leftRegular, rightRegular, same, _, right', accepted, taken,
    alike.binary (.arithmetic .power) fun _ => ⟨by decide, by decide⟩⟩

end TypedVector
end TypedVectors
