import TypedVectors.Proofs.Elementwise.Recycled
import TypedVectors.Proofs.Lists
import TypedVectors.Proofs.Selection.MixedSigns
import TypedVectors.Proofs.TypedVector.Position

/-!
Operations over recycled operands are local. Every cell of a result is the only cell of the same
operation on the two cells for its index, and the results out of range are counted index by index.
-/
namespace TypedVectors

namespace TypedVector

variable {v left right w : TypedVector} {warnings : List Warning}

theorem extractBy_position (regular : v.Regular) (short : v.length ≤ twoTo 53) {place : Nat}
    (below : place < v.length) :
    v.extractBy (.scalar (.number (.ofNat (place + 1)))) = .ok (v.extracted [.place place]) := by
  have whole : (Binary64.ofNat (place + 1)).toInt? = some ((place + 1 : Nat) : Int) :=
    Binary64.toInt?_ofNat (by omega)
  have finite := Binary64.isFinite_of_whole whole
  have one := Binary64.natCast_unit_pos
  have cut : (Binary64.ofNat (place + 1)).trunc.toInt? = some ((place + 1 : Nat) : Int) := by
    rw [Binary64.toInt?_trunc finite, Binary64.signedSteps_eq_level finite,
      Binary64.level_whole whole, Int.mul_tdiv_cancel _ one.ne']
  have kept : Selection.wholeNumber place = place := roundSteps_small (by omega)
  rw [extractBy_cut regular cut, kept]

/-- The vector of the one cell that an operand gives for an index. -/
def cellFor (v : TypedVector) (index : Nat) : Except Error TypedVector :=
  v.extractBy (.scalar (.number (.ofNat (index % v.length + 1))))

/-- A run on two vectors of one cell, which gives a cell of a kind and counts results out of
range. -/
structure Single (run : TypedVector → TypedVector → Except Error (TypedVector × List Warning))
    (x y : TypedVector) (kind : Kind) (cell : Cell) (count : Nat) : Prop where
  left : x.length = 1
  right : y.length = 1
  result : ∃ u, run x y = .ok (u, overflowWarnings count) ∧ u.kind = kind ∧ u.cells.toList = [cell]

/-- A run over recycled operands made of runs on single cells. -/
structure Local (run : TypedVector → TypedVector → Except Error (TypedVector × List Warning))
    (left right w : TypedVector) (warnings : List Warning) (counts : Nat → Nat) : Prop where
  length : w.length = max left.length right.length
  single : ∀ index < w.length, ∃ x y cell, left.cellFor index = .ok x ∧
    right.cellFor index = .ok y ∧ w.cells.toList[index]? = some cell ∧
    Single run x y w.kind cell (counts index)
  warnings : warnings = recyclingWarnings left.length right.length ++
    overflowWarnings ((List.range w.length).map counts).sum

theorem cycledCell_selected {cells : List Cell} {length : Nat} (same : cells.length = length)
    (index : Nat) :
    cycledCell (selected [.place (index % length)] cells) 0 = cycledCell cells index := by
  subst same
  rfl

theorem cycledCell_converted (regular : v.Regular) (kind : Kind) (index : Nat) :
    cycledCell ((v.extracted [.place (index % v.length)]).convertedCells kind).toList 0 =
      cycledCell (v.convertedCells kind).toList index := by
  rw [convertedCells_extracted, cycledCell_selected]
  rw [Array.length_toList, length_convertedCells regular]

theorem cycledCell_raised (regular : v.Regular) (kind : Kind) (index : Nat) :
    cycledCell ((v.extracted [.place (index % v.length)]).raisedCells kind) 0 =
      cycledCell (v.raisedCells kind) index := by
  rw [raisedCells_extracted, cycledCell_selected]
  exact length_raisedCells regular kind

section Locality

variable (leftRegular : left.Regular) (rightRegular : right.Regular)
include leftRegular rightRegular

theorem operatorResult_extracted (operator : Operator) (index : Nat) :
    operatorResult operator (left.extracted [.place (index % left.length)])
      (right.extracted [.place (index % right.length)]) 0 =
        operatorResult operator left right index :=
  congrArg₂ (operator.cell (operator.operandKind left.kind right.kind))
    (cycledCell_converted leftRegular _ index) (cycledCell_converted rightRegular _ index)

theorem roundedResult_extracted (index : Nat) :
    roundedResult (left.extracted [.place (index % left.length)])
      (right.extracted [.place (index % right.length)]) 0 = roundedResult left right index :=
  congrArg₂ (roundedCell left.numericKind)
    (cycledCell_raised leftRegular _ index) (cycledCell_raised rightRegular _ index)

variable (leftSome : 0 < left.length) (rightSome : 0 < right.length)
  (leftShort : left.length ≤ twoTo 53) (rightShort : right.length ≤ twoTo 53)
include leftSome rightSome leftShort rightShort

/-- A run whose results are known is local when the runs on single cells have the same results. -/
theorem Computed.local {run : TypedVector → TypedVector → Except Error (TypedVector × List Warning)}
    {kind : Kind} {results : Nat → Tallied} (whole : Computed kind results left right w warnings)
    (single : ∀ index,
      let x := left.extracted [.place (index % left.length)]
      let y := right.extracted [.place (index % right.length)]
      ∃ u told part, run x y = .ok (u, told) ∧ Computed kind part x y u told ∧
        part 0 = results index) :
    Local run left right w warnings fun index => if (results index).overflow then 1 else 0 where
  length := whole.length
  single := by
    intro index below
    obtain ⟨u, told, part, ok, computed, same⟩ := single index
    have one : u.length = 1 := by
      rw [computed.length, length_extracted, length_extracted]
      rfl
    refine ⟨_, _, (results index).cell,
      extractBy_position leftRegular leftShort (Nat.mod_lt index leftSome),
      extractBy_position rightRegular rightShort (Nat.mod_lt index rightSome), ?_, ?_⟩
    · rw [whole.cells, List.getElem?_map, List.getElem?_range below, Option.map_some]
    · refine ⟨length_extracted _ _, length_extracted _ _, u, ?_, ?_, ?_⟩
      · rw [ok, computed.warnings, one, length_extracted, length_extracted, ← same]
        simp [recyclingWarnings, List.countP_cons]
      · rw [computed.kind, whole.kind]
      · rw [computed.cells, one, ← same]
        rfl
  warnings := by
    rw [whole.warnings, countP_eq_sum]

/-- A run that gives the known results on all operands it takes is local, as the results on single
cells are those for their index. -/
theorem local_of_run {run : TypedVector → TypedVector → Except Error (TypedVector × List Warning)}
    {numbers : Bool} {kind : TypedVector → TypedVector → Kind}
    {results : TypedVector → TypedVector → Nat → Tallied}
    (computed : ∀ {x y : TypedVector}, x.Regular → y.Regular → Taken numbers x y →
      ∃ u told, run x y = .ok (u, told) ∧ Computed (kind x y) (results x y) x y u told)
    (kept : ∀ targets others,
      kind (left.extracted targets) (right.extracted others) = kind left right)
    (extracted : ∀ index, results (left.extracted [.place (index % left.length)])
      (right.extracted [.place (index % right.length)]) 0 = results left right index)
    (taken : Taken numbers left right) (ok : run left right = .ok (w, warnings)) :
    ∃ counts, Local run left right w warnings counts := by
  obtain ⟨v, told, done, whole⟩ := computed leftRegular rightRegular taken
  cases ok.symm.trans done
  refine ⟨_, whole.local leftRegular rightRegular leftSome rightSome leftShort rightShort
    fun index => ?_⟩
  have single : Taken numbers (left.extracted [.place (index % left.length)])
      (right.extracted [.place (index % right.length)]) := by
    refine ⟨taken.numeric, ?_⟩
    rw [length_extracted, length_extracted]
    exact Iff.rfl
  obtain ⟨u, told, ok, part⟩ :=
    computed (regular_extracted left _) (regular_extracted right _) single
  rw [kept] at part
  exact ⟨u, told, _, ok, part, extracted index⟩

/-- Every operator and rounding are local over recycled operands: where the run succeeds, each cell
of the result is the only cell of the run on the two cells for its index, and the results out of
range are counted run by run. Past two to the power 53 the places of an operand would no longer be
exact. -/
theorem operations_local :
    (∀ operator w warnings, binary operator left right = .ok (w, warnings) →
        ∃ counts, Local (binary operator) left right w warnings counts) ∧
      ∀ w warnings, left.roundTo right = .ok (w, warnings) →
        ∃ counts, Local roundTo left right w warnings counts := by
  constructor
  · intro operator w warnings ok
    exact local_of_run leftRegular rightRegular leftSome rightSome leftShort rightShort
      (fun xRegular yRegular taken => binary_computed xRegular yRegular taken)
      (fun _ _ => rfl) (operatorResult_extracted leftRegular rightRegular operator)
      (taken_of_binary ok) ok
  · intro w warnings ok
    exact local_of_run leftRegular rightRegular leftSome rightSome leftShort rightShort
      (fun xRegular yRegular taken => roundTo_computed xRegular yRegular taken)
      (fun _ _ => rfl) (roundedResult_extracted leftRegular rightRegular)
      (taken_of_roundTo leftRegular rightRegular ok) ok

end Locality

/-- Three cells and two: the first sum is out of range and the second one is missing. -/
theorem operations_local_sum :
    let left := make .integer (RadixArray.ofList [.number 2147483647, .missing, .number 1])
      (some (RadixArray.ofList ["a", "", "c"]))
    let right := make .logical (RadixArray.ofList [.truth true, .truth false]) none
    left.Regular ∧ right.Regular ∧ 0 < left.length ∧ 0 < right.length ∧
      left.length ≤ twoTo 53 ∧ right.length ≤ twoTo 53 ∧
      ∃ w warnings counts, binary (.arithmetic .add) left right = .ok (w, warnings) ∧
        warnings = [.recycledLength 3 2, .integerOverflow 1] ∧
        Local (binary (.arithmetic .add)) left right w warnings counts := by
  intro left right
  have leftRegular : left.Regular := by
    refine follows_make (fun _ _ => trivial) fun names named => ?_
    cases named
    exact ⟨RadixArray.canonical_ofList _, rfl⟩
  have rightRegular : right.Regular := follows_unnamed fun _ _ => trivial
  have leftSome : 0 < left.length := by decide
  have rightSome : 0 < right.length := by decide
  have leftShort : left.length ≤ twoTo 53 := by decide
  have rightShort : right.length ≤ twoTo 53 := by decide
  have told : (binary (.arithmetic .add) left right).map Prod.snd =
      .ok [.recycledLength 3 2, .integerOverflow 1] := by decide +kernel
  obtain ⟨⟨w, warnings⟩, ok, same⟩ := map_success told
  obtain ⟨counts, here⟩ := (operations_local leftRegular rightRegular leftSome rightSome leftShort
    rightShort).1 _ _ _ ok
  exact ⟨leftRegular, rightRegular, leftSome, rightSome, leftShort, rightShort, w, warnings, counts,
    ok, same, here⟩

end TypedVector
end TypedVectors
