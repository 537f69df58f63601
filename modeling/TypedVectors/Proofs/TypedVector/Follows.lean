import TypedVectors.Proofs.Cell.Conversion
import TypedVectors.Proofs.Kind
import TypedVectors.Proofs.RadixArray.Reader
import TypedVectors.Proofs.RadixArray.Update
import TypedVectors.Proofs.Success
import TypedVectors.TypedVector.Repetition

/-!
What a vector is promised to be: cells and names are laid out canonically, there are as many names
as cells, and every cell follows a rule for the vector's kind. The rule that a cell is valid for the
kind makes a well-formed vector, the rule that always holds a regular one.
-/
namespace TypedVectors

/-- What the cells of a vector must fulfil, by the kind of the vector. -/
abbrev CellRule := Kind → Cell → Prop

/-- A rule that valid cells follow, and that the changes of cells keep. -/
structure CellRule.Stable (rule : CellRule) : Prop where
  valid : ∀ {kind cell}, cell.belongsTo kind → rule kind cell
  convert : ∀ {source target cell}, rule source cell → rule target (cell.convert source target).cell
  negated : ∀ {kind cell}, rule kind cell → rule kind (TypedVector.negatedCell kind cell)

theorem CellRule.Stable.raise {rule : CellRule} (stable : rule.Stable) {source target : Kind}
    {cell : Cell} (up : source.rank ≤ target.rank) (follows : rule source cell) :
    rule target (cell.raise source target) := by
  rw [Cell.raise_eq_convert up]
  exact stable.convert follows

theorem CellRule.Stable.missing {rule : CellRule} (stable : rule.Stable) (kind : Kind) :
    rule kind .missing := stable.valid (Cell.belongsTo_missing kind)

def CellRule.valid : CellRule := fun kind cell => cell.belongsTo kind

def CellRule.any : CellRule := fun _ _ => True

/-- Logical and integer vectors hold valid cells only. In higher kinds a plain list may leave cells
of lower ones. -/
def CellRule.validBelowDouble : CellRule := fun kind cell =>
  kind.rank ≤ Kind.integer.rank → cell.belongsTo kind

theorem CellRule.stable_valid : CellRule.valid.Stable where
  valid := id
  convert := Cell.convert_belongsTo
  negated := Cell.negatedCell_belongsTo

theorem CellRule.stable_any : CellRule.any.Stable where
  valid := fun _ => trivial
  convert := fun _ => trivial
  negated := fun _ => trivial

theorem CellRule.stable_validBelowDouble : CellRule.validBelowDouble.Stable where
  valid := fun valid _ => valid
  convert := by
    intro source target cell follows low
    by_cases valid : source.rank ≤ Kind.integer.rank
    · exact Cell.convert_belongsTo (follows valid)
    · exact Cell.convert_down_belongsTo (by omega) cell
  negated := fun follows low => Cell.negatedCell_belongsTo (follows low)

namespace TypedVector

structure Follows (rule : CellRule) (v : TypedVector) : Prop where
  canonical : v.cells.Canonical
  cells : ∀ cell ∈ v.cells.toList, rule v.kind cell
  names : ∀ names, v.names? = some names → names.Canonical ∧ names.size = v.length

/-- Every cell is valid for the kind, and there is a name for every cell when there are names. -/
abbrev WellFormed : TypedVector → Prop := Follows CellRule.valid

/-- Cells and names are laid out canonically, with a name for every cell when there are names. -/
abbrev Regular : TypedVector → Prop := Follows CellRule.any

theorem toList_toArray (v : TypedVector) : v.toArray.toList = v.cells.toList := rfl

variable {rule : CellRule}

theorem Follows.regular {v : TypedVector} (follows : v.Follows rule) : v.Regular where
  canonical := follows.canonical
  cells := fun _ _ => trivial
  names := follows.names

theorem Follows.length_eq {v : TypedVector} (follows : v.Follows rule) :
    v.length = v.cells.toList.length := follows.canonical.size_eq

theorem follows_make {kind : Kind} {cells : List Cell} {names? : Option (RadixArray String)}
    (each : ∀ cell ∈ cells, rule kind cell)
    (named : ∀ names, names? = some names → names.Canonical ∧ names.size = cells.length) :
    (make kind (RadixArray.ofList cells) names?).Follows rule where
  canonical := RadixArray.canonical_ofList cells
  cells := by
    rw [make, RadixArray.toList_ofList]
    exact each
  names := by
    rw [make, length, RadixArray.size_ofList]
    exact named

theorem follows_unnamed {kind : Kind} {cells : List Cell} (each : ∀ cell ∈ cells, rule kind cell) :
    (make kind (RadixArray.ofList cells) none).Follows rule :=
  follows_make each fun _ named => by cases named

theorem Follows.withCells {v : TypedVector} (follows : v.Follows rule) {kind : Kind}
    {cells : List Cell} (each : ∀ cell ∈ cells, rule kind cell)
    (same : cells.length = v.cells.toList.length) : (v.withCells kind cells).Follows rule := by
  refine follows_make each fun names named => ?_
  rw [same, ← follows.length_eq]
  exact follows.names names named

theorem Follows.withoutNames {v : TypedVector} (follows : v.Follows rule) :
    v.withoutNames.Follows rule where
  canonical := follows.canonical
  cells := follows.cells
  names := fun _ named => by cases named

theorem Follows.copy {v : TypedVector} (follows : v.Follows rule) : v.copy.Follows rule :=
  ⟨follows.canonical, follows.cells, follows.names⟩

theorem Follows.indexed {v : TypedVector} (follows : v.Follows rule) : v.indexed.Follows rule :=
  ⟨follows.canonical, follows.cells, follows.names⟩

theorem Follows.withNames {v w : TypedVector} (follows : v.Follows rule) {given : List Cell}
    (ok : v.withNames given = .ok w) : w.Follows rule := by
  unfold TypedVector.withNames at ok
  split at ok
  · cases ok
  · next few =>
    cases ok
    refine ⟨follows.canonical, follows.cells, ?_⟩
    intro names named
    cases named
    refine ⟨RadixArray.canonical_ofList _, ?_⟩
    rw [RadixArray.size_ofList, List.length_append, List.length_map, List.length_replicate]
    exact Nat.add_sub_cancel' (Nat.not_lt.1 few)

theorem Follows.withNamesOf {v source w : TypedVector} (follows : v.Follows rule)
    (ok : v.withNamesOf source = .ok w) : w.Follows rule := by
  obtain ⟨given, _, ok⟩ := bind_success ok
  exact follows.withNames ok

theorem Follows.namesVector? {v w : TypedVector} (stable : rule.Stable)
    (named : v.namesVector? = some w) : w.Follows rule := by
  obtain ⟨names, _, rfl⟩ := Option.map_eq_some_iff.1 named
  refine follows_unnamed fun cell inside => ?_
  obtain ⟨name, _, rfl⟩ := List.mem_map.1 inside
  exact stable.valid (Cell.belongsTo_text.2 rfl)

theorem belongsTo_of_firstForeign? {kind : Kind} {cells : List Cell}
    (native : firstForeign? kind cells = none) {cell : Cell} (inside : cell ∈ cells) :
    cell.belongsTo kind := by
  unfold firstForeign? at native
  rw [Option.map_eq_none_iff, List.find?_eq_none] at native
  obtain ⟨index, below, rfl⟩ := List.mem_iff_getElem.1 inside
  have accepted := native (cells[index], index) (List.mem_zipIdx_iff_getElem?.2 (by simp [below]))
  simpa using accepted

theorem follows_build {kind : Kind} {cells : List Cell} {names? : Option (List Cell)}
    {v : TypedVector} (stable : rule.Stable) (ok : build kind cells names? = .ok v) :
    v.Follows rule := by
  unfold build at ok
  split at ok
  · cases ok
  · next accepted =>
    have bare : (make kind (RadixArray.ofList cells) none).Follows rule :=
      follows_unnamed fun cell inside => stable.valid (belongsTo_of_firstForeign? accepted inside)
    dsimp only at ok
    split at ok
    · exact bare.withNames ok
    · cases ok
      exact bare

theorem follows_blank (stable : rule.Stable) (kind : Kind) : (blank kind).Follows rule := by
  refine follows_unnamed fun cell inside => ?_
  rw [List.mem_singleton.1 inside]
  exact stable.missing kind

end TypedVector
end TypedVectors
