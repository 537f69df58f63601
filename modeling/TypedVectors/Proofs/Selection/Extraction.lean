import TypedVectors.Proofs.TypedVector.Follows
import TypedVectors.Selection.Extraction

/-!
Extraction reads every target on its own: the item at a place inside the vector, and otherwise none,
so that the new cells and names are those of the targets in order.
-/
namespace TypedVectors

/-- The item that a target addresses among some items. -/
def Target.in? {α : Type} (items : List α) : Target → Option α
  | missing => none
  | place index => items[index]?

theorem readAll_insideIndex {α : Type} (items : List α) (targets : List Target) :
    (RadixArray.ofList items).readAll (targets.map (TypedVector.insideIndex items.length)) =
      targets.map (·.in? items) := by
  rw [RadixArray.readAll_ofList, List.map_map]
  refine List.map_congr_left fun target _ => ?_
  cases target with
  | missing => rfl
  | place index =>
    by_cases inside : index < items.length
    · simp [TypedVector.insideIndex, Target.in?, inside]
    · simp [TypedVector.insideIndex, Target.in?, inside]

namespace TypedVector

variable {rule : CellRule}

def extracted (v : TypedVector) (targets : List Target) : TypedVector :=
  make v.kind
    (RadixArray.ofList (targets.map fun target => (target.in? v.cells.toList).getD .missing))
    (v.names?.map fun names =>
      RadixArray.ofList (targets.map fun target => (target.in? names.toList).getD ""))

theorem Follows.extract_eq {v : TypedVector} (follows : v.Follows rule) (selector : Selector) :
    v.extract selector = (selector.resolve v .read).map fun resolution =>
      v.extracted resolution.targets := by
  unfold extract extracted
  cases selector.resolve v .read with
  | error error => rfl
  | ok resolution =>
    have cells : v.cells.readAll (resolution.targets.map (insideIndex v.length)) =
        resolution.targets.map (·.in? v.cells.toList) := by
      rw [follows.length_eq, ← readAll_insideIndex, ← follows.canonical]
    have names : ∀ names, v.names? = some names →
        names.readAll (resolution.targets.map (insideIndex v.length)) =
          resolution.targets.map (·.in? names.toList) := by
      intro names named
      obtain ⟨canonical, fit⟩ := follows.names names named
      rw [← fit, canonical.size_eq, ← readAll_insideIndex, ← canonical]
    change Except.ok _ = Except.ok _
    rw [cells, List.map_map]
    cases named : v.names? with
    | none => rfl
    | some written =>
      rw [Option.map_some, names written named, List.map_map]
      rfl

theorem Follows.extract (stable : rule.Stable) {v w : TypedVector} {selector : Selector}
    (follows : v.Follows rule) (ok : v.extract selector = .ok w) : w.Follows rule := by
  rw [follows.extract_eq] at ok
  obtain ⟨resolution, _, rfl⟩ := map_success ok
  refine follows_make ?_ ?_
  · intro cell inside
    obtain ⟨target, _, rfl⟩ := List.mem_map.1 inside
    cases found : target.in? v.cells.toList with
    | none => exact stable.missing v.kind
    | some cell =>
      cases target with
      | missing => cases found
      | place index => exact follows.cells cell (List.mem_of_getElem? found)
  · intro names named
    obtain ⟨written, _, rfl⟩ := Option.map_eq_some_iff.1 named
    refine ⟨RadixArray.canonical_ofList _, ?_⟩
    rw [RadixArray.size_ofList, List.length_map, List.length_map]

theorem length_extracted (v : TypedVector) (targets : List Target) :
    (v.extracted targets).length = targets.length := by
  rw [extracted, make, length, RadixArray.size_ofList, List.length_map]

theorem get?_extracted {v : TypedVector} (regular : v.Regular) {targets : List Target}
    {index place : Nat} {cell : Cell} (here : targets[index]? = some (.place place))
    (found : v.cells.get? place = some cell) :
    (v.extracted targets).cells.get? index = some cell := by
  rw [regular.canonical.get?_eq] at found
  rw [extracted, make, RadixArray.get?_ofList, List.getElem?_map, here, Option.map_some,
    Target.in?, found, Option.getD_some]

/-- What is selected has a name for every target when there are names. -/
theorem regular_extracted (v : TypedVector) (targets : List Target) :
    (v.extracted targets).Regular := by
  refine follows_make (fun _ _ => trivial) fun names named => ?_
  obtain ⟨written, _, rfl⟩ := Option.map_eq_some_iff.1 named
  refine ⟨RadixArray.canonical_ofList _, ?_⟩
  rw [RadixArray.size_ofList, List.length_map, List.length_map]

end TypedVector
end TypedVectors
