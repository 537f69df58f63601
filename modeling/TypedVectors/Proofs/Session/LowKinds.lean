import TypedVectors.Proofs.Session.PlainLists
import TypedVectors.Proofs.TypedVector.Progression

/-!
Logical and integer vectors of a session hold cells of their kind only, whatever was passed to the
commands. A plain list of cells may leave cells of lower kinds in a vector, but a list of such a low
kind is one of truth values, and a progression is integer only where all of its cells are.
-/
namespace TypedVectors

theorem Cell.missing_or_truth {cell : Cell} (low : cell.kindAlone.rank ≤ Kind.integer.rank) :
    cell = .missing ∨ ∃ value, cell = .truth value := by
  have double : ¬Kind.double.rank ≤ Kind.integer.rank := by decide
  have character : ¬Kind.character.rank ≤ Kind.integer.rank := by decide
  cases cell with
  | missing => exact .inl rfl
  | truth value => exact .inr ⟨value, rfl⟩
  | number _ => exact absurd low double
  | text _ => exact absurd low character

theorem listKind_low {items : List Cell} (low : (listKind items).rank ≤ Kind.integer.rank) :
    listKind items = .logical := by
  rcases Kind.highest_mem (items.map Cell.kindAlone) with lowest | top
  · exact lowest
  · obtain ⟨cell, -, same⟩ := List.mem_map.1 top
    unfold listKind at low ⊢
    rw [← same] at low ⊢
    rcases Cell.missing_or_truth low with rfl | ⟨value, rfl⟩
    · rfl
    · rfl

theorem belongsTo_listKind {items : List Cell} {cell : Cell} (inside : cell ∈ items)
    (low : (listKind items).rank ≤ Kind.integer.rank) : cell.belongsTo (listKind items) := by
  have alone := Nat.le_trans (Kind.rank_le_highest (List.mem_map_of_mem inside)) low
  rw [listKind_low low]
  rcases Cell.missing_or_truth alone with rfl | ⟨value, rfl⟩
  · rfl
  · rfl

namespace TypedVector

theorem validBelowDouble_progression {first last : Binary64} {step? : Option Binary64}
    {v : TypedVector} (ok : progression first last step? = .ok v) :
    v.Follows .validBelowDouble := by
  have regular := regular_progression ok
  obtain ⟨count, few, bounds, rfl⟩ := progression_success ok
  refine ⟨regular.canonical, fun cell inside low => ?_, regular.names⟩
  rw [toList_progressionOf] at inside
  obtain ⟨x, number, rfl⟩ := List.mem_map.1 inside
  rcases progressionOf_kind first last (stepOf first last step?) count with integer | double
  · have fits := bounds.progressionOf_fitsInteger few integer number
    rw [integer, Cell.belongsTo, fits]
    rfl
  · rw [double] at low
    exact absurd low (by decide)

end TypedVector

theorem Command.admits_validBelowDouble (command : Command) :
    command.Admits (TypedVector.Follows .validBelowDouble) where
  cells := by
    intro items _ v ok
    rw [Operand.toVector_cells] at ok
    cases ok
    exact TypedVector.follows_unnamed fun _ inside => belongsTo_listKind inside
  progression := fun _ _ _ _ _ => TypedVector.validBelowDouble_progression

/-- Every vector of a reachable session has valid cells as long as its kind is logical or
integer. -/
theorem Session.Reachable.validBelowDouble {session : Session} (reachable : session.Reachable) :
    session.Holds (TypedVector.Follows .validBelowDouble) := by
  have kept := kept_follows CellRule.stable_validBelowDouble
  induction reachable with
  | initial => exact holds_initial _
  | step _ name? command ih =>
    exact (ih.runInto kept command.admits_validBelowDouble name?).1

end TypedVectors
