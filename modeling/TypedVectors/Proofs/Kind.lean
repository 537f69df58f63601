import Mathlib.Order.Lattice
import Mathlib.Order.Nat
import TypedVectors.Kind

/-!
The order of kinds by rank: none of some kinds is above the highest of them.
-/
namespace TypedVectors.Kind

@[simp]
theorem rank_max (a b : Kind) : (max a b).rank = max a.rank b.rank := by
  cases a <;> cases b <;> rfl

theorem max_comm (a b : Kind) : max a b = max b a := by
  cases a <;> cases b <;> rfl

theorem rank_le_max_left (a b : Kind) : a.rank ≤ (max a b).rank := by
  rw [rank_max]
  exact Nat.le_max_left _ _

theorem rank_le_max_right (a b : Kind) : b.rank ≤ (max a b).rank := by
  rw [rank_max]
  exact Nat.le_max_right _ _

theorem rank_le_foldl_max (kind : Kind) (kinds : List Kind) :
    kind.rank ≤ (kinds.foldl max kind).rank := by
  induction kinds generalizing kind with
  | nil => exact Nat.le_refl _
  | cons first rest ih =>
    exact Nat.le_trans (rank_le_max_left kind first) (ih (max kind first))

theorem rank_le_highest {kind : Kind} {kinds : List Kind} (inside : kind ∈ kinds) :
    kind.rank ≤ (highest kinds).rank := by
  unfold highest
  generalize logical = low
  induction kinds generalizing low with
  | nil => cases inside
  | cons first rest ih =>
    rcases List.mem_cons.1 inside with rfl | later
    · exact Nat.le_trans (rank_le_max_right low kind) (rank_le_foldl_max (max low kind) rest)
    · exact ih later (max low first)

theorem foldl_max_mem (kind : Kind) (kinds : List Kind) : kinds.foldl max kind ∈ kind :: kinds := by
  induction kinds generalizing kind with
  | nil => exact List.mem_singleton_self kind
  | cons first rest ih =>
    have either : max kind first = kind ∨ max kind first = first := by
      cases kind <;> cases first <;> decide
    rcases List.mem_cons.1 (ih (max kind first)) with top | later
    · rcases either with same | same
      · rw [List.foldl_cons, top, same]
        exact List.mem_cons_self
      · rw [List.foldl_cons, top, same]
        exact List.mem_cons_of_mem _ List.mem_cons_self
    · exact List.mem_cons_of_mem _ (List.mem_cons_of_mem _ later)

theorem highest_mem (kinds : List Kind) : highest kinds = logical ∨ highest kinds ∈ kinds :=
  List.mem_cons.1 (foldl_max_mem logical kinds)

end TypedVectors.Kind
