import Mathlib.Algebra.Ring.Nat
import Mathlib.Data.List.Forall2

/-!
Lists: counts, searches in appended lists, and tables without repeated keys.
-/
namespace TypedVectors

variable {α : Type}

theorem countP_add {whole first second : α → Bool} {items : List α}
    (split : ∀ item ∈ items, (whole item).toNat = (first item).toNat + (second item).toNat) :
    items.countP whole = items.countP first + items.countP second := by
  induction items with
  | nil => rfl
  | cons item rest ih =>
    have here := split item List.mem_cons_self
    have later := ih fun other inside => split other (List.mem_cons_of_mem _ inside)
    have one (p : α → Bool) : (if p item then 1 else 0) = (p item).toNat := by
      cases p item with
      | false | true => rfl
    rw [List.countP_cons, List.countP_cons, List.countP_cons, one, one, one]
    omega

theorem countP_eq_sum (test : α → Bool) (items : List α) :
    items.countP test = (items.map fun item => if test item then 1 else 0).sum := by
  induction items with
  | nil => rfl
  | cons item rest ih => rw [List.countP_cons, List.map_cons, List.sum_cons, ih, Nat.add_comm]

theorem idxOf?_append [BEq α] (front back : List α) (item : α) :
    (front ++ back).idxOf? item =
      (front.idxOf? item).or ((back.idxOf? item).map (· + front.length)) :=
  List.findIdx?_append

theorem getElem?_ofList_eq_lookup {table : List (Nat × String)}
    (distinct : (table.map Prod.fst).Nodup) (key : Nat) :
    (Std.HashMap.ofList table)[key]? = table.lookup key := by
  cases found : table.lookup key with
  | none =>
    refine Std.HashMap.getElem?_ofList_of_contains_eq_false ?_
    by_contra absent
    rw [Bool.not_eq_false, List.contains_iff_mem] at absent
    obtain ⟨entry, inside, same⟩ := List.mem_map.1 absent
    have different := List.lookup_eq_none_iff.1 found entry inside
    simp [same] at different
  | some value =>
    obtain ⟨before, after, rfl, _⟩ := List.lookup_eq_some_iff.1 found
    refine Std.HashMap.getElem?_ofList_of_mem (beq_self_eq_true key) ?_ (by simp)
    exact (List.pairwise_map.1 distinct).imp fun different => beq_eq_false_iff_ne.2 different

end TypedVectors
