import TypedVectors.Proofs.RadixArray.Canonical
import TypedVectors.RadixArray.Reader

/-!
Readers of persistent arrays. The leaf a reader keeps is a leaf of the array it reads, so that what
it reads does not depend on what it read before.
-/
namespace TypedVectors.RadixArray

variable {α : Type}

/-- A reader keeps nothing but a leaf of the array that it reads. -/
def Reader.Faithful (reader : Reader α) (xs : RadixArray α) : Prop :=
  ∀ start leaf, reader.last? = some (start, leaf) → xs.leaf? start = some leaf

theorem Reader.fresh_faithful (xs : RadixArray α) : (fresh : Reader α).Faithful xs := by
  intro start leaf kept
  cases kept

theorem Reader.leaf?_eq {reader : Reader α} {xs : RadixArray α} (faithful : reader.Faithful xs)
    (start : Nat) : reader.leaf? xs start = xs.leaf? start := by
  unfold Reader.leaf?
  split
  · next kept leaf last =>
    split
    · next same =>
      subst same
      exact (faithful _ _ last).symm
    · rfl
  · rfl

theorem Layout.leaf?_start {xs : RadixArray α} {inTree : Array α} (layout : Layout xs inTree)
    {index : Nat} (inside : index < inTree.size) :
    xs.leaf? (index - index % width) = xs.leaf? index := by
  have start : index - index % width = index / width * width := by
    have := Nat.div_add_mod' index width
    omega
  have below : index / width * width < inTree.size :=
    Nat.lt_of_le_of_lt (Nat.div_mul_le_self index width) inside
  rw [start, layout.leaf?_eq below, layout.leaf?_eq inside,
    Nat.mul_div_cancel _ (show 0 < width by decide)]

/-- A read gives the item at its index, and the reader after it is as faithful as before. -/
theorem Reader.read_eq {reader : Reader α} {xs : RadixArray α} {inTree : Array α}
    (layout : Layout xs inTree) (faithful : reader.Faithful xs) (index : Int) :
    (reader.read xs index).1 = (if index < 0 then none else xs.get? index.toNat) ∧
      (reader.read xs index).2.Faithful xs := by
  unfold Reader.read RadixArray.get?
  by_cases negative : index < 0
  · rw [if_pos (.inl negative), if_pos negative]
    exact ⟨rfl, faithful⟩
  · by_cases past : (xs.size : Int) ≤ index
    · have beyond : xs.size ≤ index.toNat := by omega
      rw [if_pos (.inr past), if_neg negative, if_pos beyond]
      exact ⟨rfl, faithful⟩
    · have within : ¬(index < 0 ∨ (xs.size : Int) ≤ index) := by omega
      have before : ¬xs.size ≤ index.toNat := by omega
      rw [if_neg within, if_neg negative, if_neg before]
      by_cases late : xs.packed ≤ index.toNat
      · simp only [if_pos late, true_and]
        exact faithful
      -- The leaf that is kept from now on is the one of this index.
      · have inside : index.toNat < inTree.size := by
          rw [← layout.packed]
          exact Nat.not_le.1 late
        simp only [if_neg late, leaf?_eq faithful, layout.leaf?_start inside,
          layout.leaf?_eq inside, Option.bind_some, true_and]
        intro start leaf kept
        cases kept
        rw [layout.leaf?_start inside, layout.leaf?_eq inside]

theorem Reader.readAll_eq {reader : Reader α} {xs : RadixArray α} {inTree : Array α}
    (layout : Layout xs inTree) (faithful : reader.Faithful xs) (indices : List Int) :
    reader.readAll xs indices =
      indices.map fun index => if index < 0 then none else xs.get? index.toNat := by
  induction indices generalizing reader with
  | nil => rfl
  | cons index indices ih =>
    obtain ⟨item, after⟩ := read_eq layout faithful index
    simp only [Reader.readAll, List.map_cons, item, ih after]

theorem readAll_ofList (items : List α) (indices : List Int) :
    (ofList items).readAll indices =
      indices.map fun index => if index < 0 then none else items[index.toNat]? := by
  have read := Reader.readAll_eq (layout_ofArray items.toArray) (Reader.fresh_faithful _) indices
  simpa only [readAll, ofList, get?_ofArray, List.getElem?_toArray] using read

end TypedVectors.RadixArray
