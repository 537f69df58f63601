import TypedVectors.Proofs.RadixArray.Canonical

/-!
Writes to persistent arrays. Appending, replacing and growing an array of some items gives the array
of the items after the same change, whichever way the write takes through tail and tree.
-/
namespace TypedVectors.RadixArray

variable {α : Type}

theorem Layout.spill {xs : RadixArray α} {inTree : Array α} (layout : Layout xs inTree)
    (full : xs.tail.size = width) (x : α) {depth : Nat} {root : Array (Layers α depth)}
    (built : root = branches depth (inTree ++ xs.tail))
    (fits : inTree.size + width ≤ capacity (depth + 1))
    (least : depth = 0 ∨ capacity depth < inTree.size + width) :
    Layout ⟨depth, root, xs.packed + width, #[x]⟩ (inTree ++ xs.tail) := by
  have longer : (inTree ++ xs.tail).size = inTree.size + width := by
    rw [Array.size_append, full]
  refine ⟨?_, built, ?_, Nat.succ_le_succ (Nat.zero_le 31), fun _ => Nat.one_pos, ?_, ?_⟩
  · rw [longer, layout.packed]
  · rw [longer]
    exact Nat.dvd_add layout.whole (Nat.dvd_refl width)
  · rwa [longer]
  · rwa [longer]

/-- Appending keeps the layout: a full tail goes into the tree as its last leaf, under a new root
when the old one has no room. -/
theorem Layout.push {xs : RadixArray α} {inTree : Array α} (layout : Layout xs inTree) (x : α) :
    ∃ next, Layout (xs.push x) next ∧ next ++ (xs.push x).tail = (inTree ++ xs.tail).push x := by
  unfold RadixArray.push
  split
  · next room =>
    refine ⟨inTree, { layout with tail_le := ?_, tail_pos := ?_ }, ?_⟩
    · rw [Array.size_push]
      exact room
    · intro _
      simp
    · dsimp only
      exact Array.append_push
  · next noRoom =>
    have full : xs.tail.size = width := Nat.le_antisymm layout.tail_le (Nat.not_lt.1 noRoom)
    have single : inTree ++ xs.tail ++ #[x] = (inTree ++ xs.tail).push x := by simp
    split
    -- The old tree is full and becomes the first branch of a new root.
    · next crowded =>
      rw [twoTo_five, Nat.le_div_iff_mul_le (by decide), Nat.mul_comm, ← capacity_succ,
        layout.packed] at crowded
      have filled := Nat.le_antisymm layout.fits crowded
      have leaf := Nat.le_of_dvd (capacity_pos (xs.depth + 1)) (width_dvd_capacity _)
      have positive := capacity_pos (xs.depth + 1)
      refine ⟨_, layout.spill full x ?_ ?_ (.inr ?_), single⟩
      · rw [branches_append (filled.trans (Nat.one_mul _).symm) (by rw [full]; decide)
          (full ▸ leaf), branches_single (by omega) layout.fits, chain_eq_filled _ full,
          layout.root]
        rfl
      · rw [capacity_succ (xs.depth + 1), width]
        unfold width at leaf
        omega
      · unfold width
        omega
    -- The tail goes into the tree at the first place that is free.
    · next spare =>
      rw [twoTo_five, Nat.le_div_iff_mul_le (by decide), Nat.mul_comm, ← capacity_succ,
        layout.packed, Nat.not_le] at spare
      have last : xs.packed % capacity (xs.depth + 1) = inTree.size := by
        rw [layout.packed, Nat.mod_eq_of_lt spare]
      refine ⟨_, layout.spill full x ?_ ?_ ?_, single⟩
      · rw [layout.root]
        exact placeLeaf_branches xs.depth full layout.whole spare last
      · exact add_width_le layout.whole (width_dvd_capacity _) spare
      · exact layout.least.imp id fun deep => Nat.lt_add_right width deep

theorem Layout.setIn?_eq {xs : RadixArray α} {inTree : Array α} (layout : Layout xs inTree)
    {index : Nat} (inside : index < inTree.size) (x : α) :
    setIn? (xs.depth + 1) xs.tree index x =
      some (filled (xs.depth + 1) (inTree.setIfInBounds index x)) := by
  have within : index % capacity (xs.depth + 1) = index :=
    Nat.mod_eq_of_lt (Nat.lt_of_lt_of_le inside layout.fits)
  have replaced := setIn?_filled (xs.depth + 1) x (within.symm ▸ inside)
  have tree : xs.tree = filled (xs.depth + 1) inTree := layout.root
  rwa [within, ← tree] at replaced

theorem Layout.set {xs : RadixArray α} {inTree : Array α} (layout : Layout xs inTree)
    {index : Nat} (x : α) (inside : index < (inTree ++ xs.tail).size) :
    ∃ ys next, xs.set index x = .ok ys ∧ Layout ys next ∧
      next ++ ys.tail = (inTree ++ xs.tail).setIfInBounds index x := by
  have sizes := layout.size_eq
  unfold RadixArray.set
  rw [if_neg (by omega), if_neg (by omega), Int.toNat_natCast, layout.packed]
  dsimp only
  split
  · next late =>
    refine ⟨_, inTree, rfl, { layout with packed := rfl, tail_le := ?_, tail_pos := ?_ }, ?_⟩
    · simpa using layout.tail_le
    · simpa using layout.tail_pos
    · dsimp only
      rw [← Array.toList_inj]
      simp [List.set_append_right _ _ (show inTree.toList.length ≤ index by simpa using late)]
  · next early =>
    have below : index < inTree.size := Nat.not_le.1 early
    have found : setIn? (xs.depth + 1) xs.tree index x =
        some (branches xs.depth (inTree.setIfInBounds index x)) := layout.setIn?_eq below x
    rw [found]
    refine ⟨_, inTree.setIfInBounds index x, rfl, ?_, ?_⟩
    · exact
        { packed := by simp
          root := rfl
          whole := by simpa using layout.whole
          tail_le := layout.tail_le
          tail_pos := by simpa using layout.tail_pos
          fits := by simpa using layout.fits
          least := by simpa using layout.least }
    · dsimp only
      rw [← Array.toList_inj]
      simp [List.set_append_left _ _ (show index < inTree.toList.length by simpa using below)]

theorem push_ofList (items : List α) (x : α) : (ofList items).push x = ofList (items ++ [x]) := by
  obtain ⟨next, layout, same⟩ := (layout_ofArray items.toArray).push x
  rw [tail_ofArray, treeItems_append_tailItems] at same
  rw [ofList, layout.eq_ofArray, same, ofList, List.push_toArray]

theorem set_ofList {items : List α} {index : Nat} (x : α) (inside : index < items.length) :
    (ofList items).set index x = .ok (ofList (items.set index x)) := by
  have layout := layout_ofArray items.toArray
  have bound : index < (treeItems items.toArray ++ (ofArray items.toArray).tail).size := by
    rw [tail_ofArray, treeItems_append_tailItems]
    exact inside
  obtain ⟨ys, next, done, after, same⟩ := layout.set x bound
  rw [tail_ofArray, treeItems_append_tailItems] at same
  rw [ofList, done, after.eq_ofArray, same, ofList, List.setIfInBounds_toArray]

theorem foldl_push_ofList (items added : List α) :
    added.foldl push (ofList items) = ofList (items ++ added) := by
  induction added generalizing items with
  | nil => rw [List.foldl_nil, List.append_nil]
  | cons x added ih =>
    rw [List.foldl_cons, push_ofList, ih, List.append_assoc, List.singleton_append]

/-- Growing appends the filled items, whether one by one or by building the tree anew. -/
theorem grow_ofList (items : List α) (size : Nat) (fill : Nat → α) :
    (ofList items).grow size fill =
      ofList
        (items ++ (List.range (size - items.length)).map fun k => fill (items.length + k)) := by
  unfold grow
  rw [size_ofList]
  dsimp only
  split
  · rw [foldl_push_ofList]
  · rw [ofList, toArray_ofArray, List.append_toArray]
    rfl

end TypedVectors.RadixArray
