import TypedVectors.Proofs.RadixArray.Filled

/-!
The layout of a persistent array and what it holds. An array of some items has one layout only: the
tail keeps the last leaf, the tree is filled from the left and as low as its items allow. Reading
goes by the items alone.
-/
namespace TypedVectors.RadixArray

variable {α : Type}

/-- The tree holds whole leaves, is filled from the left and no deeper than it must be; the tail
holds what follows, which is nothing only when the tree is empty. -/
structure Layout (xs : RadixArray α) (inTree : Array α) : Prop where
  packed : xs.packed = inTree.size
  root : xs.root = branches xs.depth inTree
  whole : width ∣ inTree.size
  tail_le : xs.tail.size ≤ width
  tail_pos : 0 < inTree.size → 0 < xs.tail.size
  fits : inTree.size ≤ capacity (xs.depth + 1)
  least : xs.depth = 0 ∨ capacity xs.depth < inTree.size

/-- Whole leaves and a tail that is empty only beside no leaves share out as any array does. -/
theorem tailSize_eq {whole rest : Nat} (leaves : width ∣ whole) (short : rest ≤ width)
    (nonempty : 0 < whole → 0 < rest) : tailSize (whole + rest) = rest := by
  obtain ⟨count, rfl⟩ := leaves
  unfold tailSize
  split
  · omega
  · have : 0 < rest := by
      by_contra nothing
      have : 0 < width * count := by omega
      exact nothing (nonempty this)
    rw [Nat.add_sub_assoc this, Nat.mul_add_mod, Nat.mod_eq_of_lt (by omega)]
    omega

theorem tailSize_le (count : Nat) : tailSize count ≤ count ∧ tailSize count ≤ width := by
  unfold tailSize
  split
  · omega
  · have := Nat.mod_le (count - 1) width
    have := Nat.mod_lt (count - 1) (show 0 < width by decide)
    omega

theorem width_dvd_sub_tailSize (count : Nat) : width ∣ count - tailSize count := by
  unfold tailSize
  split
  · next zero =>
    subst zero
    exact Nat.dvd_zero _
  · have := Nat.div_add_mod (count - 1) width
    exact ⟨(count - 1) / width, by omega⟩

theorem Layout.unique {xs ys : RadixArray α} {left right : Array α} (here : Layout xs left)
    (there : Layout ys right) (same : left ++ xs.tail = right ++ ys.tail) : xs = ys := by
  have count : left.size + xs.tail.size = right.size + ys.tail.size := by
    simpa using congrArg Array.size same
  have tails : xs.tail.size = ys.tail.size := by
    rw [← tailSize_eq here.whole here.tail_le here.tail_pos, count,
      tailSize_eq there.whole there.tail_le there.tail_pos]
  obtain ⟨trees, rests⟩ := Array.append_inj same (by omega)
  subst trees
  -- A deeper tree has more items than fit in any lower one.
  have depths : xs.depth = ys.depth := by
    rcases Nat.lt_trichotomy xs.depth ys.depth with less | equal | more
    · have := capacity_le (show xs.depth + 1 ≤ ys.depth from less)
      have := here.fits
      have := there.least
      omega
    · exact equal
    · have := capacity_le (show ys.depth + 1 ≤ xs.depth from more)
      have := there.fits
      have := here.least
      omega
  obtain ⟨depth, root, packed, tail⟩ := xs
  obtain ⟨depth', root', packed', tail'⟩ := ys
  dsimp only at depths rests
  subst depths
  subst rests
  have roots : root = root' := here.root.trans there.root.symm
  have counts : packed = packed' := here.packed.trans there.packed.symm
  rw [roots, counts]

/-- Putting nodes under nodes ends at the least depth whose root can hold them. -/
theorem stack_branches (attempts depth : Nat) (items : Array α)
    (enough : (branches depth items).size ≤ attempts)
    (least : depth = 0 ∨ capacity depth < items.size) :
    ∃ top, stack attempts depth (branches depth items) = ⟨top, branches top items⟩ ∧
      items.size ≤ capacity (top + 1) ∧ (top = 0 ∨ capacity top < items.size) := by
  -- Each level has fewer nodes than the one below, so that the attempts suffice.
  induction attempts generalizing depth with
  | zero =>
    refine ⟨depth, rfl, ?_, least⟩
    rw [← size_branches_le]
    omega
  | succ attempts ih =>
    unfold stack
    split
    · next few => exact ⟨depth, rfl, size_branches_le.1 few, least⟩
    · next many =>
      have deeper : capacity (depth + 1) < items.size := by
        rw [size_branches_le] at many
        omega
      have fewer : (branches (depth + 1) items).size ≤ attempts := by
        have := size_pieces_lt (Nat.not_le.1 many)
        rw [← pieces_branches]
        exact Nat.le_of_lt_succ (Nat.lt_of_lt_of_le this enough)
      rw [pieces_branches]
      exact ih (depth + 1) fewer (.inr deeper)

def treeItems (items : Array α) : Array α := items.extract 0 (items.size - tailSize items.size)

def tailItems (items : Array α) : Array α :=
  items.extract (items.size - tailSize items.size) items.size

theorem size_treeItems (items : Array α) :
    (treeItems items).size = items.size - tailSize items.size := by
  rw [treeItems, Array.size_extract]
  omega

theorem size_tailItems (items : Array α) : (tailItems items).size = tailSize items.size := by
  have := tailSize_le items.size
  rw [tailItems, Array.size_extract]
  omega

theorem treeItems_append_tailItems (items : Array α) :
    treeItems items ++ tailItems items = items := by
  rw [treeItems, tailItems, Array.extract_append_extract]
  simp

theorem tail_ofArray (items : Array α) : (ofArray items).tail = tailItems items := rfl

theorem layout_ofArray (items : Array α) : Layout (ofArray items) (treeItems items) := by
  obtain ⟨top, stacked, fits, least⟩ :=
    stack_branches (branches 0 (treeItems items)).size 0 (treeItems items) (Nat.le_refl _)
      (.inl rfl)
  have leaves : pieces (treeItems items) = branches 0 (treeItems items) := by
    rw [pieces_eq_blocks, branches]
    exact (Array.map_id _).symm
  have built : ofArray items =
      ⟨top, branches top (treeItems items), (treeItems items).size, tailItems items⟩ := by
    rw [← leaves] at stacked
    rw [size_treeItems]
    exact congrArg (fun tree : (depth : Nat) × Array (Layers α depth) =>
      (⟨tree.1, tree.2, items.size - tailSize items.size, tailItems items⟩ : RadixArray α)) stacked
  have tails := tailSize_le items.size
  rw [built]
  exact
    { packed := rfl
      root := rfl
      whole := by
        rw [size_treeItems]
        exact width_dvd_sub_tailSize _
      tail_le := by
        rw [size_tailItems]
        exact tails.2
      tail_pos := by
        intro nonempty
        rw [size_treeItems] at nonempty
        rw [size_tailItems, tailSize]
        split <;> omega
      fits := fits
      least := least }

namespace Layout

variable {xs : RadixArray α} {inTree : Array α} (layout : Layout xs inTree)
include layout

theorem eq_ofArray : xs = ofArray (inTree ++ xs.tail) := by
  refine layout.unique (layout_ofArray _) ?_
  rw [tail_ofArray, treeItems_append_tailItems]

theorem size_eq : xs.size = (inTree ++ xs.tail).size := by
  rw [size, layout.packed, Array.size_append]

theorem leaf?_eq {index : Nat} (inside : index < inTree.size) :
    xs.leaf? index = some (block width inTree (index / width)) := by
  have within : index % capacity (xs.depth + 1) = index :=
    Nat.mod_eq_of_lt (Nat.lt_of_lt_of_le inside layout.fits)
  have found := leafOf?_filled (xs.depth + 1) layout.fits (within.symm ▸ inside)
  rw [within, filled_succ, ← layout.root] at found
  exact found

theorem get?_eq (index : Nat) : xs.get? index = (inTree ++ xs.tail)[index]? := by
  have sizes := layout.size_eq
  unfold get?
  rw [layout.packed]
  split
  · next past =>
    symm
    rw [Array.getElem?_eq_none_iff]
    omega
  · next inside =>
    split
    · next late => rw [Array.getElem?_append_right late]
    · next early =>
      have below : index < inTree.size := Nat.not_le.1 early
      rw [layout.leaf?_eq below, Option.bind_some, getElem?_block,
        if_pos (Nat.mod_lt index (by decide)), Nat.div_add_mod', Array.getElem?_append_left below]

theorem leaves_eq : xs.leaves = blocks width inTree := by
  obtain ⟨count, sized⟩ := layout.whole
  rw [Nat.mul_comm] at sized
  have few : xs.packed / width = count := by
    rw [layout.packed, sized, Nat.mul_div_cancel _ (by decide)]
  have sizes := size_blocks_whole (by decide) sized
  apply Array.ext
  · simp [leaves, few, sizes]
  · intro place left right
    have inside : place * width < inTree.size := by
      rw [sized]
      exact Nat.mul_lt_mul_of_pos_right (sizes ▸ right) (by decide)
    simp only [leaves, Array.getElem_map, Array.getElem_range, layout.leaf?_eq inside,
      Option.getD_some, getElem_blocks, Nat.mul_div_cancel _ (show 0 < width by decide)]

theorem toArray_eq : xs.toArray = inTree ++ xs.tail := by
  obtain ⟨count, sized⟩ := layout.whole
  rw [toArray, layout.leaves_eq, flatten_blocks (by decide) (sized.trans (Nat.mul_comm _ _))]

end Layout

@[simp]
theorem toArray_ofArray (items : Array α) : (ofArray items).toArray = items := by
  rw [(layout_ofArray items).toArray_eq, tail_ofArray, treeItems_append_tailItems]

@[simp]
theorem size_ofArray (items : Array α) : (ofArray items).size = items.size := by
  rw [(layout_ofArray items).size_eq, tail_ofArray, treeItems_append_tailItems]

@[simp]
theorem get?_ofArray (items : Array α) (index : Nat) :
    (ofArray items).get? index = items[index]? := by
  rw [(layout_ofArray items).get?_eq, tail_ofArray, treeItems_append_tailItems]

@[simp]
theorem toList_ofList (items : List α) : (ofList items).toList = items := by
  rw [ofList, toList, toArray_ofArray]

@[simp]
theorem size_ofList (items : List α) : (ofList items).size = items.length := by
  rw [ofList, size_ofArray, List.size_toArray]

@[simp]
theorem get?_ofList (items : List α) (index : Nat) : (ofList items).get? index = items[index]? := by
  rw [ofList, get?_ofArray, List.getElem?_toArray]

/-- Whether an array is laid out as when it is made of its items. -/
def Canonical (xs : RadixArray α) : Prop := xs = ofList xs.toList

theorem canonical_ofList (items : List α) : (ofList items).Canonical := by
  rw [Canonical, toList_ofList]

namespace Canonical

variable {xs : RadixArray α} (canonical : xs.Canonical)
include canonical

theorem size_eq : xs.size = xs.toList.length := by
  rw [← size_ofList, ← canonical]

theorem get?_eq (index : Nat) : xs.get? index = xs.toList[index]? := by
  rw [← get?_ofList, ← canonical]

theorem ext {ys : RadixArray α} (other : ys.Canonical) (sizes : ys.size = xs.size)
    (items : ∀ index < xs.size, ys.get? index = xs.get? index) : ys = xs := by
  have lists : ys.toList = xs.toList := by
    refine List.ext_getElem? fun index => ?_
    rw [← canonical.get?_eq, ← other.get?_eq]
    by_cases inside : index < xs.size
    · exact items index inside
    · have past : xs.toList.length ≤ index := by
        rw [← canonical.size_eq]
        exact Nat.not_lt.1 inside
      have pastOther : ys.toList.length ≤ index := by
        rw [← other.size_eq, sizes]
        exact Nat.not_lt.1 inside
      rw [canonical.get?_eq, other.get?_eq, List.getElem?_eq_none past,
        List.getElem?_eq_none pastOther]
  exact other.trans ((congrArg ofList lists).trans canonical.symm)

end Canonical

end TypedVectors.RadixArray
