import TypedVectors.Proofs.RadixArray.Blocks
import TypedVectors.RadixArray.Update

/-!
Trees filled from the left. `filled` builds the tree of a depth from its items, and each operation
on trees is an equation between such trees: a leaf is put at the end, an item is replaced, the leaf
of an item is found.
-/
namespace TypedVectors.RadixArray

variable {α : Type}

def capacity (depth : Nat) : Nat := Nat.pow width (depth + 1)

theorem capacity_pos (depth : Nat) : 0 < capacity depth := Nat.pow_pos (by decide)

theorem capacity_succ (depth : Nat) : capacity (depth + 1) = width * capacity depth :=
  Nat.pow_succ'

theorem capacity_dvd_succ (depth : Nat) : capacity depth ∣ capacity (depth + 1) :=
  ⟨width, by rw [capacity_succ, Nat.mul_comm]⟩

theorem capacity_le {low high : Nat} (below : low ≤ high) : capacity low ≤ capacity high :=
  Nat.pow_le_pow_right (by decide) (Nat.succ_le_succ below)

theorem width_dvd_capacity (depth : Nat) : width ∣ capacity depth :=
  ⟨width ^ depth, Nat.pow_succ'⟩

theorem add_width_le {few most : Nat} (leaves : width ∣ few) (all : width ∣ most)
    (below : few < most) : few + width ≤ most := by
  obtain ⟨used, rfl⟩ := leaves
  obtain ⟨total, rfl⟩ := all
  rw [← Nat.mul_succ]
  exact Nat.mul_le_mul_left width (Nat.lt_of_mul_lt_mul_left below)

theorem twoTo_five (depth : Nat) : twoTo (5 * (depth + 1)) = capacity depth := Nat.pow_mul 2 5 _

/-- A branch is the digit in base 32 that stands for whole trees of the depth below. -/
theorem branch_succ (depth index : Nat) :
    branch (depth + 1) index = index % capacity (depth + 1) / capacity depth := by
  unfold branch
  rw [twoTo_five, capacity_succ, Nat.mul_comm, Nat.mod_mul_right_div_self]

/-- The first digit of an index leads to the tree below, the other digits lead on from there. -/
theorem branch_digits (depth index : Nat) :
    branch (depth + 1) index * capacity depth + index % capacity depth =
      index % capacity (depth + 1) := by
  rw [branch_succ, ← Nat.mod_mod_of_dvd index (capacity_dvd_succ depth), Nat.div_add_mod']

/-- The tree of a depth that holds some items, filled from the left. -/
def filled : (depth : Nat) → Array α → Layers α depth
  | 0, items => items
  | depth + 1, items =>
    ((blocks (capacity depth) items).map (filled depth) : Array (Layers α depth))

def branches (depth : Nat) (items : Array α) : Array (Layers α depth) :=
  (blocks (capacity depth) items).map (filled depth)

theorem filled_succ (depth : Nat) (items : Array α) :
    filled (depth + 1) items = branches depth items := rfl

theorem size_branches_le {depth : Nat} {items : Array α} :
    (branches depth items).size ≤ width ↔ items.size ≤ capacity (depth + 1) := by
  have bound := lt_size_blocks (capacity_pos depth) items width
  rw [← capacity_succ] at bound
  simp only [branches, Array.size_map]
  omega

theorem getElem?_branches {depth place : Nat} {items : Array α}
    (inside : place * capacity depth < items.size) :
    (branches depth items)[place]? = some (filled depth (block (capacity depth) items place)) := by
  have bound := (lt_size_blocks (capacity_pos depth) items place).2 inside
  simp only [branches, Array.getElem?_map, Array.getElem?_eq_getElem bound, getElem_blocks,
    Option.map_some]

theorem pieces_branches (depth : Nat) (items : Array α) :
    pieces (branches depth items) = branches (depth + 1) items := by
  rw [pieces_eq_blocks, branches, blocks_map, blocks_blocks (capacity_pos depth) (by decide),
    ← capacity_succ, Array.map_map]
  rfl

theorem branches_append {depth count : Nat} {items rest : Array α}
    (sized : items.size = count * capacity depth) (nonempty : 0 < rest.size)
    (fits : rest.size ≤ capacity depth) :
    branches depth (items ++ rest) = (branches depth items).push (filled depth rest) := by
  simp only [branches, blocks_append sized nonempty fits, Array.map_push]

theorem branches_single {depth : Nat} {items : Array α} (nonempty : 0 < items.size)
    (fits : items.size ≤ capacity depth) : branches depth items = #[filled depth items] := by
  rw [branches, blocks_single nonempty fits, List.map_toArray]
  rfl

theorem chain_eq_filled (depth : Nat) {leaf : Array α} (full : leaf.size = width) :
    chain depth leaf = filled depth leaf := by
  induction depth with
  | zero => rfl
  | succ depth ih =>
    have fits : leaf.size ≤ capacity depth := by
      rw [full]
      exact Nat.le_of_dvd (capacity_pos depth) (width_dvd_capacity depth)
    rw [filled_succ, branches_single (by rw [full]; decide) fits]
    rw [← ih]
    rfl

theorem place_size (xs : Array α) (x : α) : place xs xs.size x = xs.push x := by
  simp [place]

theorem place_push_size (xs : Array α) (y x : α) : place (xs.push y) xs.size x = xs.push x := by
  unfold place
  rw [if_pos (by simp), ← Array.toList_inj]
  simp [List.set_append_right]

theorem placeLeaf_branches (depth : Nat) {items leaf : Array α} {index : Nat}
    (full : leaf.size = width) (whole : width ∣ items.size)
    (room : items.size < capacity (depth + 1))
    (last : index % capacity (depth + 1) = items.size) :
    placeLeaf depth (branches depth items) leaf index = branches depth (items ++ leaf) := by
  induction depth generalizing items with
  | zero =>
    have sized : items.size = items.size / width * capacity 0 := (Nat.div_mul_cancel whole).symm
    have here : branch 1 index = (branches 0 items).size := by
      rw [branch_succ, last, branches, Array.size_map, size_blocks_whole (capacity_pos 0) sized]
      rfl
    rw [branches_append sized (by rw [full]; decide) (Nat.le_of_eq full), placeLeaf, here]
    exact place_size (branches 0 items) (filled 0 leaf)
  | succ depth ih =>
    -- All branches but the last are full, and the leaf goes below the last.
    obtain ⟨front, rest, rfl, sized, left⟩ :=
      exists_whole_rest (capacity (depth + 1)) items
    have here : branch (depth + 2) index = (branches (depth + 1) front).size := by
      rw [branch_succ, last, branches, Array.size_map,
        size_blocks_whole (capacity_pos (depth + 1)) sized]
    have short : rest.size < capacity (depth + 1) := by
      rw [left]
      exact Nat.mod_lt _ (capacity_pos _)
    have divides : width ∣ rest.size := by
      rw [left]
      exact (Nat.dvd_mod_iff (width_dvd_capacity _)).2 whole
    have fits := add_width_le divides (width_dvd_capacity (depth + 1)) short
    have behind : index % capacity (depth + 1) = rest.size := by
      rw [left, ← last, Nat.mod_mod_of_dvd _ (capacity_dvd_succ _)]
    have grown : branches (depth + 1) (front ++ (rest ++ leaf)) =
        (branches (depth + 1) front).push (filled (depth + 1) (rest ++ leaf)) := by
      apply branches_append sized
      · rw [Array.size_append, full]
        exact Nat.lt_add_left _ (by decide)
      · rwa [Array.size_append, full]
    rw [Array.append_assoc, grown]
    rcases Nat.eq_zero_or_pos rest.size with empty | nonempty
    · have nothing := Array.eq_empty_of_size_eq_zero empty
      subst nothing
      have missing : (branches (depth + 1) front)[(branches (depth + 1) front).size]? = none :=
        Array.getElem?_eq_none (Nat.le_refl _)
      rw [Array.append_empty, Array.empty_append, placeLeaf, here, missing]
      dsimp only
      rw [place_size, chain_eq_filled _ full]
    · have present := branches_append sized nonempty (Nat.le_of_lt short)
      have longer : placeLeaf depth (filled (depth + 1) rest) leaf index =
          filled (depth + 1) (rest ++ leaf) := ih divides short behind
      rw [present, placeLeaf, here, Array.getElem?_push_size]
      dsimp only
      rw [longer, place_push_size]

/-- An index inside a tree is inside the tree that its first digit leads to. -/
theorem inside_block {depth index : Nat} {items : Array α}
    (inside : index % capacity (depth + 1) < items.size) :
    branch (depth + 1) index * capacity depth < items.size ∧
      index % capacity depth <
        (block (capacity depth) items (branch (depth + 1) index)).size := by
  have digits := branch_digits depth index
  have below := Nat.mod_lt index (capacity_pos depth)
  rw [size_block]
  omega

theorem setIn?_filled (depth : Nat) {items : Array α} {index : Nat} (x : α)
    (inside : index % capacity depth < items.size) :
    setIn? depth (filled depth items) index x =
      some (filled depth (items.setIfInBounds (index % capacity depth) x)) := by
  induction depth generalizing items with
  | zero => rfl
  | succ depth ih =>
    obtain ⟨reached, within⟩ := inside_block inside
    have below := Nat.mod_lt index (capacity_pos depth)
    rw [setIn?, filled_succ, getElem?_branches reached, Option.bind_some, ih within]
    refine congrArg some ?_
    change (branches depth items).setIfInBounds (branch (depth + 1) index) (filled depth _) =
      branches depth _
    rw [← branch_digits, branches, branches, blocks_setIfInBounds _ _ below,
      Array.map_setIfInBounds]

theorem leafOf?_filled (depth : Nat) {items : Array α} {index : Nat}
    (fits : items.size ≤ capacity depth) (inside : index % capacity depth < items.size) :
    leafOf? depth (filled depth items) index =
      some (block width items (index % capacity depth / width)) := by
  induction depth generalizing items with
  | zero =>
    have first : index % capacity 0 / width = 0 :=
      Nat.div_eq_of_lt (Nat.lt_of_lt_of_le inside fits)
    have whole : block width items 0 = items := by
      rw [block, Nat.zero_mul, Nat.zero_add]
      exact Array.extract_eq_self_of_le fits
    rw [leafOf?, first, whole]
    rfl
  | succ depth ih =>
    obtain ⟨reached, within⟩ := inside_block inside
    have below := Nat.mod_lt index (capacity_pos depth)
    have small : (block (capacity depth) items (branch (depth + 1) index)).size ≤
        capacity depth := by
      rw [size_block]
      exact Nat.min_le_left _ _
    have leaves : capacity depth = width ^ depth * width := rfl
    have inner : index % capacity depth / width < width ^ depth :=
      Nat.div_lt_of_lt_mul (by rw [Nat.mul_comm, ← leaves]; exact below)
    have place : index % capacity (depth + 1) / width =
        branch (depth + 1) index * width ^ depth + index % capacity depth / width := by
      rw [← branch_digits, leaves, ← Nat.mul_assoc, Nat.mul_comm _ width,
        Nat.mul_add_div (by decide)]
    rw [leafOf?, filled_succ, getElem?_branches reached, Option.bind_some, ih small within, place,
      ← block_block items inner]
    rfl

end TypedVectors.RadixArray
