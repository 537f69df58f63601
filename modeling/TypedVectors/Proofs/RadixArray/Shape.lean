import Mathlib.Order.Bounds.Basic
import TypedVectors.Proofs.RadixArray.History

/-!
The shape of persistent arrays. All leaves stand at one depth and are full, every node is filled
from the left, and the tree is as low as its items allow. Whatever a program appends, replaces and
grows, the versions it makes have this shape and no other, so that no read or write comes to a
branch that is missing.
-/
namespace TypedVectors.RadixArray

variable {α : Type}

/-- A tree without room: every leaf holds `width` items, every node `width` trees. -/
inductive Complete : (depth : Nat) → Layers α depth → Prop
  | leaf {items : Array α} (full : items.size = width) : Complete 0 items
  | node {depth : Nat} {nodes : Array (Layers α depth)} (full : nodes.size = width)
    (below : ∀ node ∈ nodes, Complete depth node) : Complete (depth + 1) nodes

/-- A tree that is filled from the left: in each of its nodes only the last tree may have room. -/
inductive LeftFilled : (depth : Nat) → Layers α depth → Prop
  | leaf {items : Array α} (full : items.size = width) : LeftFilled 0 items
  | node {depth : Nat} {front : Array (Layers α depth)} {last : Layers α depth}
    (room : front.size < width) (before : ∀ node ∈ front, Complete depth node)
    (filled : LeftFilled depth last) : LeftFilled (depth + 1) (front.push last)

/-- A leaf of a tree and the places of the branches that lead to it. -/
inductive LeafAt : (depth : Nat) → Layers α depth → List Nat → Array α → Prop
  | here {items : Array α} : LeafAt 0 items [] items
  | turn {depth : Nat} {nodes : Array (Layers α depth)} {node : Layers α depth} {place : Nat}
    {path : List Nat} {leaf : Array α} (found : nodes[place]? = some node)
    (way : LeafAt depth node path leaf) : LeafAt (depth + 1) nodes (place :: path) leaf

/-- How far an index is shifted for its first branch in the tree, five bits for each level. -/
def shift (xs : RadixArray α) : Nat := 5 * (xs.depth + 1)

/-- The shape that an array of some items has, however it was made. -/
structure Shape (xs : RadixArray α) : Prop where
  /-- The array is the one that is built from its items at once. -/
  rebuilt : xs = ofList xs.toList
  tail : xs.tail.size = if xs.size = 0 then 0 else (xs.size - 1) % 32 + 1
  packed : xs.packed = xs.size - xs.tail.size
  whole : 32 ∣ xs.packed
  least : IsLeast {shift | 5 ∣ shift ∧ 5 ≤ shift ∧ xs.packed ≤ twoTo (shift + 5)} xs.shift
  leaves : ∀ path leaf, LeafAt (xs.depth + 1) xs.tree path leaf →
    leaf.size = 32 ∧ path.length = xs.shift / 5
  filled : if xs.packed = 0 then xs.root = #[] else LeftFilled (xs.depth + 1) xs.tree
  /-- The way of an index in the tree ends at a leaf. -/
  reached : ∀ index < xs.packed, ∃ leaf, xs.leaf? index = some leaf ∧ leaf.size = 32
  /-- An index in the tree can be written. -/
  replaced : ∀ index < xs.packed, ∀ x, ∃ tree, setIn? (xs.depth + 1) xs.tree index x = some tree

theorem Complete.leafAt {depth : Nat} {tree : Layers α depth} (complete : Complete depth tree)
    {path : List Nat} {leaf : Array α} (way : LeafAt depth tree path leaf) :
    leaf.size = width ∧ path.length = depth := by
  induction complete generalizing path with
  | leaf full =>
    cases way with
    | here => exact ⟨full, rfl⟩
  | node full below ih =>
    cases way with
    | turn found way =>
      obtain ⟨size, length⟩ := ih _ (Array.mem_of_getElem? found) way
      exact ⟨size, congrArg Nat.succ length⟩

theorem LeftFilled.leafAt {depth : Nat} {tree : Layers α depth} (filled : LeftFilled depth tree)
    {path : List Nat} {leaf : Array α} (way : LeafAt depth tree path leaf) :
    leaf.size = width ∧ path.length = depth := by
  induction filled generalizing path with
  | leaf full =>
    cases way with
    | here => exact ⟨full, rfl⟩
  | node room before filled ih =>
    cases way with
    | turn found way =>
      rcases Array.mem_push.1 (Array.mem_of_getElem? found) with member | rfl
      · obtain ⟨size, length⟩ := (before _ member).leafAt way
        exact ⟨size, congrArg Nat.succ length⟩
      · obtain ⟨size, length⟩ := ih way
        exact ⟨size, congrArg Nat.succ length⟩

theorem complete_branches {depth count : Nat}
    (below : ∀ items : Array α, items.size = capacity depth → Complete depth (filled depth items))
    {items : Array α} (sized : items.size = count * capacity depth) :
    ∀ node ∈ branches depth items, Complete depth node := by
  intro node member
  obtain ⟨piece, inside, rfl⟩ := Array.mem_map.1 member
  obtain ⟨place, bound, rfl⟩ := Array.mem_iff_getElem.1 inside
  rw [size_blocks_whole (capacity_pos depth) sized] at bound
  rw [getElem_blocks]
  exact below _ (size_block_whole sized bound)

theorem complete_filled (depth : Nat) (items : Array α) (full : items.size = capacity depth) :
    Complete depth (filled depth items) := by
  induction depth generalizing items with
  | zero => exact .leaf full
  | succ depth ih =>
    have sized := full.trans (capacity_succ depth)
    have wide : (branches depth items).size = width := by
      rw [branches, Array.size_map, size_blocks_whole (capacity_pos depth) sized]
    exact .node wide (complete_branches ih sized)

theorem leftFilled_filled {depth : Nat} {items : Array α} (nonempty : 0 < items.size)
    (whole : width ∣ items.size) (fits : items.size ≤ capacity depth) :
    LeftFilled depth (filled depth items) := by
  induction depth generalizing items with
  | zero => exact .leaf (Nat.le_antisymm fits (Nat.le_of_dvd nonempty whole))
  | succ depth ih =>
    obtain ⟨count, front, last, rfl, sized, remains, small⟩ :=
      exists_whole_last (capacity_pos depth) nonempty
    rw [Array.size_append] at whole fits
    have leaves : width ∣ front.size :=
      sized ▸ Nat.dvd_mul_left_of_dvd (width_dvd_capacity depth) count
    have few : count < width := by
      rw [capacity_succ, sized] at fits
      have less : count * capacity depth < width * capacity depth := by omega
      exact Nat.lt_of_mul_lt_mul_right less
    rw [filled_succ, branches_append sized remains small]
    refine .node ?_ (complete_branches (complete_filled depth) sized) ?_
    · rwa [branches, Array.size_map, size_blocks_whole (capacity_pos depth) sized]
    · exact ih remains ((Nat.dvd_add_right leaves).1 whole) small

namespace Layout

variable {xs : RadixArray α} {inTree : Array α} (layout : Layout xs inTree)
include layout

/-- The tree cannot be lower: one level less would not hold its items. -/
theorem isLeast_shift :
    IsLeast {shift | 5 ∣ shift ∧ 5 ≤ shift ∧ xs.packed ≤ twoTo (shift + 5)} xs.shift := by
  have room : ∀ depth, twoTo (5 * (depth + 1) + 5) = capacity (depth + 1) := by
    intro depth
    exact twoTo_five (depth + 1)
  refine ⟨⟨⟨xs.depth + 1, rfl⟩, by unfold shift; omega, ?_⟩, ?_⟩
  · rw [shift, room, layout.packed]
    exact layout.fits
  · rintro other ⟨⟨levels, rfl⟩, low, enough⟩
    obtain ⟨depth, rfl⟩ : ∃ depth, levels = depth + 1 := ⟨levels - 1, by omega⟩
    rw [room, layout.packed] at enough
    have reached : xs.depth ≤ depth := by
      by_contra lower
      have := capacity_le (show depth + 1 ≤ xs.depth by omega)
      have := layout.least
      omega
    unfold shift
    omega

theorem leftFilled (nonempty : 0 < inTree.size) : LeftFilled (xs.depth + 1) xs.tree := by
  have tree : xs.tree = filled (xs.depth + 1) inTree := layout.root
  rw [tree]
  exact leftFilled_filled nonempty layout.whole layout.fits

theorem root_empty (empty : inTree.size = 0) : xs.root = #[] := by
  have nothing : (branches xs.depth inTree).size = 0 := by
    have sized : inTree.size = 0 * capacity xs.depth := empty.trans (Nat.zero_mul _).symm
    rw [branches, Array.size_map, size_blocks_whole (capacity_pos _) sized]
  rw [layout.root, Array.eq_empty_of_size_eq_zero nothing]

theorem shape : xs.Shape := by
  obtain ⟨count, sized⟩ := layout.whole
  have sizes : xs.size = inTree.size + xs.tail.size := by
    rw [size, layout.packed]
  refine
    { rebuilt := ?_
      tail := ?_
      packed := ?_
      whole := layout.packed ▸ layout.whole
      least := layout.isLeast_shift
      leaves := fun path leaf way => ?_
      filled := ?_
      reached := fun index inside => ?_
      replaced := fun index inside x => ?_ }
  · have items : xs.toArray = inTree ++ xs.tail := layout.toArray_eq
    rw [ofList, toList, Array.toArray_toList, items]
    exact layout.eq_ofArray
  · rw [sizes]
    exact (tailSize_eq layout.whole layout.tail_le layout.tail_pos).symm
  · rw [sizes, layout.packed]
    omega
  · have levels : xs.shift / 5 = xs.depth + 1 := by
      unfold shift
      omega
    rw [levels]
    rcases Nat.eq_zero_or_pos inTree.size with empty | nonempty
    · have nothing : xs.tree = (#[] : Array (Layers α xs.depth)) := layout.root_empty empty
      rw [nothing] at way
      cases way with
      | turn found => cases found
    · exact (layout.leftFilled nonempty).leafAt way
  · rw [layout.packed]
    split
    · next empty => exact layout.root_empty empty
    · next nonempty => exact layout.leftFilled (Nat.pos_of_ne_zero nonempty)
  · rw [layout.packed] at inside
    refine ⟨_, layout.leaf?_eq inside, size_block_whole (sized.trans (Nat.mul_comm _ _)) ?_⟩
    exact Nat.div_lt_of_lt_mul (sized ▸ inside)
  · rw [layout.packed] at inside
    exact ⟨_, layout.setIn?_eq inside x⟩

end Layout

theorem shape_ofList (items : List α) : (ofList items).Shape := (layout_ofArray items.toArray).shape

theorem Outcome.onBase_refused {σ : Type} {base? : Option (Outcome σ)} {step : σ → Except Fault σ}
    {fault : Fault} (refused : onBase base? step = .refused fault) :
    ∃ xs, step xs = .error fault := by
  rcases base? with _ | ⟨xs⟩ | ⟨earlier⟩ | _
  · cases refused
  · change ofExcept (step xs) = .refused fault at refused
    cases result : step xs with
    | ok after =>
      rw [result] at refused
      cases refused
    | error stopped =>
      rw [result] at refused
      cases refused
      exact ⟨xs, result⟩
  · cases refused
  · cases refused

/-- On lists a step is refused for its index only. -/
theorem outcome_refused {before : List (Outcome (List α))} {edit : Edit α} {fault : Fault}
    (refused : Storage.lists.outcome before edit = .refused fault) :
    ∃ index size, fault = .outOfBounds index size := by
  cases edit with
  | empty => cases refused
  | ofList items => cases refused
  | push base x =>
    obtain ⟨items, stopped⟩ := Outcome.onBase_refused refused
    cases stopped
  | set base index x =>
    obtain ⟨items, stopped⟩ := Outcome.onBase_refused refused
    unfold Storage.lists at stopped
    dsimp only at stopped
    split at stopped
    · cases stopped
      exact ⟨index, items.length, rfl⟩
    · split at stopped <;> cases stopped
  | grow base size fill =>
    obtain ⟨items, stopped⟩ := Outcome.onBase_refused refused
    cases stopped

theorem history_refused {program : List (Edit α)} {fault : Fault}
    (refused : Outcome.refused fault ∈ Storage.lists.history program) :
    ∃ index size, fault = .outOfBounds index size := by
  induction program using List.reverseRecOn with
  | nil => cases refused
  | append_singleton program edit ih =>
    rw [Storage.history_concat, List.mem_append, List.mem_singleton] at refused
    rcases refused with earlier | last
    · exact ih earlier
    · exact outcome_refused last.symm

/-- Whatever a program does, its versions have the one shape of their items, and no write of it
comes to a branch that is missing. -/
theorem history_shape (program : List (Edit α)) :
    (∀ xs, Outcome.version xs ∈ Storage.arrays.history program → xs.Shape) ∧
      ∀ index, Outcome.refused (.missingBranch index) ∉ Storage.arrays.history program := by
  rw [history_arrays]
  constructor
  · intro xs made
    obtain ⟨outcome, -, same⟩ := List.mem_map.1 made
    cases outcome with
    | version items =>
      cases same
      exact shape_ofList items
    | refused fault => cases same
    | baseless => cases same
  · intro index missing
    obtain ⟨outcome, member, same⟩ := List.mem_map.1 missing
    cases outcome with
    | version items => cases same
    | refused fault =>
      cases same
      obtain ⟨_, _, other⟩ := history_refused member
      cases other
    | baseless => cases same

/-- The item after the second full leaf puts that leaf into the tree. -/
theorem history_shape_spilled :
    let spilled := (ofList (List.range 64)).push 64
    Outcome.version spilled ∈ Storage.arrays.history [.ofList (List.range 64), .push 0 64] ∧
      spilled.Shape := by
  have made : Outcome.version ((ofList (List.range 64)).push 64) ∈
      Storage.arrays.history [.ofList (List.range 64), .push 0 64] :=
    List.mem_cons_of_mem _ (List.mem_singleton.2 rfl)
  exact ⟨made, (history_shape _).1 _ made⟩

end TypedVectors.RadixArray
