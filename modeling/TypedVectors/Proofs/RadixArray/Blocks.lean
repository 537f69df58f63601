import Mathlib.Order.Lattice
import TypedVectors.RadixArray.Basic

/-!
Arrays cut into pieces of one size. The last piece may be shorter; items that follow whole pieces
make a piece of their own.
-/
namespace TypedVectors.RadixArray

variable {β : Type}

/-- The items in one of the pieces of a size that an array falls into. -/
def block (size : Nat) (items : Array β) (place : Nat) : Array β :=
  items.extract (place * size) (place * size + size)

/-- The pieces of a size that an array falls into; the last one may be shorter. -/
def blocks (size : Nat) (items : Array β) : Array (Array β) :=
  (Array.range ((items.size + size - 1) / size)).map (block size items)

theorem pieces_eq_blocks (items : Array β) : pieces items = blocks width items := rfl

theorem lt_size_blocks {size : Nat} (positive : 0 < size) (items : Array β) (place : Nat) :
    place < (blocks size items).size ↔ place * size < items.size := by
  simp only [blocks, Array.size_map, Array.size_range]
  rw [Nat.lt_iff_add_one_le, Nat.le_div_iff_mul_le positive, Nat.add_mul]
  omega

theorem getElem_blocks (size : Nat) (items : Array β) (place : Nat)
    (inside : place < (blocks size items).size) :
    (blocks size items)[place] = block size items place := by
  simp [blocks]

theorem getElem?_block (size : Nat) (items : Array β) (place index : Nat) :
    (block size items place)[index]? =
      if index < size then items[place * size + index]? else none := by
  simp only [block, Array.getElem?_extract]
  split <;> split
  · rfl
  · next inside outside => omega
  · next outside inside =>
    symm
    rw [Array.getElem?_eq_none_iff]
    omega
  · rfl

theorem size_block (size : Nat) (items : Array β) (place : Nat) :
    (block size items place).size = min size (items.size - place * size) := by
  simp only [block, Array.size_extract]
  omega

/-- In a row of full pieces each piece has its size. -/
theorem size_block_whole {size count place : Nat} {items : Array β}
    (sized : items.size = count * size) (inside : place < count) :
    (block size items place).size = size := by
  have bound := Nat.mul_le_mul_right size (Nat.succ_le_of_lt inside)
  rw [Nat.succ_mul] at bound
  rw [size_block]
  omega

theorem size_blocks_rest {size count rest : Nat} (items : Array β)
    (sized : items.size = count * size + rest) (nonempty : 0 < rest) (fits : rest ≤ size) :
    (blocks size items).size = count + 1 := by
  apply eq_of_forall_lt_iff
  intro place
  rw [lt_size_blocks (by omega), sized]
  constructor
  · intro below
    have : place * size < (count + 1) * size := by
      rw [Nat.add_mul]
      omega
    exact Nat.lt_of_mul_lt_mul_right this
  · intro below
    have := Nat.mul_le_mul_right size (Nat.le_of_lt_succ below)
    omega

theorem size_blocks_whole {size count : Nat} {items : Array β} (positive : 0 < size)
    (sized : items.size = count * size) : (blocks size items).size = count := by
  apply eq_of_forall_lt_iff
  intro place
  rw [lt_size_blocks positive, sized, Nat.mul_lt_mul_right positive]

/-- Whole pieces stay what they are when further items follow. -/
theorem block_append_left {size count place : Nat} {items : Array β} (rest : Array β)
    (sized : items.size = count * size) (before : place < count) :
    block size (items ++ rest) place = block size items place := by
  apply Array.ext_getElem?
  intro index
  rw [getElem?_block, getElem?_block]
  split
  · next inside =>
    have := Nat.mul_le_mul_right size before
    rw [Nat.succ_mul] at this
    exact Array.getElem?_append_left (by omega)
  · rfl

theorem block_append_right {size count : Nat} {items rest : Array β}
    (sized : items.size = count * size) (fits : rest.size ≤ size) :
    block size (items ++ rest) count = rest := by
  apply Array.ext_getElem?
  intro index
  rw [getElem?_block]
  split
  · rw [Array.getElem?_append_right (by omega), sized, Nat.add_sub_cancel_left]
  · symm
    rw [Array.getElem?_eq_none_iff]
    omega

theorem blocks_append {size count : Nat} {items rest : Array β}
    (sized : items.size = count * size) (nonempty : 0 < rest.size) (fits : rest.size ≤ size) :
    blocks size (items ++ rest) = (blocks size items).push rest := by
  have before := size_blocks_whole (by omega) sized
  have after := size_blocks_rest (items ++ rest) (by rw [Array.size_append, sized]) nonempty fits
  apply Array.ext
  · rw [after, Array.size_push, before]
  · intro place left right
    rw [getElem_blocks]
    rcases Nat.lt_or_eq_of_le (Nat.le_of_lt_succ (after ▸ left)) with inside | last
    · rw [Array.getElem_push_lt (before.symm ▸ inside), getElem_blocks]
      exact block_append_left rest sized inside
    · subst last
      simp only [Array.getElem_push, before, Nat.lt_irrefl, dite_false]
      exact block_append_right sized fits

theorem blocks_single {size : Nat} {items : Array β} (nonempty : 0 < items.size)
    (fits : items.size ≤ size) : blocks size items = #[items] := by
  have sized : (#[] : Array β).size = 0 * size := (Nat.zero_mul size).symm
  have nothing : blocks size (#[] : Array β) = #[] :=
    Array.eq_empty_of_size_eq_zero (size_blocks_whole (by omega) sized)
  have grown := blocks_append sized nonempty fits
  rwa [Array.empty_append, nothing] at grown

theorem exists_whole_rest (size : Nat) (items : Array β) :
    ∃ front rest, items = front ++ rest ∧ front.size = items.size / size * size ∧
      rest.size = items.size % size := by
  have split := Nat.div_add_mod' items.size size
  refine ⟨items.extract 0 (items.size / size * size),
    items.extract (items.size / size * size) items.size, ?_, ?_, ?_⟩
  · rw [Array.extract_append_extract]
    have : max (items.size / size * size) items.size = items.size := by omega
    simp [this]
  · simp only [Array.size_extract]
    omega
  · simp only [Array.size_extract]
    omega

/-- Whole pieces and a last one that is not empty. -/
theorem exists_whole_last {size : Nat} (positive : 0 < size) {items : Array β}
    (nonempty : 0 < items.size) :
    ∃ count front last, items = front ++ last ∧ front.size = count * size ∧ 0 < last.size ∧
      last.size ≤ size := by
  have split := Nat.div_add_mod' (items.size - 1) size
  have rest := Nat.mod_lt (items.size - 1) positive
  generalize (items.size - 1) / size = count at split
  refine ⟨count, items.extract 0 (count * size), items.extract (count * size) items.size, ?_, ?_,
    ?_, ?_⟩
  · have reach : max (count * size) items.size = items.size := by omega
    simp [Array.extract_append_extract, reach]
  · rw [Array.size_extract]
    omega
  · rw [Array.size_extract]
    omega
  · rw [Array.size_extract]
    omega

theorem flatten_blocks {size count : Nat} {items : Array β} (positive : 0 < size)
    (sized : items.size = count * size) : (blocks size items).flatten = items := by
  induction count generalizing items with
  | zero =>
    have nothing : items = #[] := Array.eq_empty_of_size_eq_zero (by omega)
    have few := size_blocks_whole positive sized
    rw [Array.eq_empty_of_size_eq_zero few, nothing]
    rfl
  | succ count ih =>
    have front : (items.extract 0 (count * size)).size = count * size := by
      rw [Array.size_extract, sized, Nat.succ_mul]
      omega
    have last : (items.extract (count * size) items.size).size = size := by
      rw [Array.size_extract, sized, Nat.succ_mul]
      omega
    have joined : items.extract 0 (count * size) ++ items.extract (count * size) items.size =
        items := by
      rw [Array.extract_append_extract, sized, Nat.succ_mul]
      simp [sized, Nat.succ_mul]
    rw [← joined, blocks_append front (by omega) (by omega), Array.flatten_push, ih front]

/-- Replacing an item is replacing it in its piece. -/
theorem blocks_setIfInBounds {size place offset : Nat} (items : Array β) (x : β)
    (inside : offset < size) :
    blocks size (items.setIfInBounds (place * size + offset) x) =
      (blocks size items).setIfInBounds place
        ((block size items place).setIfInBounds offset x) := by
  apply Array.ext
  · simp [blocks]
  · intro other left right
    rw [getElem_blocks, Array.getElem_setIfInBounds (by simpa using right), getElem_blocks]
    split
    · next same =>
      subst same
      apply Array.ext_getElem?
      intro index
      simp only [getElem?_block, Array.getElem?_setIfInBounds, size_block]
      grind
    · next different =>
      apply Array.ext_getElem?
      intro index
      rw [getElem?_block, getElem?_block]
      split
      · next within =>
        apply Array.getElem?_setIfInBounds_ne
        intro equal
        have : place = other := by
          calc place = (place * size + offset) / size := by
                rw [Nat.mul_comm, Nat.mul_add_div (by omega), Nat.div_eq_of_lt inside, Nat.add_zero]
            _ = (other * size + index) / size := by rw [equal]
            _ = other := by
                rw [Nat.mul_comm, Nat.mul_add_div (by omega), Nat.div_eq_of_lt within, Nat.add_zero]
        exact different this
      · rfl

theorem block_block {size count place inner : Nat} (items : Array β) (inside : inner < count) :
    block size (block (count * size) items place) inner =
      block size items (place * count + inner) := by
  apply Array.ext_getElem?
  intro index
  rw [getElem?_block, getElem?_block, getElem?_block]
  split
  · next within =>
    have := Nat.mul_le_mul_right size inside
    rw [Nat.succ_mul] at this
    rw [if_pos (by omega), Nat.add_mul, Nat.mul_assoc, Nat.add_assoc]
  · rfl

theorem getElem?_blocks {size : Nat} (positive : 0 < size) (items : Array β) (place : Nat) :
    (blocks size items)[place]? =
      if place * size < items.size then some (block size items place) else none := by
  have bound := lt_size_blocks positive items place
  split
  · next inside =>
    rw [Array.getElem?_eq_getElem (bound.2 inside), getElem_blocks]
  · next outside =>
    rw [Array.getElem?_eq_none_iff]
    exact Nat.not_lt.1 fun below => outside (bound.1 below)

theorem blocks_blocks {size count : Nat} (positive : 0 < size) (several : 0 < count)
    (items : Array β) :
    blocks count (blocks size items) = (blocks (count * size) items).map (blocks size) := by
  have larger : 0 < count * size := Nat.mul_pos several positive
  apply Array.ext_getElem?
  intro place
  rw [getElem?_blocks several, Array.getElem?_map, getElem?_blocks larger]
  simp only [lt_size_blocks positive, Nat.mul_assoc]
  split
  · refine congrArg some ?_
    apply Array.ext_getElem?
    intro inner
    rw [getElem?_block, getElem?_blocks positive, getElem?_blocks positive, size_block]
    have scaled : inner < count ↔ inner * size < count * size :=
      (Nat.mul_lt_mul_right positive).symm
    have placed : (place * count + inner) * size = place * (count * size) + inner * size := by
      rw [Nat.add_mul, Nat.mul_assoc]
    split
    · next inside =>
      rw [block_block items inside, placed]
      have := scaled.1 inside
      grind
    · next outside =>
      rw [if_neg]
      intro below
      exact outside (scaled.2 (by omega))
  · rfl

theorem size_pieces_lt {items : Array β} (many : width < items.size) :
    (pieces items).size < items.size := by
  rw [pieces_eq_blocks, blocks, Array.size_map, Array.size_range]
  unfold width at *
  omega

theorem blocks_map {γ : Type} (size : Nat) (items : Array β) (f : β → γ) :
    blocks size (items.map f) = (blocks size items).map (Array.map f) := by
  unfold blocks
  rw [Array.size_map, Array.map_map]
  refine congrArg (fun g => Array.map g _) ?_
  funext place
  exact Array.map_extract.symm

end TypedVectors.RadixArray
