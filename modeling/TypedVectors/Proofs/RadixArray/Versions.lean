import TypedVectors.Proofs.RadixArray.Rebuilding
import TypedVectors.Proofs.RadixArray.History

/-!
Versions of arrays in a memory. An edit of a version that holds some items makes a version that
holds the items after the edit. It writes over no pages but those of the version that were made
under its own owner, and the new version has pages of the old one and new ones.
-/
namespace TypedVectors.RadixArray

section Set

variable {α : Type} {xs ys : RadixArray α} {index : Nat} {x : α}

theorem set_tail (x : α) (inTail : xs.packed ≤ index) (inside : index < xs.size) :
    xs.set index x = .ok { xs with tail := xs.tail.setIfInBounds (index - xs.packed) x } := by
  unfold set
  rw [if_neg (by omega), if_neg (by omega)]
  dsimp only
  rw [Int.toNat_natCast, if_pos inTail]

theorem set_tree (inTree : index < xs.packed) (done : xs.set index x = .ok ys) :
    ∃ tree, setIn? (xs.depth + 1) xs.tree index x = some tree ∧
      (⟨xs.depth, tree, xs.packed, xs.tail⟩ : RadixArray α) = ys := by
  have packed_le : xs.packed ≤ xs.size := Nat.le_add_right _ _
  unfold set at done
  rw [if_neg (by omega), if_neg (by omega)] at done
  dsimp only at done
  rw [Int.toNat_natCast, if_neg (Nat.not_le.2 inTree)] at done
  split at done
  · next tree replaced => exact ⟨tree, replaced, Except.ok.inj done⟩
  · cases done

end Set

namespace Memory

variable {α : Type} {owner? : Option Owner} {scope : Nat → Prop} {m m' m'' : Memory α}
  {v next : Version} {items : List α} {page : Nat}

/-- The pages of a version. -/
def Pages (memory : Memory α) (version : Version) (page : Nat) : Prop :=
  page = version.tail ∨ memory.Reaches (version.depth + 1) version.root page

/-- A version is the array of some items, and its tail is not a page of its tree. -/
structure Stands (memory : Memory α) (version : Version) (items : List α) : Prop where
  array : memory.array version = ofList items
  size : version.size = items.length
  sound : memory.Sound (version.depth + 1) version.root
  inside : version.tail < memory.size
  apart : ¬memory.Reaches (version.depth + 1) version.root version.tail

/-- A version of some items that an edit has made out of the pages in its scope and of new ones. -/
structure Made (owner? : Option Owner) (scope : Nat → Prop) (before after : Memory α)
    (version : Version) (items : List α) : Prop where
  edited : Edited owner? scope before after
  stands : after.Stands version items
  pages : ∀ page, after.Pages version page → scope page ∨ before.size ≤ page

/-- A version is edited, or its edit refused, as its items are. -/
inductive Mirrors (owner? : Option Owner) (before : Memory α) (version : Version) :
    Except Fault (Version × Memory α) → Except Fault (List α) → Prop
  | made {next : Version} {after : Memory α} {items : List α}
    (made : Made owner? (before.Pages version) before after next items) :
    Mirrors owner? before version (.ok (next, after)) (.ok items)
  | refused (fault : Fault) : Mirrors owner? before version (.error fault) (.error fault)

theorem Made.of_none (made : Made none (fun _ => False) m m' v items) :
    Made owner? scope m m' v items where
  edited := (made.edited.mono fun _ => False.elim).of_none
  stands := made.stands
  pages page member := .inr ((made.pages page member).resolve_left id)

/-- An edit of a version that another edit has made. -/
theorem Made.trans {more : List α} (first : Made owner? scope m m' v items)
    (second : Made owner? (m'.Pages v) m' m'' next more) : Made owner? scope m m'' next more where
  edited := first.edited.trans second.edited first.pages
  stands := second.stands
  pages page member := by
    rcases second.pages page member with old | new
    · exact first.pages page old
    · exact .inr (Nat.le_trans first.edited.size_le new)

theorem pages_congr (same : ∀ page, m.Pages v page → m'.pages[page]? = m.pages[page]?) :
    m'.Pages v page ↔ m.Pages v page := by
  unfold Pages
  rw [reaches_congr fun page way => same page (.inr way)]

namespace Stands

theorem page_inside (stands : m.Stands v items) (member : m.Pages v page) : page < m.size := by
  rcases member with rfl | way
  · exact stands.inside
  · exact stands.sound.inside way

/-- A version whose pages stay as they are stands. -/
theorem congr (stands : m.Stands v items)
    (same : ∀ page, m.Pages v page → m'.pages[page]? = m.pages[page]?) : m'.Stands v items := by
  have tree : ∀ page, m.Reaches (v.depth + 1) v.root page → m'.pages[page]? = m.pages[page]? :=
    fun page way => same page (.inr way)
  refine ⟨?_, stands.size, stands.sound.congr tree,
    (inside_congr (same v.tail (.inl rfl))).2 stands.inside, ?_⟩
  · rw [← stands.array, Memory.array, Memory.array, tree_congr tree,
      items_congr (same v.tail (.inl rfl))]
  · rw [reaches_congr tree]
    exact stands.apart

theorem tail_size (stands : m.Stands v items) :
    (m.items v.tail).size = v.size - v.packed := by
  have size : (m.array v).size = items.length := by rw [stands.array, size_ofList]
  rw [RadixArray.size, Memory.array, ← stands.size] at size
  dsimp only at size
  omega

theorem own (stands : m.Stands v items) : m.own v = ofList items := by
  rw [Memory.own, ← stands.tail_size, Array.extract_size]
  exact stands.array

end Stands

/-- A rebuilt tree and a new tail are a version. -/
theorem Rebuilt.version {depth root size packed : Nat} {tree : Layers α (depth + 1)}
    {tail : Array α} (built : Rebuilt owner? scope m m' (depth + 1) root tree)
    (array : (⟨depth, tree, packed, tail⟩ : RadixArray α) = ofList items)
    (count : size = items.length) :
    Made owner? scope m (m'.add owner? (.items tail)).2
      ⟨depth, root, (m'.add owner? (.items tail)).1, size, packed⟩ items := by
  have put := m'.add_put owner? (.items tail)
  have same : ∀ page, m'.Reaches (depth + 1) root page →
      (m'.add owner? (.items tail)).2.pages[page]? = m'.pages[page]? := by
    intro page way
    have inside := built.sound.inside way
    exact put.others page inside (Nat.ne_of_lt inside)
  refine ⟨built.edited.trans (add_edited m' _) fun page member => .inl member,
    ⟨?_, count, built.sound.congr same, put.inside, ?_⟩, ?_⟩
  · rw [← array, Memory.array, tree_congr same, built.tree, put.items]
  · rw [reaches_congr same]
    exact fun way => Nat.lt_irrefl _ (built.sound.inside way)
  · rintro page (rfl | way)
    · exact .inr built.edited.size_le
    · exact built.reach page ((reaches_congr same).1 way)

section Tail

variable (owner?) (stands : m.Stands v items) (tail : Array α)
include stands

/-- The tree of a version whose tail is written does not change. -/
theorem Stands.write_tail_same : ∀ page, m.Reaches (v.depth + 1) v.root page →
    (m.write owner? v.tail (.items tail)).2.pages[page]? = m.pages[page]? := by
  intro page way
  have inside := stands.sound.inside way
  refine (m.write_put owner? v.tail (.items tail)).others page inside ?_
  rintro rfl
  rcases m.write_place owner? v.tail (.items tail) with ⟨-, here⟩ | here
  · exact stands.apart (here ▸ way)
  · exact Nat.lt_irrefl _ (here ▸ inside)

theorem Stands.write_tail_apart :
    ¬m.Reaches (v.depth + 1) v.root (m.write owner? v.tail (.items tail)).1 := by
  intro way
  rcases m.write_place owner? v.tail (.items tail) with ⟨-, here⟩ | here
  · exact stands.apart (here ▸ way)
  · exact Nat.lt_irrefl _ (stands.sound.inside (here ▸ way))

/-- What a version holds after its tail is written are pages of it and new ones. -/
theorem Stands.write_tail_pages :
    ∀ page, page = (m.write owner? v.tail (.items tail)).1 ∨
      (m.write owner? v.tail (.items tail)).2.Reaches (v.depth + 1) v.root page →
      m.Pages v page ∨ m.size ≤ page := by
  rintro page (rfl | way)
  · rcases m.write_place owner? v.tail (.items tail) with ⟨-, here⟩ | here
    · exact .inl (.inl here)
    · exact .inr (Nat.le_of_eq here.symm)
  · exact .inl (.inr ((reaches_congr (stands.write_tail_same owner? tail)).1 way))

/-- A version with another tail. -/
theorem Stands.write_tail {size : Nat} {more : List α}
    (array : { m.array v with tail := tail } = ofList more) (count : size = more.length) :
    Made owner? (m.Pages v) m (m.write owner? v.tail (.items tail)).2
      { v with tail := (m.write owner? v.tail (.items tail)).1, size := size } more := by
  have put := m.write_put owner? v.tail (.items tail)
  have same := stands.write_tail_same owner? tail
  refine ⟨(write_edited m v.tail _).mono fun page => .inl,
    ⟨?_, count, stands.sound.congr same, put.inside, ?_⟩,
    stands.write_tail_pages owner? tail⟩
  · rw [← array, Memory.array, Memory.array, tree_congr same, put.items]
  · rw [reaches_congr same]
    exact stands.write_tail_apart owner? tail

end Tail

/-- A version with another tree. -/
theorem Stands.write_root {root : Nat} {tree : Layers α (v.depth + 1)} {more : List α}
    (stands : m.Stands v items)
    (built : Rebuilt owner? (m.Reaches (v.depth + 1) v.root) m m' (v.depth + 1) root tree)
    (array : (⟨v.depth, tree, v.packed, m.items v.tail⟩ : RadixArray α) = ofList more)
    (count : v.size = more.length) :
    Made owner? (m.Pages v) m m' { v with root := root } more := by
  have tail : m'.pages[v.tail]? = m.pages[v.tail]? :=
    built.edited.kept v.tail stands.inside fun member => absurd member stands.apart
  refine ⟨built.edited.mono fun page => .inr, ⟨?_, count, built.sound,
    Nat.lt_of_lt_of_le stands.inside built.edited.size_le, ?_⟩, ?_⟩
  · rw [← array, Memory.array, built.tree, items_congr tail]
  · intro way
    rcases built.reach v.tail way with old | new
    · exact stands.apart old
    · exact Nat.not_lt.2 new stands.inside
  · rintro page (rfl | way)
    · exact .inl (.inl rfl)
    · exact (built.reach page way).imp_left .inr

/-- A full tail goes into the tree as its last leaf. -/
theorem spill_rebuilt (owner? : Option Owner) {leaf : Nat}
    (sound : m.Sound (v.depth + 1) v.root) (inside : leaf < m.size)
    (away : ¬m.Reaches (v.depth + 1) v.root leaf) (full : ¬(m.items leaf).size < width) (x : α) :
    ∃ tree : Layers α ((m.spill owner? v leaf).1.1 + 1),
      Rebuilt owner? (fun page => page = leaf ∨ m.Reaches (v.depth + 1) v.root page) m
        (m.spill owner? v leaf).2 ((m.spill owner? v leaf).1.1 + 1) (m.spill owner? v leaf).1.2
        tree ∧
      RadixArray.push ⟨v.depth, m.tree (v.depth + 1) v.root, v.packed, m.items leaf⟩ x =
        ⟨(m.spill owner? v leaf).1.1, tree, v.packed + width, #[x]⟩ := by
  unfold spill RadixArray.push
  by_cases grow : twoTo (5 * (v.depth + 1)) ≤ v.packed / width
  · rw [if_pos grow, if_neg full, if_pos grow]
    refine ⟨_, (chain_rebuilt inside (v.depth + 1)).beside sound ?_, rfl⟩
    rintro page rfl
    exact away
  · rw [if_neg grow, if_neg full, if_neg grow]
    exact ⟨_, placeLeaf_rebuilt sound inside away, rfl⟩

theorem push_made (owner? : Option Owner) (stands : m.Stands v items) (x : α) :
    Made owner? (m.Pages v) m (m.push owner? v x).2 (m.push owner? v x).1 (items ++ [x]) := by
  have count : v.size + 1 = (items ++ [x]).length := by
    rw [List.length_append, stands.size, List.length_singleton]
  have array : (m.array v).push x = ofList (items ++ [x]) := by rw [stands.array, push_ofList]
  unfold push
  rw [← stands.tail_size]
  split
  · next room =>
    refine stands.write_tail owner? _ ?_ count
    rw [← array, RadixArray.push, if_pos]
    · rfl
    · exact room
  · next full =>
    have put := m.write_put owner? v.tail (.items (m.items v.tail))
    have same := stands.write_tail_same owner? (m.items v.tail)
    obtain ⟨tree, built, pushed⟩ := spill_rebuilt owner?
      (stands.sound.congr same) put.inside
      (fun way => stands.write_tail_apart owner? (m.items v.tail) ((reaches_congr same).1 way))
      (by rwa [put.items]) x
    rw [put.items, tree_congr same] at pushed
    exact Rebuilt.version (.after ((write_edited m v.tail _).mono fun page => .inl) built
      (stands.write_tail_pages owner? _)) (pushed.symm.trans array) count

/-- An item of a version is replaced, in its tail or in its tree. -/
theorem set_inside {index : Nat} (stands : m.Stands v items) (inside : index < items.length)
    (x : α) :
    Mirrors owner? m v (m.set owner? v index x) (.ok (items.set index x)) := by
  have early : ¬(index : Int) = v.size := by rw [stands.size]; omega
  have bound : ¬((index : Int) < 0 ∨ (v.size : Int) < index) := by rw [stands.size]; omega
  have count : v.size = (items.set index x).length := by rw [List.length_set, stands.size]
  have sized : index < (m.array v).size := by rwa [stands.array, size_ofList]
  have done := set_ofList x inside
  rw [← stands.array] at done
  rw [set, if_neg early, if_neg bound]
  dsimp only
  rw [Int.toNat_natCast]
  by_cases inTail : v.packed ≤ index
  · rw [if_pos inTail]
    rw [set_tail x inTail sized] at done
    exact .made (stands.write_tail owner? _ (Except.ok.inj done) count)
  · rw [if_neg inTail]
    obtain ⟨tree, replaced, array⟩ := set_tree (Nat.not_le.1 inTail) done
    obtain ⟨root, after, written, built⟩ := setIn?_rebuilt owner? stands.sound replaced
    rw [written]
    exact .made (stands.write_root built array count)

/-- A write to a version is refused as it is on its items, or makes a version of the items after
it. -/
theorem set_mirrors (stands : m.Stands v items) (index : Int) (x : α) :
    Mirrors owner? m v (m.set owner? v index x) (Storage.lists.set items index x) := by
  unfold Storage.lists
  dsimp only
  by_cases outside : index < 0 ∨ items.length < index
  · rw [if_pos outside, set, stands.size, if_neg (by omega), if_pos outside]
    exact .refused _
  · rw [if_neg outside]
    by_cases last : index = items.length
    · rw [if_pos last, set, stands.size, if_pos last]
      exact .made (push_made owner? stands x)
    · rw [if_neg last]
      obtain ⟨index, rfl⟩ := Int.eq_ofNat_of_zero_le (show 0 ≤ index by omega)
      exact set_inside stands (by omega) x

/-- A version of some items on new pages. -/
theorem ofArray_made (m : Memory α) (items : List α) :
    Made none (fun _ => False) m (m.ofArray (ofList items)).2 (m.ofArray (ofList items)).1 items :=
  (hold_rebuilt m _ (ofList items).tree).version rfl (size_ofList items)

/-- Items appended one after the other, each to the version that the one before has made. -/
theorem foldl_push_made (stands : m.Stands v items) (added : List α) :
    let after := added.foldl (fun (version, memory) x => memory.push owner? version x) (v, m)
    Made owner? (m.Pages v) m after.2 after.1 (items ++ added) := by
  induction added generalizing m v items with
  | nil =>
    rw [List.append_nil]
    exact ⟨.refl m, stands, fun page => .inl⟩
  | cons x added ih =>
    have first := push_made owner? stands x
    have rest := ih first.stands
    rw [List.append_assoc] at rest
    exact first.trans rest

theorem grow_made (stands : m.Stands v items) (size : Nat) (fill : Nat → α) :
    Made owner? (m.Pages v) m (m.grow owner? v size fill).2 (m.grow owner? v size fill).1
      (Storage.lists.grow items size fill) := by
  have added : (List.range' items.length (size - items.length)).map fill =
      (List.range (size - v.size)).map fun k => fill (v.size + k) := by
    rw [List.range'_eq_map_range, List.map_map, stands.size]
    rfl
  unfold Storage.lists grow
  dsimp only
  rw [added]
  split
  · next small =>
    rw [Nat.sub_eq_zero_of_le small, List.range_zero, List.map_nil, List.append_nil]
    exact ⟨.refl m, stands, fun page => .inl⟩
  · split
    · exact foldl_push_made stands _
    · have whole : m.toArray v = items.toArray := by
        rw [toArray, stands.array, ofList, toArray_ofArray]
      rw [whole, List.append_toArray]
      exact (ofArray_made m _).of_none

end Memory
end TypedVectors.RadixArray
