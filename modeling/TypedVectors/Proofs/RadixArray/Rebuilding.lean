import TypedVectors.Proofs.RadixArray.Pages

/-!
What edits make of trees on pages. Each edit of a tree on pages gives the tree that the same edit of
a value gives, out of pages of the old tree and of new ones.
-/
namespace TypedVectors.RadixArray

theorem getElem?_place {β : Type} (xs : Array β) (index : Nat) (x : β) (j : Nat) :
    (place xs index x)[j]? = if j = min index xs.size then some x else xs[j]? := by
  unfold place
  split
  · next inside =>
    rw [Nat.min_eq_left (Nat.le_of_lt inside), Array.getElem?_setIfInBounds, if_pos inside]
    simp only [eq_comm]
  · next past =>
    rw [Nat.min_eq_right (Nat.not_lt.1 past), Array.getElem?_push]

theorem ne_of_ne_min {β : Type} {xs : Array β} {index j : Nat} {y : β}
    (elsewhere : j ≠ min index xs.size) (found : xs[j]? = some y) : j ≠ index := by
  rintro rfl
  have inside : j < xs.size := (Array.getElem?_eq_some_iff.1 found).1
  exact elsewhere (Nat.min_eq_left (Nat.le_of_lt inside)).symm

theorem place_cases {β : Type} {xs : Array β} {index j : Nat} {x y : β}
    (found : (place xs index x)[j]? = some y) :
    j = min index xs.size ∧ y = x ∨ j ≠ index ∧ xs[j]? = some y := by
  rw [getElem?_place] at found
  split at found
  · next here => exact .inl ⟨here, (Option.some.inj found).symm⟩
  · next elsewhere => exact .inr ⟨ne_of_ne_min elsewhere found, found⟩

theorem setIfInBounds_eq_place {β : Type} {xs : Array β} {index : Nat} (x : β)
    (inside : index < xs.size) : xs.setIfInBounds index x = place xs index x := by
  rw [place, if_pos inside]

namespace Memory

variable {α : Type} {owner? : Option Owner} {scope inner : Nat → Prop} {m m' m'' : Memory α}
  {depth place index child page : Nat} {tree : Layers α depth}

/-- A tree that an edit has made out of the pages in its scope and of new ones. -/
structure Rebuilt (owner? : Option Owner) (scope : Nat → Prop) (before after : Memory α)
    (depth place : Nat) (tree : Layers α depth) : Prop where
  edited : Edited owner? scope before after
  sound : after.Sound depth place
  tree : after.tree depth place = tree
  reach : ∀ page, after.Reaches depth place page → scope page ∨ before.size ≤ page

/-- The branch of a node at an index, or a new one, has been rebuilt from pages that are neither the
node's own nor in another branch. -/
structure Regrown (owner? : Option Owner) (inner : Nat → Prop) (before after : Memory α)
    (depth place index child : Nat) (tree : Layers α depth) : Prop where
  sound : before.Sound (depth + 1) place
  built : Rebuilt owner? inner before after depth child tree
  free : ¬inner place
  apart : ∀ j other : Nat, j ≠ index → (before.below place)[j]? = some other →
    ∀ page, before.Reaches depth other page → ¬inner page

namespace Rebuilt

theorem refl (sound : m.Sound depth place) :
    Rebuilt owner? (m.Reaches depth place) m m depth place (m.tree depth place) where
  edited := .refl m
  sound := sound
  tree := rfl
  reach _ way := .inl way

theorem mono {wider : Nat → Prop} (built : Rebuilt owner? scope m m' depth place tree)
    (within : ∀ page, scope page → wider page) : Rebuilt owner? wider m m' depth place tree where
  edited := built.edited.mono within
  sound := built.sound
  tree := built.tree
  reach page way := (built.reach page way).imp_left (within page)

/-- A tree that an edit has made after another edit. -/
theorem after (first : Edited owner? scope m m')
    (built : Rebuilt owner? inner m' m'' depth place tree)
    (within : ∀ page, inner page → scope page ∨ m.size ≤ page) :
    Rebuilt owner? scope m m'' depth place tree where
  edited := first.trans built.edited within
  sound := built.sound
  tree := built.tree
  reach page way := by
    rcases built.reach page way with member | new
    · exact within page member
    · exact .inr (Nat.le_trans first.size_le new)

/-- A new node over trees from the pages in a scope and new ones. -/
theorem add_node {places : Array Nat} {trees : Array (Layers α depth)}
    (edited : Edited owner? scope m m') (forest : m'.Forest depth places)
    (reads : places.map (m'.tree depth) = trees)
    (reach : ∀ child ∈ places, ∀ page, m'.Reaches depth child page → scope page ∨ m.size ≤ page) :
    Rebuilt owner? scope m (m'.add owner? (.places places)).2 (depth + 1)
      (m'.add owner? (.places places)).1 trees := by
  obtain ⟨sound, tree, node⟩ := (m'.add_put owner? (.places places)).node forest
    fun child found way => Nat.lt_irrefl _ ((forest.sound child found).inside way)
  refine ⟨edited.trans (add_edited m' _) fun page member => .inl member, sound,
    tree.trans reads, ?_⟩
  intro page way
  rcases node page way with rfl | ⟨child, found, way⟩
  · exact .inr edited.size_le
  · exact reach child found page way

theorem forest_singleton (sound : m.Sound depth place) : m.Forest depth #[place] :=
  (Forest.empty m depth).push sound fun child found => absurd found (Array.not_mem_empty child)

/-- A new node over a tree. -/
theorem single (built : Rebuilt owner? scope m m' depth place tree) :
    Rebuilt owner? scope m (m'.add owner? (.places #[place])).2 (depth + 1)
      (m'.add owner? (.places #[place])).1 (#[tree] : Array (Layers α depth)) := by
  refine add_node built.edited (forest_singleton built.sound) ?_ ?_
  · rw [Array.map_singleton, built.tree]
  · intro child found
    rw [Array.mem_singleton.1 found]
    exact built.reach

/-- A new node over an old tree and one that has nothing of it. -/
theorem beside {other : Nat} (built : Rebuilt owner? inner m m' depth place tree)
    (sound : m.Sound depth other) (away : ∀ page, inner page → ¬m.Reaches depth other page) :
    Rebuilt owner? (fun page => inner page ∨ m.Reaches depth other page) m
      (m'.add owner? (.places #[other, place])).2 (depth + 1)
      (m'.add owner? (.places #[other, place])).1
      (#[m.tree depth other, tree] : Array (Layers α depth)) := by
  have same : ∀ page, m.Reaches depth other page → m'.pages[page]? = m.pages[page]? :=
    fun page way => built.edited.kept page (sound.inside way)
      fun member => absurd way (away page member)
  have forest : m'.Forest depth #[other, place] := by
    refine (forest_singleton (sound.congr same)).push built.sound ?_
    intro child found page way there
    rw [Array.mem_singleton.1 found, reaches_congr same] at way
    rcases built.reach page there with member | new
    · exact away page member way
    · exact Nat.not_lt.2 new (sound.inside way)
  refine add_node (built.edited.mono fun page => .inl) forest ?_ ?_
  · rw [← built.tree, ← tree_congr same]
    simp
  · intro child found page way
    obtain rfl | rfl : child = other ∨ child = place := by simpa using found
    · exact .inl (.inr ((reaches_congr same).1 way))
    · exact (built.reach page way).imp_left .inl

end Rebuilt

namespace Regrown

theorem of_branch {old : Nat} (sound : m.Sound (depth + 1) place)
    (present : (m.below place)[index]? = some old)
    (built : Rebuilt owner? inner m m' depth child tree)
    (within : ∀ page, inner page → m.Reaches depth old page ∨ ¬m.Reaches (depth + 1) place page) :
    Regrown owner? inner m m' depth place index child tree where
  sound := sound
  built := built
  free member := by
    rcases within place member with way | away
    · exact sound.acyclic (Array.mem_of_getElem? present) way
    · exact away .here
  apart j other differ found page way member := by
    rcases within page member with wayOld | away
    · exact sound.forest.apart j index other old differ found present page way wayOld
    · exact away (.down (Array.mem_of_getElem? found) way)

theorem of_away (sound : m.Sound (depth + 1) place)
    (built : Rebuilt owner? inner m m' depth child tree)
    (away : ∀ page, inner page → ¬m.Reaches (depth + 1) place page) :
    Regrown owner? inner m m' depth place index child tree where
  sound := sound
  built := built
  free member := away place member .here
  apart _ _ _ found page way member := away page member (.down (Array.mem_of_getElem? found) way)

variable (grown : Regrown owner? inner m m' depth place index child tree)
include grown

section Others

variable {j other : Nat} (differ : j ≠ index) (found : (m.below place)[j]? = some other)
include differ found

/-- The other branches are not in the scope of the edit. -/
theorem same : ∀ page, m.Reaches depth other page → m'.pages[page]? = m.pages[page]? := by
  intro page way
  have inside := (grown.sound.forest.sound other (Array.mem_of_getElem? found)).inside way
  refine grown.built.edited.kept page inside fun member => ?_
  exact absurd member (grown.apart j other differ found page way)

theorem reaches : m'.Reaches depth other page ↔ m.Reaches depth other page :=
  reaches_congr (grown.same differ found)

theorem away (way : m'.Reaches depth other page) : ¬m'.Reaches depth child page := by
  intro there
  rw [grown.reaches differ found] at way
  rcases grown.built.reach page there with member | new
  · exact grown.apart j other differ found page way member
  · have known := grown.sound.forest.sound other (Array.mem_of_getElem? found)
    exact Nat.not_lt.2 new (known.inside way)

end Others

theorem forest : m'.Forest depth (RadixArray.place (m.below place) index child) where
  sound other found := by
    obtain ⟨j, found⟩ := Array.getElem?_of_mem found
    rcases place_cases found with ⟨-, same⟩ | ⟨differ, found⟩
    · exact same ▸ grown.built.sound
    · exact (grown.sound.forest.sound other (Array.mem_of_getElem? found)).congr
        (grown.same differ found)
  apart i j a b differ foundA foundB page wayA wayB := by
    rcases place_cases foundA with ⟨hereA, sameA⟩ | ⟨differA, foundA⟩ <;>
      rcases place_cases foundB with ⟨hereB, sameB⟩ | ⟨differB, foundB⟩
    · exact differ (hereA.trans hereB.symm)
    · exact grown.away differB foundB wayB (sameA ▸ wayA)
    · exact grown.away differA foundA wayA (sameB ▸ wayB)
    · exact grown.sound.forest.apart i j a b differ foundA foundB page
        ((grown.reaches differA foundA).1 wayA) ((grown.reaches differB foundB).1 wayB)

theorem acyclic {other : Nat} (found : other ∈ RadixArray.place (m.below place) index child) :
    ¬m'.Reaches depth other place := by
  intro way
  obtain ⟨j, found⟩ := Array.getElem?_of_mem found
  rcases place_cases found with ⟨-, same⟩ | ⟨differ, found⟩
  · rcases grown.built.reach place (same ▸ way) with member | new
    · exact grown.free member
    · exact Nat.not_lt.2 new grown.sound.inside_top
  · exact grown.sound.acyclic (Array.mem_of_getElem? found) ((grown.reaches differ found).1 way)

theorem trees : (RadixArray.place (m.below place) index child).map (m'.tree depth) =
    RadixArray.place ((m.below place).map (m.tree depth)) index tree := by
  refine Array.ext_getElem? fun j => ?_
  rw [Array.getElem?_map, getElem?_place _ _ tree, Array.size_map, Array.getElem?_map]
  split
  · next here => rw [getElem?_place, if_pos here, Option.map_some, grown.built.tree]
  · next elsewhere =>
    rw [getElem?_place, if_neg elsewhere]
    exact Option.map_congr fun other found =>
      tree_congr (grown.same (ne_of_ne_min elsewhere found) found)

theorem reach {other : Nat} (found : other ∈ RadixArray.place (m.below place) index child)
    (way : m'.Reaches depth other page) :
    (inner page ∨ m.Reaches (depth + 1) place page) ∨ m.size ≤ page := by
  obtain ⟨j, found⟩ := Array.getElem?_of_mem found
  rcases place_cases found with ⟨-, same⟩ | ⟨differ, found⟩
  · exact (grown.built.reach page (same ▸ way)).imp_left .inl
  · exact .inl (.inr (.down (Array.mem_of_getElem? found) ((grown.reaches differ found).1 way)))

/-- The node that is written over the branches. -/
theorem write :
    Rebuilt owner? (fun page => inner page ∨ m.Reaches (depth + 1) place page) m
      (m'.write owner? place (.places (RadixArray.place (m.below place) index child))).2 (depth + 1)
      (m'.write owner? place (.places (RadixArray.place (m.below place) index child))).1
      (RadixArray.place ((m.below place).map (m.tree depth)) index tree) := by
  have here := m'.write_place owner? place (.places (RadixArray.place (m.below place) index child))
  have put := m'.write_put owner? place (.places (RadixArray.place (m.below place) index child))
  obtain ⟨sound, reads, reach⟩ := put.node grown.forest fun other found way => by
    rcases here with ⟨-, here⟩ | here
    · exact grown.acyclic found (here ▸ way)
    · exact Nat.lt_irrefl _ ((grown.forest.sound other found).inside (here ▸ way))
  refine ⟨?_, sound, reads.trans grown.trees, fun page way => ?_⟩
  · refine (grown.built.edited.mono fun page => .inl).trans (write_edited m' place _) ?_
    rintro page rfl
    exact .inl (.inr .here)
  · rcases reach page way with top | ⟨other, found, way⟩
    · rcases here with ⟨-, here⟩ | here
      · rw [top, here]
        exact .inl (.inr .here)
      · rw [top, here]
        exact .inr grown.built.edited.size_le
    · exact grown.reach found way

end Regrown

theorem chain_rebuilt {leaf : Nat} (inside : leaf < m.size) (depth : Nat) :
    Rebuilt owner? (· = leaf) m (chain owner? depth leaf m).2 depth (chain owner? depth leaf m).1
      (RadixArray.chain depth (m.items leaf)) := by
  induction depth with
  | zero =>
    refine (Rebuilt.refl (.leaf inside)).mono ?_
    rintro page ⟨⟩
    rfl
  | succ depth ih => exact ih.single

/-- A leaf that is not in the tree is put into it. -/
theorem placeLeaf_rebuilt {node leaf : Nat} (sound : m.Sound (depth + 1) node)
    (inside : leaf < m.size) (free : ¬m.Reaches (depth + 1) node leaf) :
    Rebuilt owner? (fun page => page = leaf ∨ m.Reaches (depth + 1) node page) m
      (placeLeaf owner? depth node leaf index m).2 (depth + 1)
      (placeLeaf owner? depth node leaf index m).1
      (RadixArray.placeLeaf depth (m.tree (depth + 1) node) (m.items leaf) index) := by
  induction depth generalizing node with
  | zero =>
    refine (Regrown.of_away sound (chain_rebuilt inside 0) ?_).write
    rintro page rfl
    exact free
  | succ depth ih =>
    cases present : (m.below node)[branch (depth + 2) index]? with
    | none =>
      have missing :
          ((m.below node).map (m.tree (depth + 1)))[branch (depth + 2) index]? = none := by
        rw [Array.getElem?_map, present, Option.map_none]
      rw [placeLeaf, tree, RadixArray.placeLeaf]
      simp only [present, missing]
      refine (Regrown.of_away sound (chain_rebuilt inside (depth + 1)) ?_).write
      rintro page rfl
      exact free
    | some child =>
      have found := Array.mem_of_getElem? present
      have there : ((m.below node).map (m.tree (depth + 1)))[branch (depth + 2) index]? =
          some (m.tree (depth + 1) child) := by
        rw [Array.getElem?_map, present, Option.map_some]
      have built := ih (sound.forest.sound child found) fun way => free (.down found way)
      rw [placeLeaf, tree, RadixArray.placeLeaf]
      simp only [present, there]
      refine (Regrown.of_branch sound present built ?_).write.mono ?_
      · rintro page (rfl | way)
        · exact .inr free
        · exact .inl way
      · rintro page ((rfl | way) | way)
        · exact .inl rfl
        · exact .inr (.down found way)
        · exact .inr way

theorem write_leaf (m : Memory α) (owner? : Option Owner) (place : Nat) (items : Array α) :
    Rebuilt owner? (· = place) m (m.write owner? place (.items items)).2 0
      (m.write owner? place (.items items)).1 items where
  edited := write_edited m place _
  sound := .leaf (m.write_put owner? place _).inside
  tree := (m.write_put owner? place _).items
  reach page way := by
    cases way
    rcases m.write_place owner? place (.items items) with ⟨-, here⟩ | here
    · exact .inl here
    · exact .inr (Nat.le_of_eq here.symm)

theorem add_leaf (m : Memory α) (owner? : Option Owner) (items : Array α) :
    Rebuilt owner? (fun _ => False) m (m.add owner? (.items items)).2 0
      (m.add owner? (.items items)).1 items where
  edited := add_edited m _
  sound := .leaf (m.add_put owner? _).inside
  tree := (m.add_put owner? _).items
  reach page way := by
    cases way
    exact .inr (Nat.le_refl _)

/-- An item is replaced where the tree has one. -/
theorem setIn?_rebuilt (owner? : Option Owner) {x : α} {replaced : Layers α depth}
    (sound : m.Sound depth place)
    (done : RadixArray.setIn? depth (m.tree depth place) index x = some replaced) :
    ∃ next after, setIn? owner? depth place index x m = some (next, after) ∧
      Rebuilt owner? (m.Reaches depth place) m after depth next replaced := by
  induction depth generalizing place with
  | zero =>
    cases done
    refine ⟨_, _, rfl, (write_leaf m owner? place _).mono ?_⟩
    rintro page rfl
    exact .here
  | succ depth ih =>
    unfold RadixArray.setIn? at done
    unfold setIn?
    rw [tree] at done
    dsimp only at done ⊢
    cases present : (m.below place)[branch (depth + 1) index]? with
    | none =>
      rw [Array.getElem?_map, present] at done
      cases done
    | some child =>
      rw [Array.getElem?_map, present, Option.map_some, Option.bind_some] at done
      obtain ⟨below, doneBelow, rfl⟩ := Option.map_eq_some_iff.1 done
      have found := Array.mem_of_getElem? present
      obtain ⟨next, after, written, built⟩ := ih (sound.forest.sound child found) doneBelow
      rw [Option.bind_some, written, Option.map_some]
      refine ⟨_, _, rfl, ?_⟩
      have inside : branch (depth + 1) index < (m.below place).size :=
        (Array.getElem?_eq_some_iff.1 present).1
      rw [setIfInBounds_eq_place next inside,
        setIfInBounds_eq_place below (by rwa [Array.size_map])]
      refine (Regrown.of_branch sound present built fun page => .inl).write.mono ?_
      rintro page (way | way)
      · exact .down found way
      · exact way

section Held

variable {places : Array Nat} {trees : Array (Layers α depth)}

/-- Trees on new pages. -/
structure Held (before after : Memory α) (depth : Nat) (places : Array Nat)
    (trees : Array (Layers α depth)) : Prop where
  edited : Edited none (fun _ => False) before after
  forest : after.Forest depth places
  trees : places.map (after.tree depth) = trees
  reach : ∀ child ∈ places, ∀ page, after.Reaches depth child page → before.size ≤ page

theorem Held.push (held : Held m m' depth places trees)
    (built : Rebuilt none (fun _ => False) m' m'' depth place tree) :
    Held m m'' depth (places.push place) (trees.push tree) := by
  have same : ∀ child ∈ places, ∀ page, m'.Reaches depth child page →
      m''.pages[page]? = m'.pages[page]? := fun child found page way =>
    built.edited.kept page ((held.forest.sound child found).inside way) False.elim
  have reaches : ∀ child ∈ places, ∀ page,
      m''.Reaches depth child page ↔ m'.Reaches depth child page :=
    fun child found page => reaches_congr (same child found)
  have new : ∀ page, m''.Reaches depth place page → m'.size ≤ page :=
    fun page way => (built.reach page way).resolve_left id
  have apart : ∀ child ∈ places, ∀ page, m''.Reaches depth child page →
      ¬m''.Reaches depth place page := fun child found page way there =>
    Nat.not_lt.2 (new page there)
      ((held.forest.sound child found).inside ((reaches child found page).1 way))
  refine ⟨held.edited.trans built.edited fun page member => member.elim,
    (held.forest.congr same).push built.sound apart, ?_, ?_⟩
  · rw [Array.map_push, built.tree, ← held.trees]
    congr 1
    exact Array.map_congr_left fun child found => tree_congr (same child found)
  · intro child found page way
    rcases Array.mem_push.1 found with found | rfl
    · exact held.reach child found page ((reaches child found page).1 way)
    · exact Nat.le_trans held.edited.size_le (new page way)

/-- Trees that are put on new pages one after the other. -/
theorem Held.foldl {put : Layers α depth → Memory α → Nat × Memory α}
    (each : ∀ tree m, Rebuilt none (fun _ => False) m (put tree m).2 depth (put tree m).1 tree)
    (held : Held m m' depth places trees) (more : List (Layers α depth)) :
    let after := more.foldl (fun (places, memory) tree =>
      let (place, memory) := put tree memory
      (places.push place, memory)) (places, m')
    Held m after.2 depth after.1 (trees ++ more.toArray) := by
  induction more generalizing m' places trees with
  | nil => rwa [Array.append_empty]
  | cons tree more ih =>
    have same : trees ++ (tree :: more).toArray = trees.push tree ++ more.toArray := by simp
    rw [same]
    exact ih (held.push (each tree m'))

end Held

theorem hold_rebuilt (m : Memory α) (depth : Nat) (tree : Layers α depth) :
    Rebuilt none (fun _ => False) m (hold depth tree m).2 depth (hold depth tree m).1 tree := by
  induction depth generalizing m with
  | zero => exact m.add_leaf none tree
  | succ depth ih =>
    have start : Held m m depth #[] #[] :=
      { edited := .refl m
        forest := .empty m depth
        trees := Array.map_empty
        reach := fun child found => absurd found (Array.not_mem_empty child) }
    have all := start.foldl (fun node m => ih m node) (show Array (Layers α depth) from tree).toList
    rw [Array.empty_append, Array.toArray_toList, Array.foldl_toList] at all
    exact Rebuilt.add_node all.edited all.forest all.trees fun child found page way =>
      .inr (all.reach child found page way)

end Memory
end TypedVectors.RadixArray
