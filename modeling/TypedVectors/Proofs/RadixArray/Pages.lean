import Mathlib.Tactic.ByContra
import TypedVectors.RadixArray.Memory

/-!
Trees on the pages of a memory. An edit leaves all pages alone but those of the tree it works on,
and of these it writes over the ones that were made under its owner only. What it makes of the tree
is the tree that the same edit makes of a value.
-/
namespace TypedVectors.RadixArray.Memory

variable {α : Type} {owner? : Option Owner} {scope : Nat → Prop} {m m' m'' : Memory α}
  {depth place page : Nat}

/-- The pages of the tree at a place. -/
inductive Reaches (memory : Memory α) : (depth place page : Nat) → Prop
  | here {depth place : Nat} : Reaches memory depth place place
  | down {depth place child page : Nat} (found : child ∈ memory.below place)
    (way : Reaches memory depth child page) : Reaches memory (depth + 1) place page

/-- Whether no page belongs to two of some trees. -/
def Apart (memory : Memory α) (depth : Nat) (places : Array Nat) : Prop :=
  ∀ i j a b : Nat, i ≠ j → places[i]? = some a → places[j]? = some b →
    ∀ page, memory.Reaches depth a page → ¬memory.Reaches depth b page

/-- A tree whose pages are all there, each of them once. -/
inductive Sound (memory : Memory α) : (depth place : Nat) → Prop
  | leaf {place : Nat} (inside : place < memory.size) : Sound memory 0 place
  | node {depth place : Nat} (inside : place < memory.size)
    (below : ∀ child ∈ memory.below place, Sound memory depth child)
    (acyclic : ∀ child ∈ memory.below place, ¬memory.Reaches depth child place)
    (apart : memory.Apart depth (memory.below place)) : Sound memory (depth + 1) place

/-- Trees that share no page. -/
structure Forest (memory : Memory α) (depth : Nat) (places : Array Nat) : Prop where
  sound : ∀ child ∈ places, memory.Sound depth child
  apart : memory.Apart depth places

/-- One page has been put at a place, and all others are as before. -/
structure Put (before : Memory α) (place : Nat) (page : Page α) (after : Memory α) : Prop where
  size_le : before.size ≤ after.size
  here : after.pages[place]? = some page
  others : ∀ other < before.size, other ≠ place → after.pages[other]? = before.pages[other]?

/-- What an edit under an owner changes: within its scope the pages of that owner. New pages are the
owner's or nobody's. -/
structure Edited (owner? : Option Owner) (scope : Nat → Prop) (before after : Memory α) : Prop where
  size_le : before.size ≤ after.size
  kept : ∀ page < before.size, (scope page → before.owned owner? page = false) →
    after.pages[page]? = before.pages[page]?
  old : ∀ page < before.size, after.owner? page = before.owner? page
  new : ∀ page, before.size ≤ page → page < after.size →
    after.owner? page = owner? ∨ after.owner? page = none

section Same

theorem inside_congr (same : m'.pages[place]? = m.pages[place]?) :
    place < m'.size ↔ place < m.size := by
  rw [← Nat.not_le, ← Nat.not_le, size, size, ← Array.getElem?_eq_none_iff,
    ← Array.getElem?_eq_none_iff, same]

theorem owner?_congr (same : m'.pages[place]? = m.pages[place]?) :
    m'.owner? place = m.owner? place := by
  rw [owner?, owner?, same]

theorem items_congr (same : m'.pages[place]? = m.pages[place]?) :
    m'.items place = m.items place := by
  rw [items, items, same]

theorem below_congr (same : m'.pages[place]? = m.pages[place]?) :
    m'.below place = m.below place := by
  rw [below, below, same]

variable (same : ∀ page, m.Reaches depth place page → m'.pages[page]? = m.pages[page]?)
include same

theorem tree_congr : m'.tree depth place = m.tree depth place := by
  induction depth generalizing place with
  | zero => exact items_congr (same place .here)
  | succ depth ih =>
    rw [tree, tree, below_congr (same place .here)]
    refine Array.map_congr_left fun child found => ih fun page way => ?_
    exact same page (.down found way)

theorem reaches_congr : m'.Reaches depth place page ↔ m.Reaches depth place page := by
  induction depth generalizing place with
  | zero =>
    constructor
    · rintro ⟨⟩
      exact .here
    · rintro ⟨⟩
      exact .here
  | succ depth ih =>
    have nodes := below_congr (same place .here)
    have child : ∀ child ∈ m.below place,
        m'.Reaches depth child page ↔ m.Reaches depth child page :=
      fun child found => ih fun page way => same page (.down found way)
    constructor
    · intro way
      cases way with
      | here => exact .here
      | down found way =>
        rw [nodes] at found
        exact .down found ((child _ found).1 way)
    · intro way
      cases way with
      | here => exact .here
      | down found way => exact .down (nodes ▸ found) ((child _ found).2 way)

theorem Sound.congr (sound : m.Sound depth place) : m'.Sound depth place := by
  induction sound with
  | leaf inside => exact .leaf ((inside_congr (same _ .here)).2 inside)
  | @node depth place inside below acyclic apart ih =>
    have nodes := below_congr (same place .here)
    have child : ∀ child ∈ m.below place, ∀ page,
        m'.Reaches depth child page ↔ m.Reaches depth child page :=
      fun child found page => reaches_congr fun page way => same page (.down found way)
    refine .node ((inside_congr (same _ .here)).2 inside) ?_ ?_ ?_
    · rw [nodes]
      exact fun child found => ih child found fun page way => same page (.down found way)
    · rw [nodes]
      exact fun kid found way => acyclic kid found ((child kid found _).1 way)
    · rw [nodes]
      intro i j a b differ foundA foundB page here there
      exact apart i j a b differ foundA foundB page
        ((child a (Array.mem_of_getElem? foundA) page).1 here)
        ((child b (Array.mem_of_getElem? foundB) page).1 there)

end Same

theorem Sound.inside (sound : m.Sound depth place) (way : m.Reaches depth place page) :
    page < m.size := by
  induction sound with
  | leaf inside =>
    cases way
    exact inside
  | node inside below acyclic apart ih =>
    cases way with
    | here => exact inside
    | down found way => exact ih _ found way

theorem Sound.inside_top (sound : m.Sound depth place) : place < m.size := sound.inside .here

theorem Sound.forest (sound : m.Sound (depth + 1) place) : m.Forest depth (m.below place) := by
  cases sound with
  | node inside below acyclic apart => exact ⟨below, apart⟩

theorem Sound.acyclic {child : Nat} (sound : m.Sound (depth + 1) place)
    (found : child ∈ m.below place) : ¬m.Reaches depth child place := by
  cases sound with
  | node inside below acyclic apart => exact acyclic child found

namespace Forest

variable {places : Array Nat}

theorem empty (m : Memory α) (depth : Nat) : m.Forest depth #[] where
  sound child found := absurd found (Array.not_mem_empty child)
  apart i j a b _ found _ _ _ := by
    rw [Array.getElem?_empty] at found
    cases found

theorem congr (forest : m.Forest depth places)
    (same : ∀ child ∈ places, ∀ page, m.Reaches depth child page →
      m'.pages[page]? = m.pages[page]?) : m'.Forest depth places where
  sound child found := (forest.sound child found).congr (same child found)
  apart i j a b differ foundA foundB page here there := by
    have reaches : ∀ child ∈ places, m'.Reaches depth child page ↔ m.Reaches depth child page :=
      fun child found => reaches_congr (same child found)
    exact forest.apart i j a b differ foundA foundB page
      ((reaches a (Array.mem_of_getElem? foundA)).1 here)
      ((reaches b (Array.mem_of_getElem? foundB)).1 there)

theorem push (forest : m.Forest depth places) (sound : m.Sound depth place)
    (away : ∀ child ∈ places, ∀ page, m.Reaches depth child page → ¬m.Reaches depth place page) :
    m.Forest depth (places.push place) where
  sound child found := by
    rcases Array.mem_push.1 found with found | rfl
    · exact forest.sound child found
    · exact sound
  apart i j a b differ foundA foundB page here there := by
    rw [Array.getElem?_push] at foundA foundB
    split at foundA <;> split at foundB
    · next last here => exact differ (last.trans here.symm)
    · cases foundA
      exact away b (Array.mem_of_getElem? foundB) page there here
    · cases foundB
      exact away a (Array.mem_of_getElem? foundA) page here there
    · exact forest.apart i j a b differ foundA foundB page here there

end Forest

section Put

variable {content : Content α} {places : Array Nat}

theorem Put.items {items : Array α} (put : m.Put place ⟨owner?, .items items⟩ m') :
    m'.items place = items := by
  rw [Memory.items, put.here]

theorem Put.below (put : m.Put place ⟨owner?, .places places⟩ m') : m'.below place = places := by
  rw [Memory.below, put.here]

theorem Put.inside {page : Page α} (put : m.Put place page m') : place < m'.size :=
  (Array.getElem?_eq_some_iff.1 put.here).1

/-- A node over trees of which none holds its own page is a tree. -/
theorem Put.node (put : m.Put place ⟨owner?, .places places⟩ m') (forest : m.Forest depth places)
    (free : ∀ child ∈ places, ¬m.Reaches depth child place) :
    m'.Sound (depth + 1) place ∧ m'.tree (depth + 1) place = places.map (m.tree depth) ∧
      ∀ page, m'.Reaches (depth + 1) place page →
        page = place ∨ ∃ child ∈ places, m.Reaches depth child page := by
  have same : ∀ child ∈ places, ∀ page, m.Reaches depth child page →
      m'.pages[page]? = m.pages[page]? := by
    intro child found page way
    refine put.others page ((forest.sound child found).inside way) ?_
    rintro rfl
    exact free child found way
  have reaches : ∀ child ∈ places, ∀ page,
      m'.Reaches depth child page ↔ m.Reaches depth child page :=
    fun child found page => reaches_congr (same child found)
  have after := forest.congr same
  rw [← put.below] at after
  refine ⟨.node put.inside after.sound ?_ after.apart, ?_, ?_⟩
  · rw [put.below]
    exact fun child found way => free child found ((reaches child found place).1 way)
  · rw [tree, put.below]
    exact Array.map_congr_left fun child found => tree_congr (same child found)
  · intro page way
    cases way with
    | here => exact .inl rfl
    | down found way =>
      rw [put.below] at found
      exact .inr ⟨_, found, (reaches _ found page).1 way⟩

theorem add_put (m : Memory α) (owner? : Option Owner) (content : Content α) :
    m.Put (m.add owner? content).1 ⟨owner?, content⟩ (m.add owner? content).2 where
  size_le := by simp [add, size]
  here := by simp [add, size]
  others other inside _ := by
    rw [size] at inside
    rw [add, Array.getElem?_push, if_neg (Nat.ne_of_lt inside)]

theorem inside_of_owner? {owner : Owner} (found : m.owner? place = some owner) :
    place < m.size := by
  obtain ⟨page, here, -⟩ := Option.bind_eq_some_iff.1 found
  exact (Array.getElem?_eq_some_iff.1 here).1

theorem owned_inside (owned : m.owned owner? place) : place < m.size := by
  rw [Memory.owned, Bool.and_eq_true, beq_iff_eq] at owned
  obtain ⟨owner, rfl⟩ := Option.isSome_iff_exists.1 owned.1
  exact inside_of_owner? owned.2

theorem write_put (m : Memory α) (owner? : Option Owner) (place : Nat) (content : Content α) :
    m.Put (m.write owner? place content).1 ⟨owner?, content⟩ (m.write owner? place content).2 := by
  unfold write
  split
  · next owned =>
    exact
      { size_le := by simp [size]
        here := Array.getElem?_setIfInBounds_self_of_lt (owned_inside owned)
        others := fun other _ differ => Array.getElem?_setIfInBounds_ne differ.symm }
  · exact m.add_put owner? content

theorem write_place (m : Memory α) (owner? : Option Owner) (place : Nat) (content : Content α) :
    m.owned owner? place ∧ (m.write owner? place content).1 = place ∨
      (m.write owner? place content).1 = m.size := by
  unfold write
  split
  · next owned => exact .inl ⟨owned, rfl⟩
  · exact .inr rfl

end Put

namespace Edited

theorem refl (m : Memory α) : Edited owner? scope m m where
  size_le := Nat.le_refl _
  kept _ _ _ := rfl
  old _ _ := rfl
  new _ low high := absurd high (Nat.not_lt.2 low)

theorem owned_eq (edited : Edited owner? scope m m') (inside : page < m.size)
    (other? : Option Owner) : m'.owned other? page = m.owned other? page := by
  rw [owned, owned, edited.old page inside]

/-- An edit after another one, of pages in the scope of the first and of new ones. -/
theorem trans {later : Nat → Prop} (first : Edited owner? scope m m')
    (second : Edited owner? later m' m'')
    (within : ∀ page, later page → scope page ∨ m.size ≤ page) : Edited owner? scope m m'' where
  size_le := Nat.le_trans first.size_le second.size_le
  kept page inside free := by
    rw [second.kept page (Nat.lt_of_lt_of_le inside first.size_le), first.kept page inside free]
    intro member
    rw [first.owned_eq inside]
    exact free ((within page member).resolve_right (Nat.not_le.2 inside))
  old page inside := by
    rw [second.old page (Nat.lt_of_lt_of_le inside first.size_le), first.old page inside]
  new page low high := by
    rcases Nat.lt_or_ge page m'.size with earlier | later
    · rw [second.old page earlier]
      exact first.new page low earlier
    · exact second.new page later high

theorem mono {wider : Nat → Prop} (edited : Edited owner? scope m m')
    (within : ∀ page, scope page → wider page) : Edited owner? wider m m' :=
  (refl m).trans edited fun page member => .inl (within page member)

/-- An edit under no owner, which writes over no page, may be counted to any owner. -/
theorem of_none (edited : Edited none scope m m') : Edited owner? scope m m' where
  size_le := edited.size_le
  kept page inside _ := edited.kept page inside fun _ => rfl
  old := edited.old
  new page low high := .inr ((edited.new page low high).elim id id)

end Edited

theorem add_edited (m : Memory α) (content : Content α) :
    Edited owner? scope m (m.add owner? content).2 where
  size_le := (m.add_put owner? content).size_le
  kept page inside _ := (m.add_put owner? content).others page inside (Nat.ne_of_lt inside)
  old page inside :=
    owner?_congr ((m.add_put owner? content).others page inside (Nat.ne_of_lt inside))
  new page low high := by
    obtain rfl : page = m.size := by
      simp only [add, size, Array.size_push] at low high
      exact Nat.le_antisymm (Nat.le_of_lt_succ high) low
    left
    simp [Memory.owner?, add, size]

theorem write_edited (m : Memory α) (place : Nat) (content : Content α) :
    Edited owner? (· = place) m (m.write owner? place content).2 := by
  unfold write
  split
  · next owned =>
    have put := write_put m owner? place content
    rw [write, if_pos owned] at put
    refine ⟨put.size_le, fun page inside free => put.others page inside ?_, ?_, ?_⟩
    · rintro rfl
      rw [free rfl] at owned
      cases owned
    · intro page inside
      by_cases here : page = place
      · subst here
        rw [Memory.owner?, put.here]
        rw [Memory.owned, Bool.and_eq_true, beq_iff_eq] at owned
        exact owned.2.symm
      · exact owner?_congr (put.others page inside here)
    · intro page low high
      simp only [size, Array.size_setIfInBounds] at low high
      exact absurd high (Nat.not_lt.2 low)
  · exact m.add_edited content

end TypedVectors.RadixArray.Memory
