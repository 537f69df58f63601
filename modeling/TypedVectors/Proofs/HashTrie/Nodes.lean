import TypedVectors.Proofs.HashTrie.Map

/-!
The nodes of a trie, whatever was set. A branch node has one child for each bit of its bitmap, in
ascending order, every entry stands where the chunks of its hash lead, and no key is stored twice.
Two entries are told apart by the seventh chunk at the latest, so that no branch node stands deeper.
-/
namespace TypedVectors.HashTrie

variable {β : Type}

mutual

/-- The entries in a node from left to right. -/
def Node.entries : Node β → List (Entry β)
  | .leaf entry => [entry]
  | .collision entries => entries
  | .branch _ children => entriesIn children

def entriesIn : List (Node β) → List (Entry β)
  | [] => []
  | child :: rest => child.entries ++ entriesIn rest

end

/-- The entries of a map. -/
def allEntries (map : HashTrie β) : List (Entry β) := (map.root?.map Node.entries).getD []

/-- A node of a map and the level it stands at. -/
inductive NodeAt (map : HashTrie β) : Nat → Node β → Prop
  | root {node : Node β} (found : map.root? = some node) : NodeAt map 0 node
  | child {level : Nat} {bitmap : UInt32} {children : List (Node β)} {node : Node β}
    (parent : NodeAt map level (.branch bitmap children)) (member : node ∈ children) :
    NodeAt map (level + 1) node

/-- The calls of `fork` that inserting an entry in a node makes, with what is left of its levels,
the level and the two entries of the call. -/
inductive Node.Forks (entry : Entry β) :
    (level : Nat) → Node β → (remaining deep : Nat) → Entry β → Entry β → Prop
  | first {level : Nat} {old : Entry β} (apart : old.hash ≠ entry.hash) :
    Forks entry level (.leaf old) levels level old entry
  | inside {level remaining deep : Nat} {bitmap : UInt32} {children : List (Node β)}
    {child : Node β} {a b : Entry β} (present : Bitmap.has bitmap (chunk entry.hash level))
    (found : children[Bitmap.slot bitmap (chunk entry.hash level)]? = some child)
    (call : Forks entry (level + 1) child remaining deep a b) :
    Forks entry level (.branch bitmap children) remaining deep a b
  | again {level remaining deep : Nat} {node : Node β} {a b : Entry β}
    (call : Forks entry level node (remaining + 1) deep a b)
    (same : chunk a.hash deep = chunk b.hash deep) :
    Forks entry level node remaining (deep + 1) a b

/-- The calls of `fork` that setting a key makes. -/
def Forks (map : HashTrie β) (key : String) (value : β) (remaining deep : Nat) (a b : Entry β) :
    Prop :=
  ∃ root, map.root? = some root ∧ root.Forks ⟨key, hashOf key, value⟩ 0 remaining deep a b

/-- A node that tells two entries apart: branches for the chunks that they share, and below the
last of them the two leaves in their order. -/
inductive Forked (a b : Entry β) : (level last : Nat) → Node β → Prop
  | apart {level : Nat} (differ : chunk a.hash level ≠ chunk b.hash level) :
    Forked a b level level
      (.branch (Bitmap.bit (chunk a.hash level) ||| Bitmap.bit (chunk b.hash level))
        (if chunk a.hash level < chunk b.hash level then [.leaf a, .leaf b]
        else [.leaf b, .leaf a]))
  | shared {level last : Nat} {node : Node β} (same : chunk a.hash level = chunk b.hash level)
    (below : Forked a b (level + 1) last node) :
    Forked a b level last (.branch (Bitmap.bit (chunk a.hash level)) [node])

/-- A branch node as it stands at a level of a trie. -/
structure Branching (level : Nat) (bitmap : UInt32) (children : List (Node β)) : Prop where
  used : children ≠ []
  full : children.length = Bitmap.size bitmap
  shallow : level ≤ 6
  /-- The children stand in the order of the chunks that lead to them. -/
  ordered : List.Forall₂ (fun (turn : Nat) (child : Node β) =>
    ∀ entry ∈ child.entries, (chunk entry.hash level).toNat = turn)
      (Bitmap.branches bitmap) children
  /-- The number of bits below the bit of a chunk is the place of its child. -/
  slot : ∀ turn < 32, Bitmap.has bitmap turn →
    ∃ child, children[Bitmap.slot bitmap turn]? = some child ∧
      ∀ entry ∈ child.entries, entry.hash = hashOf entry.key ∧ chunk entry.hash level = turn

/-- What holds of all nodes of a map. -/
structure Regular (map : HashTrie β) : Prop where
  branches : ∀ level bitmap children, map.NodeAt level (.branch bitmap children) →
    Branching level bitmap children
  collisions : ∀ level entries, map.NodeAt level (.collision entries) → 2 ≤ entries.length
  hashed : ∀ entry ∈ map.allEntries, entry.hash = hashOf entry.key
  distinct : (map.allEntries.map Entry.key).Nodup
  /-- Entries are forked that differ, but not above the level, and they are told apart in time. -/
  forks : ∀ key value remaining deep a b, map.Forks key value remaining deep a b →
    a.hash ≠ b.hash ∧ AgreeTo deep a.hash b.hash ∧
      ∃ last, deep ≤ last ∧ last ≤ 6 ∧ Forked a b deep last (fork remaining deep a b)

theorem entriesIn_eq (children : List (Node β)) :
    entriesIn children = children.flatMap Node.entries := by
  induction children with
  | nil => rfl
  | cons child rest ih => rw [entriesIn, List.flatMap_cons, ih]

theorem Node.entries_branch (bitmap : UInt32) (children : List (Node β)) :
    (Node.branch bitmap children).entries = children.flatMap Node.entries := by
  rw [Node.entries, entriesIn_eq]

theorem exists_turn {bitmap : UInt32} {children : List (Node β)} {index : Nat} {child : Node β}
    (full : children.length = Bitmap.size bitmap) (found : children[index]? = some child) :
    ∃ turn, turn < 32 ∧ (Bitmap.branches bitmap)[index]? = some turn.toNat ∧
      child? bitmap children turn = some child := by
  obtain ⟨inside, -⟩ := List.getElem?_eq_some_iff.1 found
  rw [full, ← Bitmap.length_branches] at inside
  obtain ⟨turn, low, value, present, slot⟩ :=
    Bitmap.exists_branch (List.getElem?_eq_getElem inside)
  refine ⟨turn, low, ?_, ?_⟩
  · rw [value, List.getElem?_eq_getElem inside]
  · rw [child?_eq_getElem? children present, slot, found]

theorem child?_of_mem {bitmap : UInt32} {children : List (Node β)} {child : Node β}
    (full : children.length = Bitmap.size bitmap) (member : child ∈ children) :
    ∃ turn, turn < 32 ∧ child? bitmap children turn = some child := by
  obtain ⟨index, found⟩ := List.mem_iff_getElem?.1 member
  obtain ⟨turn, low, -, child⟩ := exists_turn full found
  exact ⟨turn, low, child⟩

theorem mem_of_child? {bitmap : UInt32} {children : List (Node β)} {turn : UInt32} {child : Node β}
    (found : child? bitmap children turn = some child) : child ∈ children := by
  unfold child? at found
  split at found
  · exact List.mem_of_getElem? found
  · cases found

namespace Node.Sound

variable {path : List UInt32} {node : Node β} (sound : node.Sound path)
include sound

theorem placedAt : ∀ entry ∈ node.entries, entry.PlacedAt path := by
  induction sound with
  | leaf placed =>
    intro entry member
    cases List.mem_singleton.1 member
    exact placed
  | collision several placed distinct => exact placed
  | branch low used full below ih =>
    intro entry member
    rw [entries_branch] at member
    obtain ⟨child, inside, member⟩ := List.mem_flatMap.1 member
    obtain ⟨turn, turnLow, found⟩ := child?_of_mem full inside
    have deeper := ih turn child turnLow found entry member
    exact ⟨deeper.hashed, (along_concat.1 deeper.along).1⟩

theorem nodup_keys : (node.entries.map Entry.key).Nodup := by
  induction sound with
  | leaf placed => exact List.nodup_singleton _
  | collision several placed distinct => exact distinct
  | @branch path bitmap children low used full below ih =>
    rw [entries_branch, List.map_flatMap, List.nodup_flatMap]
    constructor
    · intro child member
      obtain ⟨turn, turnLow, found⟩ := child?_of_mem full member
      exact ih turn child turnLow found
    -- A key in two children has a hash that chooses both.
    · rw [List.pairwise_iff_getElem]
      intro first second firstInside secondInside before key inFirst inSecond
      obtain ⟨turn, turnLow, turnPlace, found⟩ :=
        exists_turn full (List.getElem?_eq_getElem firstInside)
      obtain ⟨other, otherLow, otherPlace, otherFound⟩ :=
        exists_turn full (List.getElem?_eq_getElem secondInside)
      obtain ⟨a, aMember, rfl⟩ := List.mem_map.1 inFirst
      obtain ⟨b, bMember, same⟩ := List.mem_map.1 inSecond
      have aPlaced := (below turn _ turnLow found).placedAt a aMember
      have bPlaced := (below other _ otherLow otherFound).placedAt b bMember
      have hashes : a.hash = b.hash := by rw [aPlaced.hashed, bPlaced.hashed, same]
      have turns : turn = other := by
        rw [← (along_concat.1 aPlaced.along).2, ← (along_concat.1 bPlaced.along).2, hashes]
      have inside : first < (Bitmap.branches bitmap).length :=
        (List.getElem?_eq_some_iff.1 turnPlace).1
      rw [turns] at turnPlace
      have places := (List.getElem?_inj inside (Bitmap.nodup_branches bitmap)).1
        (turnPlace.trans otherPlace.symm)
      exact Nat.ne_of_lt before places

theorem branching {bitmap : UInt32} {children : List (Node β)}
    (branch : node = .branch bitmap children) : Branching path.length bitmap children := by
  subst branch
  cases sound with
  | branch low used full below =>
    refine ⟨used, full, Nat.le_of_lt_succ low, ?_, ?_⟩
    · rw [List.forall₂_iff_get]
      refine ⟨(Bitmap.length_branches bitmap).trans full.symm, ?_⟩
      intro index inside childInside entry member
      obtain ⟨turn, turnLow, place, found⟩ :=
        exists_turn full (List.getElem?_eq_getElem childInside)
      have placed := (below turn _ turnLow found).placedAt entry member
      rw [(along_concat.1 placed.along).2]
      exact ((List.getElem?_eq_some_iff.1 place).2).symm
    · intro turn turnLow present
      obtain ⟨child, found⟩ := exists_child full turnLow present
      refine ⟨child, (child?_eq_getElem? children present).symm.trans found, ?_⟩
      intro entry member
      have placed := (below turn child turnLow found).placedAt entry member
      exact ⟨placed.hashed, (along_concat.1 placed.along).2⟩

end Node.Sound

/-- What a call of `fork` may rely on: its entries differ, not above its level, and there are levels
left for all chunks. -/
theorem Node.Sound.forked {path : List UInt32} {node : Node β} {entry a b : Entry β}
    {level remaining deep : Nat} (call : node.Forks entry level remaining deep a b)
    (sound : node.Sound path) (placed : entry.PlacedAt path) (depth : path.length = level) :
    a.hash ≠ b.hash ∧ AgreeTo deep a.hash b.hash ∧ levels ≤ remaining + deep := by
  induction call generalizing path with
  | first apart =>
    cases sound with
    | leaf oldPlaced =>
      refine ⟨apart, ?_, Nat.le_add_right _ _⟩
      rw [← depth]
      exact (along_iff_agreeTo oldPlaced.along).1 placed.along
  | inside present found call ih =>
    cases sound with
    | branch low used full below =>
      rw [← child?_eq_getElem? _ present] at found
      subst depth
      exact ih (below _ _ (chunk_lt _ _) found) placed.concat (by simp)
  | again call same ih =>
    obtain ⟨apart, agree, enough⟩ := ih sound placed depth
    exact ⟨apart, agree.succ same, by omega⟩

/-- Forking never runs out of levels. -/
theorem forked_fork {remaining level : Nat} {a b : Entry β} (apart : a.hash ≠ b.hash)
    (agree : AgreeTo level a.hash b.hash) (enough : levels ≤ remaining + level) :
    ∃ last, level ≤ last ∧ last ≤ 6 ∧ Forked a b level last (fork remaining level a b) := by
  have shallow := agree.lt_levels apart
  induction remaining generalizing level with
  | zero => omega
  | succ remaining ih =>
    rw [fork]
    split
    · next same =>
      have deeper := agree.succ same
      obtain ⟨last, reached, low, below⟩ := ih deeper (by omega) (deeper.lt_levels apart)
      exact ⟨last, by omega, low, .shared same below⟩
    · next differ => exact ⟨level, Nat.le_refl level, Nat.le_of_lt_succ shallow, .apart differ⟩

theorem Sound.nodeAt {map : HashTrie β} (sound : map.Sound) {level : Nat} {node : Node β}
    (reached : map.NodeAt level node) : ∃ path, path.length = level ∧ node.Sound path := by
  induction reached with
  | root found => exact ⟨[], rfl, sound _ found⟩
  | child parent member ih =>
    obtain ⟨path, length, parentSound⟩ := ih
    cases parentSound with
    | branch low used full below =>
      obtain ⟨turn, turnLow, found⟩ := child?_of_mem full member
      exact ⟨path ++ [turn], by simp [length], below turn _ turnLow found⟩

theorem Sound.regular {map : HashTrie β} (sound : map.Sound) : map.Regular where
  branches level bitmap children reached := by
    obtain ⟨path, rfl, nodeSound⟩ := sound.nodeAt reached
    exact nodeSound.branching rfl
  collisions level entries reached := by
    obtain ⟨path, rfl, nodeSound⟩ := sound.nodeAt reached
    cases nodeSound with
    | collision several placed distinct => exact several
  hashed entry member := by
    unfold allEntries at member
    cases found : map.root? with
    | none => simp [found] at member
    | some root =>
      rw [found] at member
      exact ((sound root found).placedAt entry member).hashed
  distinct := by
    unfold allEntries
    cases found : map.root? with
    | none => exact List.nodup_nil
    | some root => exact (sound root found).nodup_keys
  forks key value remaining deep a b call := by
    obtain ⟨root, found, call⟩ := call
    obtain ⟨apart, agree, enough⟩ :=
      Node.Sound.forked call (sound root found) (placedAt_root key value) rfl
    exact ⟨apart, agree, forked_fork apart agree enough⟩

/-- Whatever keys are set, in whatever order and with whatever hashes, the trie is regular. -/
theorem regular_ofEntries (entries : List (String × β)) : (ofEntries entries).Regular :=
  (sound_ofEntries entries).regular

end TypedVectors.HashTrie
