import TypedVectors.Proofs.HashTrie.Nodes

/-!
True collisions, where the keys of a collision node have one hash. A collision node is made of two
keys of one hash, at the level where the first of them stood alone, and stays there. A later key of
another hash joins it when its way ends there. So collisions stay true exactly when each key that
comes after two keys of one hash is told apart from them by a key that came before.
-/
namespace TypedVectors.HashTrie

variable {β : Type}

/-- Whether the entries of every collision node have the same hash. -/
def TrueCollisions (map : HashTrie β) : Prop :=
  ∀ level entries, map.NodeAt level (.collision entries) →
    ∀ a ∈ entries, ∀ b ∈ entries, a.hash = b.hash

/-- Whether a key is told apart from each two keys of another hash that were set before it: a key
that was set before the second of them, of a hash that is not theirs, shares with them at least the
chunks that this key does. -/
def Separated (keys : List String) (key : String) : Prop :=
  ∀ before second, before ++ [second] <+: keys → hashOf key ≠ hashOf second →
    ∀ first ∈ before, first ≠ second → hashOf first = hashOf second →
      ∃ other ∈ before, hashOf other ≠ hashOf second ∧
        ∀ level, AgreeTo level (hashOf key) (hashOf second) →
          AgreeTo level (hashOf other) (hashOf second)

/-- Whether each of some keys, set in their order, is separated from those before it. -/
def ToldApart (keys : List String) : Prop :=
  ∀ before key, before ++ [key] <+: keys → Separated before key

theorem toldApart_nil : ToldApart [] := by
  intro before key made
  have := made.length_le
  simp at this

theorem toldApart_concat {keys : List String} {key : String} :
    ToldApart (keys ++ [key]) ↔ ToldApart keys ∧ Separated keys key := by
  constructor
  · intro apart
    exact ⟨fun before other made => apart before other (made.trans (List.prefix_append _ _)),
      apart keys key (List.prefix_refl _)⟩
  · rintro ⟨apart, separated⟩ before other made
    rcases List.prefix_concat_iff.1 made with last | earlier
    · obtain ⟨rfl, same⟩ := List.append_inj' last rfl
      cases same
      exact separated
    · exact apart before other earlier

/-- The one key of a path among some keys, as far down as another key makes necessary. -/
structure Lone (keys : List String) (path : List UInt32) (key : String) : Prop where
  known : key ∈ keys
  along : Along path (hashOf key)
  only : ∀ other ∈ keys, Along path (hashOf other) → other = key
  least : ∀ front turn, path = front ++ [turn] →
    ∃ other ∈ keys, hashOf other ≠ hashOf key ∧ Along front (hashOf other)

/-- A node without foreign entries, as it comes from setting some keys in their order. -/
inductive Node.Settled (keys : List String) : List UInt32 → Node β → Prop
  | leaf {path : List UInt32} {entry : Entry β} (lone : Lone keys path entry.key) :
    Settled keys path (.leaf entry)
  | collision {path : List UInt32} {entries : List (Entry β)} {before : List String}
    {first second : String} (made : before ++ [second] <+: keys) (lone : Lone before path first)
    (apart : first ≠ second) (hashes : hashOf first = hashOf second)
    (same : ∀ entry ∈ entries, entry.hash = hashOf second) : Settled keys path (.collision entries)
  | branch {path : List UInt32} {bitmap : UInt32} {children : List (Node β)}
    (below : ∀ turn child, turn < 32 → child? bitmap children turn = some child →
      Settled keys (path ++ [turn]) child) : Settled keys path (.branch bitmap children)

/-- Whether the way of a hash ends at a collision node with an entry of another hash. -/
inductive Node.Absorbs (hash : UInt32) : (level : Nat) → Node β → Prop
  | collision {level : Nat} {entries : List (Entry β)} {entry : Entry β}
    (member : entry ∈ entries) (foreign : entry.hash ≠ hash) :
    Absorbs hash level (.collision entries)
  | branch {level : Nat} {bitmap : UInt32} {children : List (Node β)} {child : Node β}
    (found : child? bitmap children (chunk hash level) = some child)
    (below : Absorbs hash (level + 1) child) : Absorbs hash level (.branch bitmap children)

/-- A node below which every collision is a true one. -/
inductive Node.Pure : Node β → Prop
  | leaf {entry : Entry β} : Pure (.leaf entry)
  | collision {entries : List (Entry β)} (same : ∀ a ∈ entries, ∀ b ∈ entries, a.hash = b.hash) :
    Pure (.collision entries)
  | branch {bitmap : UInt32} {children : List (Node β)}
    (below : ∀ turn child, turn < 32 → child? bitmap children turn = some child → Pure child) :
    Pure (.branch bitmap children)

variable {keys : List String} {path : List UInt32} {node : Node β}

theorem Node.Settled.pure (settled : node.Settled keys path) : node.Pure := by
  induction settled with
  | leaf lone => exact .leaf
  | collision made lone apart hashes same =>
    exact .collision fun a left b right => (same a left).trans (same b right).symm
  | branch below ih => exact .branch ih

theorem Lone.concat {key new : String} (lone : Lone keys path key)
    (off : Along path (hashOf new) → new = key) : Lone (keys ++ [new]) path key where
  known := List.mem_append_left _ lone.known
  along := lone.along
  only other member along := by
    rcases List.mem_append.1 member with earlier | last
    · exact lone.only other earlier along
    · rw [List.mem_singleton.1 last] at along ⊢
      exact off along
  least front turn split := by
    obtain ⟨other, member, apart, along⟩ := lone.least front turn split
    exact ⟨other, List.mem_append_left _ member, apart, along⟩

/-- A key whose way leads elsewhere changes nothing. -/
theorem Node.Settled.off {new : String} (settled : node.Settled keys path)
    (elsewhere : ¬Along path (hashOf new)) : node.Settled (keys ++ [new]) path := by
  induction settled with
  | leaf lone => exact .leaf (lone.concat fun along => absurd along elsewhere)
  | collision made lone apart hashes same =>
    exact .collision (made.trans (List.prefix_append _ _)) lone apart hashes same
  | branch below ih =>
    exact .branch fun turn child low found =>
      ih turn child low found fun along => elsewhere (along_concat.1 along).1

theorem Node.Settled.exists_key (settled : node.Settled keys path) (sound : node.Sound path) :
    ∃ key ∈ keys, Along path (hashOf key) := by
  induction sound with
  | leaf placed =>
    cases settled with
    | leaf lone => exact ⟨_, lone.known, lone.along⟩
  | collision several placed distinct =>
    cases settled with
    | collision made lone apart hashes same =>
      exact ⟨_, made.subset (List.mem_append_left _ lone.known), lone.along⟩
  | branch low used full below ih =>
    cases settled with
    | branch settledBelow =>
      obtain ⟨child, member⟩ := List.exists_mem_of_ne_nil _ used
      obtain ⟨turn, turnLow, found⟩ := child?_of_mem full member
      have settledChild := settledBelow turn child turnLow found
      obtain ⟨key, known, along⟩ := ih turn child turnLow found settledChild
      exact ⟨key, known, (along_concat.1 along).1⟩

/-- Of two keys on a path each is the one key below the chunk that tells them apart. -/
theorem lone_apart {key other : String} (known : key ∈ keys) (otherKnown : other ∈ keys)
    (along : Along path (hashOf key)) (otherAlong : Along path (hashOf other))
    (differ : chunk (hashOf key) path.length ≠ chunk (hashOf other) path.length)
    (only : ∀ third ∈ keys, Along path (hashOf third) → third = key ∨ third = other) :
    Lone keys (path ++ [chunk (hashOf key) path.length]) key where
  known := known
  along := along_concat.2 ⟨along, rfl⟩
  only third member way := by
    obtain ⟨front, turned⟩ := along_concat.1 way
    rcases only third member front with same | rfl
    · exact same
    · exact absurd turned.symm differ
  least front turn split := by
    obtain rfl : path = front := List.append_inj_left' split (by simp)
    exact ⟨other, otherKnown, fun same => differ (by rw [same]), otherAlong⟩

theorem settled_fork {remaining : Nat} {old entry : Entry β} (oldPlaced : old.PlacedAt path)
    (placed : entry.PlacedAt path) (apart : old.hash ≠ entry.hash)
    (enough : levels ≤ remaining + path.length) (oldKnown : old.key ∈ keys)
    (known : entry.key ∈ keys)
    (only : ∀ third ∈ keys, Along path (hashOf third) → third = old.key ∨ third = entry.key) :
    (fork remaining path.length old entry).Settled keys path := by
  have shallow := ((along_iff_agreeTo oldPlaced.along).1 placed.along).lt_levels apart
  induction remaining generalizing path with
  | zero => omega
  | succ remaining ih =>
    have oldLow := chunk_lt old.hash path.length
    have newLow := chunk_lt entry.hash path.length
    rw [fork]
    split
    · next same =>
      have oldDeeper := oldPlaced.concat
      have deeper := placed.concat
      rw [← same] at deeper
      have below := ih oldDeeper deeper
        (by
          rw [List.length_append, List.length_singleton]
          omega)
        (fun third member way => only third member (along_concat.1 way).1)
        (((along_iff_agreeTo oldDeeper.along).1 deeper.along).lt_levels apart)
      rw [List.length_append, List.length_singleton] at below
      refine .branch fun turn child low found => ?_
      rw [child?_single oldLow low] at found
      split at found
      · next here =>
        cases found
        rwa [here]
      · cases found
    -- Each of the two leaves stands as deep as the other makes necessary.
    · next differ =>
      have oldAlong := oldPlaced.hashed ▸ oldPlaced.along
      have along := placed.hashed ▸ placed.along
      rw [oldPlaced.hashed, placed.hashed] at differ
      refine .branch fun turn child low found => ?_
      rw [child?_pair oldLow newLow low (by rwa [oldPlaced.hashed, placed.hashed])] at found
      split at found
      · next here =>
        cases found
        rw [here, placed.hashed]
        exact .leaf (lone_apart known oldKnown along oldAlong (Ne.symm differ)
          fun third member way => (only third member way).symm)
      · split at found
        · next here =>
          cases found
          rw [here, oldPlaced.hashed]
          exact .leaf (lone_apart oldKnown known oldAlong along differ only)
        · cases found

/-- Whether all keys of a path are found in the node that it leads to. -/
def Node.Complete (keys : List String) (path : List UInt32) (node : Node β) : Prop :=
  ∀ key ∈ keys, Along path (hashOf key) → (node.valueAt path.length key).isSome

section Branch

variable {bitmap : UInt32} {children : List (Node β)}

theorem Node.Complete.exists_child (complete : (Node.branch bitmap children).Complete keys path)
    {key : String} (known : key ∈ keys) (along : Along path (hashOf key)) :
    ∃ child, child? bitmap children (chunk (hashOf key) path.length) = some child ∧
      (child.valueAt (path.length + 1) key).isSome := by
  have found := complete key known along
  rw [valueAt_branch] at found
  cases onWay : child? bitmap children (chunk (hashOf key) path.length) with
  | some child =>
    rw [onWay] at found
    exact ⟨child, rfl, found⟩
  | none =>
    rw [onWay] at found
    cases found

theorem Node.Complete.child (complete : (Node.branch bitmap children).Complete keys path)
    {turn : UInt32} {child : Node β} (found : child? bitmap children turn = some child) :
    child.Complete keys (path ++ [turn]) := by
  intro key known along
  obtain ⟨front, rfl⟩ := along_concat.1 along
  obtain ⟨other, onWay, value⟩ := complete.exists_child known front
  cases found.symm.trans onWay
  rwa [List.length_append, List.length_singleton]

/-- A key whose way leaves the trie at a branch node is the first one to go there. -/
theorem Node.Complete.lone (complete : (Node.branch bitmap children).Complete keys path)
    (settled : (Node.branch bitmap children).Settled keys path)
    (sound : (Node.branch bitmap children).Sound path) {new : String}
    (along : Along path (hashOf new))
    (absent : child? bitmap children (chunk (hashOf new) path.length) = none) :
    Lone (keys ++ [new]) (path ++ [chunk (hashOf new) path.length]) new where
  known := List.mem_concat_self
  along := along_concat.2 ⟨along, rfl⟩
  only other member way := by
    rcases List.mem_append.1 member with earlier | last
    · obtain ⟨front, turned⟩ := along_concat.1 way
      obtain ⟨child, onWay, -⟩ := complete.exists_child earlier front
      rw [turned, absent] at onWay
      cases onWay
    · exact List.mem_singleton.1 last
  least front turn split := by
    obtain rfl : path = front := List.append_inj_left' split (by simp)
    obtain ⟨other, known, otherAlong⟩ := settled.exists_key sound
    obtain ⟨child, onWay, -⟩ := complete.exists_child known otherAlong
    refine ⟨other, List.mem_append_left _ known, fun same => ?_, otherAlong⟩
    rw [same, absent] at onWay
    cases onWay

end Branch

theorem Lone.insert {old entry : Entry β} (lone : Lone keys path old.key)
    (oldPlaced : old.PlacedAt path) (placed : entry.PlacedAt path) :
    ((Node.leaf old).insert entry path.length).1.Settled (keys ++ [entry.key]) path := by
  rw [Node.insert]
  split
  · next hashes =>
    split
    · next same =>
      rw [same] at lone
      exact .leaf (lone.concat fun _ => rfl)
    · next apart =>
      rw [oldPlaced.hashed, placed.hashed] at hashes
      refine .collision (List.prefix_refl _) lone apart hashes ?_
      simp [oldPlaced.hashed, placed.hashed, hashes]
  · next apart =>
    refine settled_fork oldPlaced placed apart (Nat.le_add_right _ _)
      (List.mem_append_left _ lone.known) List.mem_concat_self fun third member way => ?_
    rcases List.mem_append.1 member with earlier | last
    · exact .inl (lone.only third earlier way)
    · exact .inr (List.mem_singleton.1 last)

theorem Node.Settled.collision_insert {entries : List (Entry β)} {entry : Entry β}
    (settled : (Node.collision entries).Settled keys path) (several : 2 ≤ entries.length)
    (joins : ¬(Node.collision entries).Absorbs entry.hash path.length) :
    (Node.collision (insertEntry entry entries).1).Settled (keys ++ [entry.key]) path := by
  cases settled with
  | @collision _ _ _ _ second made lone apart hashes same =>
    obtain ⟨old, member⟩ := List.exists_mem_of_length_pos (Nat.lt_of_lt_of_le Nat.two_pos several)
    have hash : entry.hash = hashOf second := by
      by_contra foreign
      exact joins (.collision member (by rwa [same old member, ne_comm]))
    refine .collision (made.trans (List.prefix_append _ _)) lone apart hashes ?_
    intro other inside
    rcases mem_insertEntry inside with rfl | earlier
    · exact hash
    · exact same other earlier

/-- Setting a key that no foreign collision absorbs leaves the trie as the keys determine it. -/
theorem Node.Settled.insert {entry : Entry β} (settled : node.Settled keys path)
    (sound : node.Sound path) (placed : entry.PlacedAt path) (complete : node.Complete keys path)
    (joins : ¬node.Absorbs entry.hash path.length) :
    (node.insert entry path.length).1.Settled (keys ++ [entry.key]) path := by
  induction sound with
  | leaf oldPlaced =>
    cases settled with
    | leaf lone => exact lone.insert oldPlaced placed
  | collision several oldPlaced distinct =>
    rw [Node.insert]
    exact settled.collision_insert several joins
  | @branch path bitmap children low used full below ih =>
    have sound := Node.Sound.branch low used full below
    obtain ⟨newBitmap, newChildren, inserted, changed⟩ := sound.insert_branch entry
    rw [inserted]
    refine .branch fun turn child turnLow found => ?_
    rw [changed turn turnLow] at found
    split at found
    · next here =>
      cases found
      cases onWay : child? bitmap children turn with
      | some child =>
        have deeper := placed.concat
        rw [← here] at deeper
        have length : (path ++ [turn]).length = path.length + 1 := by simp
        have settledChild : child.Settled keys (path ++ [turn]) := by
          cases settled with
          | branch settledBelow => exact settledBelow turn child turnLow onWay
        have childJoins : ¬child.Absorbs entry.hash (path ++ [turn]).length := by
          rw [length]
          exact fun absorbed => joins (.branch (here ▸ onWay) absorbed)
        have after :=
          ih turn child turnLow onWay settledChild deeper (complete.child onWay) childJoins
        rwa [length] at after
      | none =>
        rw [here, placed.hashed] at onWay ⊢
        exact .leaf (complete.lone settled sound (placed.hashed ▸ placed.along) onWay)
    · next elsewhere =>
      cases settled with
      | branch settledBelow =>
        refine (settledBelow turn child turnLow found).off fun along => elsewhere ?_
        rw [placed.hashed]
        exact (along_concat.1 along).2.symm

/-- A key that is separated from those before it is absorbed by none of their collisions. -/
theorem Node.Settled.not_absorbs {key : String} (settled : node.Settled keys path)
    (along : Along path (hashOf key)) (separated : Separated keys key) :
    ¬node.Absorbs (hashOf key) path.length := by
  induction settled with
  | leaf lone =>
    intro absorbed
    cases absorbed
  | @collision path entries before first second made lone apart hashes same =>
    intro absorbed
    cases absorbed with
    | collision member foreign =>
      rw [same _ member] at foreign
      obtain ⟨other, known, differ, further⟩ :=
        separated before second made foreign.symm first lone.known apart hashes
      have secondAlong : Along path (hashOf second) := hashes ▸ lone.along
      have agree := further path.length ((along_iff_agreeTo along).1 secondAlong)
      rw [lone.only other known ((along_iff_agreeTo secondAlong).2 agree.symm)] at differ
      exact differ hashes
  | branch below ih =>
    intro absorbed
    cases absorbed with
    | branch found absorbed =>
      refine ih _ _ (chunk_lt _ _) found (along_concat.2 ⟨along, rfl⟩) ?_
      rwa [List.length_append, List.length_singleton]

/-- Two keys of one hash share a collision node, which was made when the second of its hash was set.
It absorbs each other hash that goes as far. -/
theorem Node.Settled.exists_collision {a b : String} (settled : node.Settled keys path)
    (sound : node.Sound path) (complete : node.Complete keys path) (aKnown : a ∈ keys)
    (bKnown : b ∈ keys) (apart : a ≠ b) (hashes : hashOf a = hashOf b)
    (along : Along path (hashOf a)) :
    ∃ way before first second, path.length ≤ way.length ∧ Along way (hashOf a) ∧
      before ++ [second] <+: keys ∧ Lone before way first ∧ hashOf first = hashOf a ∧
      ∀ hash, AgreeTo way.length hash (hashOf a) → hash ≠ hashOf a →
        node.Absorbs hash path.length := by
  induction settled with
  | leaf lone =>
    have same := (lone.only a aKnown along).trans (lone.only b bKnown (hashes ▸ along)).symm
    exact absurd same apart
  | @collision path entries before first second made lone _ firstHash same =>
    have found := complete a aKnown along
    rw [valueAt_collision, Option.isSome_map, List.find?_isSome] at found
    obtain ⟨entry, member, key⟩ := found
    have hash : entry.hash = hashOf a := by
      cases sound with
      | collision several placed distinct =>
        rw [(placed entry member).hashed, eq_of_beq key]
    refine ⟨path, before, first, second, Nat.le_refl _, along, made, lone, ?_, ?_⟩
    · rw [firstHash, ← same entry member, hash]
    · intro other _ foreign
      exact .collision member (by rwa [hash, ne_comm])
  | @branch path bitmap children settledBelow ih =>
    obtain ⟨child, onWay, -⟩ := complete.exists_child aKnown along
    have below : child.Sound (path ++ [chunk (hashOf a) path.length]) := by
      cases sound with
      | branch low used full below => exact below _ child (chunk_lt _ _) onWay
    obtain ⟨way, before, first, second, long, wayAlong, made, lone, hash, absorbs⟩ :=
      ih _ child (chunk_lt _ _) onWay below (complete.child onWay) (along_concat.2 ⟨along, rfl⟩)
    rw [List.length_append, List.length_singleton] at long absorbs
    refine ⟨way, before, first, second, Nat.le_of_succ_le long, wayAlong, made, lone, hash, ?_⟩
    intro other agree foreign
    refine .branch ?_ (absorbs other agree foreign)
    rw [agree path.length long]
    exact onWay

/-- Keys of which one stands alone on a path end before the second of two keys on it. -/
theorem Lone.within {before earlier : List String} {key first second later : String}
    (lone : Lone earlier path key) (formed : earlier ++ [later] <+: keys)
    (made : before ++ [second] <+: keys) (firstKnown : first ∈ before) (apart : first ≠ second)
    (firstAlong : Along path (hashOf first)) (along : Along path (hashOf second)) :
    earlier <+: before := by
  have earlierKeys : earlier <+: keys := (List.prefix_append _ _).trans formed
  have beforeKeys : before <+: keys := (List.prefix_append _ _).trans made
  refine List.prefix_of_prefix_length_le earlierKeys beforeKeys ?_
  by_contra late
  have both : before ++ [second] <+: earlier := by
    refine List.prefix_of_prefix_length_le made earlierKeys ?_
    rw [List.length_append, List.length_singleton]
    omega
  have secondKnown := both.subset List.mem_concat_self
  have firstEarlier := both.subset (List.mem_append_left _ firstKnown)
  exact apart
    ((lone.only first firstEarlier firstAlong).trans (lone.only second secondKnown along).symm)

/-- A key that no collision of the keys before it absorbs is separated from them. -/
theorem Node.Settled.separated {key : String} (settled : node.Settled keys [])
    (sound : node.Sound []) (complete : node.Complete keys [])
    (joins : ¬node.Absorbs (hashOf key) 0) : Separated keys key := by
  intro before second made foreign first firstKnown apart hashes
  have known := made.subset
  obtain ⟨way, earlier, one, two, -, along, formed, lone, hash, absorbs⟩ :=
    settled.exists_collision sound complete (known (List.mem_append_left _ firstKnown))
      (known List.mem_concat_self) apart hashes (along_nil _)
  rw [hashes] at along hash absorbs
  have apartFrom : ¬AgreeTo way.length (hashOf key) (hashOf second) :=
    fun agree => joins (absorbs _ agree foreign)
  -- The collision was not made after the second of the two keys was set.
  have within := lone.within formed made firstKnown apart (hashes.symm ▸ along) along
  rcases List.eq_nil_or_concat way with rfl | ⟨front, turn, last⟩
  · exact absurd (fun _ inside => absurd inside (Nat.not_lt_zero _)) apartFrom
  · rw [List.concat_eq_append] at last
    subst last
    obtain ⟨other, otherKnown, differ, otherAlong⟩ := lone.least front turn rfl
    rw [hash] at differ
    refine ⟨other, within.subset otherKnown, differ, fun level agree => ?_⟩
    have short : level < (front ++ [turn]).length := by
      by_contra long
      exact apartFrom (agree.mono (Nat.not_lt.1 long))
    rw [List.length_append, List.length_singleton] at short
    have shared := (along_iff_agreeTo otherAlong).1 (along_concat.1 along).1
    exact shared.mono (Nat.le_of_lt_succ short)

/-- If the collisions are true ones after an insertion, they were before, and none of them absorbed
the entry. -/
theorem Node.Sound.pure_of_insert {entry : Entry β} (sound : node.Sound path)
    (placed : entry.PlacedAt path) (pure : (node.insert entry path.length).1.Pure) :
    node.Pure ∧ ¬node.Absorbs entry.hash path.length := by
  induction sound with
  | leaf oldPlaced => exact ⟨.leaf, fun absorbed => by cases absorbed⟩
  | @collision path entries several oldPlaced distinct =>
    rw [Node.insert] at pure
    cases pure with
    | collision same =>
      obtain ⟨inserted, kept⟩ := insertEntry_mem entry entries
      -- An entry of another hash has another key and is kept.
      have hashes : ∀ old ∈ entries, old.hash = entry.hash := by
        intro old member
        by_cases key : old.key = entry.key
        · rw [(oldPlaced old member).hashed, placed.hashed, key]
        · exact same old (kept old member key) entry inserted
      refine ⟨.collision fun a left b right => (hashes a left).trans (hashes b right).symm, ?_⟩
      intro absorbed
      cases absorbed with
      | collision member foreign => exact foreign (hashes _ member)
  | @branch path bitmap children low used full below ih =>
    obtain ⟨newBitmap, newChildren, inserted, changed⟩ :=
      (Node.Sound.branch low used full below).insert_branch entry
    rw [inserted] at pure
    cases pure with
    | branch pureBelow =>
      have length : ∀ turn, (path ++ [turn]).length = path.length + 1 := by simp
      have onWay : ∀ child, child? bitmap children (chunk entry.hash path.length) = some child →
          child.Pure ∧ ¬child.Absorbs entry.hash (path.length + 1) := by
        intro child found
        have after := changed _ (chunk_lt entry.hash path.length)
        rw [if_pos rfl, found, Option.map_some, Option.getD_some] at after
        have pureChild := pureBelow _ _ (chunk_lt _ _) after
        rw [← length (chunk entry.hash path.length)] at pureChild ⊢
        exact ih _ child (chunk_lt _ _) found placed.concat pureChild
      constructor
      · refine .branch fun turn child turnLow found => ?_
        by_cases here : turn = chunk entry.hash path.length
        · exact (onWay child (here ▸ found)).1
        · have after := changed turn turnLow
          rw [if_neg here, found] at after
          exact pureBelow turn child turnLow after
      · intro absorbed
        cases absorbed with
        | branch found absorbed => exact (onWay _ found).2 absorbed

theorem trueCollisions_iff {map : HashTrie β} (sound : map.Sound) :
    map.TrueCollisions ↔ ∀ root, map.root? = some root → root.Pure := by
  constructor
  · intro collisions root found
    have pure : ∀ {path : List UInt32} {node : Node β}, node.Sound path →
        map.NodeAt path.length node → node.Pure := by
      intro path node nodeSound reached
      induction nodeSound with
      | leaf placed => exact .leaf
      | collision several placed distinct => exact .collision (collisions _ _ reached)
      | branch low used full below ih =>
        refine .branch fun turn child turnLow here => ih turn child turnLow here ?_
        rw [List.length_append, List.length_singleton]
        exact .child reached (mem_of_child? here)
    exact pure (sound root found) (.root found)
  · intro pure level entries reached
    have nodePure : ∀ {level : Nat} {node : Node β}, map.NodeAt level node → node.Pure := by
      intro level node reached
      induction reached with
      | root found => exact pure _ found
      | child parent member ih =>
        obtain ⟨path, -, parentSound⟩ := sound.nodeAt parent
        cases parentSound with
        | branch low used full below =>
          obtain ⟨turn, turnLow, found⟩ := child?_of_mem full member
          cases ih with
          | branch pureBelow => exact pureBelow turn _ turnLow found
    cases nodePure reached with
    | collision same => exact same

/-- The keys that were set are the keys that are found. -/
theorem complete_ofEntries {entries : List (String × β)} {root : Node β}
    (found : (ofEntries entries).root? = some root) :
    root.Complete (entries.map Prod.fst) [] := by
  intro key known _
  have value := (isSome_get?_ofEntries entries key).2 (by simpa using known)
  rwa [HashTrie.get?, found] at value

theorem root?_ofEntries_concat (entries : List (String × β)) (key : String) (value : β) :
    (ofEntries (entries ++ [(key, value)])).root? =
      some (((ofEntries entries).root?.map
        fun root => (root.insert ⟨key, hashOf key, value⟩ 0).1).getD
          (.leaf ⟨key, hashOf key, value⟩)) := by
  rw [ofEntries_concat, root?_set]

theorem settled_ofEntries {entries : List (String × β)} (apart : ToldApart (entries.map Prod.fst)) :
    ∀ root, (ofEntries entries).root? = some root → root.Settled (entries.map Prod.fst) [] := by
  induction entries using List.reverseRecOn with
  | nil =>
    intro root found
    cases found
  | append_singleton entries entry ih =>
    obtain ⟨key, value⟩ := entry
    intro root made
    rw [List.map_append, List.map_singleton] at apart ⊢
    obtain ⟨earlier, separated⟩ := toldApart_concat.1 apart
    rw [root?_ofEntries_concat] at made
    cases found : (ofEntries entries).root? with
    | none =>
      rw [found] at made
      cases made
      have first : entries = [] := by
        rcases List.eq_nil_or_concat entries with nil | ⟨front, last, rfl⟩
        · exact nil
        · rw [List.concat_eq_append, root?_ofEntries_concat] at found
          cases found
      subst first
      exact .leaf ⟨by simp, along_nil _, by simp, by simp⟩
    | some before =>
      rw [found] at made
      cases made
      have settled := ih earlier before found
      have placed := placedAt_root key value
      exact settled.insert (sound_ofEntries entries before found) placed (complete_ofEntries found)
        (settled.not_absorbs (along_nil _) separated)

theorem toldApart_of_pure {entries : List (String × β)}
    (pure : ∀ root, (ofEntries entries).root? = some root → root.Pure) :
    ToldApart (entries.map Prod.fst) := by
  induction entries using List.reverseRecOn with
  | nil => exact toldApart_nil
  | append_singleton entries entry ih =>
    obtain ⟨key, value⟩ := entry
    rw [List.map_append, List.map_singleton, toldApart_concat]
    have after := pure _ (root?_ofEntries_concat entries key value)
    have kept : ∀ root, (ofEntries entries).root? = some root →
        root.Pure ∧ ¬root.Absorbs (hashOf key) 0 := by
      intro root found
      rw [found] at after
      exact (sound_ofEntries entries root found).pure_of_insert (placedAt_root key value) after
    have earlier := ih fun root found => (kept root found).1
    refine ⟨earlier, ?_⟩
    cases found : (ofEntries entries).root? with
    | none =>
      intro before second made
      have known := (isSome_get?_ofEntries entries second).2 (by
        rw [List.mem_toFinset]
        exact made.subset List.mem_concat_self)
      rw [HashTrie.get?, found] at known
      cases known
    | some root =>
      exact (settled_ofEntries earlier root found).separated (sound_ofEntries entries root found)
        (complete_ofEntries found) (kept root found).2

/-- The collisions of a trie are true exactly when each key that was set is told apart from the
collisions among the keys before it. -/
theorem collisions_true_iff (entries : List (String × β)) :
    (ofEntries entries).TrueCollisions ↔ ToldApart (entries.map Prod.fst) := by
  rw [trueCollisions_iff (sound_ofEntries entries)]
  exact ⟨toldApart_of_pure, fun apart root found => (settled_ofEntries apart root found).pure⟩

/-- Two keys of one hash stand below the chunk that tells them apart from `B`. The third key that
has this chunk joins their collision, although its hash is another one. -/
theorem collision_of_different_hashes :
    ¬(ofEntries [("B", 0), ("A", 1), ("Ł", 2), ("name19", 3)]).TrueCollisions := by
  have differ : hashOf "A" ≠ hashOf "name19" := by decide +kernel
  obtain ⟨bitmap, leaf, root⟩ : ∃ bitmap leaf,
      (ofEntries [("B", 0), ("A", 1), ("Ł", 2), ("name19", 3)]).root? =
        some (.branch bitmap [leaf, .collision [⟨"A", hashOf "A", 1⟩, ⟨"Ł", hashOf "Ł", 2⟩,
          ⟨"name19", hashOf "name19", 3⟩]]) := ⟨_, _, rfl⟩
  intro collisions
  have same := collisions 1 _
    (.child (.root root) (List.mem_cons_of_mem _ (List.mem_singleton_self _)))
  exact differ (same ⟨"A", hashOf "A", 1⟩ (by simp) ⟨"name19", hashOf "name19", 3⟩ (by simp))

end TypedVectors.HashTrie
