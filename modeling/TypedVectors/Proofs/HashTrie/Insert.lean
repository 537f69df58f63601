import TypedVectors.Proofs.HashTrie.Sound

/-!
What one insertion does to a sound node: it stays sound, the key has the new value, every other key
has the value it had, and the key is reported as new when it had none.
-/
namespace TypedVectors.HashTrie

variable {β : Type}

/-- The value of a key in a node at a depth of the trie. -/
def Node.valueAt (depth : Nat) (node : Node β) (key : String) : Option β :=
  node.get? key (hashOf key) depth

/-- What a node is after an entry is inserted in it, and whether its key is new. -/
structure Node.Gains (path : List UInt32) (entry : Entry β) (before : Node β)
    (after : Node β × Bool) : Prop where
  sound : after.1.Sound path
  value : ∀ key, after.1.valueAt path.length key =
    if key = entry.key then some entry.value else before.valueAt path.length key
  added : after.2 = (before.valueAt path.length entry.key).isNone

theorem getAt?_eq (key : String) (hash : UInt32) (level slot : Nat) (children : List (Node β)) :
    getAt? key hash level slot children = children[slot]?.bind (·.get? key hash level) := by
  induction children generalizing slot with
  | nil => simp [getAt?]
  | cons child rest ih =>
    cases slot with
    | zero => simp [getAt?]
    | succ slot => simp [getAt?, ih]

theorem insertAt_eq (entry : Entry β) (level : Nat) {slot : Nat} {children : List (Node β)}
    {child : Node β} (found : children[slot]? = some child) :
    insertAt entry level slot children =
      (children.set slot (child.insert entry level).1, (child.insert entry level).2) := by
  induction children generalizing slot with
  | nil => cases found
  | cons first rest ih =>
    cases slot with
    | zero =>
      obtain rfl : first = child := by simpa using found
      simp [insertAt]
    | succ slot =>
      have behind : rest[slot]? = some child := by simpa using found
      simp [insertAt, ih behind]

/-- An entry takes the place of the one entry of its key, or comes after all others. -/
theorem insertEntry_cases (entry : Entry β) (entries : List (Entry β)) :
    (∃ front old back, entries = front ++ old :: back ∧ old.key = entry.key ∧
      (∀ other ∈ front, other.key ≠ entry.key) ∧
      insertEntry entry entries = (front ++ entry :: back, false)) ∨
    ((∀ other ∈ entries, other.key ≠ entry.key) ∧
      insertEntry entry entries = (entries ++ [entry], true)) := by
  induction entries with
  | nil => exact .inr ⟨by simp, rfl⟩
  | cons first rest ih =>
    by_cases same : first.key = entry.key
    · exact .inl ⟨[], first, rest, rfl, same, by simp, by simp [insertEntry, same]⟩
    · rcases ih with ⟨front, old, back, rfl, old_key, front_keys, inserted⟩ | ⟨keys, inserted⟩
      · refine .inl ⟨first :: front, old, back, rfl, old_key, ?_, ?_⟩
        · exact List.forall_mem_cons.2 ⟨same, front_keys⟩
        · simp [insertEntry, same, inserted]
      · refine .inr ⟨List.forall_mem_cons.2 ⟨same, keys⟩, ?_⟩
        simp [insertEntry, same, inserted]

theorem mem_insertEntry {entry other : Entry β} {entries : List (Entry β)}
    (member : other ∈ (insertEntry entry entries).1) : other = entry ∨ other ∈ entries := by
  rcases insertEntry_cases entry entries with
    ⟨front, old, back, rfl, -, -, inserted⟩ | ⟨-, inserted⟩
  · rw [inserted] at member
    simp only [List.mem_append, List.mem_cons] at member ⊢
    tauto
  · rw [inserted] at member
    simp only [List.mem_append, List.mem_singleton] at member
    exact member.symm

/-- An entry that is inserted is there, and the others are, but for one of the same key. -/
theorem insertEntry_mem (entry : Entry β) (entries : List (Entry β)) :
    entry ∈ (insertEntry entry entries).1 ∧
      ∀ other ∈ entries, other.key ≠ entry.key → other ∈ (insertEntry entry entries).1 := by
  rcases insertEntry_cases entry entries with
    ⟨front, old, back, rfl, old_key, -, inserted⟩ | ⟨-, inserted⟩
  · rw [inserted]
    refine ⟨by simp, fun other member apart => ?_⟩
    simp only [List.mem_append, List.mem_cons] at member ⊢
    rcases member with inFront | rfl | inBack
    · exact .inl inFront
    · exact absurd old_key apart
    · exact .inr (.inr inBack)
  · rw [inserted]
    exact ⟨by simp, fun other member _ => List.mem_append_left _ member⟩

theorem valueAt_leaf {path : List UInt32} {entry : Entry β} (placed : entry.PlacedAt path)
    (depth : Nat) (key : String) :
    (Node.leaf entry).valueAt depth key = if key = entry.key then some entry.value else none := by
  unfold Node.valueAt Node.get?
  by_cases same : key = entry.key
  · rw [if_pos same, same, if_pos ⟨placed.hashed, rfl⟩]
  · rw [if_neg same, if_neg fun found => same found.2.symm]

theorem valueAt_branch (depth : Nat) (bitmap : UInt32) (children : List (Node β)) (key : String) :
    (Node.branch bitmap children).valueAt depth key =
      (child? bitmap children (chunk (hashOf key) depth)).bind (·.valueAt (depth + 1) key) := by
  rw [Node.valueAt, Node.get?, child?]
  split
  · exact getAt?_eq ..
  · rfl

theorem Entry.PlacedAt.concat {path : List UInt32} {entry : Entry β}
    (placed : entry.PlacedAt path) : entry.PlacedAt (path ++ [chunk entry.hash path.length]) :=
  ⟨placed.hashed, along_concat.2 ⟨placed.along, rfl⟩⟩

variable {path : List UInt32} {entry : Entry β}

theorem valueAt_collision (depth : Nat) (entries : List (Entry β)) (key : String) :
    (Node.collision entries).valueAt depth key =
      (entries.find? (·.key == key)).map (·.value) := by
  rw [Node.valueAt, Node.get?]

theorem find?_key_cons (entry : Entry β) (entries : List (Entry β)) (key : String) :
    (entry :: entries).find? (·.key == key) =
      if key = entry.key then some entry else entries.find? (·.key == key) := by
  rw [List.find?_cons]
  by_cases same : key = entry.key
  · simp [same]
  · rw [if_neg same, beq_false_of_ne (Ne.symm same)]

theorem valueAt_collision_single {old : Entry β} (placed : old.PlacedAt path) (depth : Nat)
    (key : String) :
    (Node.collision [old]).valueAt depth key = (Node.leaf old).valueAt depth key := by
  rw [valueAt_leaf placed, valueAt_collision, find?_key_cons, List.find?_nil]
  split
  · rfl
  · rfl

theorem valueAt_insertEntry (depth : Nat) (entry : Entry β) (entries : List (Entry β))
    (key : String) :
    (Node.collision (insertEntry entry entries).1).valueAt depth key =
      if key = entry.key then some entry.value
      else (Node.collision entries).valueAt depth key := by
  rw [valueAt_collision, valueAt_collision]
  rcases insertEntry_cases entry entries with
    ⟨front, old, back, rfl, old_key, front_keys, inserted⟩ | ⟨keys, inserted⟩
  · have outside : front.find? (·.key == entry.key) = none := by simpa using front_keys
    rw [inserted, List.find?_append, List.find?_append, find?_key_cons, find?_key_cons, old_key]
    by_cases same : key = entry.key
    · simp [same, outside]
    · simp [same]
  · have outside : entries.find? (·.key == entry.key) = none := by simpa using keys
    rw [inserted, List.find?_append, find?_key_cons, List.find?_nil]
    by_cases same : key = entry.key
    · simp [same, outside]
    · simp [same]

theorem collision_gains {entries : List (Entry β)} (several : 2 ≤ entries.length)
    (oldPlaced : ∀ old ∈ entries, old.PlacedAt path) (distinct : (entries.map Entry.key).Nodup)
    (placed : entry.PlacedAt path) :
    (Node.collision entries).Gains path entry
      (.collision (insertEntry entry entries).1, (insertEntry entry entries).2) := by
  refine ⟨?_, valueAt_insertEntry path.length entry entries, ?_⟩
  · rcases insertEntry_cases entry entries with
      ⟨front, old, back, rfl, old_key, -, inserted⟩ | ⟨keys, inserted⟩
    · rw [inserted]
      refine .collision ?_ ?_ ?_
      · simpa using several
      · simp only [List.forall_mem_append, List.forall_mem_cons] at oldPlaced ⊢
        exact ⟨oldPlaced.1, placed, oldPlaced.2.2⟩
      · simpa [old_key] using distinct
    · rw [inserted]
      refine .collision ?_ ?_ ?_
      · exact several.trans (by simp)
      · exact List.forall_mem_append.2 ⟨oldPlaced, by simpa using placed⟩
      · rw [List.map_append, List.nodup_append]
        exact ⟨distinct, by simp, by simpa using keys⟩
  · rw [valueAt_collision]
    rcases insertEntry_cases entry entries with
      ⟨front, old, back, rfl, old_key, front_keys, inserted⟩ | ⟨keys, inserted⟩
    · simp [inserted, old_key]
    · have outside : entries.find? (·.key == entry.key) = none := by simpa using keys
      simp [inserted, outside]

section Branch

variable {bitmap newBitmap : UInt32} {children newChildren : List (Node β)}

/-- A branch gains an entry where only the child on the entry's way is another one. -/
theorem Node.Sound.branch_gains (sound : (Node.branch bitmap children).Sound path)
    (placed : entry.PlacedAt path) {new : Node β} {added : Bool} (used : newChildren ≠ [])
    (full : newChildren.length = Bitmap.size newBitmap)
    (changed : ∀ turn < 32, child? newBitmap newChildren turn =
      if turn = chunk entry.hash path.length then some new else child? bitmap children turn)
    (newSound : new.Sound (path ++ [chunk entry.hash path.length]))
    (value : ∀ key, new.valueAt (path.length + 1) key = if key = entry.key then some entry.value
      else (child? bitmap children (chunk entry.hash path.length)).bind
        (·.valueAt (path.length + 1) key))
    (addedKey : added = ((child? bitmap children (chunk entry.hash path.length)).bind
      (·.valueAt (path.length + 1) entry.key)).isNone) :
    (Node.branch bitmap children).Gains path entry (.branch newBitmap newChildren, added) := by
  cases sound with
  | branch low _ _ below =>
    refine ⟨.branch low used full ?_, fun key => ?_, ?_⟩
    · intro turn child turnLow found
      rw [changed turn turnLow] at found
      split at found
      · next same =>
        cases found
        exact same ▸ newSound
      · exact below turn child turnLow found
    · rw [valueAt_branch, valueAt_branch, changed _ (chunk_lt _ _)]
      by_cases same : chunk (hashOf key) path.length = chunk entry.hash path.length
      · rw [if_pos same, Option.bind_some, value, same]
      · rw [if_neg same, if_neg]
        rintro rfl
        exact same (by rw [placed.hashed])
    · rw [addedKey, valueAt_branch, placed.hashed]

theorem Node.Sound.replaced (sound : (Node.branch bitmap children).Sound path) {child : Node β}
    {after : Node β × Bool} (present : Bitmap.has bitmap (chunk entry.hash path.length))
    (found : child? bitmap children (chunk entry.hash path.length) = some child)
    (placed : entry.PlacedAt path)
    (gains : child.Gains (path ++ [chunk entry.hash path.length]) entry after) :
    (Node.branch bitmap children).Gains path entry
      (.branch bitmap (children.set (Bitmap.slot bitmap (chunk entry.hash path.length)) after.1),
        after.2) := by
  have depth : (path ++ [chunk entry.hash path.length]).length = path.length + 1 := by simp
  obtain ⟨used, full⟩ : children ≠ [] ∧ children.length = Bitmap.size bitmap := by
    cases sound with
    | branch _ used full _ => exact ⟨used, full⟩
  refine sound.branch_gains placed ?_ ?_ ?_ gains.sound (fun key => ?_) ?_
  · simpa using used
  · rw [List.length_set, full]
  · exact fun turn turnLow => child?_set full (chunk_lt _ _) turnLow present after.1
  · rw [found, Option.bind_some, ← depth, gains.value]
  · rw [found, Option.bind_some, ← depth, gains.added]

theorem Node.Sound.inserted (sound : (Node.branch bitmap children).Sound path)
    (absent : Bitmap.has bitmap (chunk entry.hash path.length) = false)
    (placed : entry.PlacedAt path) :
    (Node.branch bitmap children).Gains path entry
      (.branch (bitmap ||| Bitmap.bit (chunk entry.hash path.length))
        (children.insertIdx (Bitmap.slot bitmap (chunk entry.hash path.length)) (.leaf entry)),
        true) := by
  have turnLow := chunk_lt entry.hash path.length
  have full : children.length = Bitmap.size bitmap := by
    cases sound with
    | branch _ _ full _ => exact full
  have fits := Bitmap.slot_le_size bitmap turnLow
  rw [← full] at fits
  have length := List.length_insertIdx_of_le_length fits (.leaf entry)
  refine sound.branch_gains placed ?_ ?_ ?_ (.leaf placed.concat) (fun key => ?_) ?_
  · exact List.ne_nil_of_length_pos (by omega)
  · rw [length, full, Bitmap.size_or_bit turnLow absent]
  · exact fun turn otherLow => child?_insertIdx full turnLow otherLow absent (.leaf entry)
  · rw [valueAt_leaf placed, child?_eq_none children absent, Option.bind_none]
  · rw [child?_eq_none children absent, Option.bind_none, Option.isNone_none]

end Branch

theorem child?_single {turn other : UInt32} (low : turn < 32) (otherLow : other < 32)
    (child : Node β) :
    child? (Bitmap.bit turn) [child] other = if other = turn then some child else none := by
  have full : ([] : List (Node β)).length = Bitmap.size 0 := rfl
  have single := child?_insertIdx full low otherLow (Bitmap.has_zero low) child
  rwa [UInt32.zero_or, Bitmap.slot_zero low, List.insertIdx_zero,
    child?_eq_none [] (Bitmap.has_zero otherLow)] at single

theorem child?_pair {turn next other : UInt32} (low : turn < 32) (nextLow : next < 32)
    (otherLow : other < 32) (apart : turn ≠ next) (child new : Node β) :
    child? (Bitmap.bit turn ||| Bitmap.bit next)
        (if turn < next then [child, new] else [new, child]) other =
      if other = next then some new else if other = turn then some child else none := by
  have full : [child].length = Bitmap.size (Bitmap.bit turn) := (Bitmap.size_bit low).symm
  have absent : Bitmap.has (Bitmap.bit turn) next = false := by
    rw [Bitmap.has_bit nextLow low, decide_eq_false (Ne.symm apart)]
  have inserted := child?_insertIdx full nextLow otherLow absent new
  rw [Bitmap.slot_bit nextLow low, child?_single low otherLow] at inserted
  rw [← inserted]
  split <;> rfl

/-- An entry may as well be the only one below a branch. -/
theorem single_sound (placed : entry.PlacedAt path) (low : path.length < levels) :
    (Node.branch (Bitmap.bit (chunk entry.hash path.length)) [.leaf entry]).Sound path := by
  have turnLow := chunk_lt entry.hash path.length
  refine .branch low (List.cons_ne_nil _ _) ?_ ?_
  · exact (Bitmap.size_bit turnLow).symm
  · intro turn child otherLow found
    rw [child?_single turnLow otherLow] at found
    split at found
    · next same =>
      cases found
      exact .leaf (same ▸ placed.concat)
    · cases found

theorem valueAt_single (placed : entry.PlacedAt path) (key : String) :
    (Node.branch (Bitmap.bit (chunk entry.hash path.length)) [.leaf entry]).valueAt path.length
      key = (Node.leaf entry).valueAt path.length key := by
  rw [valueAt_branch, child?_single (chunk_lt _ _) (chunk_lt _ _), valueAt_leaf placed]
  split
  · exact valueAt_leaf placed _ key
  · next apart =>
    rw [if_neg]
    · rfl
    · rintro rfl
      exact apart (by rw [placed.hashed])

/-- The old entry is put below a branch of its own, which then gains the new one. -/
theorem fork_gains {remaining : Nat} {old : Entry β} (deep : levels ≤ remaining + path.length)
    (oldPlaced : old.PlacedAt path) (placed : entry.PlacedAt path)
    (apart : old.hash ≠ entry.hash) :
    (Node.leaf old).Gains path entry (fork remaining path.length old entry, true) := by
  have low : path.length < levels := by
    by_contra long
    exact apart (oldPlaced.along.hash_eq placed.along (Nat.le_of_not_lt long))
  induction remaining generalizing path with
  | zero => omega
  | succ remaining ih =>
    have oldLow := chunk_lt old.hash path.length
    have newLow := chunk_lt entry.hash path.length
    have alone := single_sound oldPlaced low
    suffices gains : (Node.branch (Bitmap.bit (chunk old.hash path.length)) [.leaf old]).Gains path
        entry (fork (remaining + 1) path.length old entry, true) by
      refine ⟨gains.sound, fun key => ?_, ?_⟩
      · rw [gains.value, valueAt_single oldPlaced]
      · rw [gains.added, valueAt_single oldPlaced]
    by_cases same : chunk old.hash path.length = chunk entry.hash path.length
    · have deeper := placed.concat
      have oldDeeper := oldPlaced.concat
      rw [same] at oldDeeper
      have length_concat : (path ++ [chunk entry.hash path.length]).length = path.length + 1 := by
        simp
      have below := ih (by omega) oldDeeper deeper (by
        by_contra long
        exact apart (oldDeeper.along.hash_eq deeper.along (Nat.le_of_not_lt long)))
      have found := child?_single oldLow newLow (.leaf old)
      rw [if_pos same.symm] at found
      have present : Bitmap.has (Bitmap.bit (chunk old.hash path.length))
          (chunk entry.hash path.length) := by
        rw [Bitmap.has_bit newLow oldLow, decide_eq_true same.symm]
      have gains := alone.replaced present found placed below
      rw [Bitmap.slot_bit newLow oldLow, same, if_neg (UInt32.lt_irrefl _), length_concat] at gains
      rw [fork, if_pos same, same]
      exact gains
    · have absent : Bitmap.has (Bitmap.bit (chunk old.hash path.length))
          (chunk entry.hash path.length) = false := by
        rw [Bitmap.has_bit newLow oldLow, decide_eq_false (Ne.symm same)]
      have gains := alone.inserted absent placed
      rw [Bitmap.slot_bit newLow oldLow] at gains
      rw [fork, if_neg same]
      split
      · next before => simpa [before] using gains
      · next behind => simpa [behind] using gains

theorem leaf_gains {old : Entry β} (oldPlaced : old.PlacedAt path) (placed : entry.PlacedAt path) :
    (Node.leaf old).Gains path entry ((Node.leaf old).insert entry path.length) := by
  unfold Node.insert
  split
  · split
    · next same =>
      refine ⟨.leaf placed, fun key => ?_, ?_⟩
      · rw [valueAt_leaf placed, valueAt_leaf oldPlaced, same]
        split <;> rfl
      · rw [valueAt_leaf oldPlaced, if_pos same.symm]
        rfl
    · next different =>
      have pair : (insertEntry entry [old]).1 = [old, entry] := by simp [insertEntry, different]
      have value := valueAt_insertEntry path.length entry [old]
      rw [pair] at value
      refine ⟨.collision (Nat.le_refl 2) ?_ ?_, fun key => ?_, ?_⟩
      · simpa using ⟨oldPlaced, placed⟩
      · simpa using different
      · rw [value, valueAt_collision_single oldPlaced]
      · rw [valueAt_leaf oldPlaced, if_neg (Ne.symm different)]
        rfl
  · next apart => exact fork_gains (Nat.le_add_right _ _) oldPlaced placed apart

theorem Node.Sound.gains {node : Node β} (sound : node.Sound path) (placed : entry.PlacedAt path) :
    node.Gains path entry (node.insert entry path.length) := by
  induction sound with
  | leaf oldPlaced => exact leaf_gains oldPlaced placed
  | collision several old distinct =>
    rw [Node.insert]
    exact collision_gains several old distinct placed
  | @branch path bitmap children low used full below ih =>
    have sound := Node.Sound.branch low used full below
    have turnLow := chunk_lt entry.hash path.length
    rw [Node.insert]
    split
    · next present =>
      obtain ⟨child, found⟩ := exists_child full turnLow present
      have gains := ih _ child turnLow found placed.concat
      rw [List.length_append, List.length_singleton] at gains
      have slot := child?_eq_getElem? children present
      rw [insertAt_eq entry _ (slot.symm.trans found)]
      exact sound.replaced present found placed gains
    · next absent => exact sound.inserted (Bool.eq_false_of_not_eq_true absent) placed

/-- An insertion in a branch node changes the one child on the way of the entry: the entry is
inserted in it, or becomes it when there is none. -/
theorem Node.Sound.insert_branch {bitmap : UInt32} {children : List (Node β)}
    (sound : (Node.branch bitmap children).Sound path) (entry : Entry β) :
    ∃ newBitmap newChildren,
      ((Node.branch bitmap children).insert entry path.length).1 = .branch newBitmap newChildren ∧
      ∀ turn < 32, child? newBitmap newChildren turn =
        if turn = chunk entry.hash path.length then
          some (((child? bitmap children turn).map
            fun child => (child.insert entry (path.length + 1)).1).getD (.leaf entry))
        else child? bitmap children turn := by
  have hereLow := chunk_lt entry.hash path.length
  have full : children.length = Bitmap.size bitmap := by
    cases sound with
    | branch _ _ full _ => exact full
  rw [Node.insert]
  split
  · next present =>
    obtain ⟨child, found⟩ := exists_child full hereLow present
    have slot := (child?_eq_getElem? children present).symm.trans found
    rw [insertAt_eq entry _ slot]
    refine ⟨_, _, rfl, fun turn low => ?_⟩
    rw [child?_set full hereLow low present]
    split
    · next same =>
      subst same
      rw [found]
      rfl
    · rfl
  · next absent =>
    have missing := Bool.eq_false_of_not_eq_true absent
    refine ⟨_, _, rfl, fun turn low => ?_⟩
    rw [child?_insertIdx full hereLow low missing]
    split
    · next same =>
      subst same
      rw [child?_eq_none children missing]
      rfl
    · rfl

end TypedVectors.HashTrie
