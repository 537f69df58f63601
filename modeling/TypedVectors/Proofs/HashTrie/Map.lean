import Mathlib.Data.Finset.Card
import Mathlib.Data.Finset.Insert
import TypedVectors.Proofs.HashTrie.Insert

/-!
The trie is a finite map: whatever values were set, for whatever keys and in whatever order, lookup
gives the last value of a key and the size is the number of keys.
-/
namespace TypedVectors.HashTrie

variable {β : Type}

/-- A map whose trie is sound. -/
def Sound (map : HashTrie β) : Prop := ∀ root, map.root? = some root → root.Sound []

theorem sound_empty : (empty : HashTrie β).Sound := by
  intro root found
  cases found

@[simp]
theorem get?_empty (key : String) : (empty : HashTrie β).get? key = none := rfl

theorem placedAt_root (key : String) (value : β) :
    Entry.PlacedAt [] ⟨key, hashOf key, value⟩ := ⟨rfl, along_nil _⟩

theorem get?_root (root : Node β) (size : Nat) (key : String) :
    (HashTrie.mk (some root) size).get? key = root.valueAt 0 key := by
  rw [get?, Option.bind_some, Node.valueAt]

theorem set_root (root : Node β) (size : Nat) (key : String) (value : β) :
    (HashTrie.mk (some root) size).set key value =
      ⟨some (root.insert ⟨key, hashOf key, value⟩ 0).1,
        if (root.insert ⟨key, hashOf key, value⟩ 0).2 then size + 1 else size⟩ := by
  rw [set]

theorem set_none (size : Nat) (key : String) (value : β) :
    (HashTrie.mk none size).set key value = ⟨some (.leaf ⟨key, hashOf key, value⟩), size + 1⟩ := by
  rw [set]

theorem root?_set (map : HashTrie β) (key : String) (value : β) :
    (map.set key value).root? =
      some ((map.root?.map fun root => (root.insert ⟨key, hashOf key, value⟩ 0).1).getD
        (.leaf ⟨key, hashOf key, value⟩)) := by
  obtain ⟨root?, size⟩ := map
  cases root? with
  | none => rw [set_none, Option.map_none, Option.getD_none]
  | some root => rw [set_root, Option.map_some, Option.getD_some]

/-- What setting a value does to a map. -/
structure Sets (before : HashTrie β) (key : String) (value : β) (after : HashTrie β) : Prop where
  sound : after.Sound
  value : ∀ other, after.get? other = if other = key then some value else before.get? other
  size : after.size = if (before.get? key).isSome then before.size else before.size + 1

theorem Sound.set {map : HashTrie β} (sound : map.Sound) (key : String) (value : β) :
    map.Sets key value (map.set key value) := by
  have placed := placedAt_root key value
  obtain ⟨root?, size⟩ := map
  cases root? with
  | none =>
    rw [set_none]
    refine ⟨?_, fun other => ?_, rfl⟩
    · rintro root ⟨⟩
      exact .leaf placed
    · rw [get?_root, valueAt_leaf placed]
      rfl
  | some root =>
    have gains := (sound root rfl).gains placed
    rw [List.length_nil] at gains
    rw [set_root]
    refine ⟨?_, fun other => ?_, ?_⟩
    · rintro root ⟨⟩
      exact gains.sound
    · have values := gains.value other
      rw [List.length_nil] at values
      rw [get?_root, get?_root, values]
    · have added := gains.added
      rw [List.length_nil] at added
      rw [added, get?_root]
      cases root.valueAt 0 key with
      | none => rfl
      | some _ => rfl

/-- The map after values were set one after another. -/
def ofEntries (entries : List (String × β)) : HashTrie β :=
  entries.foldl (fun map entry => map.set entry.1 entry.2) empty

theorem ofEntries_concat (entries : List (String × β)) (key : String) (value : β) :
    ofEntries (entries ++ [(key, value)]) = (ofEntries entries).set key value := by
  rw [ofEntries, List.foldl_concat, ofEntries]

theorem sound_ofEntries (entries : List (String × β)) : (ofEntries entries).Sound := by
  induction entries using List.reverseRecOn with
  | nil => exact sound_empty
  | append_singleton entries entry ih =>
    rw [ofEntries_concat]
    exact (ih.set entry.1 entry.2).sound

theorem get?_ofEntries (entries : List (String × β)) (key : String) :
    (ofEntries entries).get? key = entries.reverse.lookup key := by
  induction entries using List.reverseRecOn with
  | nil => rfl
  | append_singleton entries entry ih =>
    rw [ofEntries_concat, ((sound_ofEntries entries).set entry.1 entry.2).value,
      List.reverse_append, List.reverse_singleton, List.singleton_append, List.lookup_cons, ih]
    by_cases same : key = entry.1
    · simp [same]
    · rw [if_neg same, beq_false_of_ne same]

theorem isSome_get?_ofEntries (entries : List (String × β)) (key : String) :
    ((ofEntries entries).get? key).isSome ↔ key ∈ (entries.map Prod.fst).toFinset := by
  induction entries using List.reverseRecOn with
  | nil => simp [ofEntries]
  | append_singleton entries entry ih =>
    rw [ofEntries_concat, ((sound_ofEntries entries).set entry.1 entry.2).value]
    by_cases same : key = entry.1
    · simp [same]
    · simp [same, ih]

theorem size_ofEntries (entries : List (String × β)) :
    (ofEntries entries).size = (entries.map Prod.fst).toFinset.card := by
  induction entries using List.reverseRecOn with
  | nil => rfl
  | append_singleton entries entry ih =>
    have size := ((sound_ofEntries entries).set entry.1 entry.2).size
    have keys : ((entries ++ [entry]).map Prod.fst).toFinset =
        insert entry.1 (entries.map Prod.fst).toFinset := by
      simp
    rw [ofEntries_concat, size, ih, keys, Finset.card_insert_eq_ite]
    simp only [isSome_get?_ofEntries]

/-- Whatever was set and whichever hashes the keys have, the last value set for a key is the one
found, and keys are counted once. -/
theorem ofEntries_refines_map (entries : List (String × β)) :
    (∀ key, (ofEntries entries).get? key = entries.reverse.lookup key) ∧
      (ofEntries entries).size = (entries.map Prod.fst).toFinset.card ∧
      ∀ key value other, ((ofEntries entries).set key value).get? other =
        if other = key then some value else (ofEntries entries).get? other :=
  ⟨get?_ofEntries entries, size_ofEntries entries, fun key value =>
    ((sound_ofEntries entries).set key value).value⟩

end TypedVectors.HashTrie
