import TypedVectors.HashTrie.Bitmap
import TypedVectors.Text.Hash

/-!
Persistent maps from text. The hash of a key, five bits a level, is the path to its entry. Keys
whose hashes are the same share a collision node, which is searched key by key.
-/
namespace TypedVectors

namespace HashTrie

/-- A key with its hash and value. -/
structure Entry (β : Type) where
  key : String
  hash : UInt32
  value : β

inductive Node (β : Type) where
  | leaf (entry : Entry β)
  | collision (entries : List (Entry β))
  | branch (bitmap : UInt32) (children : List (Node β))

/-- The five bits of a hash that choose the branch at a level. -/
def chunk (hash : UInt32) (level : Nat) : UInt32 := hash >>> (5 * level).toUInt32 &&& 31

/-- The levels that the bits of a hash suffice for. -/
def levels : Nat := 7

variable {β : Type}

/-- The node that holds two entries of different hashes, down to the level that tells them apart. -/
def fork : (remaining level : Nat) → Entry β → Entry β → Node β
  | 0, _, a, b => .collision [a, b]
  | remaining + 1, level, a, b =>
    let left := chunk a.hash level
    let right := chunk b.hash level
    if left = right then .branch (Bitmap.bit left) [fork remaining (level + 1) a b]
    else
      .branch (Bitmap.bit left ||| Bitmap.bit right)
        (if left < right then [.leaf a, .leaf b] else [.leaf b, .leaf a])

/-- Replaces the entry of the same key or appends the entry; true when it was appended. -/
def insertEntry (entry : Entry β) : List (Entry β) → List (Entry β) × Bool
  | [] => ([entry], true)
  | old :: rest =>
    if old.key = entry.key then (entry :: rest, false)
    else
      let (rest, added) := insertEntry entry rest
      (old :: rest, added)

mutual

/-- The node with an entry at a level of the trie, and whether its key is new. -/
def Node.insert (entry : Entry β) (level : Nat) : Node β → Node β × Bool
  | .leaf old =>
    if old.hash = entry.hash then
      if old.key = entry.key then (.leaf entry, false) else (.collision [old, entry], true)
    else (fork levels level old entry, true)
  | .collision entries =>
    let (entries, added) := insertEntry entry entries
    (.collision entries, added)
  | .branch bitmap children =>
    let here := chunk entry.hash level
    let slot := Bitmap.slot bitmap here
    if Bitmap.has bitmap here then
      let (children, added) := insertAt entry (level + 1) slot children
      (.branch bitmap children, added)
    else (.branch (bitmap ||| Bitmap.bit here) (children.insertIdx slot (.leaf entry)), true)

/-- The children with an entry in the one at a slot. -/
def insertAt (entry : Entry β) (level : Nat) : Nat → List (Node β) → List (Node β) × Bool
  | _, [] => ([], false)
  | 0, child :: rest =>
    let (child, added) := child.insert entry level
    (child :: rest, added)
  | slot + 1, child :: rest =>
    let (rest, added) := insertAt entry level slot rest
    (child :: rest, added)

end

mutual

/-- The value of a key of the given hash at a level of the trie. -/
def Node.get? (key : String) (hash : UInt32) (level : Nat) : Node β → Option β
  | .leaf entry => if entry.hash = hash ∧ entry.key = key then some entry.value else none
  | .collision entries => (entries.find? (·.key == key)).map (·.value)
  | .branch bitmap children =>
    let here := chunk hash level
    if Bitmap.has bitmap here then getAt? key hash (level + 1) (Bitmap.slot bitmap here) children
    else none

/-- The value of a key in the child at a slot. -/
def getAt? (key : String) (hash : UInt32) (level : Nat) : Nat → List (Node β) → Option β
  | _, [] => none
  | 0, child :: _ => child.get? key hash level
  | slot + 1, _ :: rest => getAt? key hash level slot rest

end

end HashTrie

/-- A map from text, with the number of its keys. -/
structure HashTrie (β : Type) where
  root? : Option (HashTrie.Node β)
  size : Nat

namespace HashTrie

variable {β : Type}

def empty : HashTrie β := ⟨none, 0⟩

instance : EmptyCollection (HashTrie β) := ⟨empty⟩

/-- The hash that the trie orders keys by. -/
def hashOf (key : String) : UInt32 := Text.hash 0 key

/-- The value of a key. -/
def get? (map : HashTrie β) (key : String) : Option β :=
  map.root?.bind (·.get? key (hashOf key) 0)

/-- The map with a value for a key. -/
def set (map : HashTrie β) (key : String) (value : β) : HashTrie β :=
  let entry : Entry β := ⟨key, hashOf key, value⟩
  match map.root? with
  | none => ⟨some (.leaf entry), map.size + 1⟩
  | some root =>
    let (root, added) := root.insert entry 0
    ⟨some root, if added then map.size + 1 else map.size⟩

end HashTrie
end TypedVectors
