import TypedVectors.Powers

/-!
Persistent arrays as trees of 32 branches. Full leaves of 32 items stand in the tree, the last items
in a tail that takes appends. An index read in base 32 is the path to its item.
-/
namespace TypedVectors

/-- Trees of a depth: items at depth zero, and above them arrays of trees one less deep. -/
def Layers (α : Type) : Nat → Type
  | 0 => Array α
  | depth + 1 => Array (Layers α depth)

/-- The items of an array in a tree, whose root branches into trees of `depth`, and in a tail. The
tree holds `packed` items. -/
structure RadixArray (α : Type) where
  depth : Nat
  root : Array (Layers α depth)
  packed : Nat
  tail : Array α

namespace RadixArray

variable {α : Type}

/-- The branches of a node and the items of a leaf. -/
def width : Nat := 32

/-- Which branch leads to an item in a tree of the given depth. -/
def branch (depth index : Nat) : Nat := index / twoTo (5 * depth) % width

/-- The leaf that holds an index; none when a branch to it is missing. -/
def leafOf? : (depth : Nat) → Layers α depth → Nat → Option (Array α)
  | 0, items, _ => some items
  | depth + 1, nodes, index =>
    let nodes : Array (Layers α depth) := nodes
    nodes[branch (depth + 1) index]?.bind fun node => leafOf? depth node index

def empty : RadixArray α := ⟨0, #[], 0, #[]⟩

instance : Inhabited (RadixArray α) := ⟨empty⟩

/-- The number of items. -/
def size (xs : RadixArray α) : Nat := xs.packed + xs.tail.size

/-- The tree with its root. -/
def tree (xs : RadixArray α) : Layers α (xs.depth + 1) := xs.root

/-- The leaf of the tree that holds an index. -/
def leaf? (xs : RadixArray α) (index : Nat) : Option (Array α) :=
  leafOf? (xs.depth + 1) xs.tree index

/-- The item at an index. -/
def get? (xs : RadixArray α) (index : Nat) : Option α :=
  if xs.size ≤ index then none
  else if xs.packed ≤ index then xs.tail[index - xs.packed]?
  else (xs.leaf? index).bind (·[index % width]?)

/-- The item at an index that may lie on either side of the items. -/
def item? (xs : RadixArray α) (index : Int) : Option α :=
  if index < 0 then none else xs.get? index.toNat

/-- The leaves of the tree in order. -/
def leaves (xs : RadixArray α) : Array (Array α) :=
  (Array.range (xs.packed / width)).map fun place => (xs.leaf? (place * width)).getD #[]

/-- All items in order. -/
def toArray (xs : RadixArray α) : Array α := xs.leaves.flatten ++ xs.tail

def toList (xs : RadixArray α) : List α := xs.toArray.toList

/-- A part of the items in order, from one index up to another: of the iteration, which takes no
bounds and gives all items, what a reader sees that skips and stops. -/
def slice (xs : RadixArray α) (start stop : Nat) : Array α := xs.toArray.extract start stop

/-- An array cut into pieces of `width`; the last piece may be shorter. -/
def pieces {β : Type} (xs : Array β) : Array (Array β) :=
  (Array.range ((xs.size + width - 1) / width)).map fun place =>
    xs.extract (place * width) (place * width + width)

/-- Puts nodes under nodes until one root can hold them. -/
def stack : (attempts depth : Nat) → Array (Layers α depth) → (depth : Nat) × Array (Layers α depth)
  | 0, depth, nodes => ⟨depth, nodes⟩
  | attempts + 1, depth, nodes =>
    if nodes.size ≤ width then ⟨depth, nodes⟩
    else stack attempts (depth + 1) (pieces nodes)

/-- How many of `count` items stay in the tail: the last full leaf does. -/
def tailSize (count : Nat) : Nat := if count = 0 then 0 else (count - 1) % width + 1

/-- The items of an array. -/
def ofArray (items : Array α) : RadixArray α :=
  let packed := items.size - tailSize items.size
  let leaves : Array (Layers α 0) := pieces (items.extract 0 packed)
  let ⟨depth, root⟩ := stack leaves.size 0 leaves
  ⟨depth, root, packed, items.extract packed items.size⟩

def ofList (items : List α) : RadixArray α := ofArray items.toArray

end RadixArray
end TypedVectors
