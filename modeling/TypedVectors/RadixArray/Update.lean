import TypedVectors.RadixArray.Basic

/-!
Writing to persistent arrays: appending, replacing and growing. A full tail moves into the tree,
and a full tree gets a new root above it.
-/
namespace TypedVectors.RadixArray

variable {α : Type}

/-- A write at an index that is neither an item's nor the next one. -/
inductive Fault where
  | outOfBounds (index : Int) (size : Nat)
  /-- The tree has no branch to an index that it should hold. -/
  | missingBranch (index : Nat)
  deriving DecidableEq

/-- Replaces the item at a place or appends it. -/
def place {β : Type} (xs : Array β) (index : Nat) (x : β) : Array β :=
  if index < xs.size then xs.setIfInBounds index x else xs.push x

/-- The tree of a depth with one leaf. -/
def chain : (depth : Nat) → Array α → Layers α depth
  | 0, leaf => leaf
  | depth + 1, leaf => (#[chain depth leaf] : Array (Layers α depth))

/-- Puts a leaf where the item at `index` belongs. -/
def placeLeaf : (depth : Nat) → Array (Layers α depth) → Array α → Nat → Array (Layers α depth)
  | 0, leaves, leaf, index => place leaves (branch 1 index) leaf
  | depth + 1, nodes, leaf, index =>
    let place := RadixArray.place nodes (branch (depth + 2) index)
    match nodes[branch (depth + 2) index]? with
    | some node => place (placeLeaf depth node leaf index)
    | none => place (chain (depth + 1) leaf)

/-- Appends an item. -/
def push (xs : RadixArray α) (x : α) : RadixArray α :=
  if xs.tail.size < width then { xs with tail := xs.tail.push x }
  else if twoTo (5 * (xs.depth + 1)) ≤ xs.packed / width then
    ⟨xs.depth + 1, #[xs.root, chain (xs.depth + 1) xs.tail], xs.packed + width, #[x]⟩
  else
    ⟨xs.depth, placeLeaf xs.depth xs.root xs.tail xs.packed, xs.packed + width, #[x]⟩

/-- Replaces an item of a tree; none when a branch to it is missing. -/
def setIn? : (depth : Nat) → Layers α depth → Nat → α → Option (Layers α depth)
  | 0, items, index, x =>
    let items : Array α := items
    some (items.setIfInBounds (index % width) x)
  | depth + 1, nodes, index, x =>
    let nodes : Array (Layers α depth) := nodes
    nodes[branch (depth + 1) index]?.bind fun node =>
      (setIn? depth node index x).map fun node =>
        nodes.setIfInBounds (branch (depth + 1) index) node

/-- Replaces the item at an index; at the size it appends. -/
def set (xs : RadixArray α) (index : Int) (x : α) : Except Fault (RadixArray α) :=
  if index = xs.size then .ok (xs.push x)
  else if index < 0 ∨ xs.size < index then .error (.outOfBounds index xs.size)
  else
    let index := index.toNat
    if xs.packed ≤ index then
      .ok { xs with tail := xs.tail.setIfInBounds (index - xs.packed) x }
    else
      match setIn? (xs.depth + 1) xs.tree index x with
      | some root => .ok { xs with root := root }
      | none => .error (.missingBranch index)

/-- Grows to a size, new items by their index. Few are appended one by one, more than `width` build
the tree anew. -/
def grow (xs : RadixArray α) (size : Nat) (fill : Nat → α) : RadixArray α :=
  let added := (List.range (size - xs.size)).map fun k => fill (xs.size + k)
  if added.length ≤ width then added.foldl push xs
  else ofArray (xs.toArray ++ added.toArray)

end TypedVectors.RadixArray
