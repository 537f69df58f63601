import TypedVectors.RadixArray.Reader
import TypedVectors.RadixArray.Update

/-!
Versions of arrays in a memory that they share. Leaves, nodes and tails stand on pages. An edit
under an owner writes over the pages that were made under the same owner and copies all others, so
that a version keeps its items until one of its pages is written over.
-/
namespace TypedVectors.RadixArray

/-- Under whom an edit is made. -/
abbrev Owner := Nat

/-- What stands on a page: the items of a leaf or a tail, or the places of the pages below a
node. -/
inductive Content (α : Type) where
  | items (items : Array α)
  | places (places : Array Nat)

/-- A page and the owner under whom it was made. -/
structure Page (α : Type) where
  owner? : Option Owner
  content : Content α

/-- The pages by their places. -/
structure Memory (α : Type) where
  pages : Array (Page α)

/-- A version of an array: the places of its root and its tail, how many items are its own, and how
many of them are in the tree, whose root branches into trees of `depth`. -/
structure Version where
  depth : Nat
  root : Nat
  tail : Nat
  size : Nat
  packed : Nat

namespace Memory

variable {α : Type}

def empty : Memory α := ⟨#[]⟩

def size (memory : Memory α) : Nat := memory.pages.size

/-- The owner under whom a page was made. -/
def owner? (memory : Memory α) (place : Nat) : Option Owner := memory.pages[place]?.bind (·.owner?)

/-- The items on a page. -/
def items (memory : Memory α) (place : Nat) : Array α :=
  match memory.pages[place]? with
  | some ⟨_, .items items⟩ => items
  | _ => #[]

/-- The places of the pages below a node. -/
def below (memory : Memory α) (place : Nat) : Array Nat :=
  match memory.pages[place]? with
  | some ⟨_, .places places⟩ => places
  | _ => #[]

/-- The tree whose top is on a page. -/
def tree (memory : Memory α) : (depth : Nat) → Nat → Layers α depth
  | 0, place => memory.items place
  | depth + 1, place => (memory.below place).map (memory.tree depth)

/-- Whether an edit under an owner writes over a page. -/
def owned (memory : Memory α) (owner? : Option Owner) (place : Nat) : Bool :=
  owner?.isSome && memory.owner? place == owner?

/-- A page at a new place. -/
def add (memory : Memory α) (owner? : Option Owner) (content : Content α) : Nat × Memory α :=
  (memory.size, ⟨memory.pages.push ⟨owner?, content⟩⟩)

/-- A page with other content: at its place if the owner may write over it, else at a new one. -/
def write (memory : Memory α) (owner? : Option Owner) (place : Nat) (content : Content α) :
    Nat × Memory α :=
  if memory.owned owner? place then
    (place, ⟨memory.pages.setIfInBounds place ⟨owner?, content⟩⟩)
  else memory.add owner? content

section Reads

/-- The array of a version's pages. -/
def array (memory : Memory α) (version : Version) : RadixArray α :=
  ⟨version.depth, memory.tree (version.depth + 1) version.root, version.packed,
    memory.items version.tail⟩

/-- The array of the items that are a version's own. Its tail page may hold further ones. -/
def own (memory : Memory α) (version : Version) : RadixArray α :=
  { memory.array version with
    tail := (memory.items version.tail).extract 0 (version.size - version.packed) }

/-- The item at an index that may lie on either side of the items. -/
def item? (memory : Memory α) (version : Version) (index : Int) : Option α :=
  (memory.own version).item? index

/-- The items at some indices, read by one reader. -/
def readAll (memory : Memory α) (version : Version) (indices : List Int) : List (Option α) :=
  (memory.own version).readAll indices

/-- All items in order; of the tail, all that its page holds. -/
def toArray (memory : Memory α) (version : Version) : Array α := (memory.array version).toArray

/-- A part of the items in order, from one index up to another, as a reader of them all sees it that
skips and stops. -/
def slice (memory : Memory α) (version : Version) (start stop : Nat) : Array α :=
  (memory.array version).slice start stop

end Reads

/-- The tree of a depth with one leaf. -/
def chain (owner? : Option Owner) : (depth : Nat) → Nat → Memory α → Nat × Memory α
  | 0, leaf, memory => (leaf, memory)
  | depth + 1, leaf, memory =>
    let (top, memory) := chain owner? depth leaf memory
    memory.add owner? (.places #[top])

/-- Puts a leaf where the item at `index` belongs. -/
def placeLeaf (owner? : Option Owner) :
    (depth : Nat) → (node leaf index : Nat) → Memory α → Nat × Memory α
  | 0, node, leaf, index, memory =>
    memory.write owner? node (.places (place (memory.below node) (branch 1 index) leaf))
  | depth + 1, node, leaf, index, memory =>
    let nodes := memory.below node
    let (child, memory) := match nodes[branch (depth + 2) index]? with
      | some child => placeLeaf owner? depth child leaf index memory
      | none => chain owner? (depth + 1) leaf memory
    memory.write owner? node (.places (place nodes (branch (depth + 2) index) child))

/-- A full tail as the last leaf of the tree, under a new root when the old one has no room. -/
def spill (memory : Memory α) (owner? : Option Owner) (version : Version) (leaf : Nat) :
    (Nat × Nat) × Memory α :=
  if twoTo (5 * (version.depth + 1)) ≤ version.packed / width then
    let (top, memory) := chain owner? (version.depth + 1) leaf memory
    let (root, memory) := memory.add owner? (.places #[version.root, top])
    ((version.depth + 1, root), memory)
  else
    let (root, memory) := placeLeaf owner? version.depth version.root leaf version.packed memory
    ((version.depth, root), memory)

/-- Appends an item. -/
def push (memory : Memory α) (owner? : Option Owner) (version : Version) (x : α) :
    Version × Memory α :=
  let tail := memory.items version.tail
  if version.size - version.packed < width then
    let (place, memory) := memory.write owner? version.tail (.items (tail.push x))
    ({ version with tail := place, size := version.size + 1 }, memory)
  else
    let (leaf, memory) := memory.write owner? version.tail (.items tail)
    let ((depth, root), memory) := memory.spill owner? version leaf
    let (place, memory) := memory.add owner? (.items #[x])
    (⟨depth, root, place, version.size + 1, version.packed + width⟩, memory)

/-- Replaces an item of a tree; none when a branch to it is missing. -/
def setIn? (owner? : Option Owner) :
    (depth : Nat) → (place index : Nat) → α → Memory α → Option (Nat × Memory α)
  | 0, place, index, x, memory =>
    let items := (memory.items place).setIfInBounds (index % width) x
    some (memory.write owner? place (.items items))
  | depth + 1, place, index, x, memory =>
    let nodes := memory.below place
    nodes[branch (depth + 1) index]?.bind fun child =>
      (setIn? owner? depth child index x memory).map fun (child, memory) =>
        let nodes := nodes.setIfInBounds (branch (depth + 1) index) child
        memory.write owner? place (.places nodes)

/-- Replaces the item at an index; at the size it appends. -/
def set (memory : Memory α) (owner? : Option Owner) (version : Version) (index : Int) (x : α) :
    Except Fault (Version × Memory α) :=
  if index = version.size then .ok (memory.push owner? version x)
  else if index < 0 ∨ version.size < index then .error (.outOfBounds index version.size)
  else
    let index := index.toNat
    if version.packed ≤ index then
      let tail := (memory.items version.tail).setIfInBounds (index - version.packed) x
      let (place, memory) := memory.write owner? version.tail (.items tail)
      .ok ({ version with tail := place }, memory)
    else
      match setIn? owner? (version.depth + 1) version.root index x memory with
      | some (root, memory) => .ok ({ version with root := root }, memory)
      | none => .error (.missingBranch index)

/-- Puts a tree on new pages, which no edit writes over. -/
def hold : (depth : Nat) → Layers α depth → Memory α → Nat × Memory α
  | 0, items, memory => memory.add none (.items items)
  | depth + 1, nodes, memory =>
    let nodes : Array (Layers α depth) := nodes
    let (places, memory) := nodes.foldl (fun (places, memory) node =>
      let (place, memory) := hold depth node memory
      (places.push place, memory)) (#[], memory)
    memory.add none (.places places)

/-- A version of an array on new pages, which no edit writes over. -/
def ofArray (memory : Memory α) (xs : RadixArray α) : Version × Memory α :=
  let (root, memory) := hold (xs.depth + 1) xs.tree memory
  let (tail, memory) := memory.add none (.items xs.tail)
  (⟨xs.depth, root, tail, xs.size, xs.packed⟩, memory)

/-- Grows to a size, new items by their index. Few are appended one by one, for more than `width`
the tree is built anew on new pages. -/
def grow (memory : Memory α) (owner? : Option Owner) (version : Version) (size : Nat)
    (fill : Nat → α) : Version × Memory α :=
  if size ≤ version.size then (version, memory)
  else
    let added := (List.range (size - version.size)).map fun k => fill (version.size + k)
    if added.length ≤ width then
      added.foldl (fun (version, memory) x => memory.push owner? version x) (version, memory)
    else memory.ofArray (RadixArray.ofArray (memory.toArray version ++ added.toArray))

end Memory
end TypedVectors.RadixArray
