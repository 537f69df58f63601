import TypedVectors.RadixArray.Basic

/-!
Reading many items of one persistent array. A reader keeps the leaf it read last, so that reads
close to each other walk the tree once.
-/
namespace TypedVectors.RadixArray

variable {α : Type}

/-- The leaf that was read last, with the index of its first item. -/
structure Reader (α : Type) where
  last? : Option (Nat × Array α)

namespace Reader

/-- A reader that has read nothing. -/
def fresh : Reader α := ⟨none⟩

/-- The leaf with the given first index, from the reader if it is the last one. -/
def leaf? (reader : Reader α) (xs : RadixArray α) (start : Nat) : Option (Array α) :=
  match reader.last? with
  | some (kept, leaf) => if kept = start then some leaf else xs.leaf? start
  | none => xs.leaf? start

/-- Reads the item at an index of `xs`; outside there is none. -/
def read (reader : Reader α) (xs : RadixArray α) (index : Int) : Option α × Reader α :=
  if index < 0 ∨ xs.size ≤ index then (none, reader)
  else
    let index := index.toNat
    if xs.packed ≤ index then (xs.tail[index - xs.packed]?, reader)
    else
      let start := index - index % width
      match reader.leaf? xs start with
      | some leaf => (leaf[index % width]?, ⟨some (start, leaf)⟩)
      | none => (none, reader)

/-- Reads the items at some indices in their order. -/
def readAll (reader : Reader α) (xs : RadixArray α) : List Int → List (Option α)
  | [] => []
  | index :: indices =>
    let (item, reader) := reader.read xs index
    item :: reader.readAll xs indices

end Reader

/-- The items at some indices, read by one reader. -/
def readAll (xs : RadixArray α) (indices : List Int) : List (Option α) :=
  Reader.fresh.readAll xs indices

end TypedVectors.RadixArray
