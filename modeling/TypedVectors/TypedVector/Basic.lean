import TypedVectors.Cell.Conversion
import TypedVectors.HashTrie.Basic
import TypedVectors.RadixArray.Basic

/-!
Typed vectors: cells of one kind, with a name each when the vector is named. Vectors are values; the
places of names are found in an index that is built by the first search for a name and kept.
-/
namespace TypedVectors

/-- The places that carry a name: the first, and the later ones from the last back. -/
structure NamePlaces where
  first : Nat
  laterReversed : List Nat
  deriving DecidableEq

namespace NamePlaces

/-- The places in ascending order. -/
def toList (places : NamePlaces) : List Nat := places.first :: places.laterReversed.reverse

end NamePlaces

/-- The places of every name but the empty one. -/
abbrev NameIndex := HashTrie NamePlaces

namespace NameIndex

/-- The index with one more place for a name. -/
def add (index : NameIndex) (name : String) (place : Nat) : NameIndex :=
  if name = "" then index
  else
    match index.get? name with
    | some places => index.set name { places with laterReversed := place :: places.laterReversed }
    | none => index.set name ⟨place, []⟩

/-- The index of a sequence of names. -/
def ofNames (names : List String) : NameIndex :=
  names.zipIdx.foldl (fun index (name, place) => index.add name place) HashTrie.empty

end NameIndex

/-- The longest vector that operations build. -/
def lengthLimit : Nat := 2147483647

/-- Cells of a kind. A named vector has a name for every cell, the empty one for cells without. -/
structure TypedVector where
  kind : Kind
  cells : RadixArray Cell
  names? : Option (RadixArray String)
  /-- The places of the names, once they were searched. -/
  index? : Option NameIndex

namespace TypedVector

/-- A vector of given cells and names, with no index yet. -/
def make (kind : Kind) (cells : RadixArray Cell) (names? : Option (RadixArray String)) :
    TypedVector :=
  ⟨kind, cells, names?, none⟩

def length (v : TypedVector) : Nat := v.cells.size

def toArray (v : TypedVector) : Array Cell := v.cells.toArray

/-- The first cell that is not of a kind, with its position from one. -/
def firstForeign? (kind : Kind) (cells : List Cell) : Option (Nat × Cell) :=
  (cells.zipIdx.find? fun (cell, _) => !cell.belongsTo kind).map fun (cell, index) =>
    (index + 1, cell)

/-- A vector that carries as many of the given names as it has cells. Cells that are no text name
nothing, and further cells have the empty name. -/
def withNames (v : TypedVector) (given : List Cell) : Except Error TypedVector :=
  if v.length < given.length then .error (.tooManyNames given.length v.length)
  else
    let written := given.map fun
      | .text name => name
      | _ => ""
    let names := written ++ List.replicate (v.length - given.length) ""
    .ok (make v.kind v.cells (some (RadixArray.ofList names)))

/-- A vector without names. -/
def withoutNames (v : TypedVector) : TypedVector := make v.kind v.cells none

/-- A vector that carries the cells of another one as names, promoted to text. -/
def withNamesOf (v source : TypedVector) : Except Error TypedVector := do
  let given ← source.toArray.toList.mapM (·.promote source.kind .character)
  v.withNames given

/-- The vector of some cells, each of which must be of the kind, and of the names given for them. -/
def build (kind : Kind) (cells : List Cell) (names? : Option (List Cell)) :
    Except Error TypedVector :=
  match firstForeign? kind cells with
  | some (position, cell) => .error (.foreignCell position cell kind)
  | none =>
    let v := make kind (RadixArray.ofList cells) none
    match names? with
    | some names => v.withNames names
    | none => .ok v

/-- One missing cell of a kind. -/
def blank (kind : Kind) : TypedVector := make kind (RadixArray.ofList [.missing]) none

/-- The names as a character vector, if the vector is named. -/
def namesVector? (v : TypedVector) : Option TypedVector :=
  v.names?.map fun names => make .character (RadixArray.ofList (names.toList.map .text)) none

/-- A vector with the same cells and names, to be written on its own. -/
def copy (v : TypedVector) : TypedVector := { v with index? := none }

/-- The places of the names, from the index that is kept or else from the names. -/
def nameIndex (v : TypedVector) : NameIndex :=
  v.index?.getD (NameIndex.ofNames ((v.names?.map (·.toList)).getD []))

/-- The vector with its index kept. -/
def indexed (v : TypedVector) : TypedVector := { v with index? := some v.nameIndex }

/-- All places of a name in ascending order; the empty name has none. -/
def placesOf? (v : TypedVector) (name : String) : Option (List Nat) :=
  (v.nameIndex.get? name).map (·.toList)

/-- The first place of a name. -/
def placeOf? (v : TypedVector) (name : String) : Option Nat :=
  if name = "" then none else (v.nameIndex.get? name).map (·.first)

/-- The place that a position from one reads. A position with a fraction reads the place below it in
the tree and none in the tail; not-a-number reads the first place of the tree. -/
def placeAt? (v : TypedVector) (position : Binary64) : Option Nat :=
  let index := position - 1
  if index.isNaN then some 0
  else if index.lt 0 then none
  else if index.lt (.ofNat v.cells.packed) then index.floor.toInt?.map Int.toNat
  else index.toInt?.map Int.toNat

/-- The cell at a position from one; missing where there is none. Not-a-number leads into the tree,
also if it has no leaf. -/
def cellAt (v : TypedVector) (position : Binary64) : Except Error Cell :=
  if (position - 1).isNaN ∧ v.cells.packed = 0 then .error .noLeaf
  else .ok (((v.placeAt? position).bind v.cells.get?).getD .missing)

end TypedVector
end TypedVectors
