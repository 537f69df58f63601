/-!
The kinds of vectors, in the order of promotion: logical, integer, double, character.
-/
namespace TypedVectors

inductive Kind where
  | logical
  | integer
  | double
  | character
  deriving DecidableEq

namespace Kind

/-- All kinds from the lowest to the highest. -/
def all : List Kind := [logical, integer, double, character]

/-- The place of a kind in the order of promotion. -/
def rank : Kind → Nat
  | logical => 0
  | integer => 1
  | double => 2
  | character => 3

def name : Kind → String
  | logical => "logical"
  | integer => "integer"
  | double => "double"
  | character => "character"

/-- The kind of a given name. -/
def ofName? (name : String) : Option Kind := all.find? (·.name == name)

instance : Max Kind := ⟨fun a b => if a.rank < b.rank then b else a⟩

/-- The highest of some kinds; logical when there are none. -/
def highest (kinds : List Kind) : Kind := kinds.foldl max logical

end Kind
end TypedVectors
