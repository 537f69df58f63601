/-!
Text as UTF-16 code units: characters above U+FFFF are two units. Length, order and hashing of text
count these units.
-/
namespace TypedVectors.Text

/-- The code units of a character. -/
def unitsOf (c : Char) : List UInt16 :=
  if c.toNat < 0x10000 then [c.toNat.toUInt16]
  else
    let above := c.toNat - 0x10000
    [(0xd800 + above / 0x400).toUInt16, (0xdc00 + above % 0x400).toUInt16]

/-- The code units of a text. -/
def units (s : String) : List UInt16 := s.toList.flatMap unitsOf

/-- The order of two sequences of units, by the first unit that differs and then by length. -/
def compareUnits : List UInt16 → List UInt16 → Ordering
  | [], [] => .eq
  | [], _ :: _ => .lt
  | _ :: _, [] => .gt
  | a :: as, b :: bs => if a < b then .lt else if b < a then .gt else compareUnits as bs

/-- The order of two texts. -/
def compare (s t : String) : Ordering := compareUnits (units s) (units t)

end TypedVectors.Text
