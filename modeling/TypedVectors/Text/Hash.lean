import TypedVectors.Text.Units

/-!
A 32 bit hash of text. Four code units make a block, each by its low byte; a block is scrambled and
mixed in, units left over are scrambled together, and the length and a last avalanche close it.
-/
namespace TypedVectors.Text

/-- Turns the bits of a word to the left. -/
def rotate (word count : UInt32) : UInt32 := word <<< count ||| word >>> (32 - count)

/-- Spreads the bits of a block. -/
def scramble (block : UInt32) : UInt32 := rotate (block * 0xcc9e2d51) 15 * 0x1b873593

/-- Mixes a full block into the hash. -/
def mix (hash block : UInt32) : UInt32 := rotate (hash ^^^ scramble block) 13 * 5 + 0xe6546b64

/-- Mixes a sequence of bytes into the hash. -/
def mixBytes (hash : UInt32) : List UInt32 → UInt32
  | a :: b :: c :: d :: rest => mixBytes (mix hash (a ||| b <<< 8 ||| c <<< 16 ||| d <<< 24)) rest
  | [a, b, c] => hash ^^^ scramble (a ||| b <<< 8 ||| c <<< 16)
  | [a, b] => hash ^^^ scramble (a ||| b <<< 8)
  | [a] => hash ^^^ scramble a
  | [] => hash

/-- Lets every bit of the hash reach every other. -/
def avalanche (hash : UInt32) : UInt32 :=
  let hash := (hash ^^^ hash >>> 16) * 0x85ebca6b
  let hash := (hash ^^^ hash >>> 13) * 0xc2b2ae35
  hash ^^^ hash >>> 16

/-- The hash of a text under a seed. -/
def hash (seed : UInt32) (s : String) : UInt32 :=
  let bytes := (units s).map fun unit => unit.toUInt32 &&& 0xff
  let length := bytes.length.toUInt32
  avalanche (mixBytes (seed ^^^ length) bytes ^^^ length)

end TypedVectors.Text
