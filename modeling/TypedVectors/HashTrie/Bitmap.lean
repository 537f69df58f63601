/-!
Bitmaps of 32 branches: which branches a node has, and where each stands among its children.
-/
namespace TypedVectors.Bitmap

/-- The number of set bits, counted in pairs, then in fours, then in bytes that one product adds. -/
def count (word : UInt32) : UInt32 :=
  let odd : UInt32 := word >>> 1 &&& 0x55555555
  let pairs : UInt32 := word - odd
  let low : UInt32 := pairs &&& 0x33333333
  let high : UInt32 := pairs >>> 2 &&& 0x33333333
  let fours : UInt32 := low + high
  let bytes : UInt32 := (fours + fours >>> 4) &&& 0x0f0f0f0f
  let sum : UInt32 := bytes * 0x01010101
  sum >>> 24

/-- The bitmap of one branch. -/
def bit (chunk : UInt32) : UInt32 := 1 <<< chunk

/-- Whether a node has a branch. -/
def has (bitmap chunk : UInt32) : Bool := bitmap &&& bit chunk != 0

/-- The place of a branch among the children: how many branches stand before it. -/
def slot (bitmap chunk : UInt32) : Nat := (count (bitmap &&& (bit chunk - 1))).toNat

end TypedVectors.Bitmap
