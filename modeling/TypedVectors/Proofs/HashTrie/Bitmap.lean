import Mathlib.Data.Nat.Bitwise
import Mathlib.Tactic.Ring
import TypedVectors.HashTrie.Bitmap

/-!
Counting set bits. A word is a row of fields, first of single bits, and each step of `count` adds
fields that stand side by side into fields of twice the width, which have room for the sums. So the
last sum is the number of set bits, and a slot is the number of branches before its own.
-/
namespace TypedVectors.Bitmap

/-- The row of `count` fields, the lowest first, that make a number in a base. None of them is above
the limit, and together they are `sum`. -/
inductive Fields (base limit : Nat) : (count sum number : Nat) → Prop
  | none : Fields base limit 0 0 0
  | cons {field count sum number : Nat} (small : field ≤ limit)
    (rest : Fields base limit count sum number) :
    Fields base limit (count + 1) (field + sum) (field + base * number)

/-- How many bits of a number are set below a place. -/
def rank (bits place : Nat) : Nat := (List.range place).countP bits.testBit

theorem fields_bits (count : Nat) {word : Nat} (short : word < 2 ^ count) :
    Fields 2 1 count (rank word count) word := by
  induction count generalizing word with
  | zero =>
    obtain rfl : word = 0 := by simpa using short
    exact .none
  | succ count ih =>
    have shorter : word / 2 < 2 ^ count := by
      rw [Nat.pow_succ] at short
      omega
    have rest := ih shorter
    have lowest : word % 2 = if word.testBit 0 then 1 else 0 := by
      rw [Nat.testBit_zero]
      rcases Nat.mod_two_eq_zero_or_one word with even | odd
      · simp [even]
      · simp [odd]
    have split : rank word (count + 1) = word % 2 + rank (word / 2) count := by
      have halved : word.testBit ∘ Nat.succ = (word / 2).testBit := by
        funext place
        exact Nat.testBit_succ word place
      unfold rank
      rw [List.range_succ_eq_map, List.countP_cons, List.countP_map, halved, lowest, Nat.add_comm]
    rw [split, ← Nat.mod_add_div word 2]
    have whole : (word % 2 + 2 * (word / 2)) % 2 = word % 2 := by omega
    have half : (word % 2 + 2 * (word / 2)) / 2 = word / 2 := by omega
    rw [whole, half]
    exact .cons (by omega) rest

namespace Fields

variable {base limit count sum number : Nat}

theorem mod_le (fields : Fields base limit count sum number) (room : limit < base) :
    number % base ≤ limit := by
  cases fields with
  | none => exact Nat.zero_le limit
  | cons small rest => rwa [Nat.add_mul_mod_self_left, Nat.mod_eq_of_lt (by omega)]

/-- Fields that leave room for their double make a number that does as well. -/
theorem double_lt (fields : Fields base limit count sum number) (room : 2 * limit < base) :
    2 * number < base ^ count := by
  induction fields with
  | none => exact Nat.one_pos
  | @cons field count sum number small rest ih =>
    have step : base * (2 * number + 1) ≤ base * base ^ count := Nat.mul_le_mul_left base ih
    rw [Nat.pow_succ', Nat.mul_add]
    rw [Nat.mul_add, Nat.mul_one, Nat.mul_left_comm] at step
    omega

/-- The lowest two fields. -/
theorem exists_two (count : Nat) (fields : Fields base limit (2 * (count + 1)) sum number) :
    ∃ low high restSum rest, low ≤ limit ∧ high ≤ limit ∧
      Fields base limit (2 * count) restSum rest ∧ sum = low + (high + restSum) ∧
      number = low + base * (high + base * rest) := by
  rw [Nat.mul_succ] at fields
  cases fields with
  | cons lowSmall fields =>
    cases fields with
    | cons highSmall fields => exact ⟨_, _, _, _, lowSmall, highSmall, fields, rfl, rfl⟩

end Fields

/-- Ones in every second field. -/
def alternate (base : Nat) : (count : Nat) → Nat
  | 0 => 0
  | count + 1 => (base - 1) + base * base * alternate base count

theorem and_alternate_succ (width number count : Nat) :
    number &&& alternate (2 ^ width) (count + 1) =
      number % 2 ^ width + 2 ^ width * 2 ^ width *
        (number / (2 ^ width * 2 ^ width) &&& alternate (2 ^ width) count) := by
  have positive := Nat.two_pow_pos width
  have narrow : 2 ^ width - 1 < 2 ^ width * 2 ^ width :=
    Nat.lt_of_lt_of_le (Nat.sub_lt positive Nat.one_pos) (Nat.le_mul_of_pos_right _ positive)
  have low : alternate (2 ^ width) (count + 1) % (2 ^ width * 2 ^ width) = 2 ^ width - 1 := by
    rw [alternate, Nat.add_mul_mod_self_left, Nat.mod_eq_of_lt narrow]
  have high : alternate (2 ^ width) (count + 1) / (2 ^ width * 2 ^ width) =
      alternate (2 ^ width) count := by
    rw [alternate, Nat.add_mul_div_left _ _ (Nat.mul_pos positive positive),
      Nat.div_eq_of_lt narrow, Nat.zero_add]
  have pair : 2 ^ (width + width) = 2 ^ width * 2 ^ width := Nat.pow_add 2 width width
  conv_lhs => rw [← Nat.mod_add_div (number &&& _) (2 ^ (width + width)), Nat.and_mod_two_pow,
    Nat.and_div_two_pow, pair, low, high, Nat.and_two_pow_sub_one_eq_mod, Nat.mod_mul_left_mod]

/-- The even fields and the odd fields of a number, each in a row of its own. -/
theorem and_alternate_two {width low high : Nat} (lowSmall : low < 2 ^ width)
    (highSmall : high < 2 ^ width) (rest count : Nat) :
    ((low + 2 ^ width * (high + 2 ^ width * rest)) &&& alternate (2 ^ width) (count + 1) =
        low + 2 ^ width * 2 ^ width * (rest &&& alternate (2 ^ width) count)) ∧
      ((low + 2 ^ width * (high + 2 ^ width * rest)) / 2 ^ width &&&
          alternate (2 ^ width) (count + 1) =
        high + 2 ^ width * 2 ^ width * (rest / 2 ^ width &&& alternate (2 ^ width) count)) := by
  have positive := Nat.two_pow_pos width
  have shifted : (low + 2 ^ width * (high + 2 ^ width * rest)) / 2 ^ width =
      high + 2 ^ width * rest := by
    rw [Nat.add_mul_div_left _ _ positive, Nat.div_eq_of_lt lowSmall, Nat.zero_add]
  have twice : (high + 2 ^ width * rest) / 2 ^ width = rest := by
    rw [Nat.add_mul_div_left _ _ positive, Nat.div_eq_of_lt highSmall, Nat.zero_add]
  constructor
  · rw [and_alternate_succ, Nat.add_mul_mod_self_left, Nat.mod_eq_of_lt lowSmall,
      ← Nat.div_div_eq_div_mul, shifted, twice]
  · rw [shifted, and_alternate_succ, Nat.add_mul_mod_self_left, Nat.mod_eq_of_lt highSmall,
      ← Nat.div_div_eq_div_mul, twice]

namespace Fields

variable {limit sum number : Nat} (width count : Nat)

/-- Adding the even fields to the odd ones makes fields of twice the width. -/
theorem add_neighbours (fields : Fields (2 ^ width) limit (2 * count) sum number)
    (room : limit < 2 ^ width) :
    Fields (2 ^ width * 2 ^ width) (2 * limit) count sum
      ((number &&& alternate (2 ^ width) count) +
        (number / 2 ^ width &&& alternate (2 ^ width) count)) := by
  induction count generalizing sum number with
  | zero =>
    cases fields with
    | none => simpa using Fields.none
  | succ count ih =>
    obtain ⟨low, high, restSum, rest, lowSmall, highSmall, behind, rfl, rfl⟩ :=
      fields.exists_two count
    obtain ⟨even, odd⟩ := and_alternate_two (Nat.lt_of_le_of_lt lowSmall room)
      (Nat.lt_of_le_of_lt highSmall room) rest count
    have added := Fields.cons (show low + high ≤ 2 * limit by omega) (ih behind)
    rw [even, odd, ← Nat.add_assoc]
    convert added using 1
    ring

theorem even_add_odd (fields : Fields (2 ^ width) limit (2 * count) sum number)
    (room : limit < 2 ^ width) :
    (number &&& alternate (2 ^ width) count) +
      2 ^ width * (number / 2 ^ width &&& alternate (2 ^ width) count) = number := by
  induction count generalizing sum number with
  | zero =>
    cases fields with
    | none => simp
  | succ count ih =>
    obtain ⟨low, high, restSum, rest, lowSmall, highSmall, behind, rfl, rfl⟩ :=
      fields.exists_two count
    obtain ⟨even, odd⟩ := and_alternate_two (Nat.lt_of_le_of_lt lowSmall room)
      (Nat.lt_of_le_of_lt highSmall room) rest count
    rw [even, odd]
    conv_rhs => rw [← ih behind]
    ring

/-- Where a field has room for two, fields can be added before the odd sums are dropped. -/
theorem and_add_shifted (fields : Fields (2 ^ width) limit (2 * count) sum number)
    (room : 2 * limit < 2 ^ width) :
    (number + number / 2 ^ width) &&& alternate (2 ^ width) count =
      (number &&& alternate (2 ^ width) count) +
        (number / 2 ^ width &&& alternate (2 ^ width) count) := by
  induction count generalizing sum number with
  | zero => rw [alternate, Nat.and_zero, Nat.and_zero, Nat.and_zero]
  | succ count ih =>
    obtain ⟨low, high, restSum, rest, lowSmall, highSmall, behind, rfl, rfl⟩ :=
      fields.exists_two count
    have positive := Nat.two_pow_pos width
    have lowLt : low < 2 ^ width := by omega
    have highLt : high < 2 ^ width := by omega
    have bothLt : low + high < 2 ^ width := by omega
    have carry : (high + rest) / 2 ^ width = rest / 2 ^ width := by
      have next := behind.mod_le (by omega)
      rw [Nat.add_div positive, Nat.div_eq_of_lt highLt, Nat.mod_eq_of_lt highLt,
        if_neg (by omega), Nat.zero_add, Nat.add_zero]
    obtain ⟨even, odd⟩ := and_alternate_two lowLt highLt rest count
    have shifted : (low + 2 ^ width * (high + 2 ^ width * rest)) / 2 ^ width =
        high + 2 ^ width * rest := by
      rw [Nat.add_mul_div_left _ _ positive, Nat.div_eq_of_lt lowLt, Nat.zero_add]
    have total : low + 2 ^ width * (high + 2 ^ width * rest) + (high + 2 ^ width * rest) =
        (low + high) + 2 ^ width * ((high + rest) + 2 ^ width * rest) := by ring
    rw [even, odd, shifted, total, and_alternate_succ, Nat.add_mul_mod_self_left,
      Nat.mod_eq_of_lt bothLt, ← Nat.div_div_eq_div_mul, Nat.add_mul_div_left _ _ positive,
      Nat.div_eq_of_lt bothLt, Nat.zero_add, Nat.add_mul_div_left _ _ positive, carry,
      Nat.add_comm (rest / 2 ^ width), ih behind]
    ring

/-- One product adds four bytes in its highest byte. -/
theorem highest_byte {number sum : Nat} (fields : Fields 256 8 4 sum number) :
    number * 0x01010101 % 2 ^ 32 / 2 ^ 24 = sum := by
  obtain ⟨a, b, restSum, rest, aSmall, bSmall, upper, rfl, rfl⟩ := exists_two 1 fields
  obtain ⟨c, d, _, _, cSmall, dSmall, above, rfl, rfl⟩ := exists_two 0 upper
  cases above with
  | none =>
    -- Each byte of the product is a sum of bytes, up to what runs over the word.
    have product : (a + 256 * (b + 256 * (c + 256 * (d + 256 * 0)))) * 0x01010101 =
        (a + 256 * (a + b) + 65536 * (a + b + c)) + 2 ^ 24 * (a + b + c + d) +
          2 ^ 32 * (b + c + d + 256 * (c + d) + 65536 * d) := by ring
    rw [product, Nat.add_mul_mod_self_left, Nat.mod_eq_of_lt (by omega)]
    omega

end Fields

theorem toNat_shiftRight_and (word mask : UInt32) {width : Nat} (short : width < 32) :
    (word >>> width.toUInt32 &&& mask).toNat = word.toNat / 2 ^ width &&& mask.toNat := by
  have shift : width.toUInt32.toNat % 32 = width := by
    rw [Nat.toUInt32_eq, UInt32.toNat_ofNat_of_lt' (Nat.lt_trans short (by decide)),
      Nat.mod_eq_of_lt short]
  rw [UInt32.toNat_and, UInt32.toNat_shiftRight, shift, Nat.shiftRight_eq_div_pow]

/-- Subtracting the odd bits leaves a pair of bits as their sum. -/
theorem toNat_pairs (word : UInt32) :
    (word - (word >>> 1 &&& 0x55555555)).toNat =
      (word.toNat &&& alternate (2 ^ 1) 16) + (word.toNat / 2 ^ 1 &&& alternate (2 ^ 1) 16) := by
  have split := (fields_bits 32 word.toNat_lt).even_add_odd 1 16 (by decide)
  have odd : (word >>> 1 &&& 0x55555555).toNat = word.toNat / 2 ^ 1 &&& alternate (2 ^ 1) 16 :=
    toNat_shiftRight_and word 0x55555555 (by decide)
  have below : (word >>> 1 &&& 0x55555555) ≤ word := by
    rw [UInt32.le_iff_toNat_le, odd]
    omega
  rw [UInt32.toNat_sub_of_le _ _ below, odd]
  omega

theorem toNat_fours (pairs : UInt32) :
    ((pairs &&& (0x33333333 : UInt32)) + (pairs >>> 2 &&& (0x33333333 : UInt32))).toNat =
      (pairs.toNat &&& alternate (2 ^ 2) 8) + (pairs.toNat / 2 ^ 2 &&& alternate (2 ^ 2) 8) := by
  have even : (pairs &&& 0x33333333).toNat = pairs.toNat &&& alternate (2 ^ 2) 8 :=
    UInt32.toNat_and pairs 0x33333333
  have odd : (pairs >>> 2 &&& 0x33333333).toNat = pairs.toNat / 2 ^ 2 &&& alternate (2 ^ 2) 8 :=
    toNat_shiftRight_and pairs 0x33333333 (by decide)
  have evenLe : pairs.toNat &&& alternate (2 ^ 2) 8 ≤ 0x33333333 := Nat.and_le_right
  have oddLe : pairs.toNat / 2 ^ 2 &&& alternate (2 ^ 2) 8 ≤ 0x33333333 := Nat.and_le_right
  rw [UInt32.toNat_add, even, odd, Nat.mod_eq_of_lt (by omega)]

theorem toNat_bytes {fours : UInt32} (room : 2 * fours.toNat < 2 ^ 32) :
    ((fours + fours >>> 4) &&& 0x0f0f0f0f).toNat =
      (fours.toNat + fours.toNat / 2 ^ 4) &&& alternate (2 ^ 4) 4 := by
  have shifted : (fours >>> 4).toNat = fours.toNat / 2 ^ 4 := Nat.shiftRight_eq_div_pow _ 4
  have sum : (fours + fours >>> 4).toNat = fours.toNat + fours.toNat / 2 ^ 4 := by
    rw [UInt32.toNat_add, shifted, Nat.mod_eq_of_lt (by omega)]
  rw [UInt32.toNat_and, sum]
  rfl

/-- Pairs, fours, bytes and the word each hold the number of bits that are set in them. -/
theorem count_eq_rank (word : UInt32) : (count word).toNat = rank word.toNat 32 := by
  have bits := fields_bits 32 word.toNat_lt
  have pairs := bits.add_neighbours 1 16 (by decide)
  rw [← toNat_pairs] at pairs
  have fours := pairs.add_neighbours 2 8 (by decide)
  rw [← toNat_fours] at fours
  have bytes := fours.add_neighbours 4 4 (by decide)
  rw [← fours.and_add_shifted 4 4 (by decide),
    ← toNat_bytes (fours.double_lt (by decide))] at bytes
  have total := bytes.highest_byte
  unfold count
  dsimp only
  rw [UInt32.toNat_shiftRight, UInt32.toNat_mul, ← total]
  exact Nat.shiftRight_eq_div_pow _ 24

/-- The number of branches. -/
def size (bitmap : UInt32) : Nat := rank bitmap.toNat 32

theorem rank_succ (bits place : Nat) :
    rank bits (place + 1) = rank bits place + if bits.testBit place then 1 else 0 := by
  unfold rank
  rw [List.range_succ, List.countP_append, List.countP_singleton]

theorem rank_mono (bits : Nat) {low high : Nat} (below : low ≤ high) :
    rank bits low ≤ rank bits high := by
  induction below with
  | refl => exact Nat.le_refl _
  | step _ ih =>
    rw [rank_succ]
    exact Nat.le_add_right_of_le ih

theorem rank_lt_rank {bits low high : Nat} (below : low < high) (set : bits.testBit low) :
    rank bits low < rank bits high := by
  have next := rank_mono bits (show low + 1 ≤ high from below)
  rwa [rank_succ, if_pos set] at next

theorem rank_congr {bits other place : Nat}
    (same : ∀ index < place, bits.testBit index = other.testBit index) :
    rank bits place = rank other place :=
  List.countP_congr fun index inside => by rw [same index (List.mem_range.1 inside)]

theorem rank_mod_two_pow (bits : Nat) {place count : Nat} (inside : place ≤ count) :
    rank (bits % 2 ^ place) count = rank bits place := by
  induction inside with
  | refl =>
    refine rank_congr fun index below => ?_
    rw [Nat.testBit_mod_two_pow, decide_eq_true below, Bool.true_and]
  | @step count above ih =>
    have cleared : (bits % 2 ^ place).testBit count = false := by
      rw [Nat.testBit_mod_two_pow, decide_eq_false (Nat.not_lt.2 above), Bool.false_and]
    rw [rank_succ, ih, cleared]
    rfl

/-- A branch that is added stands before the branches of higher places only. -/
theorem rank_or_two_pow {bits place : Nat} (unset : bits.testBit place = false) (other : Nat) :
    rank (bits ||| 2 ^ place) other = rank bits other + if place < other then 1 else 0 := by
  induction other with
  | zero => rfl
  | succ other ih =>
    rw [rank_succ, rank_succ, ih, Nat.testBit_or, Nat.testBit_two_pow]
    rcases Nat.lt_trichotomy place other with less | rfl | more
    · simp [less, Nat.ne_of_lt less, Nat.lt_succ_of_lt less, Nat.add_right_comm]
    · simp [unset]
    · simp [Nat.not_lt.2 (Nat.le_of_lt more), Nat.ne_of_gt more, Nat.not_lt.2 more]

variable {bitmap chunk other : UInt32}

theorem toNat_bit (low : chunk < 32) : (bit chunk).toNat = 2 ^ chunk.toNat := by
  have small : chunk.toNat < 32 := low
  unfold bit
  rw [UInt32.toNat_shiftLeft, Nat.mod_eq_of_lt small]
  change 1 <<< chunk.toNat % 2 ^ 32 = _
  rw [Nat.one_shiftLeft, Nat.mod_eq_of_lt (Nat.pow_lt_pow_right (by decide) small)]

theorem has_eq_testBit (bitmap : UInt32) (low : chunk < 32) :
    has bitmap chunk = bitmap.toNat.testBit chunk.toNat := by
  have value : (bitmap &&& bit chunk).toNat =
      (bitmap.toNat.testBit chunk.toNat).toNat * 2 ^ chunk.toNat := by
    rw [UInt32.toNat_and, toNat_bit low, Nat.and_two_pow]
  unfold has
  rw [bne, Bool.not_eq_eq_eq_not, Bool.eq_iff_iff, beq_iff_eq, ← UInt32.toNat_inj, value]
  cases bitmap.toNat.testBit chunk.toNat with
  | false => simp
  | true => simp

theorem has_zero (low : chunk < 32) : has 0 chunk = false := by
  rw [has_eq_testBit 0 low]
  exact Nat.zero_testBit _

theorem slot_eq_rank (bitmap : UInt32) (low : chunk < 32) :
    slot bitmap chunk = rank bitmap.toNat chunk.toNat := by
  have below : (bit chunk - 1).toNat = 2 ^ chunk.toNat - 1 := by
    have one : 1 ≤ bit chunk := by
      rw [UInt32.le_iff_toNat_le, toNat_bit low]
      exact Nat.two_pow_pos _
    rw [UInt32.toNat_sub_of_le _ _ one, toNat_bit low]
    rfl
  have small : chunk.toNat < 32 := low
  rw [slot, count_eq_rank, UInt32.toNat_and, below, Nat.and_two_pow_sub_one_eq_mod,
    rank_mod_two_pow _ (Nat.le_of_lt small)]

theorem slot_lt_size (low : chunk < 32) (present : has bitmap chunk) :
    slot bitmap chunk < size bitmap := by
  rw [has_eq_testBit bitmap low] at present
  rw [slot_eq_rank bitmap low]
  exact rank_lt_rank low present

theorem slot_le_size (bitmap : UInt32) (low : chunk < 32) : slot bitmap chunk ≤ size bitmap := by
  rw [slot_eq_rank bitmap low]
  exact rank_mono _ (Nat.le_of_lt low)

theorem slot_mono (bitmap : UInt32) (low : chunk < 32) (otherLow : other < 32)
    (below : chunk ≤ other) : slot bitmap chunk ≤ slot bitmap other := by
  rw [slot_eq_rank bitmap low, slot_eq_rank bitmap otherLow]
  exact rank_mono _ below

theorem slot_lt_slot (low : chunk < 32) (otherLow : other < 32) (below : chunk < other)
    (present : has bitmap chunk) : slot bitmap chunk < slot bitmap other := by
  rw [has_eq_testBit bitmap low] at present
  rw [slot_eq_rank bitmap low, slot_eq_rank bitmap otherLow]
  exact rank_lt_rank below present

/-- Branches stand in slots of their own. -/
theorem slot_injective (low : chunk < 32) (otherLow : other < 32) (present : has bitmap chunk)
    (otherPresent : has bitmap other) (same : slot bitmap chunk = slot bitmap other) :
    chunk = other := by
  by_contra different
  rcases UInt32.lt_or_lt_of_ne different with less | more
  · exact Nat.ne_of_lt (slot_lt_slot low otherLow less present) same
  · exact Nat.ne_of_gt (slot_lt_slot otherLow low more otherPresent) same

theorem has_or_bit (bitmap : UInt32) (low : chunk < 32) (otherLow : other < 32) :
    has (bitmap ||| bit other) chunk = (has bitmap chunk || decide (chunk = other)) := by
  rw [has_eq_testBit _ low, has_eq_testBit bitmap low, UInt32.toNat_or, toNat_bit otherLow,
    Nat.testBit_or, Nat.testBit_two_pow]
  simp only [← UInt32.toNat_inj, eq_comm]

theorem slot_or_bit (low : chunk < 32) (otherLow : other < 32) (absent : has bitmap other = false) :
    slot (bitmap ||| bit other) chunk = slot bitmap chunk + if other < chunk then 1 else 0 := by
  rw [has_eq_testBit bitmap otherLow] at absent
  rw [slot_eq_rank _ low, slot_eq_rank bitmap low, UInt32.toNat_or, toNat_bit otherLow,
    rank_or_two_pow absent]
  rfl

theorem size_or_bit (low : chunk < 32) (absent : has bitmap chunk = false) :
    size (bitmap ||| bit chunk) = size bitmap + 1 := by
  have small : chunk.toNat < 32 := low
  rw [has_eq_testBit bitmap low] at absent
  rw [size, UInt32.toNat_or, toNat_bit low, rank_or_two_pow absent, if_pos small]
  rfl

theorem size_bit (low : chunk < 32) : size (bit chunk) = 1 := by
  rw [← UInt32.zero_or (a := bit chunk), size_or_bit low (has_zero low)]
  rfl

theorem slot_zero (low : chunk < 32) : slot 0 chunk = 0 :=
  Nat.le_zero.1 (slot_le_size 0 low)

theorem has_bit (low : chunk < 32) (otherLow : other < 32) :
    has (bit other) chunk = decide (chunk = other) := by
  rw [← UInt32.zero_or (a := bit other), has_or_bit 0 low otherLow, has_zero low, Bool.false_or]

theorem slot_bit (low : chunk < 32) (otherLow : other < 32) :
    slot (bit other) chunk = if other < chunk then 1 else 0 := by
  rw [← UInt32.zero_or (a := bit other), slot_or_bit low otherLow (has_zero otherLow),
    slot_zero low, Nat.zero_add]

/-- The branches of a node in ascending order. -/
def branches (bitmap : UInt32) : List Nat := (List.range 32).filter bitmap.toNat.testBit

theorem length_branches (bitmap : UInt32) : (branches bitmap).length = size bitmap :=
  List.countP_eq_length_filter.symm

theorem nodup_branches (bitmap : UInt32) : (branches bitmap).Nodup := List.nodup_range.filter _

/-- The rank of a set bit is its place among the set bits. -/
theorem getElem?_filter_rank {bits place count : Nat} (below : place < count)
    (set : bits.testBit place) :
    ((List.range count).filter bits.testBit)[rank bits place]? = some place := by
  induction count with
  | zero => omega
  | succ count ih =>
    have length : ((List.range count).filter bits.testBit).length = rank bits count :=
      List.countP_eq_length_filter.symm
    rw [List.range_succ, List.filter_append]
    rcases Nat.lt_or_eq_of_le (Nat.le_of_lt_succ below) with earlier | rfl
    · rw [List.getElem?_append_left (length ▸ rank_lt_rank earlier set)]
      exact ih earlier
    · rw [List.getElem?_append_right (Nat.le_of_eq length), length, Nat.sub_self]
      simp [set]

theorem getElem?_branches_slot (low : chunk < 32) (present : has bitmap chunk) :
    (branches bitmap)[slot bitmap chunk]? = some chunk.toNat := by
  rw [slot_eq_rank bitmap low]
  rw [has_eq_testBit bitmap low] at present
  exact getElem?_filter_rank low present

theorem exists_branch {place index : Nat} (found : (branches bitmap)[index]? = some place) :
    ∃ chunk, chunk < 32 ∧ chunk.toNat = place ∧ has bitmap chunk ∧ slot bitmap chunk = index := by
  obtain ⟨member, set⟩ := List.mem_filter.1 (List.mem_of_getElem? found)
  have below := List.mem_range.1 member
  have value : (UInt32.ofNat place).toNat = place :=
    UInt32.toNat_ofNat_of_lt' (Nat.lt_trans below (by decide))
  have low : UInt32.ofNat place < 32 := by
    rw [UInt32.lt_iff_toNat_lt, value]
    exact below
  have present : has bitmap (UInt32.ofNat place) := by
    rw [has_eq_testBit bitmap low, value]
    exact set
  refine ⟨UInt32.ofNat place, low, value, present, ?_⟩
  have same := (getElem?_branches_slot low present).trans ((congrArg some value).trans found.symm)
  have inside : slot bitmap (UInt32.ofNat place) < (branches bitmap).length := by
    rw [length_branches]
    exact slot_lt_size low present
  exact (List.getElem?_inj inside (nodup_branches bitmap)).1 same

end TypedVectors.Bitmap
