/-!
Powers of two and of ten, the scales of binary and decimal numbers, and the binary logarithm.
-/
namespace TypedVectors

/-- Two to a power. -/
def twoTo (exponent : Nat) : Nat := Nat.pow 2 exponent

/-- Ten to a power. -/
def tenTo (exponent : Nat) : Nat := Nat.pow 10 exponent

theorem twoTo_pos (n : Nat) : 0 < twoTo n := Nat.two_pow_pos n

theorem tenTo_pos (n : Nat) : 0 < tenTo n := Nat.pow_pos (by decide)

theorem twoTo_add (m n : Nat) : twoTo (m + n) = twoTo m * twoTo n := Nat.pow_add 2 m n

theorem tenTo_add (m n : Nat) : tenTo (m + n) = tenTo m * tenTo n := Nat.pow_add 10 m n

theorem twoTo_le {m n : Nat} (h : m ≤ n) : twoTo m ≤ twoTo n := Nat.pow_le_pow_right (by decide) h

theorem tenTo_le {m n : Nat} (h : m ≤ n) : tenTo m ≤ tenTo n := Nat.pow_le_pow_right (by decide) h

theorem twoTo_dvd {m n : Nat} (h : m ≤ n) : twoTo m ∣ twoTo n := Nat.pow_dvd_pow 2 h

/-- The binary logarithm rounded down; that of zero is zero. Each shift that leaves something adds
to it, so that few digits are left to count. -/
def shiftedLog : (shifts : List Nat) → (n : Nat) → Nat
  | [], n => n.log2
  | shift :: shifts, n =>
    let top := n >>> shift
    if top = 0 then shiftedLog shifts n else shift + shiftedLog shifts top

/-- The binary logarithm rounded down, by shifts that suit numbers below two to the power 4096. -/
def binaryLog (n : Nat) : Nat := shiftedLog [2048, 1024, 512, 256, 128, 64, 32, 16] n

private theorem log2_eq_iff_twoTo {k n : Nat} (h : n ≠ 0) :
    n.log2 = k ↔ twoTo k ≤ n ∧ n < twoTo (k + 1) := Nat.log2_eq_iff h

/-- A shift that leaves something takes its places from the logarithm. -/
theorem log2_eq_add_shift {k n : Nat} (h : n >>> k ≠ 0) : n.log2 = k + (n >>> k).log2 := by
  have nonzero : n ≠ 0 := by
    rintro rfl
    exact h (Nat.zero_shiftRight k)
  have bounds := (log2_eq_iff_twoTo h).1 rfl
  rw [log2_eq_iff_twoTo nonzero, Nat.add_comm k, Nat.add_right_comm]
  generalize (n >>> k).log2 = log at bounds
  have quotient : n >>> k = n / twoTo k := Nat.shiftRight_eq_div_pow n k
  rw [quotient, Nat.le_div_iff_mul_le (twoTo_pos k), Nat.div_lt_iff_lt_mul (twoTo_pos k),
    ← twoTo_add, ← twoTo_add] at bounds
  exact bounds

theorem shiftedLog_eq_log2 (shifts : List Nat) (n : Nat) : shiftedLog shifts n = n.log2 := by
  induction shifts generalizing n with
  | nil => rfl
  | cons shift shifts ih =>
    unfold shiftedLog
    dsimp only
    split
    · exact ih n
    · next left => rw [ih, log2_eq_add_shift left]

theorem binaryLog_eq_log2 (n : Nat) : binaryLog n = n.log2 := shiftedLog_eq_log2 _ n

/-- The binary logarithm tells between which powers of two a number lies. -/
theorem binaryLog_lt_iff {k n : Nat} (h : k ≠ 0) : binaryLog k < n ↔ k < twoTo n := by
  rw [binaryLog_eq_log2]
  exact Nat.log2_lt h

theorem lt_twoTo_binaryLog (k : Nat) : k < twoTo (binaryLog k + 1) := by
  rw [binaryLog_eq_log2]
  exact Nat.lt_log2_self

theorem binaryLog_twoTo (n : Nat) : binaryLog (twoTo n) = n := by
  rw [binaryLog_eq_log2]
  exact Nat.log2_two_pow

end TypedVectors
