import TypedVectors.Powers

/-!
Double precision numbers, exactly. A finite number is a sign and a whole count of steps of 2^-1074,
the distance between the smallest numbers, so that sums, products and comparisons are whole number
arithmetic. Every operation computes its exact result first and rounds it once, to the nearest
number and from the middle to the even one. `roundSteps_leading` says that rounding always
gives 53 leading bits.
-/
namespace TypedVectors

/-- The first magnitude past the largest finite number, in steps: two to the power 1024. -/
def stepLimit : Nat := twoTo 2098

/-- A magnitude of `steps` steps has at most 53 leading bits, zeros below, and no overflow. -/
def Representable (steps : Nat) : Prop :=
  steps % twoTo (binaryLog steps + 1 - 53) = 0 ∧ steps < stepLimit

instance (steps : Nat) : Decidable (Representable steps) :=
  inferInstanceAs (Decidable (_ ∧ _))

/-- A double precision number. Zero keeps its sign; there is one not-a-number. -/
inductive Binary64 where
  | nan
  | infinite (negative : Bool)
  | finite (negative : Bool) (steps : Nat) (representable : Representable steps)
  deriving DecidableEq

/-- The whole number nearest to `num / den`, the even one of two that are equally near. -/
def nearestEven (num den : Nat) : Nat :=
  let floor := num / den
  let rest := num % den
  if 2 * rest < den then floor
  else if den < 2 * rest then floor + 1
  else floor + floor % 2

theorem nearestEven_le (num den : Nat) : nearestEven num den ≤ num / den + 1 := by
  unfold nearestEven
  dsimp only
  split <;> try split
  all_goals omega

/-- The quotient `num / den` kept to 53 leading bits. Below 2^53 it is kept to a whole number. -/
def roundSteps (num den : Nat) : Nat :=
  let gap := twoTo (binaryLog (num / den) + 1 - 53)
  nearestEven num (den * gap) * gap

private theorem div_gap_lt (q : Nat) : q / twoTo (binaryLog q + 1 - 53) < twoTo 53 := by
  rw [Nat.div_lt_iff_lt_mul (twoTo_pos _), ← twoTo_add]
  exact Nat.lt_of_lt_of_le (lt_twoTo_binaryLog q) (twoTo_le (by omega))

/-- Rounding to 53 leading bits leaves only zeros below them, also when it carries. -/
theorem roundSteps_leading (num den : Nat) :
    roundSteps num den % twoTo (binaryLog (roundSteps num den) + 1 - 53) = 0 := by
  have carried : nearestEven num (den * twoTo (binaryLog (num / den) + 1 - 53)) ≤ twoTo 53 := by
    refine Nat.le_trans (nearestEven_le _ _) ?_
    rw [← Nat.div_div_eq_div_mul]
    exact div_gap_lt _
  unfold roundSteps
  dsimp only
  generalize nearestEven num (den * twoTo (binaryLog (num / den) + 1 - 53)) = leading at carried ⊢
  generalize binaryLog (num / den) + 1 - 53 = shift
  rcases Nat.eq_or_lt_of_le carried with top | below
  · subst top
    rw [← twoTo_add, binaryLog_twoTo]
    exact Nat.mod_eq_zero_of_dvd (twoTo_dvd (by omega))
  · by_cases zero : leading * twoTo shift = 0
    · rw [zero]
      exact Nat.zero_mod _
    · have bound : binaryLog (leading * twoTo shift) < 53 + shift := by
        rw [binaryLog_lt_iff zero, twoTo_add]
        exact Nat.mul_lt_mul_of_pos_right below (twoTo_pos shift)
      exact Nat.mod_eq_zero_of_dvd
        (Nat.dvd_trans (twoTo_dvd (by omega)) (Nat.dvd_mul_left _ _))

namespace Binary64

/-- How many steps make one. -/
def unit : Nat := twoTo 1074

/-- The number nearest to `num / den` steps with the given sign; past the largest it is infinite. -/
def ofSteps (negative : Bool) (num den : Nat) : Binary64 :=
  if bounded : roundSteps num den < stepLimit then
    finite negative (roundSteps num den) ⟨roundSteps_leading num den, bounded⟩
  else
    infinite negative

/-- The number nearest to the quotient `num / den`. -/
def ofQuotient (negative : Bool) (num den : Nat) : Binary64 :=
  ofSteps negative (num * unit) den

/-- The number nearest to a natural number. -/
def ofNat (n : Nat) : Binary64 := ofSteps false (n * unit) 1

/-- The number nearest to a whole number; zero is positive. -/
def ofInt (n : Int) : Binary64 := ofSteps (n < 0) (n.natAbs * unit) 1

instance (n : Nat) : OfNat Binary64 n := ⟨ofNat n⟩

instance : Inhabited Binary64 := ⟨nan⟩

/-- The sign bit; not-a-number has none. -/
def negative : Binary64 → Bool
  | nan => false
  | infinite sign => sign
  | finite sign _ _ => sign

def isNaN : Binary64 → Bool
  | nan => true
  | _ => false

def isFinite : Binary64 → Bool
  | finite .. => true
  | _ => false

/-- Whether this is zero of either sign. -/
def isZero : Binary64 → Bool
  | finite _ steps _ => steps == 0
  | _ => false

/-- The value of a finite number in steps; zero for the others. -/
def signedSteps : Binary64 → Int
  | finite sign steps _ => if sign then -(steps : Int) else steps
  | _ => 0

/-- The whole number this number is, if it is one. Both zeros are zero. -/
def toInt? (x : Binary64) : Option Int :=
  match x with
  | finite sign steps _ =>
    if steps % unit = 0 then
      some (if sign then -((steps / unit : Nat) : Int) else (steps / unit : Nat))
    else none
  | _ => none

/-- Whether this is a finite whole number. -/
def isWhole (x : Binary64) : Bool := x.toInt?.isSome

/-- The order of two numbers; none when either is not a number. The two zeros are equal. -/
def compare? : Binary64 → Binary64 → Option Ordering
  | nan, _ | _, nan => none
  | infinite a, infinite b => some (compare b.toNat a.toNat)
  | infinite a, finite .. => some (if a then .lt else .gt)
  | finite .., infinite b => some (if b then .gt else .lt)
  | x@(finite ..), y@(finite ..) => some (compare x.signedSteps y.signedSteps)

/-- Whether `x` is less than `y`; nothing is less or more than not-a-number. -/
def lt (x y : Binary64) : Bool := x.compare? y == some .lt

/-- Whether `x` is less than or equal to `y`. -/
def le (x y : Binary64) : Bool := x.lt y || x.compare? y == some .eq

/-- Whether `x` and `y` are equal as numbers: zeros are equal, not-a-number equals nothing. -/
def equals (x y : Binary64) : Bool := x.compare? y == some .eq

end Binary64
end TypedVectors
