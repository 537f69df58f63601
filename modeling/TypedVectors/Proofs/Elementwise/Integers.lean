import TypedVectors.Proofs.Binary64.Division
import TypedVectors.Proofs.Elementwise.Recycled

/-!
Arithmetic on integer and logical vectors is exact. Sums, differences and products are those of
whole numbers, missing and counted where they leave the range of integers; quotients and rests are
those of division rounded down and stay in the range.
-/
namespace TypedVectors

/-- The whole number of a logical or integer cell, where it has one. -/
def Cell.whole? : Cell → Option ℤ
  | truth value => some (if value then 1 else 0)
  | number x => x.toInt?
  | missing | text _ => none

/-- A whole number as the result in an integer cell; out of range it is missing and counted. -/
def Tallied.whole (n : ℤ) : Tallied :=
  if n.natAbs ≤ integerLimit then ⟨.number (.ofInt n), false⟩ else ⟨.missing, true⟩

theorem Tallied.ofInteger_eq {x : Binary64} {n : ℤ} (same : x.unsignedZero = .ofInt n) :
    ofInteger x = whole n := by
  have fits : x.fitsInteger ↔ n.natAbs ≤ integerLimit := by
    rw [← Binary64.fitsInteger_ofInt, ← same, Binary64.fitsInteger, Binary64.fitsInteger,
      Binary64.toInt?_unsignedZero]
  unfold ofInteger whole
  simp only [fits, same]

theorem Tallied.ofInteger_limited {x : Binary64} {n : ℤ} (same : x.unsignedZero = .ofInt n)
    (limited : n.natAbs ≤ integerLimit) : ofInteger x = ⟨.number (.ofInt n), false⟩ := by
  rw [ofInteger_eq same, whole, if_pos limited]

namespace Arithmetic

/-- Whether the operator makes integers of integers. -/
def isIntegral : Arithmetic → Bool
  | divide | power => false
  | add | subtract | multiply | floorMod | floorDiv => true

/-- The results of the integral operators on two whole numbers that may be missing. -/
structure Exact (x y : Option ℤ) (results : Arithmetic → Tallied) : Prop where
  missing : x = none ∨ y = none → ∀ operator, operator.isIntegral →
    results operator = ⟨.missing, false⟩
  add : ∀ m ∈ x, ∀ n ∈ y, results .add = .whole (m + n)
  subtract : ∀ m ∈ x, ∀ n ∈ y, results .subtract = .whole (m - n)
  multiply : ∀ m ∈ x, ∀ n ∈ y, results .multiply = .whole (m * n)
  byZero : y = some 0 →
    results .floorDiv = ⟨.missing, false⟩ ∧ results .floorMod = ⟨.missing, false⟩
  divided : ∀ m ∈ x, ∀ n ∈ y, n ≠ 0 → ∃ q r, FloorDivision m n q r ∧
    q.natAbs ≤ integerLimit ∧ r.natAbs ≤ integerLimit ∧
    results .floorDiv = ⟨.number (.ofInt q), false⟩ ∧
    results .floorMod = ⟨.number (.ofInt r), false⟩

theorem isUnitPower_integral {operator : Arithmetic} (integral : operator.isIntegral)
    (x y : Cell) : operator.isUnitPower x y = false := by
  cases operator with
  | power => cases integral
  | add | subtract | multiply | divide | floorMod | floorDiv => rfl

theorem cell_missing {operator : Arithmetic} (integral : operator.isIntegral) {x y : Cell}
    (missing : x = .missing ∨ y = .missing) : operator.cell .integer x y = ⟨.missing, false⟩ := by
  unfold cell
  rw [isUnitPower_integral integral, if_neg Bool.false_ne_true]
  rcases missing with rfl | rfl
  · rfl
  · cases x with
    | missing | truth _ | number _ | text _ => rfl

theorem cell_numbers {operator : Arithmetic} (integral : operator.isIntegral) (a b : Binary64) :
    operator.cell .integer (.number a) (.number b) =
      if operator.dividesByZero b then ⟨.missing, false⟩
      else .ofInteger (operator.apply a b) := by
  unfold cell
  rw [isUnitPower_integral integral, if_neg Bool.false_ne_true]
  rfl

/-- The whole number that a converted cell holds, if it holds one. -/
inductive Holds : Cell → Option ℤ → Prop
  | missing : Holds .missing none
  | number {a : Binary64} {n : ℤ} (whole : a.toInt? = some n) (limited : n.natAbs ≤ integerLimit) :
    Holds (.number a) (some n)

theorem exact_numbers {a b : Binary64} {m n : ℤ} (left : a.toInt? = some m)
    (right : b.toInt? = some n) (leftLimited : m.natAbs ≤ integerLimit)
    (rightLimited : n.natAbs ≤ integerLimit) :
    Exact (some m) (some n) fun operator => operator.cell .integer (.number a) (.number b) := by
  have bits : integerLimit + integerLimit < twoTo 53 := by decide
  refine ⟨fun absent => ?_, ?_, ?_, ?_, fun zero => ?_, ?_⟩
  · rcases absent with absent | absent <;> cases absent
  · rintro _ ⟨⟩ _ ⟨⟩
    rw [cell_numbers rfl]
    exact Tallied.ofInteger_eq (Binary64.unsignedZero_add left right)
  · rintro _ ⟨⟩ _ ⟨⟩
    rw [cell_numbers rfl]
    exact Tallied.ofInteger_eq (Binary64.unsignedZero_sub left right)
  · rintro _ ⟨⟩ _ ⟨⟩
    rw [cell_numbers rfl]
    exact Tallied.ofInteger_eq (Binary64.unsignedZero_mul left right)
  · cases zero
    have divides := (Binary64.isZero_iff right).2 rfl
    rw [cell_numbers rfl, cell_numbers rfl, dividesByZero, dividesByZero, divides]
    exact ⟨rfl, rfl⟩
  · rintro _ ⟨⟩ _ ⟨⟩ nonzero
    have divisor : b.isZero = false :=
      eq_false_of_ne_true fun zero => nonzero ((Binary64.isZero_iff right).1 zero)
    have division := floorDivision nonzero m
    have quotient := Binary64.natAbs_fdiv_le (m := m) nonzero
    have rest := division.small
    refine ⟨m.fdiv n, m.fmod n, division, by omega, by omega, ?_, ?_⟩
    · rw [cell_numbers rfl, dividesByZero, divisor, Bool.and_false, if_neg Bool.false_ne_true]
      exact Tallied.ofInteger_limited
        (Binary64.unsignedZero_floorDiv left right nonzero (by omega)) (by omega)
    · rw [cell_numbers rfl, dividesByZero, divisor, Bool.and_false, if_neg Bool.false_ne_true]
      exact Tallied.ofInteger_limited
        (Binary64.unsignedZero_floorMod left right nonzero (by omega)) (by omega)

theorem exact_missing {cell other : Cell} {x y : Option ℤ}
    (missing : cell = .missing ∨ other = .missing) (absent : x = none ∨ y = none) :
    Exact x y fun operator => operator.cell .integer cell other := by
  have never : ∀ m ∈ x, ∀ n ∈ y, False := by
    intro m left n right
    rcases absent with rfl | rfl
    · cases left
    · cases right
  exact {
    missing := fun _ operator integral => cell_missing integral missing
    add := fun m left n right => (never m left n right).elim
    subtract := fun m left n right => (never m left n right).elim
    multiply := fun m left n right => (never m left n right).elim
    byZero := fun _ => ⟨cell_missing rfl missing, cell_missing rfl missing⟩
    divided := fun m left n right => (never m left n right).elim }

theorem exact_cells {cell other : Cell} {x y : Option ℤ} (left : Holds cell x)
    (right : Holds other y) : Exact x y fun operator => operator.cell .integer cell other := by
  cases left with
  | missing => exact exact_missing (.inl rfl) (.inl rfl)
  | number leftWhole leftLimited =>
    cases right with
    | missing => exact exact_missing (.inr rfl) (.inr rfl)
    | number rightWhole rightLimited =>
      exact exact_numbers leftWhole rightWhole leftLimited rightLimited

end Arithmetic

theorem toInt?_numberOfTruth (value : Bool) :
    (Cell.numberOfTruth value).toInt? = some (if value then 1 else 0) := by
  cases value with
  | false =>
    rw [Cell.numberOfTruth, if_neg Bool.false_ne_true, if_neg Bool.false_ne_true]
    exact Binary64.toInt?_ofNat (twoTo_pos 53).le
  | true =>
    rw [Cell.numberOfTruth, if_pos rfl, if_pos rfl]
    exact Binary64.toInt?_ofNat (twoTo_pos 53)

/-- An integer or logical cell becomes an integer one that holds the same whole number. -/
theorem Cell.holds_convert {source : Kind} {cell : Cell}
    (integral : source.rank ≤ Kind.integer.rank) (valid : cell.belongsTo source) :
    Arithmetic.Holds (cell.convert source .integer).cell cell.whole? := by
  cases cell with
  | missing => exact .missing
  | truth value =>
    obtain rfl : source = .logical := belongsTo_truth.1 valid
    refine .number (toInt?_numberOfTruth value) ?_
    cases value with
    | false | true => decide
  | number x =>
    rcases belongsTo_number.1 valid with rfl | ⟨rfl, fits⟩
    · exact absurd integral (by decide)
    · obtain ⟨n, whole, limited⟩ := Binary64.fitsInteger_iff.1 fits
      change Arithmetic.Holds (.number x) x.toInt?
      rw [whole]
      exact .number whole limited
  | text value =>
    obtain rfl : source = .character := belongsTo_text.1 valid
    exact absurd integral (by decide)

namespace TypedVector

variable {left right : TypedVector}

/-- The whole number of the cell for an index, where the cells start over. -/
def wholeFor (v : TypedVector) (index : ℕ) : Option ℤ := (cycledCell v.cells.toList index).whole?

theorem holds_converted {v : TypedVector} (formed : v.WellFormed)
    (integral : v.kind.rank ≤ Kind.integer.rank) (index : ℕ) :
    Arithmetic.Holds (cycledCell (v.convertedCells .integer).toList index) (v.wholeFor index) := by
  have converted : (v.convertedCells .integer).toList =
      v.cells.toList.map fun cell => (cell.convert v.kind .integer).cell := Array.toList_map
  rw [converted, cycledCell_map rfl]
  exact Cell.holds_convert integral (WellFormed.cycledCell formed index)

theorem resultKind_integral {operator : Arithmetic} (integral : operator.isIntegral)
    {left right : Kind} (leftInteger : left.rank ≤ Kind.integer.rank)
    (rightInteger : right.rank ≤ Kind.integer.rank) :
    operator.resultKind left right = .integer := by
  have top : max (max left right) .integer = .integer := by
    revert leftInteger rightInteger
    cases left <;> cases right <;> decide
  cases operator with
  | divide | power => cases integral
  | add | subtract | multiply | floorMod | floorDiv => exact top

theorem operatorResult_arithmetic {operator : Arithmetic} {kind : Kind}
    (same : operator.resultKind left.kind right.kind = kind) :
    operatorResult (.arithmetic operator) left right = fun index =>
      operator.cell kind (cycledCell (left.convertedCells kind).toList index)
        (cycledCell (right.convertedCells kind).toList index) := by
  subst same
  rfl

theorem numeric_of_integral {v : TypedVector} (integral : v.kind.rank ≤ Kind.integer.rank) :
    v.kind ≠ .character := by
  intro text
  rw [text] at integral
  exact absurd integral (by decide)

/-- Arithmetic on integer and logical vectors, recycled, is that of whole numbers at every index,
with one warning for all results out of range. -/
theorem integer_arithmetic_exact (leftFormed : left.WellFormed) (rightFormed : right.WellFormed)
    (leftInteger : left.kind.rank ≤ Kind.integer.rank)
    (rightInteger : right.kind.rank ≤ Kind.integer.rank)
    (fitting : left.length = 0 ↔ right.length = 0) :
    ∃ results : ℕ → Arithmetic → Tallied,
      (∀ index, Arithmetic.Exact (left.wholeFor index) (right.wholeFor index) (results index)) ∧
        ∀ operator : Arithmetic, operator.isIntegral → ∃ w warnings,
          binary (.arithmetic operator) left right = .ok (w, warnings) ∧
            Computed .integer (fun index => results index operator) left right w warnings := by
  refine ⟨fun index operator => operator.cell .integer
      (cycledCell (left.convertedCells .integer).toList index)
      (cycledCell (right.convertedCells .integer).toList index), fun index => ?_, ?_⟩
  · exact Arithmetic.exact_cells (holds_converted leftFormed leftInteger index)
      (holds_converted rightFormed rightInteger index)
  · intro operator integral
    have kind := resultKind_integral integral leftInteger rightInteger
    have taken : Taken (!Operator.takesText (.arithmetic operator)) left right :=
      ⟨fun _ => ⟨numeric_of_integral leftInteger, numeric_of_integral rightInteger⟩, fitting⟩
    obtain ⟨w, warnings, ok, computed⟩ :=
      binary_computed leftFormed.regular rightFormed.regular taken
    rw [operatorResult_arithmetic kind] at computed
    exact ⟨w, warnings, ok, kind ▸ computed⟩

/-- Four integers and three: the largest one squared is out of range, and so is its product with the
last integer. -/
theorem integer_arithmetic_exact_largest :
    let left := make .integer
      (RadixArray.ofList [.number 2147483647, .number (-7), .missing, .number 5]) none
    let right := make .integer
      (RadixArray.ofList [.number 2147483647, .number (-2), .number 0]) none
    left.WellFormed ∧ right.WellFormed ∧ left.kind.rank ≤ Kind.integer.rank ∧
      right.kind.rank ≤ Kind.integer.rank ∧ (left.length = 0 ↔ right.length = 0) ∧
      ∃ results : ℕ → Arithmetic → Tallied,
        (∀ index, Arithmetic.Exact (left.wholeFor index) (right.wholeFor index) (results index)) ∧
          ∃ w, binary (.arithmetic .multiply) left right =
              .ok (w, [.recycledLength 4 3, .integerOverflow 2]) ∧
            Computed .integer (fun index => results index .multiply) left right w
              [.recycledLength 4 3, .integerOverflow 2] := by
  intro left right
  have leftFormed : left.WellFormed := by
    have valid : ∀ cell ∈ [Cell.number 2147483647, .number (-7), .missing, .number 5],
        cell.belongsTo .integer := by decide +kernel
    exact follows_unnamed valid
  have rightFormed : right.WellFormed := by
    have valid : ∀ cell ∈ [Cell.number 2147483647, .number (-2), .number 0],
        cell.belongsTo .integer := by decide +kernel
    exact follows_unnamed valid
  have leftInteger : left.kind.rank ≤ Kind.integer.rank := by decide
  have rightInteger : right.kind.rank ≤ Kind.integer.rank := by decide
  have fitting : left.length = 0 ↔ right.length = 0 := by decide
  have told : (binary (.arithmetic .multiply) left right).map Prod.snd =
      .ok [.recycledLength 4 3, .integerOverflow 2] := by decide +kernel
  obtain ⟨results, cellwise, run⟩ :=
    integer_arithmetic_exact leftFormed rightFormed leftInteger rightInteger fitting
  obtain ⟨w, warnings, ok, computed⟩ := run .multiply rfl
  rw [ok] at told
  cases Except.ok.inj told
  exact ⟨leftFormed, rightFormed, leftInteger, rightInteger, fitting, results, cellwise, w, ok,
    computed⟩

end TypedVector
end TypedVectors
