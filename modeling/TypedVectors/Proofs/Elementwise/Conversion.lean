import TypedVectors.Proofs.Cell.Widening
import TypedVectors.Proofs.Lists
import TypedVectors.Proofs.Numeral.Grammar

/-!
What a conversion destroys. Up the order of kinds nothing is lost. Down the order a present cell may
become missing for want of a value, which is told of unless the cell says itself that it has none:
not-a-number, and a text that marks a missing cell. What is no truth value is lost without a word.
Text becomes an integer as the double that it denotes does.
-/
namespace TypedVectors

namespace Cell

/-- Not-a-number, as a number or as a text that denotes it. -/
def denotesNaN : Cell → Bool
  | number x => x.isNaN
  | text word => Numeral.read? word = some .nan
  | _ => false

/-- A text that marks a missing cell, blanks at its ends aside. -/
def marksMissing : Cell → Bool
  | text word => String.ofList (Text.trim word.toList) = "NA"
  | _ => false

/-- A present cell that becomes missing in a kind of more than truth values, and does not say itself
that it has no value. -/
def Destroyed (target : Kind) (cell result : Cell) : Prop :=
  cell ≠ missing ∧ result = missing ∧ target ≠ .logical ∧ ¬cell.denotesNaN ∧ ¬cell.marksMissing

instance (target : Kind) (cell result : Cell) : Decidable (Destroyed target cell result) :=
  inferInstanceAs (Decidable (_ ∧ _))

variable {source target : Kind} {cell : Cell}

theorem isMissingMark_eq (word : String) : isMissingMark word = (text word).marksMissing := by
  rw [isMissingMark, marksMissing, Bool.eq_iff_iff, beq_iff_eq, decide_eq_true_eq]
  generalize Text.trim word.toList = body
  constructor
  · rintro rfl
    rfl
  · intro same
    rw [← String.toList_ofList (l := body), same]
    rfl

theorem raise_present (present : cell ≠ missing) : cell.raise source target ≠ missing := by
  unfold raise
  split
  · exact present
  · split
    · exact nofun
    · exact nofun
    · cases cell with
      | missing => exact absurd rfl present
      | truth _ | number _ | text _ => exact nofun
    · exact present

theorem integerOfNumber_lossy (x : Binary64) : (integerOfNumber x).lossy ↔
    (integerOfNumber x).cell = missing ∧ ¬x.isNaN := by
  unfold integerOfNumber
  split
  · next absent => exact iff_of_false Bool.false_ne_true fun destroyed => destroyed.2 absent
  · next present =>
    split
    · exact iff_of_false Bool.false_ne_true fun destroyed => nomatch destroyed.1
    · exact iff_of_true rfl ⟨rfl, present⟩

theorem read?_missingMark {word : String} (marked : isMissingMark word) :
    Numeral.read? word = none := by
  have body : Text.trim word.toList = ['N', 'A'] := beq_iff_eq.1 marked
  rw [Numeral.read?, body]
  decide +kernel

section Destroyed

variable {result : Cell} (valued : target ≠ .logical)
include valued

theorem destroyed_number {x : Binary64} :
    Destroyed target (number x) result ↔ result = missing ∧ ¬x.isNaN := by
  simp [Destroyed, denotesNaN, marksMissing, valued]

theorem destroyed_text {word : String} : Destroyed target (text word) result ↔
    result = missing ∧ Numeral.read? word ≠ some .nan ∧ ¬isMissingMark word := by
  rw [isMissingMark_eq]
  simp [Destroyed, denotesNaN, valued]

end Destroyed

/-- A text that denotes no number is destroyed unless it marks a missing cell. -/
theorem destroyed_unread {word : String} (valued : target ≠ .logical)
    (unread : Numeral.read? word = none) :
    Destroyed target (text word) missing ↔ !isMissingMark word := by
  rw [destroyed_text valued, unread]
  simp

theorem toInteger_lossy (cell : Cell) :
    cell.toInteger.lossy ↔ Destroyed .integer cell cell.toInteger.cell := by
  cases cell with
  | missing => exact iff_of_false Bool.false_ne_true fun destroyed => destroyed.1 rfl
  | truth _ => exact iff_of_false Bool.false_ne_true fun destroyed => nomatch destroyed.2.1
  | number x =>
    rw [destroyed_number (by decide)]
    exact integerOfNumber_lossy x
  | text word =>
    unfold toInteger
    dsimp only
    split
    · next x read =>
      have unmarked : ¬isMissingMark word := fun marked => by
        rw [read?_missingMark marked] at read
        cases read
      have number : x.isNaN ↔ x = .nan := by
        cases x with
        | nan | infinite _ | finite _ _ _ => simp [Binary64.isNaN]
      rw [integerOfNumber_lossy, destroyed_text (by decide), read, number]
      simp [unmarked]
    · next unread => exact (destroyed_unread (by decide) unread).symm

theorem toDouble_lossy (cell : Cell) :
    cell.toDouble.lossy ↔ Destroyed .double cell cell.toDouble.cell := by
  cases cell with
  | missing => exact iff_of_false Bool.false_ne_true fun destroyed => destroyed.1 rfl
  | truth _ | number _ =>
    exact iff_of_false Bool.false_ne_true fun destroyed => nomatch destroyed.2.1
  | text word =>
    unfold toDouble
    dsimp only
    split
    · exact iff_of_false Bool.false_ne_true fun destroyed => nomatch destroyed.2.1
    · next unread => exact (destroyed_unread (by decide) unread).symm

/-- A conversion is told of as lossy exactly when it destroys the cell. -/
theorem convert_lossy (source target : Kind) (cell : Cell) : (cell.convert source target).lossy ↔
    Destroyed target cell (cell.convert source target).cell := by
  unfold convert
  split
  · next absent =>
    exact iff_of_false Bool.false_ne_true fun destroyed =>
      destroyed.1 ((isMissing_iff cell).1 absent)
  · next kept =>
    have present : cell ≠ missing := mt (isMissing_iff cell).2 kept
    have raised : ¬Destroyed target cell (cell.raise source target) := fun destroyed =>
      raise_present present destroyed.2.1
    split
    · exact iff_of_false Bool.false_ne_true raised
    · split
      · exact iff_of_false Bool.false_ne_true fun destroyed => destroyed.2.2.1 rfl
      · exact toInteger_lossy cell
      · exact toDouble_lossy cell
      · exact iff_of_false Bool.false_ne_true raised

/-- Text becomes an integer in one step as in two, through the double that it denotes, and is lost
in at most one of them. -/
theorem convert_text_by_double {cell : Cell} (valid : cell.belongsTo .character) :
    ((cell.convert .character .double).cell.convert .double .integer).cell =
        (cell.convert .character .integer).cell ∧
      (cell.convert .character .integer).lossy.toNat =
        (cell.convert .character .double).lossy.toNat +
          ((cell.convert .character .double).cell.convert .double .integer).lossy.toNat := by
  cases cell with
  | missing => exact ⟨rfl, rfl⟩
  | truth _ | number _ => cases valid
  | text word =>
    have double : (text word).convert .character .double = toDouble (text word) := rfl
    have integer : (text word).convert .character .integer = toInteger (text word) := rfl
    rw [double, integer, toDouble, toInteger]
    cases Numeral.read? word with
    | none =>
      dsimp only
      rw [convert_missing]
      exact ⟨rfl, rfl⟩
    | some x =>
      have cut : (number x).convert .double .integer = integerOfNumber x := rfl
      dsimp only
      rw [cut]
      exact ⟨rfl, (Nat.zero_add _).symm⟩

end Cell

namespace TypedVector

variable {v w : TypedVector} {kind : Kind}

/-- At how many places a cell of one vector is destroyed in the other. -/
def destroyedIn (v w : TypedVector) : ℕ :=
  (v.cells.toList.zip w.cells.toList).countP fun (cell, result) =>
    Cell.Destroyed w.kind cell result

/-- A vector converted to a kind, with one warning about all cells that were destroyed. -/
structure Conversion (v : TypedVector) (kind : Kind) (w : TypedVector) (warnings : List Warning) :
    Prop where
  kind : w.kind = kind
  length : w.length = v.length
  names : w.names? = v.names?
  formed : w.WellFormed
  missing : ∀ place, v.cells.get? place = some .missing → w.cells.get? place = some .missing
  warnings : warnings =
    if v.destroyedIn w = 0 then [] else [.lossyConversion (v.destroyedIn w)]

theorem destroyedIn_convert (v : TypedVector) (kind : Kind) :
    v.destroyedIn (v.convert kind).1 =
      v.cells.toList.countP fun cell => (cell.convert v.kind kind).lossy := by
  unfold destroyedIn
  rw [toList_convert, ← List.map_prod_left_eq_zip, List.countP_map]
  refine List.countP_congr fun cell _ => ?_
  rw [Cell.convert_lossy, Function.comp_apply, decide_eq_true_iff]
  rfl

theorem conversion_convert (formed : v.WellFormed) (kind : Kind) :
    Conversion v kind (v.convert kind).1 (v.convert kind).2 where
  kind := rfl
  length := length_convert formed.regular kind
  names := rfl
  formed := formed.convert CellRule.stable_valid kind
  missing := by
    intro place missing
    have canonical := (formed.convert CellRule.stable_valid kind).canonical
    rw [formed.canonical.get?_eq] at missing
    rw [canonical.get?_eq, toList_convert, List.getElem?_map, missing, Option.map_some,
      Cell.convert_missing]
  warnings := by
    rw [destroyedIn_convert, convert]
    dsimp only
    rw [List.countP_map]
    rfl

theorem convert_by_double (formed : v.WellFormed) (character : v.kind = .character) :
    ((v.convert .double).1.convert .integer).1.cells = (v.convert .integer).1.cells ∧
      v.destroyedIn (v.convert .integer).1 = v.destroyedIn (v.convert .double).1 +
        (v.convert .double).1.destroyedIn ((v.convert .double).1.convert .integer).1 := by
  have each := fun cell inside =>
    Cell.convert_text_by_double (character ▸ formed.cells cell inside)
  have double := formed.convert CellRule.stable_valid .double
  constructor
  · have here := (double.convert CellRule.stable_valid .integer).canonical
    have there := (formed.convert CellRule.stable_valid .integer).canonical
    have items : ((v.convert .double).1.convert .integer).1.cells.toList =
        (v.convert .integer).1.cells.toList := by
      rw [toList_convert, toList_convert, toList_convert, List.map_map, character]
      exact List.map_congr_left fun cell inside => (each cell inside).1
    exact here.trans ((congrArg RadixArray.ofList items).trans there.symm)
  · rw [destroyedIn_convert, destroyedIn_convert, destroyedIn_convert, toList_convert,
      List.countP_map, character]
    exact countP_add fun cell inside => (each cell inside).2

/-- A conversion keeps the length, the names and what is missing, gives valid cells, and warns of
exactly the cells that it destroys. Text may become integers by way of doubles, with the same cells
and the same losses in all. -/
theorem convert_exact (formed : v.WellFormed) (kind : Kind) :
    Conversion v kind (v.convert kind).1 (v.convert kind).2 ∧
      (v.kind = .character →
        ((v.convert .double).1.convert .integer).1.cells = (v.convert .integer).1.cells ∧
        v.destroyedIn (v.convert .integer).1 = v.destroyedIn (v.convert .double).1 +
          (v.convert .double).1.destroyedIn ((v.convert .double).1.convert .integer).1) :=
  ⟨conversion_convert formed kind, convert_by_double formed⟩

/-- Of six texts as integers two are destroyed: one that is no number, and one past the range. -/
theorem convert_exact_texts :
    let v := make .character (RadixArray.ofList [.text "7.9", .text " NA ", .missing, .text "x",
      .text "NaN", .text "3000000000"]) none
    v.WellFormed ∧ v.kind = .character ∧
      Conversion v .integer (v.convert .integer).1 (v.convert .integer).2 ∧
      (v.convert .integer).1.cells.toList =
        [.number 7, .missing, .missing, .missing, .missing, .missing] ∧
      (v.convert .integer).2 = [.lossyConversion 2] ∧
      ((v.convert .double).1.convert .integer).1.cells = (v.convert .integer).1.cells ∧
      v.destroyedIn (v.convert .integer).1 = v.destroyedIn (v.convert .double).1 +
        (v.convert .double).1.destroyedIn ((v.convert .double).1.convert .integer).1 ∧
      v.destroyedIn (v.convert .double).1 = 1 := by
  intro v
  have formed : v.WellFormed := by
    have valid : ∀ cell ∈ [Cell.text "7.9", .text " NA ", .missing, .text "x", .text "NaN",
        .text "3000000000"], cell.belongsTo .character := by decide +kernel
    exact follows_unnamed valid
  obtain ⟨conversion, byDouble⟩ := convert_exact formed .integer
  obtain ⟨cells, counts⟩ := byDouble rfl
  exact ⟨formed, rfl, conversion, by decide +kernel, by decide +kernel, cells, counts,
    by decide +kernel⟩

end TypedVector
end TypedVectors
