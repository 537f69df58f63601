import TypedVectors.Proofs.Selection.Extraction
import TypedVectors.Proofs.TypedVector.NameIndex

/-!
What extraction by any selector gives, said without the steps by which it is found: how the cells of
a selector are read, which positions are refused, and which targets positions, masks and names have.
-/
namespace TypedVectors

namespace Reference

/-- What the cells of a selector are read as. -/
inductive Reading where
  | positions
  | mask
  | names
  deriving DecidableEq

def Reading.ofCell? : Cell → Option Reading
  | .missing => none
  | .number _ => some positions
  | .truth _ => some mask
  | .text _ => some names

/-- Plain cells are read as what all present ones are. No cells are positions, and missing ones
alone are a mask. -/
def Reading.ofCells? (cells : List Cell) : Option Reading :=
  match cells.filterMap ofCell? with
  | [] => some (if cells = [] then positions else mask)
  | first :: rest => if ∀ other ∈ rest, other = first then some first else none

def Reading.ofKind : Kind → Reading
  | .logical => mask
  | .integer | .double => positions
  | .character => names

def reading? : Operand → Option Reading
  | .vector v => some (.ofKind v.kind)
  | .scalar cell => Reading.ofCells? [cell]
  | .cells items => Reading.ofCells? items

def entries : Operand → List Cell
  | .vector v => v.cells.toList
  | .scalar cell => [cell]
  | .cells items => items

/-- An entry of positions. -/
inductive Position where
  | missing
  | infinite
  | whole (p : Int)
  deriving DecidableEq

namespace Position

/-- Numbers are cut toward zero; what is no number is missing, and so is not-a-number. -/
def ofCell : Cell → Position
  | .number .nan => missing
  | .number (.infinite _) => infinite
  | .number x => whole (x.signedSteps.tdiv Binary64.unit)
  | _ => missing

def below : Position → Bool
  | whole p => p < 0
  | _ => false

def above : Position → Bool
  | whole p => 0 < p
  | _ => false

end Position

/-- No entry may be infinite, and entries below zero stand neither with entries above zero nor with
missing ones. -/
def Refused (positions : List Position) : Prop :=
  .infinite ∈ positions ∨
    (∃ entry ∈ positions, entry.below) ∧
      ((∃ entry ∈ positions, entry.above) ∨ .missing ∈ positions)

instance (positions : List Position) : Decidable (Refused positions) :=
  inferInstanceAs (Decidable (_ ∨ _))

/-- The places that no entry leaves out, in ascending order. -/
def complement (length : Nat) (positions : List Position) : List Target :=
  (List.range length).filterMap fun place =>
    if .whole (-(place + 1 : Nat)) ∈ positions then none else some (.place place)

/-- Positions from one address places from zero, and zeros address nothing. -/
def positionTarget? : Position → Option Target
  | .whole p => if 0 < p then some (.place (p - 1).toNat) else none
  | _ => some .missing

def positionTargets? (length : Nat) (positions : List Position) : Option (List Target) :=
  if Refused positions then none
  else if ∃ entry ∈ positions, entry.below then some (complement length positions)
  else some (positions.filterMap positionTarget?)

/-- The entry of a mask at an index, where the mask starts over at its end. -/
def maskTarget? (mask : List Cell) (index : Nat) : Option Target :=
  match mask[index % mask.length]? with
  | none | some (.truth false) => none
  | some (.truth true) => some (.place index)
  | some _ => some .missing

/-- A mask is repeated until the vector ends, or goes on past its end. -/
def maskTargets (length : Nat) (mask : List Cell) : List Target :=
  (List.range (max mask.length length)).filterMap (maskTarget? mask)

/-- A name addresses the first place that carries it; the empty name addresses none. -/
def nameTarget (names : List String) : Cell → Target
  | .text name =>
    if name = "" then .missing else ((names.idxOf? name).map Target.place).getD .missing
  | _ => .missing

def Reading.targets? (reading : Reading) (v : TypedVector) (cells : List Cell) :
    Option (List Target) :=
  match reading with
  | positions => positionTargets? v.length (cells.map Position.ofCell)
  | mask => some (maskTargets v.length cells)
  | names => some (cells.map (nameTarget v.givenNames))

/-- What a selector addresses in a vector that is read; none where it is refused. -/
def targets? (v : TypedVector) (spec : Operand) : Option (List Target) :=
  (reading? spec).bind fun reading => reading.targets? v (entries spec)

def Reading.kind : Reading → Kind
  | positions => .double
  | mask => .logical
  | names => .character

def Reading.selector : Reading → List Cell → Selector
  | positions => Selector.ofNumbers
  | mask => Selector.ofTruths
  | names => Selector.ofTexts

theorem all_present_eq (cells : List Cell) {kind : Kind} {reading : Reading}
    (same : reading.kind = kind) :
    (cells.filter (!·.isMissing)).all (·.kindAlone = kind) =
      (cells.filterMap Reading.ofCell?).all (· = reading) := by
  subst same
  rw [List.all_filter, List.all_filterMap]
  congr 1
  funext cell
  cases cell <;> cases reading <;> rfl

theorem isEmpty_present_eq (cells : List Cell) :
    (cells.filter (!·.isMissing)).isEmpty = (cells.filterMap Reading.ofCell?).isEmpty := by
  induction cells with
  | nil => rfl
  | cons cell rest ih =>
    cases cell with
    | missing => exact ih
    | truth _ | number _ | text _ => rfl

theorem ofCells_eq (cells : List Cell) :
    Selector.ofCells cells =
      match Reading.ofCells? cells with
      | some reading => .ok (reading.selector cells)
      | none => .error .mixedSelector := by
  have numbers := all_present_eq cells (show Reading.kind .positions = .double from rfl)
  have truths := all_present_eq cells (show Reading.kind .mask = .logical from rfl)
  have texts := all_present_eq cells (show Reading.kind .names = .character from rfl)
  unfold Selector.ofCells Reading.ofCells?
  dsimp only
  rw [isEmpty_present_eq cells, numbers, truths, texts]
  cases readings : cells.filterMap Reading.ofCell? with
  | nil =>
    by_cases empty : cells = []
    · simp [empty, Reading.selector]
    · simp [empty, Reading.selector]
  | cons first rest =>
    have some_cell : cells.isEmpty = false := by
      cases cells with
      | nil => cases readings
      | cons _ _ => rfl
    rw [some_cell]
    dsimp only
    by_cases same : ∀ other ∈ rest, other = first
    · rw [if_pos same]
      cases first <;> simpa [Reading.selector] using same
    · rw [if_neg same]
      cases first <;> simpa using same

theorem ofOperand_eq (spec : Operand) :
    Selector.ofOperand spec =
      match reading? spec with
      | some reading => .ok (reading.selector (entries spec))
      | none => .error .mixedSelector := by
  cases spec with
  | vector v =>
    obtain ⟨kind, cells, names?, index?⟩ := v
    cases kind with
    | logical | integer | double | character => rfl
  | scalar cell => exact ofCells_eq [cell]
  | cells items => exact ofCells_eq items

end Reference
end TypedVectors
