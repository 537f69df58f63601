import TypedVectors.Proofs.TypedVector.Follows

/-!
Concatenation never fails on regular operands. Its cells are those of the operands in order, each
promoted from the kind of its own operand, and every operand without names gives empty ones.
-/
namespace TypedVectors

namespace Part

def NamesFit (part : Part) : Prop :=
  ∀ names, part.names? = some names → names.size = part.cells.length

def nameList (part : Part) : List String :=
  (part.names?.map (·.toList)).getD (List.replicate part.cells.length "")

def highestKind (parts : List Part) : Kind := Kind.highest (parts.map (·.kind))

/-- The cells of parts one after another, each promoted from its part's kind. -/
def joinedCells (parts : List Part) : List Cell :=
  parts.flatMap fun part => part.cells.map (·.raise part.kind (highestKind parts))

/-- The names of parts one after another, if any part has names. -/
def joinedNames? (parts : List Part) : Option (List String) :=
  if parts.any (·.names?.isSome) then some (parts.flatMap nameList) else none

def joined (parts : List Part) : TypedVector :=
  .make (highestKind parts) (RadixArray.ofList (joinedCells parts))
    ((joinedNames? parts).map RadixArray.ofList)

theorem length_nameList {part : Part} (fit : part.NamesFit) :
    part.nameList.length = part.cells.length := by
  unfold nameList
  cases named : part.names? with
  | none => simp
  | some names => simpa using fit names named

theorem promoted_eq {part : Part} {kind : Kind} (up : part.kind.rank ≤ kind.rank) :
    part.promoted kind = .ok (part.cells.map (·.raise part.kind kind)) :=
  mapM_eq_ok fun cell _ => Cell.promote_eq up cell

theorem allNames_eq {part : Part} (fit : part.NamesFit) : part.allNames = .ok part.nameList := by
  unfold allNames nameList
  cases named : part.names? with
  | none => rfl
  | some names =>
    refine mapM_of_forall₂ (List.forall₂_iff_get.2 ⟨?_, ?_⟩)
    · rw [List.length_range]
      exact (fit names named).symm
    · intro index left right
      rw [List.get_eq_getElem, List.getElem_range]
      exact readAt_eq right

end Part

namespace Operand

theorem combine_eq {operands : List Operand}
    (fit : ∀ operand ∈ operands, operand.part.NamesFit) :
    combine operands = .ok (Part.joined (operands.map Operand.part)) := by
  -- No part is above the highest kind, so that every promotion goes up.
  have below : ∀ part ∈ operands.map Operand.part,
      part.kind.rank ≤ (Part.highestKind (operands.map Operand.part)).rank := by
    intro part inside
    exact Kind.rank_le_highest (List.mem_map_of_mem inside)
  have fits : ∀ part ∈ operands.map Operand.part, part.NamesFit := by
    intro part inside
    obtain ⟨operand, member, rfl⟩ := List.mem_map.1 inside
    exact fit operand member
  unfold combine Part.joined
  generalize operands.map Operand.part = parts at *
  have cells := mapM_eq_ok fun part inside => Part.promoted_eq (below part inside)
  have names := mapM_eq_ok fun part inside => Part.allNames_eq (fits part inside)
  dsimp only
  rw [Part.highestKind] at cells
  rw [cells, names]
  unfold Part.joinedNames?
  split
  · rfl
  · rfl

end Operand

namespace Part

theorem highestKind_singleton (part : Part) : highestKind [part] = part.kind := by
  change max Kind.logical part.kind = part.kind
  cases part.kind <;> rfl

theorem joinedCells_singleton (part : Part) : joinedCells [part] = part.cells := by
  unfold joinedCells
  rw [highestKind_singleton, List.flatMap_singleton]
  simp [Cell.raise_self]

theorem joined_singleton {part : Part} (unnamed : part.names? = none) :
    joined [part] = .make part.kind (RadixArray.ofList part.cells) none := by
  unfold joined joinedNames?
  rw [highestKind_singleton, joinedCells_singleton]
  simp [unnamed]

variable {rule : CellRule}

structure Follows (rule : CellRule) (part : Part) : Prop where
  cells : ∀ cell ∈ part.cells, rule part.kind cell
  names : part.NamesFit

theorem length_joinedNames {parts : List Part} (fit : ∀ part ∈ parts, part.NamesFit) :
    (parts.flatMap nameList).length = (joinedCells parts).length := by
  unfold joinedCells
  generalize highestKind parts = kind
  induction parts with
  | nil => rfl
  | cons first rest ih =>
    rw [List.flatMap_cons, List.flatMap_cons, List.length_append, List.length_append,
      length_nameList (fit first List.mem_cons_self), List.length_map,
      ih fun part inside => fit part (List.mem_cons_of_mem _ inside)]

theorem follows_joined (stable : rule.Stable) {parts : List Part}
    (each : ∀ part ∈ parts, part.Follows rule) : (joined parts).Follows rule := by
  refine TypedVector.follows_make ?_ ?_
  · intro cell inside
    obtain ⟨part, member, inside⟩ := List.mem_flatMap.1 inside
    obtain ⟨original, source, rfl⟩ := List.mem_map.1 inside
    exact stable.raise (Kind.rank_le_highest (List.mem_map_of_mem member))
      ((each part member).cells original source)
  · intro names named
    obtain ⟨written, found, rfl⟩ := Option.map_eq_some_iff.1 named
    refine ⟨RadixArray.canonical_ofList written, ?_⟩
    unfold joinedNames? at found
    split at found
    · cases found
      rw [RadixArray.size_ofList]
      exact length_joinedNames fun part member => (each part member).names
    · cases found

end Part

namespace Operand

variable {rule : CellRule}

theorem namesFit_scalar (cell : Cell) : (scalar cell).part.NamesFit := by
  intro names named
  cases named

theorem namesFit_cells (items : List Cell) : (cells items).part.NamesFit := by
  intro names named
  cases named

theorem toVector_scalar (cell : Cell) :
    (scalar cell).toVector = .ok (.make cell.kindAlone (RadixArray.ofList [cell]) none) := by
  have joined := combine_eq fun operand inside =>
    (List.mem_singleton.1 inside).symm ▸ namesFit_scalar cell
  exact joined.trans (congrArg Except.ok (Part.joined_singleton rfl))

theorem toVector_cells (items : List Cell) :
    (cells items).toVector =
      .ok (.make (Kind.highest (items.map Cell.kindAlone)) (RadixArray.ofList items) none) := by
  have joined := combine_eq fun operand inside =>
    (List.mem_singleton.1 inside).symm ▸ namesFit_cells items
  exact joined.trans (congrArg Except.ok (Part.joined_singleton rfl))

def Holds (P : TypedVector → Prop) (operand : Operand) : Prop :=
  ∀ v, operand.toVector = .ok v → P v

theorem follows_scalar (stable : rule.Stable) (cell : Cell) :
    (scalar cell).Holds (TypedVector.Follows rule) := by
  intro v ok
  rw [toVector_scalar] at ok
  cases ok
  refine TypedVector.follows_unnamed fun inner inside => ?_
  rw [List.mem_singleton.1 inside]
  exact stable.valid (Cell.belongsTo_kindAlone cell)

theorem follows_part {operand : Operand} (follows : operand.Holds (TypedVector.Follows rule)) :
    operand.part.Follows rule := by
  cases operand with
  | vector v =>
    have inner := follows v rfl
    refine ⟨inner.cells, ?_⟩
    intro names named
    obtain ⟨source, found, rfl⟩ := Option.map_eq_some_iff.1 named
    obtain ⟨canonical, fit⟩ := inner.names source found
    rw [canonical.size_eq, inner.length_eq] at fit
    exact fit
  | scalar cell =>
    have inner := follows _ (toVector_scalar cell)
    refine ⟨fun inside member => inner.cells inside ?_, namesFit_scalar cell⟩
    rw [TypedVector.make, RadixArray.toList_ofList]
    exact member
  | cells items =>
    have inner := follows _ (toVector_cells items)
    refine ⟨fun inside member => inner.cells inside ?_, namesFit_cells items⟩
    rw [TypedVector.make, RadixArray.toList_ofList]
    exact member

theorem follows_combine (stable : rule.Stable) {operands : List Operand} {w : TypedVector}
    (each : ∀ operand ∈ operands, operand.Holds (TypedVector.Follows rule))
    (ok : combine operands = .ok w) : w.Follows rule := by
  rw [combine_eq fun operand inside => (follows_part (each operand inside)).names] at ok
  cases ok
  refine Part.follows_joined stable fun part inside => ?_
  obtain ⟨operand, member, rfl⟩ := List.mem_map.1 inside
  exact follows_part (each operand member)

end Operand

section Repetition

variable {α : Type} {each times : Nat} {items : List α}

theorem mem_cycled {item : α} (inside : item ∈ cycled each times items) : item ∈ items := by
  unfold cycled at inside
  dsimp only at inside
  split at inside
  · cases inside
  · obtain ⟨copy, member, inside⟩ := List.mem_flatten.1 inside
    rw [List.eq_of_mem_replicate member] at inside
    obtain ⟨source, member, inside⟩ := List.mem_flatMap.1 inside
    rwa [List.eq_of_mem_replicate inside]

theorem length_cycled (each times : Nat) (items : List α) :
    (cycled each times items).length = items.length * each * times := by
  have row : (items.flatMap (List.replicate each)).length = items.length * each := by
    simp [List.length_flatMap]
  unfold cycled
  dsimp only
  split
  · next empty =>
    rw [← row, List.isEmpty_iff.1 empty, List.length_nil, Nat.zero_mul]
  · simp [List.length_flatMap, Nat.mul_comm]

theorem Operand.repeated_success {operand : Operand} {first second : Binary64} {w : TypedVector}
    (ok : operand.repeated first second = .ok w) :
    ∃ each times source, operand.toVector = .ok source ∧
      TypedVector.make source.kind (RadixArray.ofList (cycled each times source.cells.toList))
        (source.names?.map fun names => RadixArray.ofList (cycled each times names.toList)) =
          w := by
  obtain ⟨timesCount, _, ok⟩ := bind_success ok
  obtain ⟨each, _, ok⟩ := bind_success ok
  obtain ⟨source, made, ok⟩ := bind_success ok
  dsimp only at ok
  split at ok
  · cases ok
  · split at ok
    · cases ok
    · obtain ⟨times, _, ok⟩ := bind_success ok
      refine ⟨each, times, source, made, ?_⟩
      rw [← pure_success ok, Option.map_map]
      rfl

theorem Operand.follows_repeated {rule : CellRule} {operand : Operand} {first second : Binary64}
    {w : TypedVector} (follows : operand.Holds (TypedVector.Follows rule))
    (ok : operand.repeated first second = .ok w) : w.Follows rule := by
  obtain ⟨each, times, source, made, rfl⟩ := repeated_success ok
  have inner := follows source made
  refine TypedVector.follows_make ?_ ?_
  · intro cell inside
    exact inner.cells cell (mem_cycled inside)
  · intro names named
    obtain ⟨original, found, rfl⟩ := Option.map_eq_some_iff.1 named
    obtain ⟨canonical, fit⟩ := inner.names original found
    refine ⟨RadixArray.canonical_ofList _, ?_⟩
    rw [canonical.size_eq, inner.length_eq] at fit
    rw [RadixArray.size_ofList, length_cycled, length_cycled, fit]

end Repetition
end TypedVectors
