import TypedVectors.Proofs.Selection.Reference
import TypedVectors.Proofs.Selection.Resolution

/-!
Extraction gives what the reference says. Resolving to read addresses the same items as the
reference does in every sequence whose places are exact in double precision, and fails where the
reference refuses.
-/
namespace TypedVectors

namespace Reference

/-- Whether targets address the same items of every sequence whose length is exact. -/
def Alike (targets others : List Target) : Prop :=
  ∀ {α : Type} (items : List α), items.length ≤ twoTo 53 →
    targets.map (·.in? items) = others.map (·.in? items)

theorem Alike.refl (targets : List Target) : Alike targets targets := fun _ _ => rfl

/-- What resolving a selector gives, beside the targets of the reference. -/
inductive Agrees : Option (List Target) → Except Error Resolution → Prop
  | targets {resolution : Resolution} {targets : List Target}
    (alike : Alike resolution.targets targets) : Agrees (some targets) (.ok resolution)
  | refused {error : Error} (known : error.code?.isSome) : Agrees none (.error error)

def numberOf? : Cell → Option Binary64
  | .number x => some x
  | _ => none

def Position.whole? : Position → Option Int
  | whole p => some p
  | _ => none

theorem wholePosition_infinite {cell : Cell} (infinite : Position.ofCell cell = .infinite) :
    ∃ negative, Selection.wholePosition (numberOf? cell) = .error (.infinitePosition negative) := by
  cases cell with
  | missing | truth _ | text _ => cases infinite
  | number x =>
    cases x with
    | nan | finite _ _ _ => cases infinite
    | infinite negative => exact ⟨negative, rfl⟩

theorem wholePosition_bounded {cell : Cell} (bounded : Position.ofCell cell ≠ .infinite) :
    Selection.wholePosition (numberOf? cell) = .ok (Position.ofCell cell).whole? := by
  cases cell with
  | missing | truth _ | text _ => rfl
  | number x =>
    cases x with
    | nan => rfl
    | infinite negative => exact absurd rfl bounded
    | finite negative steps representable => exact congrArg Except.ok (Binary64.toInt?_trunc rfl)

theorem wholePosition_error {entry : Option Binary64} {error : Error}
    (failed : Selection.wholePosition entry = .error error) :
    ∃ negative, error = .infinitePosition negative := by
  unfold Selection.wholePosition at failed
  split at failed
  · cases failed
  · cases failed
  · cases failed
    exact ⟨_, rfl⟩
  · cases failed

theorem wholePositions_infinite {cells : List Cell}
    (infinite : .infinite ∈ cells.map Position.ofCell) :
    ∃ negative, (cells.map numberOf?).mapM Selection.wholePosition =
      .error (.infinitePosition negative) := by
  obtain ⟨cell, inside, endless⟩ := List.mem_map.1 infinite
  obtain ⟨negative, failed⟩ := wholePosition_infinite endless
  obtain ⟨other, _, cause, stopped, whole⟩ :=
    mapM_failure (List.mem_map_of_mem inside) failed
  obtain ⟨sign, rfl⟩ := wholePosition_error stopped
  exact ⟨sign, whole⟩

theorem wholePositions_bounded {cells : List Cell}
    (bounded : .infinite ∉ cells.map Position.ofCell) :
    (cells.map numberOf?).mapM Selection.wholePosition =
      .ok ((cells.map Position.ofCell).map Position.whole?) := by
  refine mapM_of_forall₂ ?_
  rw [List.map_map, List.forall₂_map_left_iff, List.forall₂_map_right_iff, List.forall₂_same]
  exact fun cell inside => wholePosition_bounded fun endless =>
    bounded (endless ▸ List.mem_map_of_mem inside)

theorem wholeNumber_alike {α : Type} {items : List α} (short : items.length ≤ twoTo 53)
    (place : Nat) : items[Selection.wholeNumber place]? = items[place]? := by
  by_cases small : place < twoTo 53
  · rw [Selection.wholeNumber, roundSteps_small small]
  · have large := Nat.not_lt.1 small
    have past := Nat.le_trans short (le_roundSteps_large large)
    rw [Selection.wholeNumber, List.getElem?_eq_none past,
      List.getElem?_eq_none (Nat.le_trans short large)]

section Positions

variable {positions : List Position}

theorem any_below (positions : List Position) :
    (positions.map Position.whole?).any (·.any (· < 0)) = positions.any Position.below := by
  rw [List.any_map]
  congr 1
  funext position
  cases position <;> rfl

theorem any_above (positions : List Position) :
    (positions.map Position.whole?).any (·.any (0 < ·)) = positions.any Position.above := by
  rw [List.any_map]
  congr 1
  funext position
  cases position <;> rfl

theorem any_missing (bounded : .infinite ∉ positions) :
    (positions.map Position.whole?).any (·.isNone) = decide (.missing ∈ positions) := by
  rw [List.any_map, Bool.eq_iff_iff, List.any_eq_true, decide_eq_true_eq]
  constructor
  · rintro ⟨position, inside, absent⟩
    cases position with
    | missing => exact inside
    | infinite => exact absurd inside bounded
    | whole p => cases absent
  · intro inside
    exact ⟨_, inside, rfl⟩

theorem mem_wholes {p : Int} :
    p ∈ (positions.map Position.whole?).filterMap id ↔ .whole p ∈ positions := by
  simp only [List.mem_filterMap, List.mem_map, id_eq]
  constructor
  · rintro ⟨_, ⟨position, inside, rfl⟩, whole⟩
    cases position with
    | missing | infinite => cases whole
    | whole q =>
      cases whole
      exact inside
  · intro inside
    exact ⟨_, ⟨_, inside, rfl⟩, rfl⟩

/-- No position is above zero, so that its distance from zero tells which place it leaves out. -/
theorem remaining_eq (length : Nat) (single : positions.any Position.above = false) :
    Selection.remaining length ((positions.map Position.whole?).filterMap id) =
      complement length positions := by
  unfold Selection.remaining complement
  refine List.filterMap_congr fun place _ => ?_
  have excluded : (Std.HashSet.ofList
      (((positions.map Position.whole?).filterMap id).map Int.natAbs)).contains (place + 1) ↔
        .whole (-(place + 1 : Nat)) ∈ positions := by
    rw [Std.HashSet.contains_ofList, List.contains_iff_mem, List.mem_map, ← mem_wholes]
    constructor
    · rintro ⟨p, inside, distance⟩
      have low : ¬0 < p := by
        intro high
        have low := List.any_eq_false.1 single _ (mem_wholes.1 inside)
        exact low (decide_eq_true high)
      obtain rfl : p = -(place + 1 : Nat) := by omega
      exact inside
    · intro inside
      exact ⟨_, inside, by omega⟩
  simp only [excluded]

/-- The target of a position from one as it is computed. -/
def computedTarget? : Option Int → Option Target
  | none => some .missing
  | some p => if 0 < p then some (.place (Selection.wholeNumber (p.toNat - 1))) else none

theorem addressed_eq (entries : List (Option Int)) :
    Selection.addressed .read entries = .ok (entries.filterMap computedTarget?) := by
  unfold Selection.addressed
  rw [mapM_eq_ok (f := computedTarget?)]
  · change Except.ok _ = Except.ok _
    rw [List.filterMap_map]
    rfl
  · intro entry _
    cases entry with
    | none => rfl
    | some p => rfl

theorem computedTarget?_alike {α : Type} {items : List α} (short : items.length ≤ twoTo 53)
    (position : Position) :
    (computedTarget? position.whole?).map (·.in? items) =
      (positionTarget? position).map (·.in? items) := by
  cases position with
  | missing | infinite => rfl
  | whole p =>
    unfold Position.whole? computedTarget? positionTarget?
    dsimp only
    split
    · have place : (p - 1).toNat = p.toNat - 1 := by omega
      rw [place]
      exact congrArg some (wholeNumber_alike short _)
    · rfl

theorem addressed_alike (positions : List Position) :
    Alike ((positions.map Position.whole?).filterMap computedTarget?)
      (positions.filterMap positionTarget?) := by
  intro α items short
  rw [List.filterMap_map, List.map_filterMap, List.map_filterMap]
  exact List.filterMap_congr fun position _ => computedTarget?_alike short position

end Positions

theorem resolvePositions_agrees (cells : List Cell) (length : Nat) :
    Agrees (positionTargets? length (cells.map Position.ofCell))
      (Selection.resolvePositions (cells.map numberOf?) length .read) := by
  unfold Selection.resolvePositions positionTargets?
  by_cases infinite : .infinite ∈ cells.map Position.ofCell
  · rw [if_pos (.inl infinite)]
    obtain ⟨negative, failed⟩ := wholePositions_infinite infinite
    rw [failed]
    exact .refused rfl
  · rw [wholePositions_bounded infinite]
    generalize cells.map Position.ofCell = positions at infinite
    change Agrees _ (if _ then _ else _)
    rw [any_below, any_above, any_missing infinite]
    cases below : positions.any Position.below with
    | false =>
      have none_below : ¬∃ entry ∈ positions, entry.below := by
        rw [← List.any_eq_true, below]
        exact Bool.false_ne_true
      have accepted : ¬Refused positions := by
        rintro (endless | ⟨some_below, -⟩)
        · exact infinite endless
        · exact none_below some_below
      rw [if_neg accepted, if_neg none_below, addressed_eq]
      exact .targets (addressed_alike positions)
    | true =>
      have some_below := List.any_eq_true.1 below
      cases above : positions.any Position.above with
      | true =>
        rw [if_pos (.inr ⟨some_below, .inl (List.any_eq_true.1 above)⟩)]
        exact .refused rfl
      | false =>
        by_cases missing : .missing ∈ positions
        · rw [if_pos (.inr ⟨some_below, .inr missing⟩), decide_eq_true missing]
          exact .refused rfl
        · have accepted : ¬Refused positions := by
            rintro (endless | ⟨-, some_above | absent⟩)
            · exact infinite endless
            · rw [List.any_eq_true.2 some_above] at above
              cases above
            · exact missing absent
          rw [if_neg accepted, if_pos some_below, decide_eq_false missing,
            remaining_eq length above]
          exact .targets (Alike.refl _)

def truthOf? : Cell → Option Bool
  | .truth value => some value
  | _ => none

def textOf? : Cell → Option String
  | .text name => some name
  | _ => none

theorem maskEntry_eq {cells : List Cell} (given : cells ≠ []) (index : Nat) :
    ∃ inside : index % cells.length < cells.length,
      readAt (cells.map truthOf?).toArray (index % (cells.map truthOf?).toArray.size) =
        .ok (truthOf? cells[index % cells.length]) := by
  have inside : index % cells.length < cells.length :=
    Nat.mod_lt _ (List.length_pos_iff.2 given)
  refine ⟨inside, ?_⟩
  rw [List.size_toArray, List.length_map, readAt_eq (by simpa using inside), List.getElem_toArray,
    List.getElem_map]

theorem maskTargets_nil (length : Nat) : maskTargets length [] = [] :=
  List.filterMap_eq_nil_iff.2 fun _ _ => rfl

theorem resolveMask_read (cells : List Cell) (length : Nat) :
    Selection.resolveMask (cells.map truthOf?) length .read =
      .ok (Selection.resolution (maskTargets length cells)) := by
  unfold Selection.resolveMask
  dsimp only
  split
  · next empty =>
    obtain rfl : cells = [] := by simpa using empty
    rw [maskTargets_nil]
    rfl
  · next given =>
    rw [mapM_eq_ok (f := maskTarget? cells)]
    · change Except.ok (Selection.resolution _) = _
      rw [List.filterMap_map, Function.id_comp, List.size_toArray, List.length_map]
      rfl
    · intro index _
      obtain ⟨inside, entry⟩ := maskEntry_eq (by simpa using given : cells ≠ []) index
      rw [entry, maskTarget?, List.getElem?_eq_getElem inside]
      cases cells[index % cells.length] with
      | missing | number _ | text _ => rfl
      | truth value => cases value <;> rfl

theorem resolveMask_agrees (cells : List Cell) (length : Nat) :
    Agrees (some (maskTargets length cells))
      (Selection.resolveMask (cells.map truthOf?) length .read) := by
  rw [resolveMask_read]
  exact .targets (Alike.refl _)

theorem nameTarget_text {v : TypedVector} (current : v.IndexCurrent) (name : String) :
    nameTarget v.givenNames (.text name) = ((v.placeOf? name).map Target.place).getD .missing := by
  rw [nameTarget, current.placeOf?_eq]
  split
  · rfl
  · rfl

theorem nameTargets_read {v : TypedVector} (current : v.IndexCurrent) (cells : List Cell)
    (growth : Selection.Growth) :
    Selection.nameTargets v .read (cells.map textOf?) growth =
      .ok (cells.map (nameTarget v.givenNames), growth) := by
  induction cells with
  | nil => rfl
  | cons cell rest ih =>
    cases cell with
    | missing | truth _ | number _ =>
      change Selection.nameTargets v .read (none :: rest.map textOf?) growth = _
      rw [Selection.nameTargets, ih]
      rfl
    | text name =>
      change Selection.nameTargets v .read (some name :: rest.map textOf?) growth = _
      rw [List.map_cons, nameTarget_text current]
      unfold Selection.nameTargets
      cases v.placeOf? name with
      | none | some place =>
        dsimp only
        rw [ih]
        rfl

theorem resolveNames_agrees {v : TypedVector} (current : v.IndexCurrent) (cells : List Cell) :
    Agrees (some (cells.map (nameTarget v.givenNames)))
      (Selection.resolveNames v.indexed (cells.map textOf?) .read) := by
  unfold Selection.resolveNames
  rw [nameTargets_read current.indexed]
  exact .targets (Alike.refl _)

theorem Reading.resolve_agrees {v : TypedVector} (current : v.IndexCurrent) (reading : Reading)
    (cells : List Cell) :
    Agrees (reading.targets? v cells) ((reading.selector cells).resolve v .read) := by
  cases reading with
  | positions => exact resolvePositions_agrees cells v.length
  | mask => exact resolveMask_agrees cells v.length
  | names => exact resolveNames_agrees current cells

end Reference

namespace TypedVector

/-- Extraction by an operand. -/
def extractBy (v : TypedVector) (spec : Operand) : Except Error TypedVector := do
  v.extract (← Selector.ofOperand spec)

theorem extracted_congr {v : TypedVector} (regular : v.Regular) (short : v.length ≤ twoTo 53)
    {targets others : List Target} (alike : Reference.Alike targets others) :
    v.extracted targets = v.extracted others := by
  have filled {α : Type} {items : List α} (default : α) (fit : items.length ≤ twoTo 53) :
      targets.map (fun target => (target.in? items).getD default) =
        others.map fun target => (target.in? items).getD default := by
    have same := congrArg (List.map (·.getD default)) (alike items fit)
    rw [List.map_map, List.map_map] at same
    exact same
  have cells := filled Cell.missing (show v.cells.toList.length ≤ _ by rwa [← regular.length_eq])
  unfold extracted
  rw [cells]
  cases named : v.names? with
  | none => rfl
  | some names =>
    obtain ⟨canonical, fit⟩ := regular.names names named
    have written := filled "" (show names.toList.length ≤ _ by rwa [← canonical.size_eq, fit])
    rw [Option.map_some, Option.map_some, written]

/-- Extraction by any operand gives the cells and names at the targets that the reference has for
it, in their order, and fails where the reference refuses the operand. Past two to the power 53 the
places of a vector would no longer be exact. -/
theorem extractBy_reference {v : TypedVector} (regular : v.Regular) (current : v.IndexCurrent)
    (short : v.length ≤ twoTo 53) (spec : Operand) :
    (∀ targets, Reference.targets? v spec = some targets →
        v.extractBy spec = .ok (v.extracted targets)) ∧
      (Reference.targets? v spec = none →
        ∃ error, v.extractBy spec = .error error ∧ error.code?.isSome) ∧
      (Reference.reading? spec = none → v.extractBy spec = .error .mixedSelector) := by
  unfold extractBy Reference.targets?
  rw [Reference.ofOperand_eq]
  cases Reference.reading? spec with
  | none =>
    refine ⟨fun targets found => ?_, fun _ => ⟨.mixedSelector, rfl, rfl⟩, fun _ => rfl⟩
    cases found
  | some reading =>
    have agrees := reading.resolve_agrees current (Reference.entries spec)
    have extract := regular.extract_eq (reading.selector (Reference.entries spec))
    dsimp only [Option.bind_some]
    generalize reading.targets? v (Reference.entries spec) = targets? at agrees
    generalize (reading.selector (Reference.entries spec)).resolve v .read = outcome
      at agrees extract
    change (∀ targets, targets? = some targets → v.extract _ = _) ∧
      (targets? = none → ∃ error, v.extract _ = _ ∧ _) ∧ _
    rw [extract]
    cases agrees with
    | targets alike =>
      refine ⟨fun targets found => ?_, fun refused => ?_, fun unread => ?_⟩
      · cases found
        exact congrArg Except.ok (extracted_congr regular short alike)
      · cases refused
      · cases unread
    | refused known =>
      refine ⟨fun targets found => ?_, fun _ => ⟨_, rfl, known⟩, fun unread => ?_⟩
      · cases found
      · cases unread

/-- Of four positions one is zero, one is missing and one lies past the end. -/
theorem extractBy_reference_past_end :
    let v := make .double (RadixArray.ofList [.number 1, .number 2, .number 3])
      (some (RadixArray.ofList ["a", "", "b"]))
    v.Regular ∧ v.IndexCurrent ∧ v.length ≤ twoTo 53 ∧
      v.extractBy (.cells [.number 3, .number 0, .missing, .number 7]) =
        .ok (make .double (RadixArray.ofList [.number 3, .missing, .missing])
          (some (RadixArray.ofList ["b", "", ""]))) := by
  intro v
  have regular : v.Regular := by
    refine follows_make (fun _ _ => trivial) fun names named => ?_
    cases named
    exact ⟨RadixArray.canonical_ofList _, rfl⟩
  have current : v.IndexCurrent := indexCurrent_make
  have short : v.length ≤ twoTo 53 := by decide
  have addressed : Reference.targets? v (.cells [.number 3, .number 0, .missing, .number 7]) =
      some [.place 2, .missing, .place 6] := by decide +kernel
  have taken : v.extracted [.place 2, .missing, .place 6] =
      make .double (RadixArray.ofList [.number 3, .missing, .missing])
        (some (RadixArray.ofList ["b", "", ""])) := by
    simp [extracted, v, make, RadixArray.toList_ofList, Target.in?]
  have outcome := (extractBy_reference regular current short _).1 _ addressed
  rw [taken] at outcome
  exact ⟨regular, current, short, outcome⟩

end TypedVector
end TypedVectors
