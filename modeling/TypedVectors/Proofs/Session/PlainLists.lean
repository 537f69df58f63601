import TypedVectors.Proofs.Session.Assignment

/-!
A plain list of cells passed as a vector. Its kind is the highest among the cells, but the cells
stay as they are, so that it stands for their combination exactly when none needs promotion.
-/
namespace TypedVectors

/-- Whether all present cells have the same kind alone. -/
def Uniform (items : List Cell) : Prop :=
  ∀ x ∈ items, ∀ y ∈ items, x ≠ .missing → y ≠ .missing → x.kindAlone = y.kindAlone

def listKind (items : List Cell) : Kind := Kind.highest (items.map Cell.kindAlone)

def promotedAlone (items : List Cell) : List Cell :=
  items.map fun cell => cell.raise cell.kindAlone (listKind items)

theorem Cell.kindAlone_eq_of_raise {cell : Cell} {kind : Kind} (present : cell ≠ .missing)
    (up : cell.kindAlone.rank ≤ kind.rank) (kept : cell.raise cell.kindAlone kind = cell) :
    cell.kindAlone = kind := by
  cases cell with
  | missing => exact absurd rfl present
  | truth value =>
    cases kind with
    | logical => rfl
    | integer | double | character => cases kept
  | number x =>
    change Kind.double.rank ≤ kind.rank at up
    cases kind with
    | double => rfl
    | logical | integer => exact absurd up (by decide)
    | character => cases kept
  | text value =>
    change Kind.character.rank ≤ kind.rank at up
    cases kind with
    | character => rfl
    | logical | integer | double => exact absurd up (by decide)

theorem kindAlone_eq_listKind {items : List Cell} (uniform : Uniform items) {cell : Cell}
    (inside : cell ∈ items) (present : cell ≠ .missing) : cell.kindAlone = listKind items := by
  have up : cell.kindAlone.rank ≤ (listKind items).rank :=
    Kind.rank_le_highest (List.mem_map_of_mem inside)
  have lowest : listKind items = .logical → cell.kindAlone = listKind items := by
    intro low
    rw [low] at up ⊢
    revert up
    cases cell.kindAlone <;> decide
  rcases Kind.highest_mem (items.map Cell.kindAlone) with low | top
  · exact lowest low
  · obtain ⟨other, member, same⟩ := List.mem_map.1 top
    by_cases absent : other = .missing
    · subst absent
      exact lowest same.symm
    · exact (uniform cell inside other member present absent).trans same

theorem uniform_iff_promotedAlone {items : List Cell} :
    Uniform items ↔ promotedAlone items = items := by
  constructor
  · intro uniform
    refine (List.map_congr_left fun cell inside => ?_).trans (List.map_id items)
    by_cases absent : cell = .missing
    · rw [absent, Cell.raise_missing]
      rfl
    · rw [← kindAlone_eq_listKind uniform inside absent, Cell.raise_self]
      rfl
  · intro kept x insideX y insideY presentX presentY
    have alone : ∀ cell ∈ items, cell ≠ .missing → cell.kindAlone = listKind items := by
      intro cell inside present
      refine Cell.kindAlone_eq_of_raise present
        (Kind.rank_le_highest (List.mem_map_of_mem inside)) ?_
      exact (List.map_inj_left.1 (kept.trans (List.map_id items).symm)) cell inside
    rw [alone x insideX presentX, alone y insideY presentY]

theorem Operand.combine_scalars (items : List Cell) :
    combine (items.map .scalar) =
      .ok (.make (listKind items) (RadixArray.ofList (promotedAlone items)) none) := by
  have fit : ∀ operand ∈ items.map Operand.scalar, operand.part.NamesFit := by
    intro operand inside
    obtain ⟨cell, _, rfl⟩ := List.mem_map.1 inside
    exact namesFit_scalar cell
  have kind : Part.highestKind ((items.map Operand.scalar).map Operand.part) = listKind items := by
    unfold Part.highestKind listKind
    rw [List.map_map, List.map_map]
    rfl
  have cells : Part.joinedCells ((items.map Operand.scalar).map Operand.part) =
      promotedAlone items := by
    unfold Part.joinedCells promotedAlone
    rw [kind, List.map_map, List.flatMap_map]
    exact List.map_eq_flatMap.symm
  have names : Part.joinedNames? ((items.map Operand.scalar).map Operand.part) = none := by
    unfold Part.joinedNames?
    rw [if_neg]
    simp [Operand.part]
  rw [combine_eq fit, Part.joined, kind, cells, names]
  rfl

/-- The other source has the vector of a variable where the first one has a plain list. -/
inductive OperandSource.Swapped (items : List Cell) (name : String) :
    OperandSource → OperandSource → Prop
  | kept (source : OperandSource) : Swapped items name source source
  | list : Swapped items name (.cells items) (.vector (.variable name))

/-- The other command has the vector of a variable in places where the first one has a plain list
that it takes as a vector. -/
inductive Command.Swapped (items : List Cell) (name : String) : Command → Command → Prop
  | combine {sources others : List OperandSource}
    (each : List.Forall₂ (OperandSource.Swapped items name) sources others) :
    Swapped items name (.combine sources) (.combine others)
  | vector {source other : OperandSource} (swap : source.Swapped items name other) :
    Swapped items name (.vector source) (.vector other)
  | repeated {source other : OperandSource} (swap : source.Swapped items name other)
    (times : Binary64) (each? : Option Binary64) :
    Swapped items name (.repeated source times each?) (.repeated other times each?)
  | assign (target : Source) (spec : OperandSource) {source other : OperandSource}
    (swap : source.Swapped items name other) (handler? : Option CallHandler) :
    Swapped items name (.assign target spec source handler?) (.assign target spec other handler?)
  | binary (operator : Operator) {left right left' right' : OperandSource}
    (swapLeft : left.Swapped items name left') (swapRight : right.Swapped items name right')
    (handler? : Option CallHandler) :
    Swapped items name (.binary operator left right handler?)
      (.binary operator left' right' handler?)
  | apply (f : ElementFunction) {sources others : List OperandSource}
    (each : List.Forall₂ (OperandSource.Swapped items name) sources others)
    (handler? : Option CallHandler) :
    Swapped items name (.apply f sources handler?) (.apply f others handler?)
  | roundTo {source other places places' : OperandSource} (swap : source.Swapped items name other)
    (swapPlaces : places.Swapped items name places') (handler? : Option CallHandler) :
    Swapped items name (.roundTo source places handler?) (.roundTo other places' handler?)
  | negate {source other : OperandSource} (swap : source.Swapped items name other) :
    Swapped items name (.negate source) (.negate other)
  | complement {source other : OperandSource} (swap : source.Swapped items name other) :
    Swapped items name (.complement source) (.complement other)
  | absences {source other : OperandSource} (swap : source.Swapped items name other) :
    Swapped items name (.absences source) (.absences other)
  | convert {source other : OperandSource} (swap : source.Swapped items name other) (kind : Kind)
    (handler? : Option CallHandler) :
    Swapped items name (.convert source kind handler?) (.convert other kind handler?)

def listVector (items : List Cell) : TypedVector :=
  .make (listKind items) (RadixArray.ofList items) none

theorem eq_listVector {items : List Cell} {w : TypedVector} (uniform : Uniform items)
    (combined : Operand.combine (items.map .scalar) = .ok w) : w = listVector items := by
  rw [Operand.combine_scalars, uniform_iff_promotedAlone.1 uniform] at combined
  exact (Except.ok.inj combined).symm

theorem part_listVector (items : List Cell) :
    (Operand.vector (listVector items)).part = (Operand.cells items).part := by
  change Part.mk (listKind items) (RadixArray.ofList items).toList none =
    Part.mk (listKind items) items none
  rw [RadixArray.toList_ofList]

theorem TypedVector.assign_congr {v value other : TypedVector} {selector : Selector}
    (kind : value.kind = other.kind) (cells : value.cells = other.cells) :
    v.assign selector value = v.assign selector other := by
  unfold assign length toArray
  rw [kind, cells]

namespace Session

variable {session : Session} {items : List Cell} {name : String}

section Operands

variable (held : session.read (.variable name) = .ok (listVector items))
  {source other : OperandSource} (swap : source.Swapped items name other)
include held swap

theorem operand_map_toVector : (session.operand source).map Operand.toVector =
    (session.operand other).map Operand.toVector := by
  cases swap with
  | kept => rfl
  | list =>
    unfold operand
    dsimp only
    rw [held]
    exact congrArg Except.ok (Operand.toVector_cells items)

theorem operand_map_part : (session.operand source).map Operand.part =
    (session.operand other).map Operand.part := by
  cases swap with
  | kept => rfl
  | list =>
    unfold operand
    dsimp only
    rw [held]
    exact congrArg Except.ok (part_listVector items).symm

theorem operandVector_eq : session.operandVector source = session.operandVector other := by
  refine bind_congr_of_map (operand_map_toVector held swap) fun x y same => ?_
  rw [same]

end Operands

section Commands

variable (held : session.read (.variable name) = .ok (listVector items))
include held

theorem answer_swapped {command other : Command} (swapped : command.Swapped items name other) :
    session.answer command = session.answer other := by
  cases swapped with
  | combine each =>
    refine bind_congr_of_map (map_mapM_congr (each.imp fun _ _ => operand_map_part held)) ?_
    intro x y same
    unfold Operand.combine
    rw [same]
  | vector swap | negate swap | complement swap | absences swap | convert swap kind handler? =>
    unfold answer
    dsimp only
    rw [operandVector_eq held swap]
  | repeated swap times each? =>
    refine bind_congr_of_map (operand_map_toVector held swap) fun x y same => ?_
    unfold Operand.repeated
    rw [same]
  | assign target spec swap handler? => rfl
  | binary operator swapLeft swapRight handler? =>
    refine bind_congr_of_map (operand_map_toVector held swapLeft) fun x y left => ?_
    refine bind_congr_of_map (operand_map_toVector held swapRight) fun x' y' right => ?_
    rw [left, right]
  | roundTo swap swapPlaces handler? =>
    refine bind_congr_of_map (operand_map_toVector held swap) fun x y left => ?_
    refine bind_congr_of_map (operand_map_toVector held swapPlaces) fun x' y' right => ?_
    rw [left, right]
  | apply f each handler? =>
    refine bind_congr_of_map (map_mapM_congr (each.imp fun _ _ => operand_map_toVector held)) ?_
    intro x y same
    rw [mapM_congr_of_map same]

end Commands

theorem assignment_swapped {before : Session} (agree : ∀ name, before.AgreeAt session name)
    (held : before.read (.variable name) = .ok (listVector items)) (target : Source)
    (spec : OperandSource) {source other : OperandSource} (swap : source.Swapped items name other) :
    session.assignment target spec source = session.assignment target spec other := by
  -- A search may have built an index for the vector since, which no assignment of it reads.
  have values : (session.operand source).map
      (fun operand => operand.toVector.map fun v => (v.kind, v.cells)) =
        (session.operand other).map
          fun operand => operand.toVector.map fun v => (v.kind, v.cells) := by
    cases swap with
    | kept => rfl
    | list =>
      obtain ⟨u, found, same⟩ := read_agree agree held
      unfold operand
      dsimp only
      rw [found]
      change Except.ok ((Operand.cells items).toVector.map _) =
        Except.ok (Except.ok (u.kind, u.cells))
      rw [Operand.toVector_cells, same.kind, same.cells]
      rfl
  refine congrArg (session.read target >>= ·) (funext fun v => ?_)
  refine congrArg (session.operand spec >>= ·) (funext fun selection => ?_)
  refine bind_congr_of_map values fun x y same => ?_
  refine congrArg attempt (bind_congr_of_map same fun value value' pair => ?_)
  refine congrArg (Selector.ofOperand selection >>= ·) (funext fun selector => ?_)
  exact TypedVector.assign_congr (congrArg Prod.fst pair) (congrArg Prod.snd pair)

theorem run_swapped (uniform : Uniform items) {w : TypedVector}
    (combined : Operand.combine (items.map .scalar) = .ok w)
    (held : session.read (.variable name) = .ok w) {command other : Command}
    (swapped : command.Swapped items name other) : session.run command = session.run other := by
  rw [eq_listVector uniform combined] at held
  have answers := answer_swapped held swapped
  cases swapped with
  | @assign target spec source other swap handler? =>
    have agree := agreeAt_assigning session target spec source
    have same : session.assigning target spec other = session.assigning target spec source := rfl
    rw [run_assign_eq, run_assign_eq, same, assignment_swapped agree held target spec swap]
  | _ => exact congrArg (Prod.mk session) answers

theorem answer_list (session : Session) (items : List Cell) :
    session.answer (.vector (.cells items)) = .ok (.vector (listVector items), []) := by
  change (attempt (Operand.cells items).toVector >>= _) = _
  rw [Operand.toVector_cells]
  rfl

theorem answer_variable {w : TypedVector} (held : session.read (.variable name) = .ok w) :
    session.answer (.vector (.vector (.variable name))) = .ok (.vector w, []) := by
  change (((session.read (.variable name)).map Operand.vector >>= _) >>= _) = _
  rw [held]
  rfl

/-- A plain list of cells of one kind does as an operand all that the combination of its cells does:
whatever the session and the command, the vectors after it and the reply are the same. Of any other
list, already the vector of the list itself is different from the combination. -/
theorem plain_list_iff_uniform {items : List Cell} {w : TypedVector}
    (combined : Operand.combine (items.map .scalar) = .ok w) :
    (Uniform items → ∀ (session : Session) (name : String), session.read (.variable name) = .ok w →
      ∀ command other, Command.Swapped items name command other →
        session.run command = session.run other) ∧
    (¬ Uniform items → ∀ (session : Session) (name : String),
      session.read (.variable name) = .ok w →
        (session.run (.vector (.cells items))).2 ≠
          (session.run (.vector (.vector (.variable name)))).2) := by
  constructor
  · intro uniform session name held command other swapped
    exact run_swapped uniform combined held swapped
  · intro mixed session name held same
    have run : ∀ source, (session.run (.vector source)).2 = session.answer (.vector source) :=
      fun _ => rfl
    rw [run, run, answer_list, answer_variable held] at same
    rw [Operand.combine_scalars] at combined
    cases combined
    have lists : listVector items =
        .make (listKind items) (RadixArray.ofList (promotedAlone items)) none := by
      simpa using same
    have cells := congrArg (fun v => v.cells.toList) lists
    unfold listVector TypedVector.make at cells
    rw [RadixArray.toList_ofList, RadixArray.toList_ofList] at cells
    exact mixed (uniform_iff_promotedAlone.2 cells.symm)

/-- A sum beside another operand, of a list of one kind with a missing cell. -/
theorem plain_list_iff_uniform_sum :
    let session := (initial.runInto (some "v")
      (.combine [.scalar (.truth true), .scalar .missing])).1
    session.run (.binary (.arithmetic .add) (.cells [.truth true, .missing]) (.scalar (.truth true))
        none) =
      session.run (.binary (.arithmetic .add) (.vector (.variable "v")) (.scalar (.truth true))
        none) := by
  intro session
  have uniform : Uniform [.truth true, .missing] := by
    intro x insideX y insideY presentX presentY
    simp only [List.mem_cons, List.not_mem_nil, or_false] at insideX insideY
    rw [insideX.resolve_right presentX, insideY.resolve_right presentY]
  have combined := Operand.combine_scalars [.truth true, .missing]
  exact (plain_list_iff_uniform combined).1 uniform session "v" rfl _ _
    (.binary _ .list (.kept _) none)

/-- A truth value stays one in the character vector that a plain list makes, where the combination
has its text. -/
theorem plain_list_keeps_truth :
    let session := (initial.runInto (some "v")
      (.combine [.scalar (.truth true), .scalar (.text "a")])).1
    let list := (session.run (.vector (.cells [.truth true, .text "a"]))).2
    let combined := (session.run (.vector (.vector (.variable "v")))).2
    list = .ok (.vector (.make .character (RadixArray.ofList [.truth true, .text "a"]) none), []) ∧
      combined =
        .ok (.vector (.make .character (RadixArray.ofList [.text "TRUE", .text "a"]) none), []) ∧
      list ≠ combined := by
  refine ⟨rfl, rfl, fun same => ?_⟩
  have vectors := congrArg Prod.fst (Except.ok.inj same)
  have cells := congrArg (fun v => v.cells.toList) (Answer.vector.inj vectors)
  change (RadixArray.ofList [Cell.truth true, .text "a"]).toList =
    (RadixArray.ofList [Cell.text "TRUE", .text "a"]).toList at cells
  rw [RadixArray.toList_ofList, RadixArray.toList_ofList] at cells
  cases cells

end Session
end TypedVectors
