import TypedVectors.Proofs.Selection.Assignment
import TypedVectors.Proofs.TypedVector.Operand

/-!
Concatenation of vectors. It is read off the vectors alone: the highest kind, the promoted cells in
order, and names as soon as one vector has some. Where truth values are not made text, promotion
goes the same way in steps, so that vectors may be combined in any groups.
-/
namespace TypedVectors

theorem Kind.rank_injective {a b : Kind} (same : a.rank = b.rank) : a = b := by
  revert same
  cases a <;> cases b <;> decide

/-- The ways to go up the order of kinds in two steps. -/
theorem Kind.two_steps {source middle target : Kind} (first : source.rank < middle.rank)
    (second : middle.rank < target.rank) :
    source = .logical ∧ middle = .integer ∧ target = .double ∨
      source = .logical ∧ target = .character ∨
      source = .integer ∧ middle = .double ∧ target = .character := by
  revert first second
  cases source <;> cases middle <;> cases target <;> decide

/-- No valid cell but a truth value on its way to text depends on the way up. -/
theorem Cell.raise_raise {source middle target : Kind} {cell : Cell}
    (first : source.rank ≤ middle.rank) (second : middle.rank ≤ target.rank)
    (valid : CellRule.validBelowDouble source cell)
    (apart : source = .logical → target ≠ .character) :
    (cell.raise source middle).raise middle target = cell.raise source target := by
  by_cases here : source = middle
  · rw [here, raise_self]
  by_cases there : middle = target
  · rw [there, raise_self]
  have up := lt_of_le_of_ne first (mt Kind.rank_injective here)
  have further := lt_of_le_of_ne second (mt Kind.rank_injective there)
  -- Of the ways in two real steps only that from logical to character would differ.
  rcases Kind.two_steps up further with ⟨rfl, rfl, rfl⟩ | ⟨logical, text⟩ | ⟨rfl, rfl, rfl⟩
  · cases cell with
    | missing | truth _ | number _ | text _ => rfl
  · exact absurd text (apart logical)
  · have integer := valid (Nat.le_refl _)
    cases cell with
    | missing | number _ => rfl
    | truth _ => exact absurd (belongsTo_truth.1 integer) (by decide)
    | text _ => exact absurd (belongsTo_text.1 integer) (by decide)

namespace TypedVector

variable {v w u : TypedVector} {vs : List TypedVector}

/-- The concatenation of vectors. -/
def combined (vs : List TypedVector) : Except Error TypedVector :=
  Operand.combine (vs.map .vector)

/-- What the concatenation of vectors is. A vector without names has empty ones. -/
structure Concatenation (vs : List TypedVector) (w : TypedVector) : Prop where
  highest : ∀ v ∈ vs, v.kind.rank ≤ w.kind.rank
  attained : w.kind = .logical ∨ ∃ v ∈ vs, v.kind = w.kind
  cells : w.cells.toList = vs.flatMap fun v => v.raisedCells w.kind
  named : w.names?.isSome ↔ ∃ v ∈ vs, v.names?.isSome
  names : w.nameList = vs.flatMap nameList

/-- The same vector, whether or not names were searched. -/
structure SameVector (v w : TypedVector) : Prop where
  kind : v.kind = w.kind
  cells : v.cells = w.cells
  names : v.names? = w.names?

theorem length_concatenation (regular : ∀ v ∈ vs, v.Regular) (kind : Kind) :
    (vs.flatMap nameList).length = (vs.flatMap fun v => v.raisedCells kind).length := by
  rw [List.length_flatMap, List.length_flatMap]
  refine congrArg List.sum (List.map_congr_left fun v inside => ?_)
  rw [length_nameList (regular v inside), length_raisedCells (regular v inside)]

theorem nameList_unnamed (unnamed : v.names? = none) :
    v.nameList = List.replicate v.length "" := by
  rw [nameList, unnamed]
  rfl

theorem nameList_named {names : RadixArray String} (named : v.names? = some names) :
    v.nameList = names.toList := by
  rw [nameList, named]
  rfl

theorem flatMap_nameList_unnamed (unnamed : ¬∃ v ∈ vs, v.names?.isSome) :
    vs.flatMap nameList = List.replicate (vs.flatMap nameList).length "" := by
  refine List.eq_replicate_iff.2 ⟨rfl, fun name inside => ?_⟩
  obtain ⟨v, member, inside⟩ := List.mem_flatMap.1 inside
  have nameless : v.names? = none := by
    by_contra named
    exact unnamed ⟨v, member, Option.isSome_iff_ne_none.2 named⟩
  rw [nameList_unnamed nameless] at inside
  exact List.eq_of_mem_replicate inside

section Part

variable (regular : v.Regular)
include regular

theorem namesFit_vector : (Operand.vector v).part.NamesFit := by
  have holds : (Operand.vector v).Holds Regular := by
    intro w ok
    cases ok
    exact regular
  exact (Operand.follows_part holds).names

theorem nameList_part : (Operand.vector v).part.nameList = v.nameList := by
  unfold Part.nameList nameList
  cases named : v.names? with
  | none =>
    simp only [Operand.part, named, Option.map_none, Option.getD_none]
    rw [regular.length_eq]
    rfl
  | some names =>
    simp only [Operand.part, named, Option.map_some, Option.getD_some]
    rfl

end Part

/-- The vector of the highest kind, the promoted cells and the names is the concatenation. -/
theorem concatenation_make (regular : ∀ v ∈ vs, v.Regular) :
    Concatenation vs (make (Kind.highest (vs.map (·.kind)))
      (RadixArray.ofList (vs.flatMap fun v => v.raisedCells (Kind.highest (vs.map (·.kind)))))
      ((if vs.any (·.names?.isSome) then some (vs.flatMap nameList) else none).map
        RadixArray.ofList)) where
  highest := fun v inside => Kind.rank_le_highest (List.mem_map_of_mem inside)
  attained := by
    rcases Kind.highest_mem (vs.map (·.kind)) with low | inside
    · exact .inl low
    · exact .inr (List.mem_map.1 inside)
  cells := RadixArray.toList_ofList _
  named := by
    rw [make, Option.isSome_map, ← List.any_eq_true]
    split
    · next named => exact iff_of_true rfl named
    · next unnamed => exact iff_of_false Bool.false_ne_true unnamed
  names := by
    have length := length_concatenation regular (Kind.highest (vs.map (·.kind)))
    split
    · exact RadixArray.toList_ofList _
    · next unnamed =>
      rw [List.any_eq_true] at unnamed
      rw [flatMap_nameList_unnamed unnamed, length, nameList_unnamed rfl, TypedVector.length, make,
        RadixArray.size_ofList]

theorem exists_combined (regular : ∀ v ∈ vs, v.Regular) :
    ∃ w, combined vs = .ok w ∧ w.index? = none ∧ Concatenation vs w := by
  have fit : ∀ operand ∈ vs.map Operand.vector, operand.part.NamesFit := by
    intro operand inside
    obtain ⟨v, member, rfl⟩ := List.mem_map.1 inside
    exact namesFit_vector (regular v member)
  have kind : Part.highestKind ((vs.map Operand.vector).map Operand.part) =
      Kind.highest (vs.map (·.kind)) := by
    simp [Part.highestKind, Operand.part, Function.comp_def]
  have cells : Part.joinedCells ((vs.map Operand.vector).map Operand.part) =
      vs.flatMap fun v => v.raisedCells (Kind.highest (vs.map (·.kind))) := by
    rw [Part.joinedCells, kind, List.flatMap_map, List.flatMap_map]
    rfl
  have named : ((vs.map Operand.vector).map Operand.part).any (·.names?.isSome) =
      vs.any (·.names?.isSome) := by
    simp [Operand.part, Function.comp_def]
  have names : ((vs.map Operand.vector).map Operand.part).flatMap Part.nameList =
      vs.flatMap nameList := by
    rw [List.flatMap_map, List.flatMap_map]
    exact List.flatMap_congr fun v inside => nameList_part (regular v inside)
  refine ⟨_, Operand.combine_eq fit, rfl, ?_⟩
  unfold Part.joined Part.joinedNames?
  rw [kind, cells, named, names]
  exact concatenation_make regular

namespace Concatenation

section Unique

variable (first : Concatenation vs w) (second : Concatenation vs u)
include first second

theorem rank_le : w.kind.rank ≤ u.kind.rank := by
  rcases first.attained with low | ⟨v, inside, same⟩
  · rw [low]
    exact Nat.zero_le _
  · rw [← same]
    exact second.highest v inside

theorem kind_eq : w.kind = u.kind :=
  Kind.rank_injective (Nat.le_antisymm (rank_le first second) (rank_le second first))

theorem unique (regular : w.Regular) (otherRegular : u.Regular) : SameVector w u where
  kind := kind_eq first second
  cells := by
    rw [regular.canonical, otherRegular.canonical, first.cells, second.cells,
      kind_eq first second]
  names := by
    have named : w.names?.isSome ↔ u.names?.isSome := first.named.trans second.named.symm
    cases here : w.names? with
    | none =>
      cases there : u.names? with
      | none => rfl
      | some _ => simp [here, there] at named
    | some names =>
      cases there : u.names? with
      | none => simp [here, there] at named
      | some others =>
        have same := first.names.trans second.names.symm
        rw [nameList_named here, nameList_named there] at same
        rw [(regular.names names here).1, (otherRegular.names others there).1, same]

end Unique

theorem single (v : TypedVector) : Concatenation [v] v where
  highest := by
    intro w inside
    rw [List.mem_singleton.1 inside]
  attained := .inr ⟨v, List.mem_singleton_self v, rfl⟩
  cells := by
    rw [List.flatMap_singleton]
    simp [raisedCells, Cell.raise_self]
  named := by simp
  names := (List.flatMap_singleton ..).symm

end Concatenation

/-- No logical vector stands beside a character one. -/
def Unmixed (vs : List TypedVector) : Prop :=
  ¬((∃ v ∈ vs, v.kind = .logical) ∧ ∃ v ∈ vs, v.kind = .character)

theorem unmixed_single (v : TypedVector) : Unmixed [v] := by
  rintro ⟨⟨a, first, logical⟩, b, second, text⟩
  rw [List.mem_singleton.1 first] at logical
  rw [List.mem_singleton.1 second, logical] at text
  cases text

section Groups

variable {parts : List (TypedVector × List TypedVector)}

theorem mem_grouped {part : TypedVector × List TypedVector} (member : part ∈ parts)
    (inside : v ∈ part.2) : v ∈ parts.flatMap (·.2) := List.mem_flatMap.2 ⟨part, member, inside⟩

theorem Unmixed.part (unmixed : Unmixed (parts.flatMap (·.2)))
    {part : TypedVector × List TypedVector} (member : part ∈ parts) : Unmixed part.2 := by
  rintro ⟨⟨a, first, logical⟩, b, second, text⟩
  exact unmixed ⟨⟨a, mem_grouped member first, logical⟩, b, mem_grouped member second, text⟩

section Flatten

variable (each : ∀ part ∈ parts, Concatenation part.2 part.1)
  (whole : Concatenation (parts.map (·.1)) w)
include each whole

theorem attained_grouped : w.kind = .logical ∨ ∃ v ∈ parts.flatMap (·.2), v.kind = w.kind := by
  rcases whole.attained with low | ⟨_, inside, same⟩
  · exact .inl low
  · obtain ⟨part, member, rfl⟩ := List.mem_map.1 inside
    rcases (each part member).attained with low | ⟨v, within, kind⟩
    · exact .inl (same.symm.trans low)
    · exact .inr ⟨v, mem_grouped member within, kind.trans same⟩

theorem named_grouped : w.names?.isSome ↔ ∃ v ∈ parts.flatMap (·.2), v.names?.isSome := by
  rw [whole.named]
  constructor
  · rintro ⟨_, inside, named⟩
    obtain ⟨part, member, rfl⟩ := List.mem_map.1 inside
    obtain ⟨v, within, named⟩ := (each part member).named.1 named
    exact ⟨v, mem_grouped member within, named⟩
  · rintro ⟨v, inside, named⟩
    obtain ⟨part, member, within⟩ := List.mem_flatMap.1 inside
    exact ⟨part.1, List.mem_map_of_mem member, (each part member).named.2 ⟨v, within, named⟩⟩

/-- A concatenation of concatenations is that of all vectors. -/
theorem Concatenation.flatten
    (follows : ∀ v ∈ parts.flatMap (·.2), v.Follows .validBelowDouble)
    (unmixed : Unmixed (parts.flatMap (·.2))) : Concatenation (parts.flatMap (·.2)) w where
  highest := by
    intro v inside
    obtain ⟨part, member, within⟩ := List.mem_flatMap.1 inside
    exact Nat.le_trans ((each part member).highest v within)
      (whole.highest part.1 (List.mem_map_of_mem member))
  attained := attained_grouped each whole
  cells := by
    have apart : ∀ v ∈ parts.flatMap (·.2), v.kind = .logical → w.kind ≠ .character := by
      intro v inside logical text
      rcases attained_grouped each whole with low | ⟨u, within, kind⟩
      · rw [low] at text
        cases text
      · exact unmixed ⟨⟨v, inside, logical⟩, u, within, kind.trans text⟩
    -- A cell goes up to the kind of its group, and with the group to that of all vectors.
    rw [whole.cells, List.flatMap_map, List.flatMap_assoc]
    refine List.flatMap_congr fun part member => ?_
    rw [raisedCells, (each part member).cells, List.map_flatMap]
    refine List.flatMap_congr fun v within => ?_
    have inside := mem_grouped member within
    rw [raisedCells, List.map_map]
    refine List.map_congr_left fun cell source => ?_
    exact Cell.raise_raise ((each part member).highest v within)
      (whole.highest part.1 (List.mem_map_of_mem member)) ((follows v inside).cells cell source)
      (apart v inside)
  named := named_grouped each whole
  names := by
    rw [whole.names, List.flatMap_map, List.flatMap_assoc]
    exact List.flatMap_congr fun part member => (each part member).names

end Flatten
end Groups

theorem follows_combined {rule : CellRule} (stable : rule.Stable)
    (each : ∀ v ∈ vs, v.Follows rule) (ok : combined vs = .ok w) : w.Follows rule := by
  refine Operand.follows_combine stable (fun operand inside => ?_) ok
  obtain ⟨v, member, rfl⟩ := List.mem_map.1 inside
  intro made same
  cases same
  exact each v member

theorem concatenation_combined (regular : ∀ v ∈ vs, v.Regular) (ok : combined vs = .ok w) :
    w.index? = none ∧ Concatenation vs w := by
  obtain ⟨made, done, fresh, concatenation⟩ := exists_combined regular
  cases ok.symm.trans done
  exact ⟨fresh, concatenation⟩

/-- Vectors combined in groups, and the results again, to any depth. -/
inductive Grouped : TypedVector → List TypedVector → Prop
  | alone (v : TypedVector) : Grouped v [v]
  | group {parts : List (TypedVector × List TypedVector)} {w : TypedVector}
      (each : ∀ part ∈ parts, Grouped part.1 part.2) (ok : combined (parts.map (·.1)) = .ok w) :
      Grouped w (parts.flatMap (·.2))

theorem grouped_combined (ok : combined vs = .ok w) : Grouped w vs := by
  have vectors : (vs.map fun v => (v, [v])).map (·.1) = vs := by
    rw [List.map_map]
    exact List.map_id vs
  have all : (vs.map fun v => (v, [v])).flatMap (·.2) = vs := by
    rw [List.flatMap_map]
    exact List.flatMap_singleton' vs
  rw [← all]
  refine .group (fun part inside => ?_) (vectors.symm ▸ ok)
  obtain ⟨v, _, rfl⟩ := List.mem_map.1 inside
  exact .alone v

theorem Grouped.concatenation (grouped : Grouped w vs)
    (follows : ∀ v ∈ vs, v.Follows .validBelowDouble) (unmixed : Unmixed vs) :
    w.Follows .validBelowDouble ∧ Concatenation vs w := by
  -- The induction is on the groups; rule and unmixed kinds carry over to the groups within.
  induction grouped with
  | alone v => exact ⟨follows v (List.mem_singleton_self v), .single v⟩
  | @group parts w each ok ih =>
    have made : ∀ part ∈ parts, part.1.Follows .validBelowDouble ∧ Concatenation part.2 part.1 :=
      fun part member => ih part member (fun v inside => follows v (mem_grouped member inside))
        (unmixed.part member)
    have vectors : ∀ v ∈ parts.map (·.1), v.Follows .validBelowDouble := by
      intro v inside
      obtain ⟨part, member, rfl⟩ := List.mem_map.1 inside
      exact (made part member).1
    have whole := (concatenation_combined (fun v inside => (vectors v inside).regular) ok).2
    exact ⟨follows_combined CellRule.stable_validBelowDouble vectors ok,
      Concatenation.flatten (fun part member => (made part member).2) whole follows unmixed⟩

theorem grouped_same (first : Grouped w vs) (second : Grouped u vs)
    (follows : ∀ v ∈ vs, v.Follows .validBelowDouble) (unmixed : Unmixed vs) : SameVector w u := by
  obtain ⟨here, concatenation⟩ := first.concatenation follows unmixed
  obtain ⟨there, other⟩ := second.concatenation follows unmixed
  exact concatenation.unique other here.regular there.regular

/-- A part made of one vector, and one made of several. -/
theorem grouped_pair {x y : TypedVector} {xs ys : List TypedVector} (first : Grouped x xs)
    (second : Grouped y ys) (ok : combined [x, y] = .ok w) : Grouped w (xs ++ ys) := by
  have grouped : Grouped w ([(x, xs), (y, ys)].flatMap (·.2)) := by
    refine .group (fun part inside => ?_) ok
    rcases List.mem_pair.1 inside with rfl | rfl
    · exact first
    · exact second
  simpa using grouped

theorem SameVector.eq (same : SameVector w u) (fresh : w.index? = none)
    (otherFresh : u.index? = none) : w = u := by
  obtain ⟨kind, cells, names⟩ := same
  cases w
  cases u
  cases kind
  cases cells
  cases names
  cases fresh
  cases otherFresh
  rfl

theorem exists_grouped (follows : ∀ v ∈ vs, v.Follows .validBelowDouble) :
    ∃ w, combined vs = .ok w ∧ w.index? = none ∧ w.Follows .validBelowDouble := by
  obtain ⟨w, ok, fresh, _⟩ := exists_combined fun v inside => (follows v inside).regular
  exact ⟨w, ok, fresh, follows_combined CellRule.stable_validBelowDouble follows ok⟩

theorem exists_grouped_pair (left : v.Follows .validBelowDouble)
    (right : w.Follows .validBelowDouble) :
    ∃ u, combined [v, w] = .ok u ∧ u.index? = none ∧ u.Follows .validBelowDouble :=
  exists_grouped (List.forall_mem_cons.2 ⟨left, List.forall_mem_singleton.2 right⟩)

/-- Combining is concatenation, and a monoid operation where no logical vector meets a character
one: groups may be combined first, to any depth, and combining nothing is neutral on both sides. -/
theorem combine_monoid :
    (∀ vs : List TypedVector, (∀ v ∈ vs, v.Regular) →
      ∃ w, combined vs = .ok w ∧ Concatenation vs w) ∧
    (∀ xs ys : List TypedVector, (∀ v ∈ xs ++ ys, v.Follows .validBelowDouble) →
      Unmixed (xs ++ ys) → ∃ x y w, combined xs = .ok x ∧ combined ys = .ok y ∧
        combined [x, y] = .ok w ∧ combined (xs ++ ys) = .ok w) ∧
    (∀ vs w, Grouped w vs → (∀ v ∈ vs, v.Follows .validBelowDouble) → Unmixed vs →
      ∃ u, combined vs = .ok u ∧ SameVector w u) ∧
    ∀ v : TypedVector, v.Follows .validBelowDouble → ∃ empty u, combined [] = .ok empty ∧
      combined [v] = .ok u ∧ combined [empty, v] = .ok u ∧ combined [v, empty] = .ok u ∧
        SameVector v u := by
  refine ⟨fun vs regular => ?_, fun xs ys follows unmixed => ?_,
    fun vs w grouped follows unmixed => ?_, fun v follows => ?_⟩
  · obtain ⟨w, ok, _, concatenation⟩ := exists_combined regular
    exact ⟨w, ok, concatenation⟩
  · obtain ⟨x, first, _, xFollows⟩ :=
      exists_grouped fun v inside => follows v (List.mem_append_left ys inside)
    obtain ⟨y, second, _, yFollows⟩ :=
      exists_grouped fun v inside => follows v (List.mem_append_right xs inside)
    obtain ⟨w, paired, wFresh, _⟩ := exists_grouped_pair xFollows yFollows
    obtain ⟨u, whole, uFresh, _⟩ := exists_grouped follows
    have same := grouped_same
      (grouped_pair (grouped_combined first) (grouped_combined second) paired)
      (grouped_combined whole) follows unmixed
    exact ⟨x, y, w, first, second, paired, same.eq wFresh uFresh ▸ whole⟩
  · obtain ⟨u, ok, _, _⟩ := exists_grouped follows
    exact ⟨u, ok, grouped_same grouped (grouped_combined ok) follows unmixed⟩
  · have only : ∀ u ∈ [v], u.Follows .validBelowDouble := List.forall_mem_singleton.2 follows
    have same : ∀ {w u : TypedVector}, Grouped w [v] → Grouped u [v] → SameVector w u :=
      fun first second => grouped_same first second only (unmixed_single v)
    obtain ⟨empty, nothing, _, emptyFollows⟩ := exists_grouped (List.forall_mem_nil _)
    obtain ⟨u, alone, uFresh, _⟩ := exists_grouped only
    obtain ⟨before, left, leftFresh, _⟩ := exists_grouped_pair emptyFollows follows
    obtain ⟨after, right, rightFresh, _⟩ := exists_grouped_pair follows emptyFollows
    have single := grouped_combined alone
    have leftSame := same (grouped_pair (grouped_combined nothing) (.alone v) left) single
    have rightSame := same (grouped_pair (.alone v) (grouped_combined nothing) right) single
    refine ⟨empty, u, nothing, alone, ?_, ?_, same (.alone v) single⟩
    · exact leftSame.eq leftFresh uFresh ▸ left
    · exact rightSame.eq rightFresh uFresh ▸ right

/-- An integer vector with names, an empty double one and a text. -/
theorem combine_monoid_named :
    let xs := [make .integer (RadixArray.ofList [.number 1, .missing])
      (some (RadixArray.ofList ["p", "q"])), make .double (RadixArray.ofList []) none]
    let ys := [make .character (RadixArray.ofList [.text "a"]) none]
    (∀ v ∈ xs ++ ys, v.Follows .validBelowDouble) ∧ Unmixed (xs ++ ys) ∧
      (∃ x y w, combined xs = .ok x ∧ combined ys = .ok y ∧ combined [x, y] = .ok w ∧
        combined (xs ++ ys) = .ok w) ∧
      (combined (xs ++ ys)).map (fun w => (w.cells.toList, w.nameList)) =
        .ok ([.text "1", .missing, .text "a"], ["p", "q", ""]) := by
  intro xs ys
  have follows : ∀ v ∈ xs ++ ys, v.Follows .validBelowDouble := by
    intro v inside
    rcases List.mem_append.1 inside with first | second
    · rcases List.mem_pair.1 first with rfl | rfl
      · have valid : ∀ cell ∈ [Cell.number 1, .missing], cell.belongsTo .integer := by
          decide +kernel
        refine follows_make (fun cell inside _ => valid cell inside) fun names named => ?_
        cases named
        exact ⟨RadixArray.canonical_ofList _, rfl⟩
      · exact follows_unnamed fun _ inside => absurd inside List.not_mem_nil
    · rw [List.mem_singleton.1 second]
      exact follows_unnamed fun _ _ low => absurd low (by decide)
  have unmixed : Unmixed (xs ++ ys) := by
    rintro ⟨⟨v, inside, logical⟩, _⟩
    have kinds : ∀ v ∈ xs ++ ys, v.kind ≠ .logical := by decide +kernel
    exact kinds v inside logical
  exact ⟨follows, unmixed, combine_monoid.2.1 xs ys follows unmixed, by decide +kernel⟩

/-- Where a logical vector meets a character one, the groups are told apart. -/
example : ((combined [make .logical (RadixArray.ofList [.truth true]) none,
      make .integer (RadixArray.ofList []) none]).bind fun x =>
        combined [x, make .character (RadixArray.ofList []) none]).map (·.cells.toList) =
      .ok [.text "1"] ∧
    (combined [make .logical (RadixArray.ofList [.truth true]) none,
      make .integer (RadixArray.ofList []) none,
      make .character (RadixArray.ofList []) none]).map (·.cells.toList) = .ok [.text "TRUE"] := by
  decide +kernel

end TypedVector
end TypedVectors
