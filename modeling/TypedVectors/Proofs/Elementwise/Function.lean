import TypedVectors.Elementwise.Function
import TypedVectors.Proofs.Elementwise.Recycled

/-!
Functions of elements applied to any number of recycled vectors. What the application gives is said
index by index, whatever the function is: which operands are refused, where the function is asked
and its result refused, and what the cells, the names and the warning are of a result.
-/
namespace TypedVectors

namespace ElementFunction

/-- The cells of the operands for an index, each operand starting over at its end. -/
def arguments (operands : List TypedVector) (index : Nat) : List Cell :=
  operands.map fun v => cycledCell v.cells.toList index

/-- The length of the longest operand. -/
def commonLength (operands : List TypedVector) : Nat := longest (operands.map (·.length))

/-- One operand is empty and another is not. -/
def Unfit (operands : List TypedVector) : Prop :=
  (∃ v ∈ operands, v.length = 0) ∧ ∃ v ∈ operands, v.length ≠ 0

/-- The function is not asked where it propagates missing cells and an argument is missing. -/
def Skips (f : ElementFunction) (operands : List TypedVector) (index : Nat) : Prop :=
  f.propagates ∧ .missing ∈ arguments operands index

/-- The function is asked and answers with a cell that is not of its kind. -/
def Strays (f : ElementFunction) (operands : List TypedVector) (index : Nat) : Prop :=
  ¬f.Skips operands index ∧ ¬(f.compute (arguments operands index)).belongsTo f.kind

instance (f : ElementFunction) (operands : List TypedVector) (index : Nat) :
    Decidable (f.Skips operands index) := inferInstanceAs (Decidable (_ ∧ _))

instance (f : ElementFunction) (operands : List TypedVector) (index : Nat) :
    Decidable (f.Strays operands index) := inferInstanceAs (Decidable (¬_ ∧ _))

/-- The first index at which the function strays. -/
structure StraysFirst (f : ElementFunction) (operands : List TypedVector) (index : Nat) :
    Prop where
  inside : index < commonLength operands
  strays : f.Strays operands index
  first : ∀ earlier < index, ¬f.Strays operands earlier

/-- A named vector of the given length. -/
def NamedOf (length : Nat) (v : TypedVector) : Prop := v.names?.isSome ∧ v.length = length

/-- The result of a function on recycled operands, with what is told about their lengths. Names come
from the first operand that has names for the whole result, and the warning is about the first
operand whose length does not divide that of the result. -/
structure Applied (f : ElementFunction) (operands : List TypedVector) (w : TypedVector)
    (warnings : List Warning) : Prop where
  kind : w.kind = f.kind
  length : w.length = commonLength operands
  skipped : ∀ index < w.length, f.Skips operands index → w.cells.toList[index]? = some .missing
  asked : ∀ index < w.length, ¬f.Skips operands index →
    w.cells.toList[index]? = some (f.compute (arguments operands index))
  named : ∀ before v after, operands = before ++ v :: after →
    (∀ u ∈ before, ¬NamedOf w.length u) → NamedOf w.length v → w.names? = v.names?
  unnamed : (∀ v ∈ operands, ¬NamedOf w.length v) → w.names? = none
  silent : (∀ v ∈ operands, v.length ∣ w.length) → warnings = []
  told : ∀ before v after, operands = before ++ v :: after →
    (∀ u ∈ before, u.length ∣ w.length) → ¬v.length ∣ w.length →
      warnings = [.recycledLength w.length v.length]

/-- Everything that the application of a function can come to, with the condition for each. -/
inductive Outcome (f : ElementFunction) (operands : List TypedVector) :
    Except Error (TypedVector × List Warning) → Prop
  | nothing (empty : operands = []) : Outcome f operands (.error .noOperands)
  | unfit (nonempty : operands ≠ []) (unfit : Unfit operands) :
    Outcome f operands (.error (.emptyOperand (operands.map (·.length))))
  | stray (nonempty : operands ≠ []) (fit : ¬Unfit operands) (index : Nat)
    (first : f.StraysFirst operands index) :
    Outcome f operands (.error (.foreignResult (f.compute (arguments operands index)) f.kind))
  | applied (nonempty : operands ≠ []) (fit : ¬Unfit operands)
    (valid : ∀ index < commonLength operands, ¬f.Strays operands index) {w : TypedVector}
    {warnings : List Warning} (applied : f.Applied operands w warnings) :
    Outcome f operands (.ok (w, warnings))

variable {f : ElementFunction} {operands : List TypedVector} {index : Nat}

theorem unfit_iff : Recycling.Unfit (operands.map (·.length)) ↔ Unfit operands := by
  simp [Recycling.Unfit, Unfit]

theorem length_le_common {v : TypedVector} (inside : v ∈ operands) :
    v.length ≤ commonLength operands := le_longest (List.mem_map_of_mem inside)

theorem length_pos (fit : ¬Unfit operands) (below : index < commonLength operands)
    {v : TypedVector} (inside : v ∈ operands) : 0 < v.length := by
  refine Nat.pos_of_ne_zero fun empty => fit ⟨⟨v, inside, empty⟩, ?_⟩
  by_contra others
  have zeros : commonLength operands = 0 := by
    refine longest_eq_zero_iff.2 fun n member => ?_
    obtain ⟨u, found, rfl⟩ := List.mem_map.1 member
    exact not_not.1 fun other => others ⟨u, found, other⟩
  omega

/-! One index. -/

theorem any_isMissing_iff {cells : List Cell} :
    cells.any (·.isMissing) ↔ .missing ∈ cells := by
  rw [List.any_eq_true]
  constructor
  · rintro ⟨cell, inside, missing⟩
    rwa [← (cell.isMissing_iff).1 missing]
  · exact fun inside => ⟨.missing, inside, rfl⟩

theorem result_skipped (skips : f.Skips operands index) :
    f.result (arguments operands index) = .ok .missing := by
  have skipped : (f.propagates && (arguments operands index).any (·.isMissing)) = true := by
    rw [Bool.and_eq_true]
    exact ⟨skips.1, any_isMissing_iff.2 skips.2⟩
  rw [result, skipped, if_pos rfl]

theorem result_asked (asked : ¬f.Skips operands index) :
    f.result (arguments operands index) =
      if (f.compute (arguments operands index)).belongsTo f.kind then
        .ok (f.compute (arguments operands index))
      else .error (.foreignResult (f.compute (arguments operands index)) f.kind) := by
  have skipped : ¬(f.propagates && (arguments operands index).any (·.isMissing)) := by
    rw [Bool.and_eq_true]
    exact fun both => asked ⟨both.1, any_isMissing_iff.1 both.2⟩
  rw [result, if_neg skipped]

theorem strays_iff {error : Error} :
    f.result (arguments operands index) = .error error ↔
      f.Strays operands index ∧
        error = .foreignResult (f.compute (arguments operands index)) f.kind := by
  by_cases skips : f.Skips operands index
  · rw [result_skipped skips]
    exact iff_of_false (fun same => by cases same) fun strays => strays.1.1 skips
  · rw [result_asked skips]
    split
    · next valid => exact iff_of_false (fun same => by cases same) fun strays => strays.1.2 valid
    · next foreign =>
      constructor
      · rintro ⟨⟩
        exact ⟨⟨skips, foreign⟩, rfl⟩
      · rintro ⟨-, rfl⟩
        rfl

theorem mapM_readAt_arguments (regular : ∀ v ∈ operands, v.Regular)
    (nonempty : ∀ v ∈ operands, 0 < v.length) (index : Nat) :
    ((operands.map (·.toArray)).mapM fun column =>
      readAt column (Recycling.source column.size index)) = .ok (arguments operands index) := by
  have each : ∀ column ∈ operands.map (·.toArray),
      readAt column (Recycling.source column.size index) =
        .ok (cycledCell column.toList index) := by
    intro column inside
    obtain ⟨v, member, rfl⟩ := List.mem_map.1 inside
    refine readAt_source ?_ index
    rw [← Array.length_toList, TypedVector.toList_toArray, ← (regular v member).length_eq]
    exact nonempty v member
  rw [mapM_eq_ok each, List.map_map]
  rfl

/-! All indices. -/

theorem apply_eq (regular : ∀ v ∈ operands, v.Regular) (nonempty : operands ≠ [])
    (fit : ¬Unfit operands) :
    ∃ alignment, Recycling.align (operands.map (·.length)) = .ok alignment ∧
      f.apply operands = (do
        let cells ← (List.range alignment.length).mapM fun index =>
          f.result (arguments operands index)
        return (.make f.kind (RadixArray.ofList cells)
          (TypedVector.resultNames? operands alignment.length), alignment.warning?.toList)) := by
  obtain ⟨unfit, -⟩ | ⟨-, alignment, aligned⟩ :=
    Recycling.align_cases (operands.map (·.length))
  · exact absurd (unfit_iff.1 unfit) fit
  · refine ⟨alignment, aligned, ?_⟩
    have computed : ((List.range alignment.length).mapM fun index => do
        let arguments ← (operands.map (·.toArray)).mapM fun column =>
          readAt column (Recycling.source column.size index)
        f.result arguments) =
        (List.range alignment.length).mapM fun index => f.result (arguments operands index) := by
      refine mapM_congr fun index inside => ?_
      have below : index < commonLength operands := by
        rw [commonLength, ← (Recycling.align_success aligned).1]
        exact List.mem_range.1 inside
      rw [mapM_readAt_arguments regular (fun v member => length_pos fit below member)]
      rfl
    unfold apply
    rw [if_neg (by simpa using nonempty), aligned]
    change (List.mapM _ _ >>= _ : Except Error _) = _
    rw [computed]

/-- In ascending order the numbers before one are the lesser ones. -/
theorem range_split {count : Nat} {before after : List Nat}
    (split : List.range count = before ++ index :: after) :
    index < count ∧ ∀ earlier < index, earlier ∈ before := by
  have below : index < count := by
    rw [← List.mem_range, split]
    exact List.mem_append_right _ List.mem_cons_self
  refine ⟨below, fun earlier less => ?_⟩
  have ascending := List.pairwise_lt_range (n := count)
  have inside := List.mem_range.2 (Nat.lt_trans less below)
  rw [split] at ascending inside
  rcases List.mem_append.1 inside with front | back
  · exact front
  · have later := (List.pairwise_cons.1 (List.pairwise_append.1 ascending).2.1).1
    rcases List.mem_cons.1 back with rfl | behind
    · exact absurd less (Nat.lt_irrefl _)
    · exact absurd (later earlier behind) (Nat.not_lt.2 (Nat.le_of_lt less))

section Result

variable {length : Nat} {v : TypedVector} {before after : List TypedVector}

theorem resultNames?_named (split : operands = before ++ v :: after)
    (others : ∀ u ∈ before, ¬NamedOf length u) (named : NamedOf length v) :
    TypedVector.resultNames? operands length = v.names? := by
  have found :
      (operands.find? fun u => u.names?.isSome && decide (u.length = length)) = some v := by
    rw [List.find?_eq_some_iff_append]
    refine ⟨by simpa [NamedOf] using named, before, after, split, fun u inside => ?_⟩
    simpa [NamedOf, Option.isSome_iff_ne_none, imp_iff_not_or] using others u inside
  rw [TypedVector.resultNames?, found, Option.bind_some]

theorem resultNames?_unnamed (others : ∀ u ∈ operands, ¬NamedOf length u) :
    TypedVector.resultNames? operands length = none := by
  have found :
      (operands.find? fun u => u.names?.isSome && decide (u.length = length)) = none := by
    rw [List.find?_eq_none]
    intro u inside
    simpa [NamedOf] using others u inside
  rw [TypedVector.resultNames?, found, Option.bind_none]

end Result

theorem applied_of_results {alignment : Recycling.Alignment} {cells : List Cell}
    (aligned : Recycling.align (operands.map (·.length)) = .ok alignment)
    (results : ((List.range alignment.length).mapM fun index =>
      f.result (arguments operands index)) = .ok cells) :
    f.Applied operands (.make f.kind (RadixArray.ofList cells)
      (TypedVector.resultNames? operands alignment.length)) alignment.warning?.toList := by
  have longest : alignment.length = commonLength operands := (Recycling.align_success aligned).1
  have silent := (Recycling.align_warning? aligned).1
  have size : (TypedVector.make f.kind (RadixArray.ofList cells)
      (TypedVector.resultNames? operands alignment.length)).length = alignment.length := by
    rw [TypedVector.length, TypedVector.make, RadixArray.size_ofList, length_of_mapM results,
      List.length_range]
  have entry : ∀ index < alignment.length, ∃ cell, cells[index]? = some cell ∧
      f.result (arguments operands index) = .ok cell :=
    fun index below => mapM_range_success results below
  generalize hw : TypedVector.make f.kind (RadixArray.ofList cells)
    (TypedVector.resultNames? operands alignment.length) = w at size
  have items : w.cells.toList = cells := by rw [← hw]; exact RadixArray.toList_ofList cells
  have names : w.names? = TypedVector.resultNames? operands w.length := by rw [size, ← hw]; rfl
  refine ⟨hw ▸ rfl, size.trans longest, ?_, ?_, ?_, ?_, ?_, ?_⟩
  · intro index below skips
    obtain ⟨cell, found, result⟩ := entry index (size ▸ below)
    rw [result_skipped skips] at result
    rw [items, found, Except.ok.inj result]
  · intro index below asked
    obtain ⟨cell, found, result⟩ := entry index (size ▸ below)
    rw [result_asked asked] at result
    split at result
    · rw [items, found, Except.ok.inj result]
    · cases result
  · intro before v after split others named
    rw [names, resultNames?_named split others named]
  · intro others
    rw [names, resultNames?_unnamed others]
  · intro divides
    rw [silent.2, Option.toList_none]
    intro n inside
    obtain ⟨v, member, rfl⟩ := List.mem_map.1 inside
    have whole := divides v member
    rwa [size, longest] at whole
  · intro before v after split others undivided
    rw [size, longest] at others undivided ⊢
    have lengths : operands.map (·.length) =
        before.map (·.length) ++ v.length :: after.map (·.length) := by
      rw [split, List.map_append, List.map_cons]
    refine congrArg Option.toList
      (Recycling.align_first aligned lengths (fun n inside => ?_) undivided)
    obtain ⟨u, member, rfl⟩ := List.mem_map.1 inside
    exact others u member

theorem apply_outcome (f : ElementFunction) (regular : ∀ v ∈ operands, v.Regular) :
    Outcome f operands (f.apply operands) := by
  rcases eq_or_ne operands [] with rfl | nonempty
  · exact .nothing rfl
  by_cases unfit : Unfit operands
  · obtain ⟨-, aligned⟩ | ⟨fit, -⟩ := Recycling.align_cases (operands.map (·.length))
    · have refused : f.apply operands = .error (.emptyOperand (operands.map (·.length))) := by
        unfold apply
        rw [if_neg (by simpa using nonempty), aligned]
        rfl
      rw [refused]
      exact .unfit nonempty unfit
    · exact absurd (unfit_iff.2 unfit) fit
  · obtain ⟨alignment, aligned, same⟩ := apply_eq (f := f) regular nonempty unfit
    have longest : alignment.length = commonLength operands := (Recycling.align_success aligned).1
    rw [same]
    cases results : (List.range alignment.length).mapM fun index =>
        f.result (arguments operands index) with
    | error error =>
      obtain ⟨before, index, after, split, stopped, done⟩ := mapM_stopped results
      obtain ⟨strays, rfl⟩ := strays_iff.1 stopped
      obtain ⟨inside, lesser⟩ := range_split split
      refine .stray nonempty unfit index ⟨longest ▸ inside, strays, fun earlier less other => ?_⟩
      obtain ⟨cell, result⟩ := done earlier (lesser earlier less)
      rw [strays_iff.2 ⟨other, rfl⟩] at result
      cases result
    | ok cells =>
      refine .applied nonempty unfit (fun index below other => ?_)
        (applied_of_results aligned results)
      obtain ⟨cell, -, result⟩ := mapM_range_success results (longest ▸ below)
      rw [strays_iff.2 ⟨other, rfl⟩] at result
      cases result

theorem StraysFirst.unique {other : Nat} (here : f.StraysFirst operands index)
    (there : f.StraysFirst operands other) : index = other := by
  rcases Nat.lt_trichotomy index other with less | same | more
  · exact absurd here.strays (there.first index less)
  · exact same
  · exact absurd there.strays (here.first other more)

/-- A cell of an operand is an argument for its own index. -/
theorem arguments_cover (regular : ∀ v ∈ operands, v.Regular) {k place : Nat} {v : TypedVector}
    (operand : operands[k]? = some v) (inside : place < v.length) :
    ∃ index < commonLength operands, index % v.length = place ∧
      (arguments operands index)[k]? = v.cells.toList[place]? := by
  have member := List.mem_of_getElem? operand
  have own := Nat.mod_eq_of_lt inside
  have bound : place < v.cells.toList.length := (regular v member).length_eq ▸ inside
  refine ⟨place, Nat.lt_of_lt_of_le inside (length_le_common member), own, ?_⟩
  rw [arguments, List.getElem?_map, operand, Option.map_some, cycledCell,
    ← (regular v member).length_eq, own, List.getElem?_eq_getElem bound, Option.getD_some]

/-- The application of a function to vectors, as far as it is determined by the function and the
cells: which operands it refuses and in what order, where it stops at a result, and what it
gives. -/
theorem apply_reference (f : ElementFunction) (regular : ∀ v ∈ operands, v.Regular) :
    (operands = [] → f.apply operands = .error .noOperands) ∧
      (operands ≠ [] →
        (f.apply operands = .error (.emptyOperand (operands.map (·.length))) ↔
          Unfit operands)) ∧
      (operands ≠ [] → ¬Unfit operands →
        ((∃ error, f.apply operands = .error error) ↔
            ∃ index < commonLength operands, f.Strays operands index) ∧
          (∀ error, f.apply operands = .error error ↔ ∃ index, f.StraysFirst operands index ∧
            error = .foreignResult (f.compute (arguments operands index)) f.kind) ∧
          ((∀ index < commonLength operands, ¬f.Strays operands index) →
            ∃ w warnings, f.apply operands = .ok (w, warnings) ∧
              f.Applied operands w warnings)) ∧
      ∀ (k : Nat) (v : TypedVector) (place : Nat), operands[k]? = some v → place < v.length →
        ∃ index < commonLength operands, index % v.length = place ∧
          (arguments operands index)[k]? = v.cells.toList[place]? := by
  have outcome := apply_outcome f regular
  generalize f.apply operands = result at outcome
  refine ⟨fun empty => ?_, fun nonempty => ?_,
    fun nonempty fit => ⟨?_, fun error => ?_, fun valid => ?_⟩,
    fun k v place => arguments_cover regular⟩
  · cases outcome with
    | nothing => rfl
    | unfit nonempty | stray nonempty | applied nonempty => exact absurd empty nonempty
  · cases outcome with
    | nothing empty => exact absurd empty nonempty
    | unfit _ unfit => exact iff_of_true rfl unfit
    | stray _ fit | applied _ fit => exact iff_of_false (fun same => by cases same) fit
  · cases outcome with
    | nothing empty => exact absurd empty nonempty
    | unfit _ unfit => exact absurd unfit fit
    | stray _ _ index first => exact iff_of_true ⟨_, rfl⟩ ⟨index, first.inside, first.strays⟩
    | applied _ _ valid =>
      refine iff_of_false (fun failed => ?_) fun strays => ?_
      · obtain ⟨_, same⟩ := failed
        cases same
      · obtain ⟨index, below, strays⟩ := strays
        exact valid index below strays
  · cases outcome with
    | nothing empty => exact absurd empty nonempty
    | unfit _ unfit => exact absurd unfit fit
    | stray _ _ index first =>
      constructor
      · rintro ⟨⟩
        exact ⟨index, first, rfl⟩
      · rintro ⟨other, there, rfl⟩
        rw [first.unique there]
    | applied _ _ valid =>
      refine iff_of_false (fun same => by cases same) fun strays => ?_
      obtain ⟨index, first, _⟩ := strays
      exact valid index first.inside first.strays
  · cases outcome with
    | nothing empty => exact absurd empty nonempty
    | unfit _ unfit => exact absurd unfit fit
    | stray _ _ index first => exact absurd first.strays (valid index first.inside)
    | applied _ _ _ applied => exact ⟨_, _, rfl, applied⟩

/-- Sums over vectors of two, three and four cells: the last names the result, and the warning is
about the three cells. -/
theorem apply_reference_unequal :
    let total : ElementFunction := ⟨.double, true, sum⟩
    let operands : List TypedVector :=
      [.make .integer (RadixArray.ofList [.number 1, .missing]) none,
        .make .logical (RadixArray.ofList [.truth true, .truth false, .truth true])
          (some (RadixArray.ofList ["p", "q", "r"])),
        .make .double (RadixArray.ofList [.number 10, .number 20, .number 30, .number 40])
          (some (RadixArray.ofList ["a", "b", "c", "d"]))]
    (∀ v ∈ operands, v.Regular) ∧ operands ≠ [] ∧ ¬Unfit operands ∧
      (∀ index < commonLength operands, ¬total.Strays operands index) ∧
      ∃ w, total.apply operands = .ok (w, [.recycledLength 4 3]) ∧
        total.Applied operands w [.recycledLength 4 3] := by
  intro total operands
  have regular : ∀ v ∈ operands, v.Regular := by
    intro v inside
    have named : ∀ {kind : Kind} {cells : List Cell} {names : List String},
        names.length = cells.length → (TypedVector.make kind (RadixArray.ofList cells)
          (some (RadixArray.ofList names))).Regular := by
      intro kind cells names same
      refine TypedVector.follows_make (fun _ _ => trivial) fun _ given => ?_
      cases given
      exact ⟨RadixArray.canonical_ofList _, (RadixArray.size_ofList _).trans same⟩
    simp only [operands, List.mem_cons, List.not_mem_nil, or_false] at inside
    rcases inside with rfl | rfl | rfl
    · exact TypedVector.follows_unnamed fun _ _ => trivial
    · exact named rfl
    · exact named rfl
  have nonempty : operands ≠ [] := List.cons_ne_nil _ _
  have fit : ¬Unfit operands := by
    rintro ⟨⟨v, inside, empty⟩, _⟩
    have full : ∀ v ∈ operands, v.length ≠ 0 := by decide
    exact full v inside empty
  have valid : ∀ index < commonLength operands, ¬total.Strays operands index := by
    decide +kernel
  have told : (total.apply operands).map Prod.snd = .ok [.recycledLength 4 3] := by
    decide +kernel
  obtain ⟨w, warnings, ok, applied⟩ :=
    ((apply_reference total regular).2.2.1 nonempty fit).2.2 valid
  rw [ok] at told
  cases Except.ok.inj told
  exact ⟨regular, nonempty, fit, valid, w, ok, applied⟩

end ElementFunction
end TypedVectors
