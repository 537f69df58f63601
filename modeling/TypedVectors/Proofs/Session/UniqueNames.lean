import TypedVectors.Proofs.Selection.Lens
import TypedVectors.Proofs.Session.Warnings

/-!
Names over many assignments. A write puts names behind those that are there: the fresh ones that it
was given, each once, or empty ones. So no name is lost, none comes twice that did not before, and
every name that was written to is found from then on.
-/
namespace TypedVectors

namespace TypedVector

open Reference

variable {u v w value : TypedVector} {spec : Operand} {resolution : Resolution}
  {warning? : Option Warning}

/-- Whether no name but the empty one comes twice. -/
def NamesDistinct (v : TypedVector) : Prop := (v.nameList.filter (· ≠ "")).Nodup

/-- The names of a vector come first among those of another one, which has no more names twice. -/
structure NamesExtend (v w : TypedVector) : Prop where
  kept : v.nameList <+: w.nameList
  distinct : v.NamesDistinct → w.NamesDistinct

namespace NamesExtend

theorem of_eq (same : w.nameList = v.nameList) : v.NamesExtend w := by
  refine ⟨same ▸ List.prefix_refl _, fun distinct => ?_⟩
  unfold NamesDistinct
  rwa [same]

theorem trans (first : u.NamesExtend v) (second : v.NamesExtend w) : u.NamesExtend w :=
  ⟨first.kept.trans second.kept, second.distinct ∘ first.distinct⟩

theorem of_append {added : List String} (names : w.nameList = v.nameList ++ added)
    (once : (added.filter (· ≠ "")).Nodup) (fresh : ∀ name ∈ added, name ≠ "" → name ∉ v.nameList) :
    v.NamesExtend w := by
  refine ⟨names ▸ List.prefix_append _ _, fun distinct => ?_⟩
  unfold NamesDistinct
  rw [names, List.filter_append]
  refine List.nodup_append.2 ⟨distinct, once, ?_⟩
  rintro name old _ new rfl
  obtain ⟨inside, named⟩ := List.mem_filter.1 new
  exact fresh name inside (by simpa using named) (List.mem_of_mem_filter old)

end NamesExtend

theorem SameState.nameList_eq (same : v.SameState w) : w.nameList = v.nameList := by
  unfold nameList
  rw [same.names, same.length_eq]

theorem givenNames_of_mem {name : String} (inside : name ∈ v.nameList) (named : name ≠ "") :
    v.givenNames = v.nameList := by
  unfold nameList at inside ⊢
  unfold givenNames
  cases names : v.names? with
  | some names => rfl
  | none =>
    rw [names] at inside
    exact absurd (List.eq_of_mem_replicate inside) named

theorem IndexCurrent.finds_of_mem (current : v.IndexCurrent) {name : String}
    (inside : name ∈ v.nameList) (named : name ≠ "") :
    ∃ place, v.placeOf? name = some place ∧ v.nameList[place]? = some name := by
  have given := givenNames_of_mem inside named
  rw [← given] at inside ⊢
  obtain ⟨place, first⟩ := Option.isSome_iff_exists.1 (List.isSome_idxOf?.2 inside)
  obtain ⟨below, here, _⟩ := List.idxOf?_eq_some_iff.1 first
  rw [current.placeOf?_eq, if_neg named]
  exact ⟨place, first, List.getElem?_eq_some_iff.2 ⟨below, by simpa using here⟩⟩

theorem namesAfter_ungrown (ungrown : resolution.grown = []) :
    v.namesAfter resolution =
      v.nameList ++ List.replicate (resolution.highest - v.length) "" := by
  unfold namesAfter
  rw [ungrown]
  simp

theorem Put.nameList_eq (regular : v.Regular) (put : v.Put value resolution w warning?)
    (forWrite : resolution.ForWrite v.length) : w.nameList = v.namesAfter resolution := by
  have names := put.names
  rw [regular.grownNames?_eq forWrite] at names
  unfold nameList
  split at names
  · next unnamed =>
    rw [names, namesAfter_ungrown unnamed.2, nameList, unnamed.1, put.written.length]
    change List.replicate _ "" = List.replicate _ "" ++ List.replicate _ ""
    rw [List.replicate_append_replicate]
    congr 1
    omega
  · rw [names, Option.map_some, RadixArray.toList_ofList, Option.getD_some]

theorem mem_names_of_wanted {wanted : List String} {name : String} (inside : name ∈ wanted) :
    name ∈ v.nameList ++ freshNames v.givenNames wanted := by
  cases search : nameTarget v.givenNames (.text name) with
  | missing => exact List.mem_append_right _ (mem_freshNames.2 ⟨inside, search⟩)
  | place place =>
    rw [nameList_of_found search]
    have found := (nameTarget_eq_place.1 search).2
    exact List.mem_append_left _ (List.isSome_idxOf?.1 (Option.isSome_iff_exists.2 ⟨place, found⟩))

theorem namesExtend_fresh {wanted : List String}
    (names : w.nameList = v.nameList ++ freshNames v.givenNames wanted) : v.NamesExtend w := by
  refine .of_append names ((nodup_freshNames _ _).filter _) fun name fresh named => ?_
  have unfound := (mem_freshNames.1 fresh).2
  exact not_mem_nameList named ((nameTarget_eq_missing named).1 unfound)

/-- After an assignment, the names are those before and the names that it was given. -/
theorem assignBy_namesExtend (regular : v.Regular) (valueRegular : value.Regular)
    (current : v.IndexCurrent) (ok : v.assignBy spec value = .ok (w, warning?)) :
    v.NamesExtend w ∧ ∀ name ∈ wantedNames spec, name ∈ w.nameList := by
  obtain ⟨resolution, resolved, put⟩ := assignBy_put regular valueRegular ok
  rw [resolveBy_eq] at resolved
  unfold wantedNames
  cases read : reading? spec with
  | none =>
    rw [read] at resolved
    cases resolved
  | some reading =>
    rw [read] at resolved
    dsimp only at resolved
    have forWrite := Selector.forWrite_resolve resolved
    by_cases named : reading = .names
    · subst named
      rw [if_pos rfl]
      rw [Reading.resolve_names_write current] at resolved
      split at resolved
      · cases resolved
      · cases resolved
        rcases put with ⟨untargeted, rfl, _⟩ | put
        · rw [List.map_eq_nil_iff.1 untargeted]
          exact ⟨.of_eq rfl, fun name inside => (List.not_mem_nil inside).elim⟩
        · have names := put.nameList_eq regular forWrite
          rw [namesAfter_writtenNames regular put.allowed] at names
          refine ⟨namesExtend_fresh names, fun name inside => ?_⟩
          rw [names]
          exact mem_names_of_wanted inside
    -- A write by places or by a mask makes no names, so that it only adds empty ones.
    · rw [if_neg (fun same => named (Option.some.inj same))]
      refine ⟨?_, fun name inside => (List.not_mem_nil inside).elim⟩
      rcases put with ⟨_, rfl, _⟩ | put
      · exact .of_eq rfl
      · have names := put.nameList_eq regular forWrite
        rw [namesAfter_ungrown (by rw [Reading.resolve_plain named resolved]; rfl)] at names
        refine .of_append names ?_ fun name empty present => ?_
        · rw [List.filter_replicate]
          exact List.nodup_nil
        · exact absurd (List.eq_of_mem_replicate empty) present

end TypedVector

theorem Operand.SameState.wantedNames_eq {here there : Operand} (same : here.SameState there) :
    Reference.wantedNames there = Reference.wantedNames here := by
  cases same with
  | vector same =>
    unfold Reference.wantedNames
    rw [Reference.reading?, Reference.entries, same.kind, same.cells]
    rfl
  | scalar cell | cells items => rfl

/-- Whether a command was done, also where its warning was thrown afterwards. -/
def Reply.Accepted (reply : Reply) : Prop :=
  FailsOnly (fun cause => ∃ warning, cause = .thrown warning) reply

namespace Session

variable {session : Session} {name : String} {v : TypedVector} {command : Command}

theorem Reachable.indexCurrent (reachable : session.Reachable) :
    session.Holds TypedVector.IndexCurrent := by
  induction reachable with
  | initial => exact holds_initial _
  | step _ name? command ih =>
    exact (ih.runInto kept_indexCurrent command.admits_indexCurrent name?).1

theorem read_of_vectors {here there : Session} (same : here.vectors = there.vectors)
    (source : Source) : here.read source = there.read source := by
  unfold read
  rw [same]

theorem agreeAt_committed (session : Session) (other : ∀ selector value handler?,
      command ≠ .assign (.variable name) selector value handler?) :
    session.AgreeAt (session.committed command) name := by
  have searched := session.agreeAt_searched command name
  unfold committed
  cases command with
  | assign source selector value handler? =>
    dsimp only
    cases (session.searched _).assignment source selector value with
    | error failure => exact searched
    | ok written =>
      rcases source with stored | ⟨kind, cells, names?⟩
      · have different : name ≠ stored := by
          rintro rfl
          exact other selector value handler? rfl
        unfold AgreeAt update at *
        rwa [lookup_store_other _ written.1 different]
      · exact searched
  | _ => exact searched

/-- An assignment to a variable only adds names to the vector in it, and those that it was given are
there once it is done. -/
theorem assign_namesExtend (reachable : session.Reachable)
    (found : session.read (.variable name) = .ok v) (selector value : OperandSource)
    (handler? : Option CallHandler) :
    ∃ w, (session.run (.assign (.variable name) selector value handler?)).1.read (.variable name) =
        .ok w ∧ v.NamesExtend w ∧
      ((session.run (.assign (.variable name) selector value handler?)).2.Accepted →
        ∀ spec, session.operand selector = .ok spec →
          ∀ text ∈ Reference.wantedNames spec, text ∈ w.nameList) := by
  have agree := session.agreeAt_assigning (.variable name) selector value
  have regular := reachable.regular.searched kept_regular
    (.assign (.variable name) selector value none)
  have current := reachable.indexCurrent.searched kept_indexCurrent
    (.assign (.variable name) selector value none)
  obtain ⟨v', found', same⟩ := (agree name).read found
  rw [run_assign_eq]
  cases assigned : (session.assigning (.variable name) selector value).assignment (.variable name)
      selector value with
  | error failure =>
    refine ⟨v', found', .of_eq same.nameList_eq, fun accepted => ?_⟩
    obtain ⟨warning, rfl⟩ := accepted failure rfl
    exact (expected_assignment regular _ selector value _ assigned).elim
  | ok written =>
    obtain ⟨w, warning?⟩ := written
    obtain ⟨_, spec', given, read, specFound', givenFound, assigned⟩ := assignment_success assigned
    cases found'.symm.trans read
    obtain ⟨extended, wanted⟩ := TypedVector.assignBy_namesExtend (regular.read kept_regular found')
      (regular.regularVector givenFound) (current.read kept_indexCurrent found') assigned
    refine ⟨w, ?_, .trans (.of_eq same.nameList_eq) extended, fun _ spec specFound => ?_⟩
    · exact (commits_update agree (.variable name) w).here name rfl
    · obtain ⟨_, specFound'', sameSpec⟩ := operand_agree agree specFound
      cases specFound'.symm.trans specFound''
      rwa [← sameSpec.wantedNames_eq]

theorem run_namesExtend (reachable : session.Reachable)
    (found : session.read (.variable name) = .ok v) (command : Command) :
    ∃ w, (session.run command).1.read (.variable name) = .ok w ∧ v.NamesExtend w := by
  by_cases assigns : ∃ selector value handler?,
      command = .assign (.variable name) selector value handler?
  · obtain ⟨selector, value, handler?, rfl⟩ := assigns
    obtain ⟨w, read, extended, _⟩ := assign_namesExtend reachable found selector value handler?
    exact ⟨w, read, extended⟩
  · obtain ⟨w, read, same⟩ := (session.agreeAt_committed fun selector value handler? is =>
      assigns ⟨selector, value, handler?, is⟩).read found
    rw [read_of_vectors (session.run_vectors command)]
    exact ⟨w, read, .of_eq same.nameList_eq⟩

theorem runInto_read (session : Session) {name? : Option String} (other : name? ≠ some name)
    (command : Command) :
    (session.runInto name? command).1.read (.variable name) =
      (session.run command).1.read (.variable name) := by
  unfold runInto
  dsimp only
  split
  · next stored v _ _ =>
    unfold read
    dsimp only
    rw [lookup_store_other _ v fun same => other (congrArg some same.symm)]
  · rfl

/-- Whatever a program does, the vector in a variable keeps its names unless another one is kept
under that name. -/
theorem after_namesExtend (reachable : session.Reachable)
    (found : session.read (.variable name) = .ok v) {program : List (Option String × Command)}
    (others : ∀ step ∈ program, step.1 ≠ some name) :
    ∃ w, (session.after program).read (.variable name) = .ok w ∧ v.NamesExtend w := by
  induction program generalizing session v with
  | nil => exact ⟨v, found, .of_eq rfl⟩
  | cons step rest ih =>
    obtain ⟨name?, command⟩ := step
    obtain ⟨other, later⟩ := List.forall_mem_cons.1 others
    obtain ⟨u, read, first⟩ := run_namesExtend reachable found command
    rw [← runInto_read session other] at read
    obtain ⟨w, last, extended⟩ := ih (.step reachable name? command) read later
    exact ⟨w, last, first.trans extended⟩

/-- However often the vector in a variable is written, its names are distinct at any time and stay
where they are, and every name that was written to is found from then on. -/
theorem names_distinct_after (reachable : session.Reachable)
    (found : session.read (.variable name) = .ok v) (distinct : v.NamesDistinct)
    {earlier later : List (Option String × Command)}
    (others : ∀ step ∈ earlier ++ later, step.1 ≠ some name) :
    ∃ u w, (session.after earlier).read (.variable name) = .ok u ∧
      (session.after (earlier ++ later)).read (.variable name) = .ok w ∧
      u.NamesDistinct ∧ w.NamesDistinct ∧ u.nameList <+: w.nameList ∧
      ∀ name? selector value handler? rest spec,
        later = (name?, .assign (.variable name) selector value handler?) :: rest →
        ((session.after earlier).run
          (.assign (.variable name) selector value handler?)).2.Accepted →
        (session.after earlier).operand selector = .ok spec →
        ∀ text ∈ Reference.wantedNames spec, text ≠ "" →
          ∃ place, w.placeOf? text = some place ∧ w.nameList[place]? = some text := by
  obtain ⟨before, behind⟩ := List.forall_mem_append.1 others
  have midway := reachable.after earlier
  obtain ⟨u, read, first⟩ := after_namesExtend reachable found before
  obtain ⟨w, last, second⟩ := after_namesExtend midway read behind
  have current := (midway.after later).indexCurrent.read kept_indexCurrent last
  refine ⟨u, w, read, after_append session earlier later ▸ last, first.distinct distinct,
    second.distinct (first.distinct distinct), second.kept, ?_⟩
  rintro name? selector value handler? rest spec rfl accepted specFound text wanted named
  obtain ⟨other, remaining⟩ := List.forall_mem_cons.1 behind
  obtain ⟨x, written, _, given⟩ := assign_namesExtend midway read selector value handler?
  rw [← runInto_read _ other] at written
  obtain ⟨w', last', third⟩ := after_namesExtend (.step midway name? _) written remaining
  cases last.symm.trans last'
  exact current.finds_of_mem (third.kept.subset (given accepted spec specFound text wanted)) named

/-- A vector without names gets a name twice, whereupon its warning is thrown, and then refuses a
missing name. -/
theorem names_distinct_after_thrown :
    let session := (initial.runInto (some "v")
      (.build (.literal .logical [.truth true, .missing] none))).1
    let value := OperandSource.cells [.missing, .missing]
    let write := fun selector =>
      Command.assign (.variable "v") (.cells selector) value (some .throwing)
    let later :=
      [(none, write [.text "a", .text "", .text "a"]), (none, write [.text "b", .missing])]
    session.Reachable ∧ ∃ w, (session.after later).read (.variable "v") = .ok w ∧
      w.NamesDistinct ∧ ∃ place, w.placeOf? "a" = some place ∧ w.nameList[place]? = some "a" := by
  intro session value write later
  let v := TypedVector.make .logical (RadixArray.ofList [.truth true, .missing]) none
  let spec := Operand.cells [.text "a", .text "", .text "a"]
  have reachable : session.Reachable := .step .initial _ _
  have others : ∀ step ∈ [] ++ later, step.1 ≠ some "v" := by decide +kernel
  have found : session.read (.variable "v") = .ok v := rfl
  have distinct : v.NamesDistinct := List.nodup_nil
  obtain ⟨u, w, _, last, _, once, _, finds⟩ := names_distinct_after reachable found distinct others
  have resolved : spec.resolution v = .ok (Reference.writtenNames v ["a", "", "a"]) := by
    change v.resolveBy spec .write = _
    rw [TypedVector.resolveBy_eq]
    change Reference.Reading.names.resolve v _ .write = _
    rw [Reference.Reading.resolve_names_write TypedVector.indexCurrent_make, if_neg (by decide)]
    rfl
  have thrown : (session.run (write [.text "a", .text "", .text "a"])).2 =
      .error (.thrown (.recycledLength 3 2)) :=
    run_assign_thrown reachable found rfl rfl resolved (by decide +kernel) (by decide +kernel)
  have accepted : (session.run (write [.text "a", .text "", .text "a"])).2.Accepted := by
    rw [thrown]
    exact .error ⟨_, rfl⟩
  have search := finds none _ _ _ _ spec rfl accepted rfl "a" (by decide) (by decide)
  exact ⟨reachable, w, last, once, search⟩

end Session
end TypedVectors
