import TypedVectors.Proofs.Selection.ReadTargets

/-!
Resolving to write beside resolving to read. A write refuses missing entries and addresses else what
a read does, but that every name the vector does not have gets a place of its own past the end.
-/
namespace TypedVectors

namespace Reference

/-- Whether an entry of a selector is missing, which is also what is not of the sort that the
selector is read as, and not-a-number. -/
def Reading.Absent (reading : Reading) (cell : Cell) : Prop :=
  Reading.ofCell? cell ≠ some reading ∨ cell = .number .nan

instance (reading : Reading) (cell : Cell) : Decidable (reading.Absent cell) :=
  inferInstanceAs (Decidable (_ ∨ _))

/-- The names among the entries of a selector, if it is one of names. -/
def wantedNames (spec : Operand) : List String :=
  if reading? spec = some .names then (entries spec).filterMap textOf? else []

/-- The different names that a search finds nothing for, in the order in which they come first. -/
def freshNames (names wanted : List String) : List String :=
  (wanted.filter fun name => nameTarget names (.text name) = .missing).eraseDups

/-- Where a name is written: where a search finds it, or else at its own place past the end. -/
def writtenTarget (length : Nat) (names fresh : List String) (name : String) : Target :=
  match nameTarget names (.text name) with
  | .missing => .place (length + fresh.idxOf name)
  | found => found

section Fresh

variable {names seen : List String} {name : String}

theorem freshNames_append (names seen later : List String) :
    freshNames names seen <+: freshNames names (seen ++ later) := by
  unfold freshNames
  rw [List.filter_append, List.eraseDups_append]
  exact List.prefix_append _ _

theorem freshNames_concat_found (found : nameTarget names (.text name) ≠ .missing) :
    freshNames names (seen ++ [name]) = freshNames names seen := by
  unfold freshNames
  rw [List.filter_append, List.filter_singleton, decide_eq_false found, cond_false,
    List.append_nil]

theorem mem_freshNames {wanted : List String} :
    name ∈ freshNames names wanted ↔
      name ∈ wanted ∧ nameTarget names (.text name) = .missing := by
  rw [freshNames, List.mem_eraseDups, List.mem_filter, decide_eq_true_iff]

theorem freshNames_concat_unfound (unfound : nameTarget names (.text name) = .missing) :
    freshNames names (seen ++ [name]) =
      if name ∈ seen then freshNames names seen else freshNames names seen ++ [name] := by
  unfold freshNames
  rw [List.filter_append, List.filter_singleton, decide_eq_true unfound, cond_true,
    List.eraseDups_append]
  by_cases again : name ∈ seen
  · simp [List.removeAll, again, unfound]
  · simp [List.removeAll, again, List.eraseDups_cons]

theorem nodup_freshNames (names wanted : List String) : (freshNames names wanted).Nodup := by
  induction wanted using List.reverseRecOn with
  | nil => exact List.nodup_nil
  | append_singleton seen name ih =>
    by_cases unfound : nameTarget names (.text name) = .missing
    · rw [freshNames_concat_unfound unfound]
      split
      · exact ih
      · next first =>
        rw [← List.concat_eq_append]
        exact ih.concat fun again => first (mem_freshNames.1 again).1
    · rwa [freshNames_concat_found unfound]

end Fresh

/-- The growth has given the fresh names their places, from the end of the vector on. -/
structure Made (growth : Selection.Growth) (length : Nat) (fresh : List String) : Prop where
  next : growth.next = length + fresh.length
  places : ∀ name, growth.places[name]? =
    if name ∈ fresh then some (length + fresh.idxOf name) else none
  grown : growth.reversed.reverse = fresh.mapIdx fun rank name => (length + rank, name)

section Names

variable {v : TypedVector} {growth : Selection.Growth} {length : Nat} {names seen : List String}
  {name : String}

theorem made_nil (length : Nat) : Made ⟨length, ∅, []⟩ length [] where
  next := rfl
  places := fun _ => Std.HashMap.getElem?_empty
  grown := rfl

/-- One more fresh name gets the next place, and one that has its place already keeps it. -/
theorem Made.place (made : Made growth length (freshNames names seen))
    (unfound : nameTarget names (.text name) = .missing) :
    (growth.place name).1 = length + (freshNames names (seen ++ [name])).idxOf name ∧
      Made (growth.place name).2 length (freshNames names (seen ++ [name])) := by
  have held := made.places name
  unfold Selection.Growth.place
  rw [freshNames_concat_unfound unfound]
  by_cases again : name ∈ seen
  · have known : name ∈ freshNames names seen := mem_freshNames.2 ⟨again, unfound⟩
    rw [if_pos known] at held
    rw [if_pos again, held]
    exact ⟨rfl, made⟩
  · have first : name ∉ freshNames names seen := fun known => again (mem_freshNames.1 known).1
    rw [if_neg first] at held
    rw [if_neg again, held]
    refine ⟨?_, ?_, ?_, ?_⟩
    · rw [List.idxOf_append_of_notMem first, List.idxOf_cons_self, Nat.add_zero]
      exact made.next
    · rw [List.length_append, List.length_singleton, ← Nat.add_assoc, ← made.next]
    · intro other
      rw [Std.HashMap.getElem?_insert, made.places, made.next]
      by_cases same : name = other
      · subst same
        simp [List.idxOf_append_of_notMem first]
      · by_cases known : other ∈ freshNames names seen
        · simp [same, known, List.idxOf_append_of_mem known]
        · simp [same, known, Ne.symm same]
    · rw [List.reverse_cons, made.grown, List.mapIdx_concat, made.next]

theorem writtenTarget_later (length : Nat) (names : List String) {seen : List String}
    (known : name ∈ seen) (later : List String) :
    writtenTarget length names (freshNames names (seen ++ later)) name =
      writtenTarget length names (freshNames names seen) name := by
  unfold writtenTarget
  cases unfound : nameTarget names (.text name) with
  | place place => rfl
  | missing =>
    have inside := mem_freshNames.2 ⟨known, unfound⟩
    rw [(freshNames_append names seen later).idxOf_eq_of_mem inside]

theorem nameTargets_written (current : v.IndexCurrent) {wanted : List String}
    (made : Made growth v.length (freshNames v.givenNames seen)) :
    ∃ after,
      Selection.nameTargets v .write (wanted.map some) growth =
        .ok (wanted.map (writtenTarget v.length v.givenNames
          (freshNames v.givenNames (seen ++ wanted))), after) ∧
      Made after v.length (freshNames v.givenNames (seen ++ wanted)) := by
  -- The names before are already seen, so that the growth is that of all names up to here.
  induction wanted generalizing seen growth with
  | nil =>
    rw [List.append_nil]
    exact ⟨growth, rfl, made⟩
  | cons name rest ih =>
    have here := writtenTarget_later v.length v.givenNames
      (List.mem_append_right seen (List.mem_singleton_self name)) rest
    have search := nameTarget_text current name
    rw [List.map_cons, List.map_cons, List.append_cons, here]
    unfold Selection.nameTargets
    cases found : v.placeOf? name with
    | some place =>
      rw [found] at search
      have matched : nameTarget v.givenNames (.text name) ≠ .missing := by
        rw [search]
        exact Target.noConfusion
      rw [← freshNames_concat_found matched] at made
      obtain ⟨after, done, grown⟩ := ih made
      refine ⟨after, ?_, grown⟩
      dsimp only
      rw [done, writtenTarget, search]
      rfl
    | none =>
      rw [found] at search
      obtain ⟨own, made⟩ := made.place search
      obtain ⟨after, done, grown⟩ := ih made
      refine ⟨after, ?_, grown⟩
      dsimp only
      rw [done, own, writtenTarget, search]
      rfl

end Names

/-- What a write resolves to, from what a read does: the same where no entry is missing. -/
def refusingAbsent (reading : Reading) (cells : List Cell) (read : Except Error Resolution) :
    Except Error Resolution :=
  read.bind fun resolution =>
    if ∃ cell ∈ cells, reading.Absent cell then .error .missingTarget else .ok resolution

theorem refusingAbsent_eq_ok {reading : Reading} {cells : List Cell}
    {read : Except Error Resolution} {write : Resolution} :
    refusingAbsent reading cells read = .ok write ↔
      read = .ok write ∧ ¬∃ cell ∈ cells, reading.Absent cell := by
  unfold refusingAbsent
  cases read with
  | error error => simp [Except.bind]
  | ok resolution =>
    rw [Except.bind]
    split
    · next absent => simp [absent]
    · next present => simp [present]

theorem ofCell_eq_missing {cell : Cell} :
    Position.ofCell cell = .missing ↔ Reading.positions.Absent cell := by
  cases cell with
  | missing | truth _ | text _ => exact iff_of_true rfl (.inl fun same => by cases same)
  | number x =>
    cases x with
    | nan => exact iff_of_true rfl (.inr rfl)
    | infinite _ | finite _ _ _ =>
      refine iff_of_false (fun same => by cases same) ?_
      rintro (other | notANumber)
      · exact other rfl
      · cases notANumber

theorem missing_mem {cells : List Cell} :
    .missing ∈ cells.map Position.ofCell ↔ ∃ cell ∈ cells, Reading.positions.Absent cell := by
  simp only [List.mem_map, ofCell_eq_missing]

theorem addressed_write {positions : List Position} (bounded : .infinite ∉ positions) :
    Selection.addressed .write (positions.map Position.whole?) =
      if .missing ∈ positions then .error .missingTarget
      else Selection.addressed .read (positions.map Position.whole?) := by
  rw [addressed_eq]
  unfold Selection.addressed
  split
  · next missing =>
    have absent : none ∈ positions.map Position.whole? :=
      List.mem_map_of_mem (f := Position.whole?) missing
    rw [mapM_eq_error absent]
    · rfl
    · rfl
    · intro entry _ cause failed
      cases entry with
      | none =>
        cases failed
        rfl
      | some p => cases failed
  · next present =>
    rw [mapM_eq_ok (f := computedTarget?)]
    · change Except.ok _ = Except.ok _
      rw [List.filterMap_map]
      rfl
    · intro entry inside
      obtain ⟨position, member, rfl⟩ := List.mem_map.1 inside
      cases position with
      | missing => exact absurd member present
      | infinite => exact absurd member bounded
      | whole p => rfl

theorem resolvePositions_write (cells : List Cell) (length : Nat) :
    Selection.resolvePositions (cells.map numberOf?) length .write =
      refusingAbsent .positions cells
        (Selection.resolvePositions (cells.map numberOf?) length .read) := by
  unfold Selection.resolvePositions refusingAbsent
  simp only [← missing_mem]
  by_cases infinite : .infinite ∈ cells.map Position.ofCell
  · obtain ⟨negative, failed⟩ := wholePositions_infinite infinite
    rw [failed]
    rfl
  · rw [wholePositions_bounded infinite]
    generalize cells.map Position.ofCell = positions at infinite
    have written := addressed_write infinite
    change (if _ then _ else _) = Except.bind (if _ then _ else _) _
    rw [any_missing infinite, written, addressed_eq]
    by_cases missing : .missing ∈ positions
    · simp only [missing, decide_true, if_true]
      cases (positions.map Position.whole?).any (·.any (· < 0)) with
      | false => rfl
      | true => cases (positions.map Position.whole?).any (·.any (0 < ·)) <;> rfl
    · simp only [missing, decide_false, if_false]
      cases (positions.map Position.whole?).any (·.any (· < 0)) with
      | false => rfl
      | true => cases (positions.map Position.whole?).any (·.any (0 < ·)) <;> rfl

theorem truthOf?_eq_none {cell : Cell} : truthOf? cell = none ↔ Reading.mask.Absent cell := by
  cases cell <;> simp [truthOf?, Reading.Absent, Reading.ofCell?]

theorem textOf?_eq_none {cell : Cell} : textOf? cell = none ↔ Reading.names.Absent cell := by
  cases cell <;> simp [textOf?, Reading.Absent, Reading.ofCell?]

theorem resolveMask_write (cells : List Cell) (length : Nat) :
    Selection.resolveMask (cells.map truthOf?) length .write =
      refusingAbsent .mask cells
        (Selection.resolveMask (cells.map truthOf?) length .read) := by
  rw [resolveMask_read]
  unfold Selection.resolveMask
  dsimp only
  split
  · next empty =>
    obtain rfl : cells = [] := by simpa using empty
    rw [maskTargets_nil]
    rfl
  · next given =>
    have entry := maskEntry_eq (by simpa using given : cells ≠ [])
    by_cases absent : ∃ cell ∈ cells, Reading.mask.Absent cell
    · simp only [refusingAbsent, Except.bind, if_pos absent]
      obtain ⟨cell, member, absent⟩ := absent
      obtain ⟨place, below, rfl⟩ := List.mem_iff_getElem.1 member
      have reached : place ∈ List.range (max (cells.map truthOf?).toArray.size length) := by
        rw [List.mem_range, List.size_toArray, List.length_map]
        exact Nat.lt_of_lt_of_le below (Nat.le_max_left _ _)
      rw [mapM_eq_error reached]
      · rfl
      · obtain ⟨inside, found⟩ := entry place
        simp only [Nat.mod_eq_of_lt below, truthOf?_eq_none.2 absent] at found
        rw [found]
        rfl
      · intro index _ cause failed
        obtain ⟨inside, found⟩ := entry index
        rw [found] at failed
        cases truth : truthOf? cells[index % cells.length] with
        | none =>
          rw [truth] at failed
          cases failed
          rfl
        | some value =>
          rw [truth] at failed
          cases value <;> cases failed
    · simp only [refusingAbsent, Except.bind, if_neg absent]
      rw [mapM_eq_ok (f := maskTarget? cells)]
      · change Except.ok (Selection.resolution _) = _
        rw [List.filterMap_map, Function.id_comp, List.size_toArray, List.length_map]
        rfl
      · intro index _
        obtain ⟨inside, found⟩ := entry index
        rw [found, maskTarget?, List.getElem?_eq_getElem inside]
        cases written : cells[index % cells.length] with
        | truth value => cases value <;> rfl
        | missing | number _ | text _ =>
          refine absurd ⟨_, List.getElem_mem inside, ?_⟩ absent
          rw [written, ← truthOf?_eq_none]
          rfl

theorem nameTargets_absent {v : TypedVector} {entries : List (Option String)}
    (absent : none ∈ entries) (growth : Selection.Growth) :
    Selection.nameTargets v .write entries growth = .error .missingTarget := by
  induction entries generalizing growth with
  | nil => cases absent
  | cons entry rest ih =>
    cases entry with
    | none => rfl
    | some name =>
      have later := (List.mem_cons.1 absent).resolve_left (Option.some_ne_none name).symm
      unfold Selection.nameTargets
      cases v.placeOf? name with
      | none | some place =>
        dsimp only
        rw [ih later]
        rfl

theorem map_text_texts {cells : List Cell}
    (present : ¬∃ cell ∈ cells, Reading.names.Absent cell) :
    (cells.filterMap textOf?).map .text = cells := by
  induction cells with
  | nil => rfl
  | cons cell rest ih =>
    have later := ih fun ⟨other, inside, absent⟩ =>
      present ⟨other, List.mem_cons_of_mem _ inside, absent⟩
    cases cell with
    | text name => exact congrArg (Cell.text name :: ·) later
    | missing | truth _ | number _ =>
      exact absurd ⟨_, List.mem_cons_self, textOf?_eq_none.1 rfl⟩ present

theorem resolveNames_read {v : TypedVector} (current : v.IndexCurrent) (cells : List Cell) :
    Selection.resolveNames v.indexed (cells.map textOf?) .read =
      .ok (Selection.resolution (cells.map (nameTarget v.givenNames))) := by
  unfold Selection.resolveNames
  rw [nameTargets_read current.indexed]
  rfl

/-- What a write to names resolves to. -/
def writtenNames (v : TypedVector) (wanted : List String) : Resolution :=
  let fresh := freshNames v.givenNames wanted
  let targets := wanted.map (writtenTarget v.length v.givenNames fresh)
  ⟨targets, Selection.highest targets, fresh.mapIdx fun rank name => (v.length + rank, name)⟩

theorem resolveNames_write {v : TypedVector} (current : v.IndexCurrent) (cells : List Cell) :
    Selection.resolveNames v.indexed (cells.map textOf?) .write =
      if ∃ cell ∈ cells, Reading.names.Absent cell then .error .missingTarget
      else .ok (writtenNames v (cells.filterMap textOf?)) := by
  unfold Selection.resolveNames
  split
  · next absent =>
    obtain ⟨cell, inside, absent⟩ := absent
    rw [nameTargets_absent (List.mem_map.2 ⟨cell, inside, textOf?_eq_none.2 absent⟩)]
    rfl
  · next present =>
    have texts := congrArg (List.map textOf?) (map_text_texts present)
    rw [List.map_map] at texts
    have none_made : Made ⟨v.indexed.length, ∅, []⟩ v.indexed.length
        (freshNames v.indexed.givenNames []) := made_nil _
    obtain ⟨after, done, made⟩ := nameTargets_written current.indexed none_made
    rw [← texts]
    change (Selection.nameTargets v.indexed .write ((cells.filterMap textOf?).map some) _ >>= _) = _
    rw [done]
    change Except.ok _ = Except.ok _
    rw [made.grown]
    rfl

end Reference

namespace Selection

theorem resolvePositions_plain {entries : List (Option Binary64)} {length : Nat} {access : Access}
    {result : Resolution} (ok : resolvePositions entries length access = .ok result) :
    result = resolution result.targets := by
  obtain ⟨positions, _, ok⟩ := bind_success ok
  dsimp only at ok
  split at ok
  · cases ok
  · split at ok
    · split at ok
      · cases ok
      · cases pure_success ok
        rfl
    · obtain ⟨targets, _, ok⟩ := bind_success ok
      cases pure_success ok
      rfl

theorem resolveMask_plain {cells : List Cell} {length : Nat} {access : Access}
    {result : Resolution}
    (ok : resolveMask (cells.map Reference.truthOf?) length access = .ok result) :
    result = resolution result.targets := by
  have read := Reference.resolveMask_read cells length
  cases access with
  | read =>
    rw [read] at ok
    cases ok
    rfl
  | write =>
    rw [Reference.resolveMask_write, read] at ok
    obtain ⟨resolved, same, ok⟩ := bind_success ok
    cases same
    split at ok
    · cases ok
    · cases ok
      rfl

end Selection

namespace Reference

/-- A read and a write of the same selector address the same places, but that a write addresses
places past the end where a read finds no such name. -/
structure WrittenAs (size : Nat) (wanted fresh : List String) (read write : Resolution) :
    Prop where
  count : write.targets.length = read.targets.length
  found : ∀ (entry : Nat) place, read.targets[entry]? = some (.place place) →
    write.targets[entry]? = some (.place place)
  made : ∀ entry : Nat, read.targets[entry]? = some .missing → ∃ name, wanted[entry]? = some name ∧
    name ∈ fresh ∧ write.targets[entry]? = some (.place (size + fresh.idxOf name))
  places : Selection.AllPlaces write.targets
  distinct : fresh.Nodup
  grown : write.grown = fresh.mapIdx fun rank name => (size + rank, name)
  ungrown : read.grown = []

theorem writtenAs_self {resolution : Resolution} (places : Selection.AllPlaces resolution.targets)
    (plain : resolution = Selection.resolution resolution.targets) (size : Nat) :
    WrittenAs size [] [] resolution resolution where
  count := rfl
  found := fun _ _ found => found
  made := by
    intro entry missing
    obtain ⟨place, same⟩ := places _ (List.mem_of_getElem? missing)
    cases same
  places := places
  distinct := List.nodup_nil
  grown := by
    rw [plain]
    rfl
  ungrown := by
    rw [plain]
    rfl

theorem writtenAs_names (v : TypedVector) (wanted : List String) :
    WrittenAs v.length wanted (freshNames v.givenNames wanted)
      (Selection.resolution (wanted.map fun name => nameTarget v.givenNames (.text name)))
      (writtenNames v wanted) where
  count := by simp [writtenNames, Selection.resolution]
  found := by
    intro entry place found
    obtain ⟨name, here, same⟩ := List.getElem?_map.symm.trans found |> Option.map_eq_some_iff.1
    rw [writtenNames, List.getElem?_map, here, Option.map_some, writtenTarget, same]
  made := by
    intro entry missing
    obtain ⟨name, here, unfound⟩ := List.getElem?_map.symm.trans missing |> Option.map_eq_some_iff.1
    refine ⟨name, here, mem_freshNames.2 ⟨List.mem_of_getElem? here, unfound⟩, ?_⟩
    rw [writtenNames, List.getElem?_map, here, Option.map_some, writtenTarget, unfound]
  places := by
    intro target inside
    obtain ⟨name, _, rfl⟩ := List.mem_map.1 inside
    unfold writtenTarget
    cases nameTarget v.givenNames (.text name) with
    | missing => exact ⟨_, rfl⟩
    | place place => exact ⟨place, rfl⟩
  distinct := nodup_freshNames _ _
  grown := rfl
  ungrown := rfl

/-- Whether a selector has a missing entry. -/
def HoldsAbsent (spec : Operand) : Prop :=
  ∃ reading, reading? spec = some reading ∧ ∃ cell ∈ entries spec, reading.Absent cell

/-- What the selector of some cells resolves to when they are read in a given way. -/
def Reading.resolve (reading : Reading) (v : TypedVector) (cells : List Cell) (access : Access) :
    Except Error Resolution :=
  (reading.selector cells).resolve v access

namespace Reading

variable {v : TypedVector} {reading : Reading} {cells : List Cell} {read write : Resolution}

theorem resolve_names_read (current : v.IndexCurrent) :
    names.resolve v cells .read =
      .ok (Selection.resolution (cells.map (nameTarget v.givenNames))) :=
  resolveNames_read current cells

theorem resolve_names_write (current : v.IndexCurrent) :
    names.resolve v cells .write =
      if ∃ cell ∈ cells, names.Absent cell then .error .missingTarget
      else .ok (writtenNames v (cells.filterMap textOf?)) :=
  resolveNames_write current cells

theorem resolve_write (unnamed : reading ≠ names) :
    reading.resolve v cells .write =
      refusingAbsent reading cells (reading.resolve v cells .read) := by
  cases reading with
  | positions => exact resolvePositions_write cells v.length
  | mask => exact resolveMask_write cells v.length
  | names => exact absurd rfl unnamed

theorem resolve_plain (unnamed : reading ≠ names) {access : Access} {result : Resolution}
    (ok : reading.resolve v cells access = .ok result) :
    result = Selection.resolution result.targets := by
  cases reading with
  | positions => exact Selection.resolvePositions_plain ok
  | mask => exact Selection.resolveMask_plain ok
  | names => exact absurd rfl unnamed

theorem resolve_highest (current : v.IndexCurrent) {access : Access} {result : Resolution}
    (ok : reading.resolve v cells access = .ok result) :
    result.highest = Selection.highest result.targets := by
  by_cases named : reading = names
  · subst named
    cases access with
    | read =>
      rw [resolve_names_read current] at ok
      cases ok
      rfl
    | write =>
      rw [resolve_names_write current] at ok
      split at ok
      · cases ok
      · cases ok
        rfl
  · rw [resolve_plain named ok]
    rfl

theorem exists_resolve_write (current : v.IndexCurrent) :
    (∃ write, reading.resolve v cells .write = .ok write) ↔
      (∃ read, reading.resolve v cells .read = .ok read) ∧
        ¬∃ cell ∈ cells, reading.Absent cell := by
  by_cases named : reading = names
  · subst named
    rw [resolve_names_read current, resolve_names_write current]
    split
    · next absent => simp [absent]
    · next present => simp [present]
  · rw [resolve_write named]
    simp only [refusingAbsent_eq_ok, exists_and_right]

/-- The names that are wanted from some cells. -/
def wanted (reading : Reading) (cells : List Cell) : List String :=
  if reading = names then cells.filterMap textOf? else []

theorem writtenAs (current : v.IndexCurrent) (ok : reading.resolve v cells .read = .ok read)
    (done : reading.resolve v cells .write = .ok write) :
    WrittenAs v.length (reading.wanted cells) (freshNames v.givenNames (reading.wanted cells))
      read write := by
  by_cases named : reading = names
  · subst named
    rw [resolve_names_read current] at ok
    rw [resolve_names_write current] at done
    split at done
    · cases done
    · next present =>
      cases ok
      cases done
      have searched := congrArg (List.map (nameTarget v.givenNames)) (map_text_texts present)
      rw [List.map_map] at searched
      rw [← searched, wanted, if_pos rfl]
      exact writtenAs_names v _
  · have places := (Selector.forWrite_resolve done).places
    rw [resolve_write named, refusingAbsent_eq_ok, ok] at done
    cases done.1
    rw [wanted, if_neg named]
    exact writtenAs_self places (resolve_plain named ok) v.length

end Reading

end Reference

namespace TypedVector

open Reference

/-- The resolution of an operand that is taken as a selector. -/
def resolveBy (v : TypedVector) (spec : Operand) (access : Access) : Except Error Resolution := do
  (← Selector.ofOperand spec).resolve v access

theorem resolveBy_eq {v : TypedVector} {spec : Operand} (access : Access) :
    v.resolveBy spec access =
      match reading? spec with
      | some reading => reading.resolve v (entries spec) access
      | none => .error .mixedSelector := by
  unfold resolveBy
  rw [ofOperand_eq]
  cases reading? spec with
  | none => rfl
  | some reading => rfl

theorem extractBy_eq {v : TypedVector} (regular : v.Regular) (spec : Operand) :
    v.extractBy spec = (v.resolveBy spec .read).map fun read => v.extracted read.targets := by
  unfold extractBy resolveBy
  cases Selector.ofOperand spec with
  | error error => rfl
  | ok selector => exact regular.extract_eq selector

/-- A write succeeds exactly where a read does and no entry is missing. Both then address the same
places in the same order, only that a name which the vector does not have is written past its end,
at the rank it has among such names. -/
theorem resolveBy_write_read {v : TypedVector} (current : v.IndexCurrent) (spec : Operand) :
    ((∃ write, v.resolveBy spec .write = .ok write) ↔
        (∃ read, v.resolveBy spec .read = .ok read) ∧ ¬HoldsAbsent spec) ∧
      (∀ read write, v.resolveBy spec .read = .ok read → v.resolveBy spec .write = .ok write →
        WrittenAs v.length (wantedNames spec) (freshNames v.givenNames (wantedNames spec))
          read write) ∧
      ∀ access resolution, v.resolveBy spec access = .ok resolution →
        (∀ place, .place place ∈ resolution.targets → place < twoTo 53) →
        Selection.IsHighest resolution.targets resolution.highest := by
  simp only [resolveBy_eq]
  unfold HoldsAbsent wantedNames
  cases reading? spec with
  | none => simp
  | some reading =>
    dsimp only
    refine ⟨?_, fun read write ok done => ?_, fun access resolution ok small => ?_⟩
    · rw [Reading.exists_resolve_write current]
      simp
    · have writes := reading.writtenAs current ok done
      unfold Reading.wanted at writes
      simpa using writes
    · rw [reading.resolve_highest current ok]
      exact Selection.isHighest_exact small

/-- Of four names one is there, one is the empty name and the other two are the same new one. -/
theorem resolveBy_write_read_fresh :
    let v := make .double (RadixArray.ofList [.number 1, .number 2])
      (some (RadixArray.ofList ["a", ""]))
    let spec : Operand := .cells [.text "x", .text "a", .text "", .text "x"]
    let read : Resolution := ⟨[.missing, .place 0, .missing, .missing], 1, []⟩
    v.IndexCurrent ∧ v.resolveBy spec .read = .ok read ∧ ¬HoldsAbsent spec ∧
      ∃ write, v.resolveBy spec .write = .ok write ∧
        WrittenAs 2 ["x", "a", "", "x"] ["x", ""] read write := by
  intro v spec read
  have current : v.IndexCurrent := indexCurrent_make
  have found : v.resolveBy spec .read = .ok read := by decide +kernel
  have present : ¬HoldsAbsent spec := by
    rintro ⟨reading, same, absent⟩
    cases same
    exact absurd absent (by decide)
  obtain ⟨succeeds, writtenAs, _⟩ := resolveBy_write_read current spec
  obtain ⟨write, done⟩ := succeeds.2 ⟨⟨read, found⟩, present⟩
  have fresh : freshNames v.givenNames (wantedNames spec) = ["x", ""] := by decide +kernel
  have wanted : wantedNames spec = ["x", "a", "", "x"] := by decide +kernel
  have writes := writtenAs read write found done
  rw [fresh, wanted] at writes
  exact ⟨current, found, present, write, done, writes⟩

end TypedVector
end TypedVectors
