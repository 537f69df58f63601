import TypedVectors.Proofs.Selection.Assignment
import TypedVectors.Proofs.Selection.WriteTargets

/-!
Resolving a selector once more, in the vector that a write by it has made longer. The targets stay
where they are: exclusions and masks see no place that they did not see before, and the names that
the write has made stand where it wrote them.
-/
namespace TypedVectors

/-- What is resolved once the new names are made. -/
def Resolution.settled (resolution : Resolution) : Resolution := { resolution with grown := [] }

namespace Selection

/-- Targets below a length reach no further than that. -/
theorem IsHighest.le {targets : List Target} {highest length : Nat}
    (isHighest : IsHighest targets highest)
    (below : ∀ place, .place place ∈ targets → place < length) : highest ≤ length := by
  rcases isHighest.reached with zero | ⟨place, inside, same⟩
  · omega
  · have := below place inside
    omega

theorem lt_of_mem_remaining {length place : Nat} {positions : List Int}
    (inside : .place place ∈ remaining length positions) : place < length := by
  obtain ⟨index, member, found⟩ := List.mem_filterMap.1 inside
  split at found
  · cases found
  · cases found
    exact List.mem_range.1 member

/-- Only exclusions depend on the length, and those make no vector longer. -/
theorem resolvePositions_regrown {entries : List (Option Binary64)} {length : Nat}
    {access : Access} {result : Resolution}
    (ok : resolvePositions entries length access = .ok result)
    (allowed : result.highest ≤ lengthLimit) :
    resolvePositions entries (max length result.highest) access = .ok result := by
  have given := ok
  obtain ⟨positions, whole, ok⟩ := bind_success ok
  dsimp only at ok
  split at ok
  · cases ok
  · next unmixed =>
    split at ok
    · split at ok
      · cases ok
      · cases pure_success ok
        have short := (isHighest_allowed allowed).le fun place => lt_of_mem_remaining
        change resolvePositions entries (max length (highest _)) access = _
        rwa [Nat.max_eq_left short]
    · next single =>
      unfold resolvePositions
      rw [whole]
      change (if _ then _ else _) = _
      rw [if_neg unmixed, if_neg single]
      exact ok

end Selection

namespace Reference

theorem lt_of_mem_maskTargets {length place : Nat} {mask : List Cell}
    (inside : .place place ∈ maskTargets length mask) : place < max mask.length length := by
  obtain ⟨index, member, found⟩ := List.mem_filterMap.1 inside
  unfold maskTarget? at found
  split at found
  · cases found
  · cases found
  · cases found
    exact List.mem_range.1 member
  · cases found

theorem resolveMask_regrown {cells : List Cell} {length : Nat} {access : Access}
    {result : Resolution}
    (ok : Selection.resolveMask (cells.map truthOf?) length access = .ok result)
    (allowed : result.highest ≤ lengthLimit) :
    Selection.resolveMask (cells.map truthOf?) (max length result.highest) access = .ok result := by
  have read : Selection.resolveMask (cells.map truthOf?) length .read = .ok result := by
    cases access with
    | read => exact ok
    | write =>
      rw [resolveMask_write, refusingAbsent_eq_ok] at ok
      exact ok.1
  have same := read
  rw [resolveMask_read] at same
  cases same
  have short := (Selection.isHighest_allowed allowed).le fun place => lt_of_mem_maskTargets
  -- The mask is repeated over the same places as before.
  have reach : max cells.length (max length (Selection.highest (maskTargets length cells))) =
      max cells.length length := by omega
  have again : Selection.resolveMask (cells.map truthOf?)
      (max length (Selection.highest (maskTargets length cells))) .read =
        .ok (Selection.resolution (maskTargets length cells)) := by
    rw [resolveMask_read, maskTargets, reach, maskTargets]
  cases access with
  | read => exact again
  | write =>
    rw [resolveMask_write, refusingAbsent_eq_ok] at ok ⊢
    exact ⟨again, ok.2⟩

section Names

variable {v w : TypedVector} {wanted : List String}

theorem lookup_mapIdx (names : List String) (start rank : Nat) :
    (names.mapIdx fun rank name => (start + rank, name)).lookup (start + rank) = names[rank]? := by
  induction names generalizing start rank with
  | nil => rfl
  | cons first rest ih =>
    rw [List.mapIdx_cons, Nat.add_zero]
    cases rank with
    | zero => simp
    | succ rank =>
      have later := ih (start + 1) rank
      have shift : ∀ rank, start + 1 + rank = start + (rank + 1) := by omega
      simp only [shift] at later
      rw [List.lookup_cons, beq_eq_false_iff_ne.2 (by omega), later, List.getElem?_cons_succ]

theorem length_givenNames_le (regular : v.Regular) : v.givenNames.length ≤ v.length := by
  unfold TypedVector.givenNames
  cases named : v.names? with
  | none => exact Nat.zero_le _
  | some names =>
    obtain ⟨canonical, fit⟩ := regular.names names named
    rw [canonical.size_eq] at fit
    exact Nat.le_of_eq fit

theorem nameTarget_eq_place {names : List String} {name : String} {place : Nat} :
    nameTarget names (.text name) = .place place ↔ name ≠ "" ∧ names.idxOf? name = some place := by
  unfold nameTarget
  dsimp only
  split
  · next empty => simp [empty]
  · next named => cases names.idxOf? name <;> simp [named]

theorem nameTarget_eq_missing {names : List String} {name : String} (named : name ≠ "") :
    nameTarget names (.text name) = .missing ↔ name ∉ names := by
  rw [nameTarget, if_neg named, ← List.idxOf?_eq_none_iff]
  cases names.idxOf? name <;> simp

theorem nameTarget_append_left {names : List String} {name : String} {place : Nat}
    (found : nameTarget names (.text name) = .place place) (later : List String) :
    nameTarget (names ++ later) (.text name) = .place place := by
  rw [nameTarget_eq_place] at found ⊢
  rw [idxOf?_append, found.2, Option.some_or]
  exact ⟨found.1, rfl⟩

theorem nameTarget_append_right {names later : List String} {name : String} (named : name ≠ "")
    (unfound : name ∉ names) (inside : name ∈ later) :
    nameTarget (names ++ later) (.text name) = .place (names.length + later.idxOf name) := by
  obtain ⟨rank, found⟩ := Option.isSome_iff_exists.1 (List.isSome_idxOf?.2 inside)
  rw [nameTarget_eq_place, idxOf?_append, List.idxOf?_eq_none_iff.2 unfound, Option.none_or,
    List.idxOf_eq_getD_idxOf?, found, Nat.add_comm]
  exact ⟨named, rfl⟩

theorem lt_of_mem_writtenNames (regular : v.Regular) {place : Nat}
    (inside : .place place ∈ (writtenNames v wanted).targets) :
    place < v.length + (freshNames v.givenNames wanted).length := by
  obtain ⟨name, member, target⟩ := List.mem_map.1 inside
  unfold writtenTarget at target
  cases search : nameTarget v.givenNames (.text name) with
  | missing =>
    rw [search] at target
    cases target
    exact Nat.add_lt_add_left
      (List.idxOf_lt_length_iff.2 (mem_freshNames.2 ⟨member, search⟩)) v.length
  | place found =>
    rw [search] at target
    cases target
    obtain ⟨_, first⟩ := nameTarget_eq_place.1 search
    obtain ⟨old, _⟩ := List.idxOf?_eq_some_iff.1 first
    have given := length_givenNames_le regular
    omega

theorem fresh_mem_writtenNames {name : String} (fresh : name ∈ freshNames v.givenNames wanted) :
    .place (v.length + (freshNames v.givenNames wanted).idxOf name) ∈
      (writtenNames v wanted).targets := by
  obtain ⟨member, unfound⟩ := mem_freshNames.1 fresh
  refine List.mem_map.2 ⟨name, member, ?_⟩
  rw [writtenTarget, unfound]

/-- The vector grows by as many places as there are fresh names. -/
theorem highest_writtenNames (regular : v.Regular)
    (allowed : (writtenNames v wanted).highest ≤ lengthLimit) :
    (writtenNames v wanted).highest - v.length = (freshNames v.givenNames wanted).length := by
  have isHighest := Selection.isHighest_allowed allowed
  have upper : (writtenNames v wanted).highest ≤ _ :=
    isHighest.le fun place => lt_of_mem_writtenNames regular
  have lower : ∀ rank, rank < (freshNames v.givenNames wanted).length →
      v.length + rank + 1 ≤ (writtenNames v wanted).highest := by
    intro rank below
    have here := fresh_mem_writtenNames (List.getElem_mem below)
    rw [(nodup_freshNames _ _).idxOf_getElem rank below] at here
    exact isHighest.above _ here
  cases count : (freshNames v.givenNames wanted).length with
  | zero => omega
  | succ last =>
    have reached := lower last (by omega)
    omega

theorem namesAfter_writtenNames (regular : v.Regular)
    (allowed : (writtenNames v wanted).highest ≤ lengthLimit) :
    v.namesAfter (writtenNames v wanted) = v.nameList ++ freshNames v.givenNames wanted := by
  unfold TypedVector.namesAfter
  rw [highest_writtenNames regular allowed]
  congr 1
  refine List.ext_getElem (by simp) fun rank inside below => ?_
  rw [List.getElem_map, List.getElem_range, writtenNames, lookup_mapIdx,
    List.getElem?_eq_getElem below, Option.getD_some]

theorem nameList_of_found {name : String} {place : Nat}
    (search : nameTarget v.givenNames (.text name) = .place place) :
    v.nameList = v.givenNames := by
  unfold TypedVector.nameList TypedVector.givenNames
  cases old : v.names? with
  | none =>
    rw [TypedVector.givenNames, old] at search
    exact absurd (nameTarget_eq_place.1 search).2 (by simp)
  | some names => rfl

theorem not_mem_nameList {name : String} (present : name ≠ "") (absent : name ∉ v.givenNames) :
    name ∉ v.nameList := by
  unfold TypedVector.nameList
  unfold TypedVector.givenNames at absent
  cases old : v.names? with
  | none => exact fun here => present (List.eq_of_mem_replicate here)
  | some names => rwa [old] at absent

theorem nameTarget_regrown (regular : v.Regular) (named : "" ∉ wanted)
    (forWrite : (writtenNames v wanted).ForWrite v.length)
    (allowed : (writtenNames v wanted).highest ≤ lengthLimit)
    (grown : w.names? = v.grownNames? (writtenNames v wanted)) {name : String}
    (inside : name ∈ wanted) :
    nameTarget w.givenNames (.text name) =
      writtenTarget v.length v.givenNames (freshNames v.givenNames wanted) name := by
  have present : name ≠ "" := fun empty => named (empty ▸ inside)
  rw [regular.grownNames?_eq forWrite, namesAfter_writtenNames regular allowed] at grown
  unfold writtenTarget
  split at grown
  · -- No names before and none made: then there was no name to write to.
    next unnamed =>
    have fresh : freshNames v.givenNames wanted = [] := List.mapIdx_eq_nil_iff.1 unnamed.2
    have unnamed : v.givenNames = [] := by
      rw [TypedVector.givenNames, unnamed.1]
      rfl
    have unfound : nameTarget v.givenNames (.text name) = .missing := by
      rw [nameTarget_eq_missing present, unnamed]
      exact List.not_mem_nil
    have made := mem_freshNames.2 ⟨inside, unfound⟩
    rw [fresh] at made
    exact absurd made List.not_mem_nil
  · have names : w.givenNames = v.nameList ++ freshNames v.givenNames wanted := by
      rw [TypedVector.givenNames, grown, Option.map_some, RadixArray.toList_ofList,
        Option.getD_some]
    rw [names]
    cases search : nameTarget v.givenNames (.text name) with
    | place place =>
      rw [nameList_of_found search]
      exact nameTarget_append_left search _
    | missing =>
      have unfound := not_mem_nameList present ((nameTarget_eq_missing present).1 search)
      rw [nameTarget_append_right present unfound (mem_freshNames.2 ⟨inside, search⟩),
        TypedVector.length_nameList regular]

/-- Where all names are found, a write makes none. -/
theorem writtenNames_found
    (places : Selection.AllPlaces (wanted.map fun name => nameTarget v.givenNames (.text name))) :
    writtenNames v wanted =
      Selection.resolution (wanted.map fun name => nameTarget v.givenNames (.text name)) := by
  have found : ∀ name ∈ wanted, ∃ place, nameTarget v.givenNames (.text name) = .place place :=
    fun name inside => places _ (List.mem_map.2 ⟨name, inside, rfl⟩)
  have fresh : freshNames v.givenNames wanted = [] := by
    rw [List.eq_nil_iff_forall_not_mem]
    intro name made
    obtain ⟨inside, unfound⟩ := mem_freshNames.1 made
    obtain ⟨place, same⟩ := found name inside
    rw [unfound] at same
    cases same
  have targets : wanted.map (writtenTarget v.length v.givenNames []) =
      wanted.map fun name => nameTarget v.givenNames (.text name) := by
    refine List.map_congr_left fun name inside => ?_
    obtain ⟨place, same⟩ := found name inside
    rw [writtenTarget, same]
  unfold writtenNames
  rw [fresh]
  dsimp only
  rw [targets]
  rfl

end Names

/-- The length and the names that a write to a resolution leaves. -/
structure Grown (v : TypedVector) (resolution : Resolution) (w : TypedVector) : Prop where
  length : w.length = max v.length resolution.highest
  names : w.names? = v.grownNames? resolution
  current : w.IndexCurrent

theorem Reading.resolve_regrown {v w : TypedVector} {reading : Reading} {cells : List Cell}
    {resolution : Resolution} (regular : v.Regular) (current : v.IndexCurrent)
    (named : reading = names → .text "" ∉ cells)
    (resolved : reading.resolve v cells .write = .ok resolution)
    (allowed : resolution.highest ≤ lengthLimit) (grown : Grown v resolution w)
    (access : Access) : reading.resolve w cells access = .ok resolution.settled := by
  have forWrite := Selector.forWrite_resolve resolved
  by_cases unnamed : reading ≠ names
  · have settled : resolution.settled = resolution := by
      rw [resolve_plain unnamed resolved]
      rfl
    rw [settled]
    have again : reading.resolve w cells .write = .ok resolution := by
      cases reading with
      | positions =>
        change Selection.resolvePositions (cells.map numberOf?) w.length .write = _
        rw [grown.length]
        exact Selection.resolvePositions_regrown resolved allowed
      | mask =>
        change Selection.resolveMask (cells.map truthOf?) w.length .write = _
        rw [grown.length]
        exact resolveMask_regrown resolved allowed
      | names => exact absurd rfl unnamed
    cases access with
    | write => exact again
    | read =>
      rw [resolve_write unnamed, refusingAbsent_eq_ok] at again
      exact again.1
  · obtain rfl := not_not.1 unnamed
    rw [resolve_names_write current] at resolved
    split at resolved
    · cases resolved
    · next present =>
      cases resolved
      have texts := map_text_texts present
      have nonempty : "" ∉ cells.filterMap textOf? := by
        intro inside
        rw [← texts] at named
        exact named rfl (List.mem_map_of_mem inside)
      have read : (cells.filterMap textOf?).map (fun name => nameTarget w.givenNames (.text name)) =
          (writtenNames v (cells.filterMap textOf?)).targets :=
        List.map_congr_left fun name =>
          nameTarget_regrown regular nonempty forWrite allowed grown.names
      cases access with
      | write =>
        rw [resolve_names_write grown.current, if_neg present,
          writtenNames_found (read ▸ forWrite.places), read]
        rfl
      | read =>
        have searched := congrArg (List.map (nameTarget w.givenNames)) texts
        rw [List.map_map] at searched
        rw [resolve_names_read grown.current, ← searched]
        exact congrArg (fun targets => Except.ok (Selection.resolution targets)) read

end Reference
end TypedVectors
