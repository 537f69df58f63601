import TypedVectors.Proofs.Selection.Regrowth
import TypedVectors.Proofs.Session.Assignment
import TypedVectors.Proofs.Session.Names

/-!
Extraction and assignment by the same selector as a lens. What was written is read back, what was
read is written back without a change, and a second write at the same places replaces the first.
-/
namespace TypedVectors

namespace Reference

variable {v : TypedVector} {reading : Reading} {cells : List Cell} {read : Resolution}

theorem missing_mem_positions {length : Nat}
    (ok : Selection.resolvePositions (cells.map numberOf?) length .read = .ok read)
    (absent : ∃ cell ∈ cells, Reading.positions.Absent cell) : .missing ∈ read.targets := by
  rw [← missing_mem] at absent
  unfold Selection.resolvePositions at ok
  by_cases infinite : .infinite ∈ cells.map Position.ofCell
  · obtain ⟨negative, failed⟩ := wholePositions_infinite infinite
    rw [failed] at ok
    cases ok
  · rw [wholePositions_bounded infinite] at ok
    obtain ⟨positions, whole, ok⟩ := bind_success ok
    cases whole
    dsimp only at ok
    rw [any_missing infinite, addressed_eq] at ok
    split at ok
    · cases ok
    · split at ok
      · rw [if_pos (decide_eq_true absent)] at ok
        cases ok
      · cases ok
        exact List.mem_filterMap.2 ⟨none, List.mem_map_of_mem (f := Position.whole?) absent, rfl⟩

theorem missing_mem_mask {length : Nat} (absent : ∃ cell ∈ cells, Reading.mask.Absent cell) :
    .missing ∈ maskTargets length cells := by
  obtain ⟨cell, inside, absent⟩ := absent
  obtain ⟨place, below, rfl⟩ := List.mem_iff_getElem.1 inside
  refine List.mem_filterMap.2 ⟨place, List.mem_range.2 (by omega), ?_⟩
  rw [maskTarget?, Nat.mod_eq_of_lt below, List.getElem?_eq_getElem below]
  rw [← truthOf?_eq_none] at absent
  cases kind : cells[place] with
  | truth value =>
    rw [kind] at absent
    cases absent
  | missing | number _ | text _ => rfl

theorem missing_mem_names {names : List String}
    (absent : ∃ cell ∈ cells, Reading.names.Absent cell) :
    .missing ∈ cells.map (nameTarget names) := by
  obtain ⟨cell, inside, absent⟩ := absent
  refine List.mem_map.2 ⟨cell, inside, ?_⟩
  rw [← textOf?_eq_none] at absent
  cases cell with
  | text name => cases absent
  | missing | truth _ | number _ => rfl

/-- A missing entry is read as a missing target. -/
theorem Reading.missing_mem_targets (current : v.IndexCurrent)
    (ok : reading.resolve v cells .read = .ok read) (absent : ∃ cell ∈ cells, reading.Absent cell) :
    .missing ∈ read.targets := by
  cases reading with
  | positions => exact missing_mem_positions ok absent
  | mask =>
    have masked := resolveMask_read cells v.length
    cases masked.symm.trans ok
    exact missing_mem_mask absent
  | names =>
    rw [resolve_names_read current] at ok
    cases ok
    exact missing_mem_names absent

theorem Reading.resolve_read_plain (current : v.IndexCurrent)
    (ok : reading.resolve v cells .read = .ok read) :
    read = Selection.resolution read.targets := by
  by_cases unnamed : reading ≠ names
  · exact resolve_plain unnamed ok
  · obtain rfl := not_not.1 unnamed
    rw [resolve_names_read current] at ok
    cases ok
    rfl

/-- Where a read finds a place for every entry, a write addresses just these. -/
theorem Reading.resolve_found (current : v.IndexCurrent)
    (ok : reading.resolve v cells .read = .ok read) (places : Selection.AllPlaces read.targets) :
    reading.resolve v cells .write = .ok read := by
  have present : ¬∃ cell ∈ cells, reading.Absent cell := by
    intro absent
    obtain ⟨place, same⟩ := places _ (missing_mem_targets current ok absent)
    cases same
  by_cases unnamed : reading ≠ names
  · rw [resolve_write unnamed, refusingAbsent_eq_ok]
    exact ⟨ok, present⟩
  · obtain rfl := not_not.1 unnamed
    rw [resolve_names_read current] at ok
    cases ok
    have searched := congrArg (List.map (nameTarget v.givenNames)) (map_text_texts present)
    rw [List.map_map] at searched
    rw [← searched] at places ⊢
    rw [resolve_names_write current, if_neg present]
    exact congrArg Except.ok (writtenNames_found places)

end Reference

namespace TypedVector

open Reference

section Resolving

variable {v w : TypedVector} {spec : Operand} {read resolution : Resolution}

theorem resolveBy_regrown (regular : v.Regular) (current : v.IndexCurrent)
    (named : reading? spec = some .names → .text "" ∉ entries spec)
    (resolved : v.resolveBy spec .write = .ok resolution)
    (allowed : resolution.highest ≤ lengthLimit) (grown : Grown v resolution w)
    (access : Access) : w.resolveBy spec access = .ok resolution.settled := by
  rw [resolveBy_eq] at resolved ⊢
  cases found : reading? spec with
  | none =>
    rw [found] at resolved
    cases resolved
  | some reading =>
    rw [found] at resolved named
    exact reading.resolve_regrown regular current (fun same => named (congrArg some same))
      resolved allowed grown access

theorem resolveBy_found (current : v.IndexCurrent) (ok : v.resolveBy spec .read = .ok read)
    (places : Selection.AllPlaces read.targets) :
    v.resolveBy spec .write = .ok read ∧ read = Selection.resolution read.targets := by
  rw [resolveBy_eq] at ok ⊢
  cases found : reading? spec with
  | none =>
    rw [found] at ok
    cases ok
  | some reading =>
    rw [found] at ok
    exact ⟨reading.resolve_found current ok places, reading.resolve_read_plain current ok⟩

end Resolving

/-- A write of values to the targets of a resolution was done. -/
structure Put (v value : TypedVector) (resolution : Resolution) (w : TypedVector)
    (warning? : Option Warning) : Prop where
  targeted : resolution.targets ≠ []
  allowed : resolution.highest ≤ lengthLimit
  recycled : Recycling.onto value.length resolution.targets.length = .ok warning?
  written : v.Written value resolution w
  names : w.names? = v.grownNames? resolution

section Writing

variable {v w value : TypedVector} {spec : Operand} {resolution : Resolution}
  {warning? : Option Warning}

theorem assignBy_put (regular : v.Regular) (valueRegular : value.Regular)
    (ok : v.assignBy spec value = .ok (w, warning?)) :
    ∃ resolution, v.resolveBy spec .write = .ok resolution ∧
      (resolution.targets = [] ∧ w = v ∧ warning? = none ∨
        v.Put value resolution w warning?) := by
  obtain ⟨selector, classified, ok⟩ := bind_success ok
  unfold resolveBy
  rw [classified]
  cases resolved : selector.resolve v .write with
  | error error =>
    rw [assign_unresolved resolved] at ok
    cases ok
  | ok resolution =>
    refine ⟨resolution, resolved, ?_⟩
    by_cases untargeted : resolution.targets = []
    · rw [assign_untargeted resolved untargeted] at ok
      cases ok
      exact .inl ⟨untargeted, rfl, rfl⟩
    · by_cases tooLong : lengthLimit < resolution.highest
      · rw [assign_tooLong resolved untargeted tooLong] at ok
        cases ok
      · obtain ⟨nonempty, recycled, after, rfl, written⟩ :=
          assign_success regular valueRegular resolved untargeted ok
        exact .inr ⟨untargeted, Nat.not_lt.1 tooLong, recycled, written_of_overwrites regular
          valueRegular (Selector.forWrite_resolve resolved) nonempty written, rfl⟩

theorem exists_assignBy (regular : v.Regular) (valueRegular : value.Regular)
    (resolved : v.resolveBy spec .write = .ok resolution)
    (allowed : resolution.highest ≤ lengthLimit)
    (nonempty : resolution.targets ≠ [] → 0 < value.length) :
    ∃ w warning?, v.assignBy spec value = .ok (w, warning?) := by
  obtain ⟨selector, classified, resolved⟩ := bind_success resolved
  unfold assignBy
  rw [classified]
  by_cases untargeted : resolution.targets = []
  · exact ⟨v, none, assign_untargeted resolved untargeted⟩
  · obtain ⟨_, _, _, done, _⟩ :=
      assign_overwrites regular valueRegular resolved untargeted allowed (nonempty untargeted)
    exact ⟨_, _, done⟩

theorem regular_assignBy (regular : v.Regular) (valueRegular : value.Regular)
    (ok : v.assignBy spec value = .ok (w, warning?)) : w.Regular := by
  obtain ⟨selector, _, ok⟩ := bind_success ok
  exact regular.assign CellRule.stable_any valueRegular ok

theorem IndexCurrent.assignBy (current : v.IndexCurrent)
    (ok : v.assignBy spec value = .ok (w, warning?)) : w.IndexCurrent := by
  obtain ⟨selector, _, ok⟩ := bind_success ok
  exact current.assign ok

theorem Put.grown (put : v.Put value resolution w warning?) (current : w.IndexCurrent) :
    Grown v resolution w := ⟨put.written.length, put.names, current⟩

theorem sameState_of_indexCurrent (kind : w.kind = v.kind) (cells : w.cells = v.cells)
    (names : w.names? = v.names?) (current : v.IndexCurrent) (after : w.IndexCurrent) :
    v.SameState w where
  kind := kind
  cells := cells
  names := names
  nameIndex := by rw [after.nameIndex_eq, current.nameIndex_eq, givenNames, names, givenNames]

end Writing

section Rewriting

variable {v first second w₁ w₂ : TypedVector} {resolution : Resolution}

theorem Written.nameAt_eq (written : v.Written first resolution w₁) {names : RadixArray String}
    (named : w₁.names? = some names) {place : Nat} (below : place < w₁.length) :
    w₁.nameAt place =
      if place < v.length then v.nameAt place else (resolution.grown.lookup place).getD "" := by
  rw [nameAt, named, Option.bind_some]
  split
  · next old => rw [written.namesKept names place named old, Option.getD_some]
  · next new =>
    rw [written.namesMade names place named (Nat.not_lt.1 new) below, Option.getD_some]

/-- A second write to the places of a first one leaves what it would have left alone, if the first
one did not change the kind or both are of one kind. -/
theorem Written.again (once : v.Written first resolution w₁)
    (twice : w₁.Written second resolution.settled w₂)
    (kinds : w₁.kind = v.kind ∨ second.kind = first.kind) : v.Written second resolution w₂ := by
  have unmade : w₂.names? = none ↔ w₁.names? = none := by simp [twice.unnamed, Resolution.settled]
  have named : ∀ names, w₂.names? = some names → ∃ before, w₁.names? = some before := by
    intro names found
    cases before : w₁.names? with
    | some names => exact ⟨names, rfl⟩
    | none =>
      rw [unmade.2 before] at found
      cases found
  have length : w₂.length = w₁.length := by
    have second := twice.length
    have first := once.length
    have same : resolution.settled.highest = resolution.highest := rfl
    omega
  have kind : w₂.kind = max v.kind second.kind := by
    rcases kinds with same | same
    · rw [twice.kind, same]
    · rw [twice.kind, once.kind, same]
      cases v.kind <;> cases first.kind <;> rfl
  -- One of the two promotions is none.
  have raised : ∀ cell : Cell,
      (cell.raise v.kind w₁.kind).raise w₁.kind w₂.kind = cell.raise v.kind w₂.kind := by
    intro cell
    rcases kinds with same | same
    · rw [same, Cell.raise_self]
    · have kept : w₂.kind = w₁.kind := by rw [kind, once.kind, same]
      rw [kept, Cell.raise_self]
  refine
    { kind := kind
      length := length.trans once.length
      assigned := twice.assigned
      kept := ?_
      filled := ?_
      unnamed := unmade.trans once.unnamed
      nameCount := twice.nameCount
      namesKept := ?_
      namesMade := ?_ }
  · intro place cell outside found
    rw [twice.kept place _ outside (once.kept place cell outside found), raised]
  · intro place outside past below
    have empty := once.filled place outside past (length ▸ below)
    rw [twice.kept place _ outside empty, Cell.raise_missing]
  · intro names place found old
    obtain ⟨before, given⟩ := named names found
    have inside : place < w₁.length := by
      have := once.length
      omega
    rw [twice.namesKept names place found inside, once.nameAt_eq given inside, if_pos old]
  · intro names place found past below
    obtain ⟨before, given⟩ := named names found
    have inside : place < w₁.length := length ▸ below
    rw [twice.namesKept names place found inside, once.nameAt_eq given inside,
      if_neg (Nat.not_lt.2 past)]

variable {spec : Operand} {warning₁? warning₂? : Option Warning}

theorem Put.nonempty {value w : TypedVector} {warning? : Option Warning}
    (put : v.Put value resolution w warning?) : 0 < value.length := by
  refine Nat.pos_of_ne_zero fun empty => ?_
  have recycled := put.recycled
  rw [empty, Recycling.onto, if_neg (by simpa using put.targeted), if_pos rfl] at recycled
  cases recycled

theorem assignBy_again (regular : v.Regular) (current : v.IndexCurrent)
    (named : reading? spec = some .names → .text "" ∉ entries spec)
    (firstRegular : first.Regular) (secondRegular : second.Regular)
    (once : v.assignBy spec first = .ok (w₁, warning₁?))
    (alone : v.assignBy spec second = .ok (w₂, warning₂?))
    (kinds : first.kind.rank ≤ v.kind.rank ∨ second.kind = first.kind) :
    ∃ w, w₁.assignBy spec second = .ok (w, warning₂?) ∧ w₂.SameState w := by
  obtain ⟨resolution, resolved, ⟨untargeted, rfl, _⟩ | put⟩ :=
    assignBy_put regular firstRegular once
  · exact ⟨w₂, alone, .refl w₂⟩
  · obtain ⟨other, same, ⟨untargeted, _⟩ | put₂⟩ := assignBy_put regular secondRegular alone
    · rw [resolved] at same
      cases same
      exact absurd untargeted put.targeted
    · rw [resolved] at same
      cases same
      have regular₁ := regular_assignBy regular firstRegular once
      have current₁ := current.assignBy once
      have again := resolveBy_regrown regular current named resolved put.allowed
        (put.grown current₁) .write
      obtain ⟨w, warning?, done⟩ := exists_assignBy regular₁ secondRegular again put.allowed
        fun _ => put₂.nonempty
      obtain ⟨other, same, ⟨untargeted, _⟩ | put₃⟩ := assignBy_put regular₁ secondRegular done
      · rw [again] at same
        cases same
        exact absurd untargeted put.targeted
      · rw [again] at same
        cases same
        have kept : w₁.kind = v.kind ∨ second.kind = first.kind := by
          refine kinds.imp_left fun below => ?_
          rw [put.written.kind]
          revert below
          cases v.kind <;> cases first.kind <;> decide
        have written := put.written.again put₃.written kept
        obtain ⟨kind, cells, names⟩ := put₂.written.unique written regular
          (regular_assignBy regular secondRegular alone)
          (regular_assignBy regular₁ secondRegular done)
        cases put₂.recycled.symm.trans put₃.recycled
        exact ⟨w, done, sameState_of_indexCurrent kind cells names (current.assignBy alone)
          (current₁.assignBy done)⟩

end Rewriting

section Laws

variable {v value w : TypedVector} {spec : Operand} {read resolution : Resolution}
  {warning? : Option Warning}

/-- What is read back after a write: at each target the value that was written to its place last.
Without targets nothing was written, and the kind is as before. -/
structure ReadBack (v value : TypedVector) (targets : List Target) (got : TypedVector) :
    Prop where
  kind : got.kind = if targets = [] then v.kind else max v.kind value.kind
  length : got.length = targets.length
  cells : ∀ index : Nat, index < targets.length → ∃ place last cell,
    targets[index]? = some (.place place) ∧ LastAt targets place last ∧
      value.cells.get? (last % value.length) = some cell ∧
      got.cells.get? index = some (cell.raise value.kind got.kind)

theorem Written.readBack (regular : w.Regular) (written : v.Written value resolution w)
    (places : Selection.AllPlaces resolution.targets) (targeted : resolution.targets ≠ []) :
    ReadBack v value resolution.targets (w.extracted resolution.targets) where
  kind := by
    rw [if_neg targeted]
    exact written.kind
  length := length_extracted w _
  cells := by
    intro index below
    obtain ⟨place, here⟩ := places _ (List.getElem_mem below)
    have found := List.getElem?_eq_some_iff.2 ⟨below, here⟩
    obtain ⟨last, isLast⟩ := exists_lastAt (List.mem_of_getElem? found)
    obtain ⟨cell, given, stored⟩ := written.assigned place last isLast
    exact ⟨place, last, cell, found, isLast, given, get?_extracted regular found stored⟩

theorem resolveBy_untargeted (current : v.IndexCurrent)
    (resolved : v.resolveBy spec .write = .ok resolution) (untargeted : resolution.targets = []) :
    ∃ read, v.resolveBy spec .read = .ok read ∧ read.targets = [] := by
  rw [resolveBy_eq] at resolved ⊢
  cases found : reading? spec with
  | none =>
    rw [found] at resolved
    cases resolved
  | some reading =>
    rw [found] at resolved
    obtain ⟨⟨read, ok⟩, _⟩ := (Reading.exists_resolve_write current).1 ⟨resolution, resolved⟩
    have count := (reading.writtenAs current ok resolved).count
    rw [untargeted, List.length_nil] at count
    exact ⟨read, ok, List.eq_nil_of_length_eq_zero count.symm⟩

theorem extractBy_readBack (regular : v.Regular) (current : v.IndexCurrent)
    (named : reading? spec = some .names → .text "" ∉ entries spec) (valueRegular : value.Regular)
    (ok : v.assignBy spec value = .ok (w, warning?)) :
    ∃ resolution got, v.resolveBy spec .write = .ok resolution ∧ w.extractBy spec = .ok got ∧
      ReadBack v value resolution.targets got := by
  obtain ⟨resolution, resolved, ⟨untargeted, rfl, _⟩ | put⟩ := assignBy_put regular valueRegular ok
  · obtain ⟨read, found, nothing⟩ := resolveBy_untargeted current resolved untargeted
    refine ⟨resolution, w.extracted [], resolved, ?_, ?_⟩
    · rw [extractBy_eq regular, found, Except.map, nothing]
    · rw [untargeted]
      exact ⟨rfl, length_extracted w [], fun index below => absurd below (Nat.not_lt_zero index)⟩
  · have after := regular_assignBy regular valueRegular ok
    have again := resolveBy_regrown regular current named resolved put.allowed
      (put.grown (current.assignBy ok)) .read
    have places : Selection.AllPlaces resolution.targets := by
      obtain ⟨selector, _, resolved⟩ := bind_success resolved
      exact (Selector.forWrite_resolve resolved).places
    refine ⟨resolution, w.extracted resolution.targets, resolved, ?_,
      put.written.readBack after places put.targeted⟩
    rw [extractBy_eq after, again]
    rfl

/-- Writing what was read leaves the vector as it is. -/
theorem written_extracted (regular : v.Regular) {targets : List Target}
    (inside : ∀ target ∈ targets, ∃ place < v.length, target = .place place)
    (short : Selection.highest targets ≤ v.length) :
    v.Written (v.extracted targets) (Selection.resolution targets) v where
  kind := by
    change v.kind = max v.kind v.kind
    cases v.kind <;> rfl
  length := (Nat.max_eq_left short).symm
  assigned := by
    intro place index last
    obtain ⟨_, below, same⟩ := inside _ (List.mem_of_getElem? last.here)
    cases same
    rw [regular.length_eq] at below
    have stored : v.cells.get? place = some v.cells.toList[place] := by
      rw [regular.canonical.get?_eq, List.getElem?_eq_getElem below]
    refine ⟨v.cells.toList[place], ?_, ?_⟩
    · have bound : index < targets.length := last.lt_length
      rw [length_extracted, Nat.mod_eq_of_lt bound]
      exact get?_extracted regular last.here stored
    · rw [stored]
      exact congrArg some (Cell.raise_self v.kind _).symm
  kept := by
    intro place cell _ found
    rw [Cell.raise_self, found]
  filled := fun place _ past below => absurd below (Nat.not_lt.2 past)
  unnamed := (and_iff_left rfl).symm
  nameCount := fun names named => (regular.names names named).2
  namesKept := by
    intro names place named below
    obtain ⟨canonical, fit⟩ := regular.names names named
    rw [← fit, canonical.size_eq] at below
    rw [nameAt, named, Option.bind_some, canonical.get?_eq, List.getElem?_eq_getElem below,
      Option.getD_some]
  namesMade := fun names place _ past below => absurd below (Nat.not_lt.2 past)

theorem recycling_onto_self (count : Nat) : Recycling.onto count count = .ok none := by
  unfold Recycling.onto
  rw [Nat.mod_self, if_pos rfl]
  split
  · rfl
  · rfl

theorem assignBy_extracted (regular : v.Regular) (current : v.IndexCurrent)
    (found : v.resolveBy spec .read = .ok read)
    (inside : ∀ target ∈ read.targets, ∃ place < v.length, target = .place place) :
    (v.length ≤ lengthLimit → ∃ w, v.assignBy spec (v.extracted read.targets) = .ok (w, none)) ∧
      ∀ w warning?, v.assignBy spec (v.extracted read.targets) = .ok (w, warning?) →
        warning? = none ∧ v.SameState w := by
  have places : Selection.AllPlaces read.targets := fun target member =>
    (inside target member).imp fun place => And.right
  have below : ∀ place, .place place ∈ read.targets → place < v.length := by
    intro place member
    obtain ⟨_, below, same⟩ := inside _ member
    cases same
    exact below
  obtain ⟨resolved, plain⟩ := resolveBy_found current found places
  have gotRegular := regular_extracted v read.targets
  have only : ∀ w warning?, v.assignBy spec (v.extracted read.targets) = .ok (w, warning?) →
      warning? = none ∧ v.SameState w := by
    intro w warning? ok
    obtain ⟨resolution, same, ⟨_, rfl, rfl⟩ | put⟩ := assignBy_put regular gotRegular ok
    · exact ⟨rfl, .refl w⟩
    · cases resolved.symm.trans same
      have recycled := put.recycled
      rw [length_extracted, recycling_onto_self] at recycled
      have allowed := put.allowed
      rw [plain] at allowed
      have kept := written_extracted regular inside ((Selection.isHighest_allowed allowed).le below)
      rw [← plain] at kept
      obtain ⟨kind, cells, names⟩ := kept.unique put.written regular regular
        (regular_assignBy regular gotRegular ok)
      exact ⟨(Except.ok.inj recycled).symm,
        sameState_of_indexCurrent kind cells names current (current.assignBy ok)⟩
  refine ⟨fun short => ?_, only⟩
  have highest : Selection.IsHighest read.targets (Selection.highest read.targets) :=
    Selection.isHighest_exact fun place member =>
      Nat.lt_of_lt_of_le (below place member) (Nat.le_trans short (by decide))
  have allowed : read.highest ≤ lengthLimit := by
    rw [plain]
    exact Nat.le_trans (highest.le below) short
  have gotNonempty (targeted : read.targets ≠ []) :
      0 < (v.extracted read.targets).length := by
    rw [length_extracted]
    exact List.length_pos_iff.2 targeted
  obtain ⟨w, warning?, done⟩ :=
    exists_assignBy regular gotRegular resolved allowed gotNonempty
  obtain ⟨rfl, _⟩ := only w warning? done
  exact ⟨w, done⟩

/-- Extraction and assignment by one selector belong together. Two states are the same when no
operation tells them apart. -/
structure Lens (v : TypedVector) (spec : Operand) : Prop where
  putGet : ∀ value w warning?, value.Regular → v.assignBy spec value = .ok (w, warning?) →
    ∃ resolution got, v.resolveBy spec .write = .ok resolution ∧ w.extractBy spec = .ok got ∧
      ReadBack v value resolution.targets got
  getPut : ∀ read, v.resolveBy spec .read = .ok read →
    (∀ target ∈ read.targets, ∃ place < v.length, target = .place place) →
    ∃ got, v.extractBy spec = .ok got ∧
      (v.length ≤ lengthLimit → ∃ w, v.assignBy spec got = .ok (w, none)) ∧
      ∀ w warning?, v.assignBy spec got = .ok (w, warning?) → warning? = none ∧ v.SameState w
  putPut : ∀ first second w₁ warning₁? w₂ warning₂?, first.Regular → second.Regular →
    first.kind.rank ≤ v.kind.rank → v.assignBy spec first = .ok (w₁, warning₁?) →
    v.assignBy spec second = .ok (w₂, warning₂?) →
    ∃ w, w₁.assignBy spec second = .ok (w, warning₂?) ∧ w₂.SameState w
  putTwice : ∀ value w warning?, value.Regular → v.assignBy spec value = .ok (w, warning?) →
    ∃ twice, w.assignBy spec value = .ok (twice, warning?) ∧ w.SameState twice

/-- Selectors are lenses, unless they hold the empty name, which is written and never found. -/
theorem lens_selector (regular : v.Regular) (current : v.IndexCurrent)
    (named : reading? spec = some .names → .text "" ∉ entries spec) : v.Lens spec where
  putGet := fun _ _ _ valueRegular ok => extractBy_readBack regular current named valueRegular ok
  getPut := by
    intro read found inside
    refine ⟨v.extracted read.targets, ?_, assignBy_extracted regular current found inside⟩
    rw [extractBy_eq regular, found]
    rfl
  putPut := fun _ _ _ _ _ _ firstRegular secondRegular below once alone =>
    assignBy_again regular current named firstRegular secondRegular once alone (.inl below)
  putTwice := fun _ _ _ valueRegular ok =>
    assignBy_again regular current named valueRegular valueRegular ok ok (.inr rfl)

/-- Two texts are written to a new name, an old one and the new one again. -/
theorem lens_selector_renamed :
    let v := make .double (RadixArray.ofList [.number 1]) (some (RadixArray.ofList ["a"]))
    let value := make .character (RadixArray.ofList [.text "p", .text "q"]) none
    let spec : Operand := .cells [.text "b", .text "a", .text "b"]
    v.Regular ∧ v.IndexCurrent ∧ .text "" ∉ entries spec ∧
      ∃ w warning? got, v.assignBy spec value = .ok (w, warning?) ∧ w.extractBy spec = .ok got ∧
        ReadBack v value [.place 1, .place 0, .place 1] got := by
  intro v value spec
  have regular : v.Regular := by
    refine follows_make (fun _ _ => trivial) fun names named => ?_
    cases named
    exact ⟨RadixArray.canonical_ofList _, rfl⟩
  have valueRegular : value.Regular := follows_unnamed fun _ _ => trivial
  have current : v.IndexCurrent := indexCurrent_make
  have named : .text "" ∉ entries spec := by decide
  have resolved : v.resolveBy spec .write = .ok (writtenNames v ["b", "a", "b"]) := by
    rw [resolveBy_eq]
    exact (Reading.resolve_names_write current).trans (if_neg (by decide))
  have targets : (writtenNames v ["b", "a", "b"]).targets = [.place 1, .place 0, .place 1] := by
    decide +kernel
  obtain ⟨w, warning?, done⟩ := exists_assignBy regular valueRegular resolved
    (by decide +kernel) fun _ => by decide +kernel
  obtain ⟨resolution, got, same, read, back⟩ :=
    (lens_selector regular current fun _ => named).putGet value w warning? valueRegular done
  cases resolved.symm.trans same
  rw [targets] at back
  exact ⟨regular, current, named, w, warning?, got, done, read, back⟩

/-- Nothing is written where there are no targets, so that the kind stays below that of the
value. -/
theorem readBack_untargeted :
    let v := make .logical (RadixArray.ofList [.truth true]) none
    let value := make .character (RadixArray.ofList [.text "a"]) none
    v.WellFormed ∧ value.WellFormed ∧ ∃ w got, v.assignBy (.cells []) value = .ok (w, none) ∧
      w.extractBy (.cells []) = .ok got ∧ got.kind ≠ max v.kind value.kind := by
  intro v value
  have wellFormed : v.WellFormed := follows_unnamed (List.forall_mem_singleton.2 rfl)
  have valueWellFormed : value.WellFormed := follows_unnamed (List.forall_mem_singleton.2 rfl)
  exact ⟨wellFormed, valueWellFormed, v, make .logical (RadixArray.ofList []) none, rfl, rfl,
    by decide⟩

end Laws

end TypedVector
end TypedVectors
