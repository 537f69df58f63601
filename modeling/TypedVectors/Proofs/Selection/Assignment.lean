import TypedVectors.Proofs.Lists
import TypedVectors.Proofs.Selection.Resolution
import TypedVectors.Proofs.Selection.Writes
import TypedVectors.Proofs.TypedVector.Follows

/-!
Assignment: the state that a write leaves, and exactly when it fails. Cells that no target addresses
are promoted in place, new ones are missing, and new names stand where the write made them.
-/
namespace TypedVectors

namespace TypedVector

variable {rule : CellRule}

def raisedCells (v : TypedVector) (kind : Kind) : List Cell :=
  v.cells.toList.map (·.raise v.kind kind)

theorem length_raisedCells {v : TypedVector} (follows : v.Follows rule) (kind : Kind) :
    (v.raisedCells kind).length = v.length := by
  rw [raisedCells, List.length_map, follows.length_eq]

theorem promoted_eq_raisedCells {v : TypedVector} {kind : Kind} (up : v.kind.rank ≤ kind.rank) :
    v.toArray.toList.mapM (·.promote v.kind kind) = .ok (v.raisedCells kind) :=
  mapM_eq_ok fun cell _ => Cell.promote_eq up cell

theorem Follows.promotedCells_eq {v : TypedVector} (follows : v.Follows rule) {kind : Kind}
    (up : v.kind.rank ≤ kind.rank) :
    v.promotedCells kind = .ok (RadixArray.ofList (v.raisedCells kind)) := by
  unfold promotedCells
  split
  · next same =>
    subst same
    have kept : v.raisedCells v.kind = v.cells.toList := by
      simp [raisedCells, Cell.raise_self]
    rw [kept, ← follows.canonical]
  · rw [promoted_eq_raisedCells up]
    rfl

def nameList (v : TypedVector) : List String :=
  (v.names?.map (·.toList)).getD (List.replicate v.length "")

theorem length_nameList {v : TypedVector} (follows : v.Follows rule) :
    v.nameList.length = v.length := by
  unfold nameList
  cases named : v.names? with
  | none => exact List.length_replicate
  | some names =>
    obtain ⟨canonical, fit⟩ := follows.names names named
    rw [canonical.size_eq] at fit
    exact fit

def namesAfter (v : TypedVector) (resolution : Resolution) : List String :=
  v.nameList ++ (List.range (resolution.highest - v.length)).map fun index =>
    (resolution.grown.lookup (v.length + index)).getD ""

theorem grow_grown {length : Nat} {resolution : Resolution} (forWrite : resolution.ForWrite length)
    {names : List String} (count : names.length = length) :
    ((RadixArray.ofList names).grow resolution.highest fun index =>
        ((Std.HashMap.ofList resolution.grown)[index]?).getD "") =
      RadixArray.ofList (names ++ (List.range (resolution.highest - length)).map fun index =>
        (resolution.grown.lookup (length + index)).getD "") := by
  have distinct : (resolution.grown.map Prod.fst).Nodup := by
    rw [forWrite.grown]
    exact List.nodup_range'
  rw [RadixArray.grow_ofList, count]
  simp only [getElem?_ofList_eq_lookup distinct]

theorem Follows.grownNames?_eq {v : TypedVector} (follows : v.Follows rule)
    {resolution : Resolution} (forWrite : resolution.ForWrite v.length) :
    v.grownNames? resolution =
      if v.names? = none ∧ resolution.grown = [] then none
      else some (RadixArray.ofList (v.namesAfter resolution)) := by
  have grown := grow_grown forWrite (length_nameList follows)
  unfold grownNames? namesAfter
  unfold nameList at grown ⊢
  -- A vector without names starts from empty ones, but only when the write made a name.
  cases named : v.names? with
  | some names =>
    have canonical : names = RadixArray.ofList names.toList := (follows.names names named).1
    rw [named, Option.map_some, Option.getD_some, ← canonical] at grown
    simpa using grown
  | none =>
    rw [named] at grown
    cases made : resolution.grown with
    | nil => rfl
    | cons first rest =>
      rw [made] at grown
      simpa using grown

def grownCells (v : TypedVector) (kind : Kind) (length : Nat) : List Cell :=
  v.raisedCells kind ++ List.replicate (length - v.length) .missing

theorem length_grownCells {v : TypedVector} (follows : v.Follows rule) (kind : Kind)
    (length : Nat) : (v.grownCells kind length).length = max v.length length := by
  rw [grownCells, List.length_append, length_raisedCells follows, List.length_replicate]
  omega

theorem onto_nonempty {given : Nat} (targets : Nat) (nonempty : 0 < given) :
    ∃ warning?, Recycling.onto given targets = .ok warning? := by
  unfold Recycling.onto
  split
  · exact ⟨_, rfl⟩
  · split
    · next empty => exact absurd empty (Nat.ne_of_gt nonempty)
    · split
      · exact ⟨_, rfl⟩
      · exact ⟨_, rfl⟩

variable {v value : TypedVector} {selector : Selector} {resolution : Resolution}

theorem assign_overwrites (regular : v.Regular)
    (valueRegular : value.Regular) (resolved : selector.resolve v .write = .ok resolution)
    (targeted : resolution.targets ≠ []) (allowed : resolution.highest ≤ lengthLimit)
    (nonempty : 0 < value.length) :
    ∃ after warning?, Recycling.onto value.length resolution.targets.length = .ok warning? ∧
      v.assign selector value =
        .ok (⟨max v.kind value.kind, RadixArray.ofList after, v.grownNames? resolution,
          if v.keepsNames resolution then v.index? else none⟩, warning?) ∧
      Overwrites (value.raisedCells (max v.kind value.kind)).toArray resolution.targets
        (v.grownCells (max v.kind value.kind) resolution.highest) after := by
  have forWrite := Selector.forWrite_resolve resolved
  have values : 0 < (value.raisedCells (max v.kind value.kind)).toArray.size := by
    rwa [List.size_toArray, length_raisedCells valueRegular]
  have inside : ∀ target ∈ resolution.targets, ∃ place <
      (v.grownCells (max v.kind value.kind) resolution.highest).length, target = .place place := by
    intro target member
    obtain ⟨place, rfl⟩ := forWrite.places target member
    refine ⟨place, ?_, rfl⟩
    rw [length_grownCells regular]
    rw [forWrite.highest] at allowed ⊢
    exact Nat.lt_of_lt_of_le (Selection.lt_highest member allowed) (Nat.le_max_right _ _)
  obtain ⟨after, done, written⟩ := writeAll_overwrites values inside
  obtain ⟨warning?, recycled⟩ := onto_nonempty resolution.targets.length nonempty
  have grown : (RadixArray.ofList (v.raisedCells (max v.kind value.kind))).grow resolution.highest
      (fun _ => .missing) =
        RadixArray.ofList (v.grownCells (max v.kind value.kind) resolution.highest) := by
    rw [RadixArray.grow_ofList, length_raisedCells regular, List.map_const', List.length_range,
      grownCells]
  refine ⟨after, warning?, recycled, ?_, written⟩
  unfold assign
  rw [resolved]
  change (if resolution.targets.isEmpty then _ else _) = _
  rw [if_neg (by simpa using targeted)]
  dsimp only
  rw [if_neg (Nat.not_lt.2 allowed), recycled,
    promoted_eq_raisedCells (Kind.rank_le_max_right v.kind value.kind),
    regular.promotedCells_eq (Kind.rank_le_max_left v.kind value.kind)]
  change (TypedVector.writeAll _ _ (RadixArray.grow _ _ _) >>= _) = _
  rw [grown, done]
  rfl

def nameAt (v : TypedVector) (place : Nat) : String :=
  (v.names?.bind (·.get? place)).getD ""

/-- What a vector holds after values were written to the targets of a resolution. -/
structure Written (v value : TypedVector) (resolution : Resolution) (w : TypedVector) : Prop where
  kind : w.kind = max v.kind value.kind
  length : w.length = max v.length resolution.highest
  assigned : ∀ place index, LastAt resolution.targets place index →
    ∃ cell, value.cells.get? (index % value.length) = some cell ∧
      w.cells.get? place = some (cell.raise value.kind w.kind)
  kept : ∀ place cell, .place place ∉ resolution.targets → v.cells.get? place = some cell →
    w.cells.get? place = some (cell.raise v.kind w.kind)
  filled : ∀ place, .place place ∉ resolution.targets → v.length ≤ place → place < w.length →
    w.cells.get? place = some .missing
  unnamed : w.names? = none ↔ v.names? = none ∧ resolution.grown = []
  nameCount : ∀ names, w.names? = some names → names.size = w.length
  namesKept : ∀ names place, w.names? = some names → place < v.length →
    names.get? place = some (v.nameAt place)
  namesMade : ∀ names place, w.names? = some names → v.length ≤ place → place < w.length →
    names.get? place = some ((resolution.grown.lookup place).getD "")

theorem nameList_getElem? (regular : v.Regular) {place : Nat} (inside : place < v.length) :
    v.nameList[place]? = some (v.nameAt place) := by
  unfold nameList nameAt
  cases named : v.names? with
  | none => exact List.getElem?_replicate_of_lt inside
  | some names =>
    obtain ⟨canonical, fit⟩ := regular.names names named
    rw [← fit, canonical.size_eq] at inside
    rw [Option.bind_some, canonical.get?_eq, Option.map_some, Option.getD_some,
      List.getElem?_eq_getElem inside, Option.getD_some]

theorem namesAfter_getElem? (regular : v.Regular) {place : Nat} (inside : v.length ≤ place)
    (below : place < resolution.highest) :
    (v.namesAfter resolution)[place]? = some ((resolution.grown.lookup place).getD "") := by
  unfold namesAfter
  rw [List.getElem?_append_right (by rwa [length_nameList regular]), length_nameList regular,
    List.getElem?_map, List.getElem?_range (by omega), Option.map_some, Nat.add_sub_cancel' inside]

theorem written_of_overwrites (regular : v.Regular) (valueRegular : value.Regular)
    (forWrite : resolution.ForWrite v.length) (nonempty : 0 < value.length) {after : List Cell}
    {index? : Option NameIndex}
    (written : Overwrites (value.raisedCells (max v.kind value.kind)).toArray resolution.targets
      (v.grownCells (max v.kind value.kind) resolution.highest) after) :
    Written v value resolution ⟨max v.kind value.kind, RadixArray.ofList after,
      v.grownNames? resolution, index?⟩ := by
  have length : after.length = max v.length resolution.highest := by
    rw [written.length, length_grownCells regular]
  have names : ∀ names, v.grownNames? resolution = some names →
      names = RadixArray.ofList (v.namesAfter resolution) := by
    intro names found
    rw [regular.grownNames?_eq forWrite] at found
    split at found
    · cases found
    · exact (Option.some.inj found).symm
  refine
    { kind := rfl
      length := ?_
      assigned := ?_
      kept := ?_
      filled := ?_
      unnamed := ?_
      nameCount := ?_
      namesKept := ?_
      namesMade := ?_ }
  · rw [TypedVector.length, RadixArray.size_ofList, length]
  · intro place index last
    have source : index % value.length < value.cells.toList.length := by
      rw [← valueRegular.length_eq]
      exact Nat.mod_lt _ nonempty
    refine ⟨value.cells.toList[index % value.length], ?_, ?_⟩
    · rw [valueRegular.canonical.get?_eq, List.getElem?_eq_getElem source]
    · rw [RadixArray.get?_ofList, written.last place index last, Recycling.source,
        List.size_toArray, length_raisedCells valueRegular, List.getElem?_toArray, raisedCells,
        List.getElem?_map, List.getElem?_eq_getElem source]
      rfl
  · intro place cell outside found
    rw [regular.canonical.get?_eq] at found
    have inside := (List.getElem?_eq_some_iff.1 found).1
    rw [RadixArray.get?_ofList, written.untouched place outside, grownCells,
      List.getElem?_append_left (by rwa [raisedCells, List.length_map]), raisedCells,
      List.getElem?_map, found]
    rfl
  · intro place outside past below
    rw [TypedVector.length, RadixArray.size_ofList, length] at below
    rw [RadixArray.get?_ofList, written.untouched place outside, grownCells,
      List.getElem?_append_right (by rwa [length_raisedCells regular]),
      length_raisedCells regular]
    exact List.getElem?_replicate_of_lt (by omega)
  · rw [regular.grownNames?_eq forWrite]
    simp
  · intro made found
    rw [names made found, TypedVector.length, RadixArray.size_ofList, RadixArray.size_ofList,
      length, namesAfter, List.length_append, length_nameList regular, List.length_map,
      List.length_range]
    omega
  · intro made place found inside
    rw [names made found, RadixArray.get?_ofList, namesAfter,
      List.getElem?_append_left (by rwa [length_nameList regular]),
      nameList_getElem? regular inside]
  · intro made place found past below
    rw [TypedVector.length, RadixArray.size_ofList, length] at below
    rw [names made found, RadixArray.get?_ofList, namesAfter_getElem? regular past (by omega)]

/-- The written state is determined: only the index is left open. -/
theorem Written.unique {w w' : TypedVector} (here : Written v value resolution w)
    (there : Written v value resolution w') (regular : v.Regular) (left : w.Regular)
    (right : w'.Regular) : w'.kind = w.kind ∧ w'.cells = w.cells ∧ w'.names? = w.names? := by
  have kinds : w'.kind = w.kind := there.kind.trans here.kind.symm
  have lengths : w'.length = w.length := there.length.trans here.length.symm
  have cells : ∀ place, place < w.length → w'.cells.get? place = w.cells.get? place := by
    intro place below
    by_cases addressed : .place place ∈ resolution.targets
    · obtain ⟨index, last⟩ := exists_lastAt addressed
      obtain ⟨cell, found, mine⟩ := here.assigned place index last
      obtain ⟨other, same, yours⟩ := there.assigned place index last
      rw [found] at same
      cases same
      rw [mine, yours, kinds]
    · by_cases old : place < v.length
      · have inside : place < v.cells.toList.length := by
          rwa [← regular.length_eq]
        have stored : v.cells.get? place = some v.cells.toList[place] := by
          rw [regular.canonical.get?_eq, List.getElem?_eq_getElem inside]
        rw [here.kept place _ addressed stored, there.kept place _ addressed stored, kinds]
      · rw [here.filled place addressed (Nat.not_lt.1 old) below,
          there.filled place addressed (Nat.not_lt.1 old) (lengths ▸ below)]
  have names : w'.names? = w.names? := by
    have absent : w'.names? = none ↔ w.names? = none := there.unnamed.trans here.unnamed.symm
    cases mine : w.names? with
    | none => exact absent.2 mine
    | some names =>
      cases yours : w'.names? with
      | none =>
        rw [absent.1 yours] at mine
        cases mine
      | some others =>
        have count := here.nameCount names mine
        have sizes : others.size = names.size := by
          rw [there.nameCount others yours, lengths, count]
        refine congrArg some ((left.names names mine).1.ext (right.names others yours).1 sizes ?_)
        intro place below
        rw [count] at below
        by_cases old : place < v.length
        · rw [here.namesKept names place mine old, there.namesKept others place yours old]
        · have past := Nat.not_lt.1 old
          rw [here.namesMade names place mine past below,
            there.namesMade others place yours past (lengths ▸ below)]
  exact ⟨kinds, left.canonical.ext right.canonical lengths cells, names⟩

theorem assign_unresolved {error : Error} (failed : selector.resolve v .write = .error error) :
    v.assign selector value = .error error := by
  unfold assign
  rw [failed]
  rfl

theorem assign_untargeted (resolved : selector.resolve v .write = .ok resolution)
    (untargeted : resolution.targets = []) : v.assign selector value = .ok (v, none) := by
  unfold assign
  rw [resolved]
  change (if resolution.targets.isEmpty then _ else _) = _
  rw [if_pos (by rw [untargeted]; rfl)]
  rfl

theorem assign_tooLong (resolved : selector.resolve v .write = .ok resolution)
    (targeted : resolution.targets ≠ []) (tooLong : lengthLimit < resolution.highest) :
    v.assign selector value = .error (.growthTooLong resolution.highest) := by
  unfold assign
  rw [resolved]
  change (if resolution.targets.isEmpty then _ else _) = _
  rw [if_neg (by simpa using targeted)]
  dsimp only
  rw [if_pos tooLong]
  rfl

theorem assign_empty (resolved : selector.resolve v .write = .ok resolution)
    (targeted : resolution.targets ≠ []) (allowed : resolution.highest ≤ lengthLimit)
    (empty : value.length = 0) :
    v.assign selector value = .error (.emptyReplacement resolution.targets.length) := by
  have refused : Recycling.onto value.length resolution.targets.length =
      .error (.emptyReplacement resolution.targets.length) := by
    unfold Recycling.onto
    rw [if_neg (by simpa using targeted), if_pos empty]
  unfold assign
  rw [resolved]
  change (if resolution.targets.isEmpty then _ else _) = _
  rw [if_neg (by simpa using targeted)]
  dsimp only
  rw [if_neg (Nat.not_lt.2 allowed), refused]
  rfl

/-- The causes for which a write is refused, each only where those before it do not hold, from what
resolving its selector gave and how many values there are. -/
inductive Refused (outcome : Except Error Resolution) (given : Nat) : Error → Prop
  | unresolved {error : Error} (failed : outcome = .error error) : Refused outcome given error
  | tooLong {resolution : Resolution} (resolved : outcome = .ok resolution)
    (targeted : resolution.targets ≠ []) (tooLong : lengthLimit < resolution.highest) :
    Refused outcome given (.growthTooLong resolution.highest)
  | empty {resolution : Resolution} (resolved : outcome = .ok resolution)
    (targeted : resolution.targets ≠ []) (allowed : resolution.highest ≤ lengthLimit)
    (empty : given = 0) :
    Refused outcome given (.emptyReplacement resolution.targets.length)

theorem refused_cases (outcome : Except Error Resolution) (given : Nat) :
    (∃ error, Refused outcome given error) ∨
    ∃ resolution, outcome = .ok resolution ∧ (resolution.targets = [] ∨
      resolution.targets ≠ [] ∧ resolution.highest ≤ lengthLimit ∧ 0 < given) := by
  cases resolved : outcome with
  | error error => exact .inl ⟨error, .unresolved rfl⟩
  | ok resolution =>
    by_cases untargeted : resolution.targets = []
    · exact .inr ⟨resolution, rfl, .inl untargeted⟩
    · by_cases allowed : resolution.highest ≤ lengthLimit
      · by_cases empty : given = 0
        · exact .inl ⟨_, .empty rfl untargeted allowed empty⟩
        · exact .inr ⟨resolution, rfl, .inr ⟨untargeted, allowed, Nat.pos_of_ne_zero empty⟩⟩
      · exact .inl ⟨_, .tooLong rfl untargeted (Nat.not_le.1 allowed)⟩

theorem Refused.assign_eq {error : Error}
    (refused : Refused (selector.resolve v .write) value.length error) :
    v.assign selector value = .error error := by
  cases refused with
  | unresolved failed => exact assign_unresolved failed
  | tooLong resolved targeted tooLong => exact assign_tooLong resolved targeted tooLong
  | empty resolved targeted allowed empty => exact assign_empty resolved targeted allowed empty

/-- An assignment fails exactly when it is refused, and with the cause of that. -/
theorem assign_eq_error_iff (regular : v.Regular) (valueRegular : value.Regular) {error : Error} :
    v.assign selector value = .error error ↔
      Refused (selector.resolve v .write) value.length error := by
  constructor
  · intro failed
    obtain ⟨cause, refused⟩ | ⟨resolution, resolved, untargeted | ⟨targeted, allowed, nonempty⟩⟩ :=
      refused_cases (selector.resolve v .write) value.length
    · rw [refused.assign_eq] at failed
      cases failed
      exact refused
    · rw [assign_untargeted resolved untargeted] at failed
      cases failed
    · obtain ⟨after, warning?, _, done, _⟩ :=
        assign_overwrites regular valueRegular resolved targeted allowed nonempty
      rw [done] at failed
      cases failed
  · exact Refused.assign_eq

theorem assign_success (regular : v.Regular) (valueRegular : value.Regular)
    (resolved : selector.resolve v .write = .ok resolution) (targeted : resolution.targets ≠ [])
    {w : TypedVector} {warning? : Option Warning}
    (ok : v.assign selector value = .ok (w, warning?)) :
    0 < value.length ∧ Recycling.onto value.length resolution.targets.length = .ok warning? ∧
    ∃ after, w = ⟨max v.kind value.kind, RadixArray.ofList after, v.grownNames? resolution,
        if v.keepsNames resolution then v.index? else none⟩ ∧
      Overwrites (value.raisedCells (max v.kind value.kind)).toArray resolution.targets
        (v.grownCells (max v.kind value.kind) resolution.highest) after := by
  obtain ⟨cause, refused⟩ | ⟨other, found, untargeted | ⟨_, allowed, nonempty⟩⟩ :=
    refused_cases (selector.resolve v .write) value.length
  · rw [refused.assign_eq] at ok
    cases ok
  · rw [resolved] at found
    cases found
    exact absurd untargeted targeted
  · rw [resolved] at found
    cases found
    obtain ⟨after, _, recycled, done, written⟩ :=
      assign_overwrites regular valueRegular resolved targeted allowed nonempty
    rw [done] at ok
    cases ok
    exact ⟨nonempty, recycled, after, rfl, written⟩

theorem overwrites_rule (stable : rule.Stable) (follows : v.Follows rule)
    (valueFollows : value.Follows rule) {after : List Cell}
    (written : Overwrites (value.raisedCells (max v.kind value.kind)).toArray resolution.targets
      (v.grownCells (max v.kind value.kind) resolution.highest) after) :
    ∀ cell ∈ after, rule (max v.kind value.kind) cell := by
  have raised : ∀ (u : TypedVector), u.Follows rule → u.kind.rank ≤ (max v.kind value.kind).rank →
      ∀ cell ∈ u.raisedCells (max v.kind value.kind), rule (max v.kind value.kind) cell := by
    intro u inner up cell inside
    obtain ⟨source, member, rfl⟩ := List.mem_map.1 inside
    exact stable.raise up (inner.cells source member)
  intro cell inside
  obtain ⟨place, found⟩ := List.getElem?_of_mem inside
  by_cases addressed : .place place ∈ resolution.targets
  · obtain ⟨index, last⟩ := exists_lastAt addressed
    rw [written.last place index last, List.getElem?_toArray] at found
    exact raised value valueFollows (Kind.rank_le_max_right _ _) cell (List.mem_of_getElem? found)
  · rw [written.untouched place addressed] at found
    rcases List.mem_append.1 (List.mem_of_getElem? found) with old | new
    · exact raised v follows (Kind.rank_le_max_left _ _) cell old
    · rw [List.eq_of_mem_replicate new]
      exact stable.missing _

theorem Follows.assign (stable : rule.Stable) (follows : v.Follows rule)
    (valueFollows : value.Follows rule) {w : TypedVector} {warning? : Option Warning}
    (ok : v.assign selector value = .ok (w, warning?)) : w.Follows rule := by
  cases resolved : selector.resolve v .write with
  | error error =>
    rw [assign_unresolved resolved] at ok
    cases ok
  | ok resolution =>
    by_cases untargeted : resolution.targets = []
    · rw [assign_untargeted resolved untargeted] at ok
      cases ok
      exact follows
    · obtain ⟨nonempty, _, after, rfl, written⟩ :=
        assign_success follows.regular valueFollows.regular resolved untargeted ok
      have forWrite := Selector.forWrite_resolve resolved
      refine ⟨RadixArray.canonical_ofList after, ?_, ?_⟩
      · rw [RadixArray.toList_ofList]
        exact overwrites_rule stable follows valueFollows written
      · intro names named
        refine ⟨?_, (written_of_overwrites follows.regular valueFollows.regular forWrite nonempty
          written).nameCount names named⟩
        rw [follows.regular.grownNames?_eq forWrite] at named
        split at named
        · cases named
        · cases named
          exact RadixArray.canonical_ofList _

/-- A successful assignment without targets changes nothing whatever the value is, and one with
targets leaves the written state. -/
theorem assign_written (regular : v.Regular)
    (resolved : selector.resolve v .write = .ok resolution) :
    (resolution.targets = [] → ∀ value, v.assign selector value = .ok (v, none)) ∧
    (resolution.targets ≠ [] → ∀ value w warning?, value.Regular →
      v.assign selector value = .ok (w, warning?) → Written v value resolution w) := by
  constructor
  · intro untargeted value
    exact assign_untargeted resolved untargeted
  · intro targeted value w warning? valueRegular ok
    obtain ⟨nonempty, _, after, rfl, written⟩ :=
      assign_success regular valueRegular resolved targeted ok
    exact written_of_overwrites regular valueRegular (Selector.forWrite_resolve resolved) nonempty
      written

/-- A place written twice, one skipped past the end, and truth values that become integers. -/
theorem assign_written_past_end :
    let v := make .logical (RadixArray.ofList [.truth true]) none
    let value := make .integer (RadixArray.ofList [.number 5, .number 6]) none
    ∃ w warning?, v.assign (.positions [some 3, some 1, some 3]) value = .ok (w, warning?) ∧
      Written v value ⟨[.place 2, .place 0, .place 2], 3, []⟩ w := by
  intro v value
  have regular : v.Regular := follows_unnamed fun _ _ => trivial
  have valueRegular : value.Regular := follows_unnamed fun _ _ => trivial
  have resolved : (Selector.positions [some 3, some 1, some 3]).resolve v .write =
      .ok ⟨[.place 2, .place 0, .place 2], 3, []⟩ := by decide +kernel
  have targeted : [Target.place 2, .place 0, .place 2] ≠ [] := by decide
  obtain ⟨after, warning?, _, done, _⟩ := assign_overwrites regular valueRegular resolved targeted
    (by decide) (by decide)
  exact ⟨_, warning?, done,
    (assign_written regular resolved).2 targeted value _ warning? valueRegular done⟩

end TypedVector
end TypedVectors
