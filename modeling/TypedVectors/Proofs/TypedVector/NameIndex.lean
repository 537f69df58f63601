import TypedVectors.Proofs.HashTrie.Map
import TypedVectors.TypedVector.Basic

/-!
The index of names. Names are added one after another, and each addition puts one more place behind
those that a name has, so that the index gives all places of a name in ascending order.
-/
namespace TypedVectors

/-- The places of a name among some names, in ascending order. -/
def placesNamed (names : List String) (name : String) : List Nat :=
  (List.range names.length).filter fun place => names[place]? = some name

theorem mem_placesNamed {names : List String} {name : String} {place : Nat} :
    place ∈ placesNamed names name ↔ names[place]? = some name := by
  simp only [placesNamed, List.mem_filter, List.mem_range, decide_eq_true_eq]
  constructor
  · exact And.right
  · intro found
    exact ⟨(List.getElem?_eq_some_iff.1 found).1, found⟩

theorem placesNamed_concat (names : List String) (last name : String) :
    placesNamed (names ++ [last]) name =
      placesNamed names name ++ if last = name then [names.length] else [] := by
  unfold placesNamed
  rw [List.length_append, List.length_singleton, List.range_succ, List.filter_append,
    List.filter_singleton, List.getElem?_concat_length]
  congr 1
  · refine List.filter_congr fun place inside => ?_
    rw [List.getElem?_append_left (List.mem_range.1 inside)]
  · by_cases same : last = name
    · simp [same]
    · simp [same]

theorem placesNamed_eq_nil {names : List String} {name : String} :
    placesNamed names name = [] ↔ name ∉ names := by
  rw [List.eq_nil_iff_forall_not_mem, List.mem_iff_getElem?, not_exists]
  exact forall_congr' fun place => not_congr mem_placesNamed

theorem placesNamed_cons (first : String) (rest : List String) (name : String) :
    placesNamed (first :: rest) name =
      (if first = name then [0] else []) ++ (placesNamed rest name).map (· + 1) := by
  unfold placesNamed
  rw [List.length_cons, List.range_succ_eq_map, List.filter_cons, List.filter_map]
  by_cases same : first = name
  · simp [same, Function.comp_def]
  · simp [same, Function.comp_def]

theorem head?_placesNamed (names : List String) (name : String) :
    (placesNamed names name).head? = names.idxOf? name := by
  induction names with
  | nil => rfl
  | cons first rest ih =>
    rw [placesNamed_cons, List.idxOf?_cons, ← ih]
    by_cases same : first = name
    · simp [same]
    · simp [same]

namespace NamePlaces

def ofList? : List Nat → Option NamePlaces
  | [] => none
  | first :: later => some ⟨first, later.reverse⟩

theorem map_toList_ofList? (places : List Nat) :
    (ofList? places).map toList = if places = [] then none else some places := by
  cases places with
  | nil => rfl
  | cons first later => simp [ofList?, toList]

theorem map_first_ofList? (places : List Nat) : (ofList? places).map first = places.head? := by
  cases places with
  | nil => rfl
  | cons first later => rfl

end NamePlaces

namespace NameIndex

theorem ofNames_concat (names : List String) (last : String) :
    ofNames (names ++ [last]) = (ofNames names).add last names.length := by
  simp [ofNames, List.zipIdx_append]

theorem sound_add {index : NameIndex} (sound : index.Sound) (name : String) (place : Nat) :
    (index.add name place).Sound := by
  unfold add
  split
  · exact sound
  · split
    · exact (sound.set _ _).sound
    · exact (sound.set _ _).sound

theorem sound_ofNames (names : List String) : (ofNames names).Sound := by
  induction names using List.reverseRecOn with
  | nil => exact HashTrie.sound_empty
  | append_singleton names last ih =>
    rw [ofNames_concat]
    exact sound_add ih last names.length

theorem get?_add {index : NameIndex} (sound : index.Sound) {name other : String} {place : Nat}
    {places : List Nat} (named : name ≠ "") (known : index.get? name = NamePlaces.ofList? places) :
    (index.add name place).get? other =
      if other = name then NamePlaces.ofList? (places ++ [place]) else index.get? other := by
  unfold add
  rw [if_neg named, known]
  cases places with
  | nil => exact (sound.set _ _).value other
  | cons first later =>
    have behind : NamePlaces.ofList? (first :: later ++ [place]) =
        some ⟨first, place :: later.reverse⟩ := by simp [NamePlaces.ofList?]
    rw [behind]
    exact (sound.set _ _).value other

theorem get?_ofNames (names : List String) (name : String) :
    (ofNames names).get? name =
      if name = "" then none else NamePlaces.ofList? (placesNamed names name) := by
  induction names using List.reverseRecOn generalizing name with
  | nil =>
    split
    · rfl
    · rfl
  | append_singleton names last ih =>
    rw [ofNames_concat, placesNamed_concat]
    by_cases unnamed : last = ""
    · subst unnamed
      rw [add, if_pos rfl, ih]
      split
      · rfl
      · next named => rw [if_neg (Ne.symm named), List.append_nil]
    · have known := ih last
      rw [if_neg unnamed] at known
      rw [get?_add (sound_ofNames names) unnamed known, ih]
      by_cases same : name = last
      · rw [if_pos same, same, if_neg unnamed, if_pos rfl]
      · rw [if_neg same, if_neg (Ne.symm same), List.append_nil]

end NameIndex

namespace TypedVector

/-- The names that were given to a vector; an unnamed one has none. -/
def givenNames (v : TypedVector) : List String := (v.names?.map (·.toList)).getD []

def IndexCurrent (v : TypedVector) : Prop :=
  ∀ index, v.index? = some index → index = NameIndex.ofNames v.givenNames

/-- A search finds all places of a name and the first of them, and nothing for the empty name and
for names that the vector does not have. -/
structure NamesFound (v : TypedVector) : Prop where
  present : ∀ name, name ≠ "" → name ∈ v.givenNames → ∃ first later,
    placesNamed v.givenNames name = first :: later ∧
      v.placesOf? name = some (first :: later) ∧ v.placeOf? name = some first
  absent : ∀ name, name = "" ∨ name ∉ v.givenNames →
    v.placesOf? name = none ∧ v.placeOf? name = none

theorem IndexCurrent.nameIndex_eq {v : TypedVector} (current : v.IndexCurrent) :
    v.nameIndex = NameIndex.ofNames v.givenNames := by
  unfold nameIndex
  cases kept : v.index? with
  | none => rfl
  | some index => exact current index kept

theorem indexCurrent_make {kind : Kind} {cells : RadixArray Cell}
    {names? : Option (RadixArray String)} : (make kind cells names?).IndexCurrent := by
  intro index kept
  cases kept

theorem IndexCurrent.indexed {v : TypedVector} (current : v.IndexCurrent) :
    v.indexed.IndexCurrent := by
  intro index kept
  cases kept
  exact current.nameIndex_eq

theorem IndexCurrent.placeOf?_eq {v : TypedVector} (current : v.IndexCurrent) (name : String) :
    v.placeOf? name = if name = "" then none else v.givenNames.idxOf? name := by
  unfold placeOf?
  split
  · rfl
  · next named =>
    rw [current.nameIndex_eq, NameIndex.get?_ofNames, if_neg named, NamePlaces.map_first_ofList?,
      head?_placesNamed]

theorem IndexCurrent.namesFound {v : TypedVector} (current : v.IndexCurrent) : v.NamesFound where
  present := by
    intro name named given
    obtain ⟨first, later, places⟩ :=
      List.exists_cons_of_ne_nil (mt placesNamed_eq_nil.1 (not_not.2 given))
    have found := NameIndex.get?_ofNames v.givenNames name
    rw [if_neg named, ← current.nameIndex_eq, places] at found
    refine ⟨first, later, places, ?_, ?_⟩
    · rw [placesOf?, found, NamePlaces.map_toList_ofList?, if_neg (List.cons_ne_nil _ _)]
    · rw [placeOf?, if_neg named, found, NamePlaces.map_first_ofList?, List.head?_cons]
  absent := by
    intro name missing
    have found : v.nameIndex.get? name = none := by
      rw [current.nameIndex_eq, NameIndex.get?_ofNames]
      split
      · rfl
      · next named => rw [placesNamed_eq_nil.2 (missing.resolve_left named), NamePlaces.ofList?]
    rw [placesOf?, placeOf?, found]
    exact ⟨rfl, ite_self _⟩

end TypedVector
end TypedVectors
