import Mathlib.Data.List.Induction
import TypedVectors.Proofs.RadixArray.Reader
import TypedVectors.Proofs.RadixArray.Update

/-!
Programs that make versions of an array, each anew or from any version made before, which stays as
it is. On persistent arrays a program does what it does on lists: it makes and refuses the same
versions, and whichever way the array of a list is read gives the items of the list.
-/
namespace TypedVectors.RadixArray

/-- A step that makes a version, mostly from the outcome of an earlier step, its base. -/
inductive Edit (α : Type) where
  | empty
  | ofList (items : List α)
  | push (base : Nat) (x : α)
  | set (base : Nat) (index : Int) (x : α)
  | grow (base size : Nat) (fill : Nat → α)

/-- What a step comes to: a version, a fault, or nothing because its base is no version. -/
inductive Outcome (σ : Type) where
  | version (xs : σ)
  | refused (fault : Fault)
  | baseless

/-- The operations that make versions. -/
structure Storage (α σ : Type) where
  empty : σ
  ofList : List α → σ
  push : σ → α → σ
  set : σ → Int → α → Except Fault σ
  grow : σ → Nat → (Nat → α) → σ

variable {α σ τ : Type}

namespace Storage

def arrays : Storage α (RadixArray α) where
  empty := RadixArray.empty
  ofList := RadixArray.ofList
  push := RadixArray.push
  set := RadixArray.set
  grow := RadixArray.grow

/-- What the operations mean for the items. A write right behind the items appends, and one further
out or below zero is refused. -/
def lists : Storage α (List α) where
  empty := []
  ofList items := items
  push items x := items ++ [x]
  set items index x :=
    if index < 0 ∨ items.length < index then .error (.outOfBounds index items.length)
    else if index = items.length then .ok (items ++ [x])
    else .ok (items.set index.toNat x)
  grow items size fill := items ++ (List.range' items.length (size - items.length)).map fill

end Storage

namespace Outcome

def ofExcept : Except Fault σ → Outcome σ
  | .ok xs => version xs
  | .error fault => refused fault

/-- A step on the outcome of its base. -/
def onBase (base? : Option (Outcome σ)) (step : σ → Except Fault σ) : Outcome σ :=
  match base? with
  | some (version xs) => ofExcept (step xs)
  | _ => baseless

def map (f : σ → τ) : Outcome σ → Outcome τ
  | version xs => version (f xs)
  | refused fault => refused fault
  | baseless => baseless

theorem ofExcept_map (f : σ → τ) (result : Except Fault σ) :
    ofExcept (result.map f) = (ofExcept result).map f := by
  cases result with
  | ok xs => rfl
  | error fault => rfl

/-- A step that a translation of versions commutes with comes to translated outcomes. -/
theorem onBase_map {f : σ → τ} {here : τ → Except Fault τ} {there : σ → Except Fault σ}
    (commutes : ∀ xs, here (f xs) = (there xs).map f) (base? : Option (Outcome σ)) :
    onBase (base?.map (map f)) here = (onBase base? there).map f := by
  rcases base? with _ | ⟨xs⟩ | ⟨fault⟩ | _
  · rfl
  · exact (congrArg ofExcept (commutes xs)).trans (ofExcept_map f (there xs))
  · rfl
  · rfl

end Outcome

namespace Storage

/-- The outcome of a step after the steps before it. -/
def outcome (storage : Storage α σ) (before : List (Outcome σ)) : Edit α → Outcome σ
  | .empty => .version storage.empty
  | .ofList items => .version (storage.ofList items)
  | .push base x => .onBase before[base]? fun xs => .ok (storage.push xs x)
  | .set base index x => .onBase before[base]? fun xs => storage.set xs index x
  | .grow base size fill => .onBase before[base]? fun xs => .ok (storage.grow xs size fill)

/-- The outcomes of all steps of a program. -/
def history (storage : Storage α σ) (program : List (Edit α)) : List (Outcome σ) :=
  program.foldl (fun before edit => before ++ [storage.outcome before edit]) []

theorem history_concat (storage : Storage α σ) (program : List (Edit α)) (edit : Edit α) :
    storage.history (program ++ [edit]) =
      storage.history program ++ [storage.outcome (storage.history program) edit] := by
  unfold history
  rw [List.foldl_append]
  rfl

end Storage

theorem empty_eq_ofList : (empty : RadixArray α) = ofList [] := by
  have layout : Layout (empty : RadixArray α) #[] :=
    { packed := rfl
      root := by simp [empty, branches, blocks, capacity, width]
      whole := Nat.dvd_zero width
      tail_le := Nat.zero_le width
      tail_pos := id
      fits := Nat.zero_le _
      least := .inl rfl }
  exact layout.eq_ofArray

theorem set_ofList_past {items : List α} {index : Int} (x : α)
    (outside : index < 0 ∨ items.length < index) :
    (ofList items).set index x = .error (.outOfBounds index items.length) := by
  unfold set
  rw [size_ofList, if_neg (by omega), if_pos outside]

theorem set_ofList_length (items : List α) (x : α) :
    (ofList items).set items.length x = .ok (ofList (items ++ [x])) := by
  unfold set
  rw [size_ofList, if_pos rfl, push_ofList]

theorem set_ofList_map (items : List α) (index : Int) (x : α) :
    (ofList items).set index x = (Storage.lists.set items index x).map ofList := by
  unfold Storage.lists
  dsimp only
  split
  · next outside => exact set_ofList_past x outside
  · next inside =>
    split
    · next last =>
      subst last
      exact set_ofList_length items x
    · next earlier =>
      obtain ⟨place, rfl⟩ := Int.eq_ofNat_of_zero_le (show 0 ≤ index by omega)
      exact set_ofList x (by omega)

/-- A program makes of arrays the arrays of what it makes of lists. -/
theorem history_arrays (program : List (Edit α)) :
    Storage.arrays.history program = (Storage.lists.history program).map (Outcome.map ofList) := by
  induction program using List.reverseRecOn with
  | nil => rfl
  | append_singleton program edit ih =>
    rw [Storage.history_concat, Storage.history_concat, List.map_append, List.map_singleton, ih]
    generalize Storage.lists.history program = before
    refine congrArg (fun outcome => before.map (Outcome.map ofList) ++ [outcome]) ?_
    cases edit with
    | empty => exact congrArg Outcome.version empty_eq_ofList
    | ofList items => rfl
    | push base x =>
      simp only [Storage.outcome, List.getElem?_map]
      exact Outcome.onBase_map (fun items => congrArg Except.ok (push_ofList items x)) _
    | set base index x =>
      simp only [Storage.outcome, List.getElem?_map]
      exact Outcome.onBase_map (fun items => set_ofList_map items index x) _
    | grow base size fill =>
      have grown : ∀ items : List α, (ofList items).grow size fill =
          ofList (Storage.lists.grow items size fill) := by
        intro items
        unfold Storage.lists
        dsimp only
        rw [grow_ofList, List.range'_eq_map_range, List.map_map]
        rfl
      simp only [Storage.outcome, List.getElem?_map]
      exact Outcome.onBase_map (fun items => congrArg Except.ok (grown items)) _

/-- Every read of an array gives the items of a list. -/
structure Holds (xs : RadixArray α) (items : List α) : Prop where
  size : xs.size = items.length
  toList : xs.toList = items
  slice : ∀ start stop, (xs.slice start stop).toList = (items.drop start).take (stop - start)
  item? : ∀ index : Int, xs.item? index = if index < 0 then none else items[index.toNat]?
  readAll : ∀ indices, xs.readAll indices = indices.map xs.item?

theorem holds_ofList (items : List α) : (ofList items).Holds items where
  size := size_ofList items
  toList := toList_ofList items
  slice start stop := by
    rw [slice, Array.toList_extract, ofList, toArray_ofArray, List.extract_eq_take_drop]
  item? index := by
    unfold RadixArray.item?
    rw [get?_ofList]
  readAll indices := by
    rw [readAll_ofList]
    unfold RadixArray.item?
    simp only [get?_ofList]

end TypedVectors.RadixArray
