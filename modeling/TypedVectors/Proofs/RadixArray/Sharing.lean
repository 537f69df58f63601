import Mathlib.Data.List.Nodup
import TypedVectors.Proofs.RadixArray.Versions

/-!
Programs whose edits are made under owners, in one memory. An edit writes over pages of its base
that were made under its own owner, and a version that loses a page so is read no longer. A version
is intact as long as all its pages are as they were and the version it was made from was intact
then. What is intact reads as the list it stands for. It stays intact through edits under other
owners than those that have made its pages, so that an owner may edit again what it made last.
-/
namespace TypedVectors.RadixArray

/-- The outcome before which an edit is made. -/
def Edit.base? {α : Type} : Edit α → Option Nat
  | .empty | .ofList _ => none
  | .push base _ | .set base _ _ | .grow base _ _ => some base

/-- An edit and the owner under whom it is made. -/
structure Signed (α : Type) where
  owner? : Option Owner
  edit : Edit α

/-- The memory and the outcomes after some edits. -/
structure Shelf (α : Type) where
  memory : Memory α
  outcomes : List (Outcome Version)

variable {α : Type}

namespace Shelf

def empty : Shelf α := ⟨.empty, []⟩

/-- A version and the memory it stands in, made by an edit of the outcome of its base. -/
def onBase (shelf : Shelf α) (base : Nat)
    (edit : Version → Except Fault (Version × Memory α)) : Outcome Version × Memory α :=
  match shelf.outcomes[base]? with
  | some (.version version) =>
    match edit version with
    | .ok (next, memory) => (.version next, memory)
    | .error fault => (.refused fault, shelf.memory)
  | _ => (.baseless, shelf.memory)

/-- The outcome of an edit and the memory after it. -/
def outcome (shelf : Shelf α) (signed : Signed α) : Outcome Version × Memory α :=
  let memory := shelf.memory
  match signed.edit with
  | .empty =>
    let (version, memory) := memory.ofArray RadixArray.empty
    (.version version, memory)
  | .ofList items =>
    let (version, memory) := memory.ofArray (RadixArray.ofList items)
    (.version version, memory)
  | .push base x => shelf.onBase base fun version => .ok (memory.push signed.owner? version x)
  | .set base index x => shelf.onBase base fun version => memory.set signed.owner? version index x
  | .grow base size fill =>
    shelf.onBase base fun version => .ok (memory.grow signed.owner? version size fill)

def after (shelf : Shelf α) (signed : Signed α) : Shelf α :=
  let (outcome, memory) := shelf.outcome signed
  ⟨memory, shelf.outcomes ++ [outcome]⟩

/-- The outcomes of all edits of a program. -/
def run (program : List (Signed α)) : Shelf α := program.foldl after empty

/-- Whether a page belongs to the version that an edit came to. -/
def Holds (shelf : Shelf α) (step page : Nat) : Prop :=
  ∃ version, shelf.outcomes[step]? = some (.version version) ∧ shelf.memory.Pages version page

theorem run_concat (program : List (Signed α)) (signed : Signed α) :
    run (program ++ [signed]) = (run program).after signed := by
  rw [run, List.foldl_append]
  rfl

theorem length_run (program : List (Signed α)) :
    (run program).outcomes.length = program.length := by
  induction program using List.reverseRecOn with
  | nil => rfl
  | append_singleton program signed ih =>
    rw [run_concat, after, List.length_append, List.length_append, ih]
    rfl

theorem memory_run_concat (program : List (Signed α)) (signed : Signed α) :
    (run (program ++ [signed])).memory = ((run program).outcome signed).2 := by
  rw [run_concat]
  rfl

theorem outcomes_run_before {program : List (Signed α)} {step : Nat} (signed : Signed α)
    (before : step < program.length) :
    (run (program ++ [signed])).outcomes[step]? = (run program).outcomes[step]? := by
  rw [run_concat, after, List.getElem?_append_left (by rwa [length_run])]

theorem outcomes_run_last (program : List (Signed α)) (signed : Signed α) :
    (run (program ++ [signed])).outcomes[program.length]? =
      some ((run program).outcome signed).1 := by
  rw [run_concat, after, ← length_run program]
  exact List.getElem?_concat_length

end Shelf

/-- The version that an edit of a program came to has all its pages as they were when it was made,
from a version of which the same was true. -/
inductive Intact : (program : List (Signed α)) → (step : Nat) → Prop
  | made {program : List (Signed α)} {signed : Signed α}
    (base : ∀ base < program.length, signed.edit.base? = some base → Intact program base) :
    Intact (program ++ [signed]) program.length
  | kept {program : List (Signed α)} {signed : Signed α} {step : Nat}
    (intact : Intact program step)
    (same : ∀ page, (Shelf.run program).Holds step page →
      (Shelf.run (program ++ [signed])).memory.pages[page]? =
        (Shelf.run program).memory.pages[page]?) :
    Intact (program ++ [signed]) step

/-- The owners of the edits of a program. -/
def owners (program : List (Signed α)) : List Owner := program.filterMap (·.owner?)

/-- An edit after which no owner edits that has edited before. -/
def Settled (program : List (Signed α)) (step : Nat) : Prop :=
  step < program.length ∧
    ∀ owner ∈ owners (program.take (step + 1)), owner ∉ owners (program.drop (step + 1))

/-- Every read of a version gives the items of a list. -/
structure Memory.Shows (memory : Memory α) (version : Version) (items : List α) : Prop where
  size : version.size = items.length
  toArray : memory.toArray version = items.toArray
  slice : ∀ start stop,
    (memory.slice version start stop).toList = (items.drop start).take (stop - start)
  item? : ∀ index : Int,
    memory.item? version index = if index < 0 then none else items[index.toNat]?
  readAll : ∀ indices, memory.readAll version indices = indices.map (memory.item? version)

/-- The same outcome, where a version of one shows what the version of the other is. -/
inductive Outcome.Agrees (memory : Memory α) : Outcome Version → Outcome (List α) → Prop
  | version {version : Version} {items : List α} (shows : memory.Shows version items) :
    Agrees memory (.version version) (.version items)
  | refused (fault : Fault) : Agrees memory (.refused fault) (.refused fault)
  | baseless : Agrees memory .baseless .baseless

/-- The same outcome, where a version of one stands for the version of the other. -/
inductive Outcome.Stands (memory : Memory α) : Outcome Version → Outcome (List α) → Prop
  | version {version : Version} {items : List α} (stands : memory.Stands version items) :
    Stands memory (.version version) (.version items)
  | refused (fault : Fault) : Stands memory (.refused fault) (.refused fault)
  | baseless : Stands memory .baseless .baseless

theorem Memory.Stands.shows {memory : Memory α} {version : Version} {items : List α}
    (stands : memory.Stands version items) : memory.Shows version items where
  size := stands.size
  toArray := by rw [Memory.toArray, stands.array, ofList, toArray_ofArray]
  slice := by
    unfold Memory.slice
    rw [stands.array]
    exact (holds_ofList items).slice
  item? := by
    unfold Memory.item?
    rw [stands.own]
    exact (holds_ofList items).item?
  readAll := by
    unfold Memory.item? Memory.readAll
    rw [stands.own]
    exact (holds_ofList items).readAll

theorem Outcome.Stands.congr {memory memory' : Memory α} {here : Outcome Version}
    {there : Outcome (List α)} (stands : Outcome.Stands memory here there)
    (same : ∀ version, here = .version version → ∀ page, memory.Pages version page →
      memory'.pages[page]? = memory.pages[page]?) : Outcome.Stands memory' here there := by
  cases stands with
  | version stands => exact .version (stands.congr (same _ rfl))
  | refused fault => exact .refused fault
  | baseless => exact .baseless

theorem Outcome.Stands.agrees {memory : Memory α} {here : Outcome Version}
    {there : Outcome (List α)} (stands : Outcome.Stands memory here there) :
    Outcome.Agrees memory here there := by
  cases stands with
  | version stands => exact .version stands.shows
  | refused fault => exact .refused fault
  | baseless => exact .baseless

namespace Shelf

variable {shelf : Shelf α} {signed : Signed α} {before : List (Outcome (List α))}

/-- The pages of the version that is the base of an edit. -/
def BasePage (shelf : Shelf α) (signed : Signed α) (page : Nat) : Prop :=
  ∃ base, signed.edit.base? = some base ∧ shelf.Holds base page

/-- An edit comes to the outcome it has on lists. It writes over pages in its scope only, and makes
a version of such pages and of new ones. -/
structure Mirrors (owner? : Option Owner) (scope : Nat → Prop) (before : Memory α)
    (result : Outcome Version × Memory α) (expected : Outcome (List α)) : Prop where
  stands : Outcome.Stands result.2 result.1 expected
  edited : Memory.Edited owner? scope before result.2
  pages : ∀ version, result.1 = .version version → ∀ page, result.2.Pages version page →
    scope page ∨ before.size ≤ page

theorem mirrors_made {owner? : Option Owner} {scope : Nat → Prop} {m m' : Memory α}
    {version : Version} {items : List α} (made : Memory.Made owner? scope m m' version items) :
    Mirrors owner? scope m (.version version, m') (.version items) where
  stands := .version made.stands
  edited := made.edited
  pages _ same := by
    cases same
    exact made.pages

theorem Mirrors.mono {owner? : Option Owner} {scope wider : Nat → Prop} {m : Memory α}
    {result : Outcome Version × Memory α} {expected : Outcome (List α)}
    (mirrors : Mirrors owner? scope m result expected)
    (within : ∀ page, scope page → wider page) : Mirrors owner? wider m result expected where
  stands := mirrors.stands
  edited := mirrors.edited.mono within
  pages version same page member := (mirrors.pages version same page member).imp_left (within page)

theorem onBase_mirrors {base : Nat} {owner? : Option Owner}
    {edit : Version → Except Fault (Version × Memory α)} {step : List α → Except Fault (List α)}
    (agree : Option.Rel (Outcome.Stands shelf.memory) shelf.outcomes[base]? before[base]?)
    (mirrors : ∀ version items, shelf.memory.Stands version items →
      Memory.Mirrors owner? shelf.memory version (edit version) (step items)) :
    Mirrors owner? (shelf.Holds base) shelf.memory (shelf.onBase base edit)
      (Outcome.onBase before[base]? step) := by
  unfold onBase
  cases here : shelf.outcomes[base]? with
  | none =>
    rw [here] at agree
    generalize before[base]? = there at agree
    cases agree
    exact ⟨.baseless, .refl _, nofun⟩
  | some outcome =>
    rw [here] at agree
    generalize before[base]? = there at agree
    rcases agree with ⟨stands⟩ | _
    cases stands with
    | @version version items stands =>
      have mirrors := mirrors version items stands
      rw [Outcome.onBase]
      dsimp only
      generalize edit version = edited at mirrors ⊢
      generalize step items = stepped at mirrors ⊢
      cases mirrors with
      | made made => exact (mirrors_made made).mono fun page member => ⟨version, here, member⟩
      | refused fault => exact ⟨.refused fault, .refl _, nofun⟩
    | refused fault => exact ⟨.baseless, .refl _, nofun⟩
    | baseless => exact ⟨.baseless, .refl _, nofun⟩

/-- An edit does what it does on lists, with the pages of its base. -/
def Follows (shelf : Shelf α) (signed : Signed α) (before : List (Outcome (List α))) : Prop :=
  Mirrors signed.owner? (shelf.BasePage signed) shelf.memory (shelf.outcome signed)
    (Storage.lists.outcome before signed.edit)

theorem outcome_follows
    (base : ∀ base, signed.edit.base? = some base →
      Option.Rel (Outcome.Stands shelf.memory) shelf.outcomes[base]? before[base]?) :
    shelf.Follows signed before := by
  obtain ⟨owner?, edit⟩ := signed
  cases edit with
  | empty =>
    have made := shelf.memory.ofArray_made ([] : List α)
    rw [← empty_eq_ofList] at made
    exact mirrors_made made.of_none
  | ofList items => exact mirrors_made (shelf.memory.ofArray_made items).of_none
  | push place x =>
    refine Mirrors.mono ?_ fun page member => ⟨place, rfl, member⟩
    exact onBase_mirrors (base place rfl) fun version items stands =>
      .made (Memory.push_made owner? stands x)
  | set place index x =>
    refine Mirrors.mono ?_ fun page member => ⟨place, rfl, member⟩
    exact onBase_mirrors (base place rfl) fun version items stands =>
      Memory.set_mirrors stands index x
  | grow place size fill =>
    refine Mirrors.mono ?_ fun page member => ⟨place, rfl, member⟩
    exact onBase_mirrors (base place rfl) fun version items stands =>
      .made (Memory.grow_made stands size fill)

end Shelf

theorem length_history {σ : Type} (storage : Storage α σ) (program : List (Edit α)) :
    (storage.history program).length = program.length := by
  induction program using List.reverseRecOn with
  | nil => rfl
  | append_singleton program edit ih =>
    rw [Storage.history_concat, List.length_append, List.length_append, ih]
    rfl

/-- What a program comes to on lists, whoever makes its edits. -/
def persistent (program : List (Signed α)) : List (Outcome (List α)) :=
  Storage.lists.history (program.map (·.edit))

theorem persistent_concat (program : List (Signed α)) (signed : Signed α) :
    persistent (program ++ [signed]) =
      persistent program ++ [Storage.lists.outcome (persistent program) signed.edit] := by
  rw [persistent, List.map_append, List.map_singleton, Storage.history_concat]
  rfl

theorem length_persistent (program : List (Signed α)) :
    (persistent program).length = program.length := by
  rw [persistent, length_history, List.length_map]

theorem persistent_before {program : List (Signed α)} {step : Nat} (signed : Signed α)
    (before : step < program.length) :
    (persistent (program ++ [signed]))[step]? = (persistent program)[step]? := by
  rw [persistent_concat, List.getElem?_append_left (by rwa [length_persistent])]

theorem persistent_last (program : List (Signed α)) (signed : Signed α) :
    (persistent (program ++ [signed]))[program.length]? =
      some (Storage.lists.outcome (persistent program) signed.edit) := by
  rw [persistent_concat, ← length_persistent program]
  exact List.getElem?_concat_length

section Run

variable {program : List (Signed α)} {signed : Signed α} {step : Nat}

theorem Intact.lt_length (intact : Intact program step) : step < program.length := by
  induction intact with
  | made base ih => simp
  | kept intact same ih =>
    rw [List.length_append]
    exact Nat.lt_add_right _ ih

/-- An edit of a base that stands as it does on lists. -/
theorem follows_of_stands
    (stands : ∀ base < program.length, signed.edit.base? = some base →
      Option.Rel (Outcome.Stands (Shelf.run program).memory) (Shelf.run program).outcomes[base]?
        (persistent program)[base]?) :
    (Shelf.run program).Follows signed (persistent program) := by
  refine Shelf.outcome_follows fun base found => ?_
  rcases Nat.lt_or_ge base program.length with inside | past
  · exact stands base inside found
  · rw [List.getElem?_eq_none (by rwa [Shelf.length_run]),
      List.getElem?_eq_none (by rwa [length_persistent])]
    exact .none

theorem Intact.stands (intact : Intact program step) :
    Option.Rel (Outcome.Stands (Shelf.run program).memory) (Shelf.run program).outcomes[step]?
      (persistent program)[step]? := by
  induction intact with
  | @made program signed base ih =>
    rw [Shelf.memory_run_concat, Shelf.outcomes_run_last, persistent_last]
    exact .some (follows_of_stands ih).stands
  | @kept program signed step intact same ih =>
    rw [Shelf.outcomes_run_before signed intact.lt_length,
      persistent_before signed intact.lt_length]
    cases here : (Shelf.run program).outcomes[step]? with
    | none =>
      rw [here] at ih
      generalize (persistent program)[step]? = there at ih ⊢
      cases ih
      exact .none
    | some outcome =>
      rw [here] at ih
      generalize (persistent program)[step]? = there at ih ⊢
      rcases ih with ⟨stands⟩ | _
      refine .some (stands.congr ?_)
      rintro version rfl page member
      exact same page ⟨version, here, member⟩

theorem Intact.follows (signed : Signed α)
    (base : ∀ base < program.length, signed.edit.base? = some base → Intact program base) :
    (Shelf.run program).Follows signed (persistent program) :=
  follows_of_stands fun place inside found => (base place inside found).stands

theorem Intact.page_inside {page : Nat} (intact : Intact program step)
    (member : (Shelf.run program).Holds step page) : page < (Shelf.run program).memory.size := by
  obtain ⟨version, here, member⟩ := member
  have stands := intact.stands
  rw [here] at stands
  generalize (persistent program)[step]? = there at stands
  rcases stands with ⟨⟨stands⟩⟩ | _
  exact stands.page_inside member

/-- A page that an edit writes over is one of its base, made under its owner. -/
theorem written_page {page : Nat}
    (base : ∀ base < program.length, signed.edit.base? = some base → Intact program base)
    (inside : page < (Shelf.run program).memory.size)
    (written : (Shelf.run (program ++ [signed])).memory.pages[page]? ≠
      (Shelf.run program).memory.pages[page]?) :
    (Shelf.run program).BasePage signed page ∧
      (Shelf.run program).memory.owned signed.owner? page := by
  rw [Shelf.memory_run_concat] at written
  have kept := (Intact.follows signed base).edited.kept page inside
  constructor
  · by_contra foreign
    exact written (kept fun member => absurd member foreign)
  · by_contra unowned
    exact written (kept fun _ => Bool.eq_false_iff.2 unowned)

theorem owned_eq_false {owner? : Option Owner} {memory : Memory α} {page : Nat}
    (foreign : ∀ owner, owner? = some owner → memory.owner? page ≠ some owner) :
    memory.owned owner? page = false := by
  cases owner? with
  | none => rfl
  | some owner => simpa [Memory.owned] using foreign owner rfl

/-- The pages of a version stay its pages as long as they are as they were. -/
theorem holds_concat (before : step < program.length)
    (same : ∀ page, (Shelf.run program).Holds step page →
      (Shelf.run (program ++ [signed])).memory.pages[page]? =
        (Shelf.run program).memory.pages[page]?) {page : Nat} :
    (Shelf.run (program ++ [signed])).Holds step page ↔ (Shelf.run program).Holds step page := by
  unfold Shelf.Holds
  rw [Shelf.outcomes_run_before signed before]
  refine exists_congr fun version => and_congr_right fun here => ?_
  exact Memory.pages_congr fun other member => same other ⟨version, here, member⟩

/-- What is settled was so one edit before, which was made under another owner. -/
theorem Settled.before (settled : Settled (program ++ [signed]) step)
    (inside : step < program.length) : Settled program step ∧
      ∀ owner ∈ owners (program.take (step + 1)), signed.owner? ≠ some owner := by
  obtain ⟨-, fresh⟩ := settled
  rw [List.take_append_of_le_length inside, List.drop_append_of_le_length inside, owners, owners,
    List.filterMap_append] at fresh
  refine ⟨⟨inside, fun owner known later => ?_⟩, fun owner known signs => ?_⟩
  · exact fresh owner known (List.mem_append_left _ later)
  · exact fresh owner known (List.mem_append_right _ (by simp [signs]))

/-- An intact version whose pages bear owners of edits up to the one that made it. -/
structure Traced (program : List (Signed α)) (step : Nat) : Prop where
  intact : Intact program step
  known : ∀ page owner, (Shelf.run program).Holds step page →
    (Shelf.run program).memory.owner? page = some owner →
    owner ∈ owners (program.take (step + 1))

theorem Traced.later (traced : Traced program step)
    (based : ∀ base < program.length, signed.edit.base? = some base → Intact program base)
    (fresh : ∀ owner ∈ owners (program.take (step + 1)), signed.owner? ≠ some owner) :
    Traced (program ++ [signed]) step := by
  have before := traced.intact.lt_length
  have same : ∀ page, (Shelf.run program).Holds step page →
      (Shelf.run (program ++ [signed])).memory.pages[page]? =
        (Shelf.run program).memory.pages[page]? := by
    intro page member
    by_contra written
    have owned := (written_page based (traced.intact.page_inside member) written).2
    rw [owned_eq_false fun owner signs made =>
      fresh owner (traced.known page owner member made) signs] at owned
    cases owned
  refine ⟨.kept traced.intact same, fun page owner member made => ?_⟩
  have old := (holds_concat before same).1 member
  rw [Memory.owner?_congr (same page old)] at made
  rw [List.take_append_of_le_length before]
  exact traced.known page owner old made

end Run

end TypedVectors.RadixArray
