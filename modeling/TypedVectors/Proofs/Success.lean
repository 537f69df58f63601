import Mathlib.Data.List.Forall2
import TypedVectors.Error

/-!
Computations that can fail: what their steps gave where they succeed, when a step for every item of
a list succeeds, and what they depend on of their operands.
-/
namespace TypedVectors

variable {ε α β : Type}

theorem bind_success {first : Except ε α} {next : α → Except ε β} {result : β}
    (ok : (first >>= next) = .ok result) :
    ∃ value, first = .ok value ∧ next value = .ok result := by
  cases first with
  | error error => cases ok
  | ok value => exact ⟨value, rfl, ok⟩

theorem pure_success {value result : α} (ok : (pure value : Except ε α) = .ok result) :
    value = result := Except.ok.inj ok

theorem map_success {first : Except ε α} {f : α → β} {result : β}
    (ok : first.map f = .ok result) : ∃ value, first = .ok value ∧ f value = result := by
  cases first with
  | error error => cases ok
  | ok value => exact ⟨value, rfl, Except.ok.inj ok⟩

theorem map_failure {first : Except ε α} {f : α → β} {cause : ε}
    (failed : first.map f = .error cause) : first = .error cause := by
  cases first with
  | error error => exact congrArg Except.error (Except.error.inj failed)
  | ok value => cases failed

theorem bind_congr_of_map {γ : Type} {first second : Except ε α} {f : α → β}
    {next other : α → Except ε γ} (same : first.map f = second.map f)
    (through : ∀ x y, f x = f y → next x = other y) : first >>= next = second >>= other := by
  cases first with
  | error error =>
    cases second with
    | error cause =>
      cases same
      rfl
    | ok y => cases same
  | ok x =>
    cases second with
    | error cause => cases same
    | ok y => exact through x y (Except.ok.inj same)

theorem mapError_success {δ : Type} {first : Except ε α} {f : ε → δ} {result : α}
    (ok : first.mapError f = .ok result) : first = .ok result := by
  cases first with
  | error error => cases ok
  | ok value => exact congrArg Except.ok (Except.ok.inj ok)

/-- Two checks that are made under a condition, before a step that is made in any case. -/
theorem guarded_success {guard : Bool} {first second : Except ε Unit} {next : Unit → Except ε β}
    {result : β}
    (ok : (if guard then first >>= fun _ => second >>= next else next ()) = .ok result) :
    (guard → first = .ok () ∧ second = .ok ()) ∧ next () = .ok result := by
  split at ok
  · obtain ⟨_, firstChecked, ok⟩ := bind_success ok
    obtain ⟨_, secondChecked, ok⟩ := bind_success ok
    exact ⟨fun _ => ⟨firstChecked, secondChecked⟩, ok⟩
  · next unguarded => exact ⟨fun guarded => absurd guarded unguarded, ok⟩

theorem guarded_eq {guard : Bool} {first second : Except ε Unit} {next : Unit → Except ε β}
    (checked : guard → first = .ok () ∧ second = .ok ()) :
    (if guard then first >>= fun _ => second >>= next else next ()) = next () := by
  split
  · next guarded =>
    obtain ⟨firstChecked, secondChecked⟩ := checked guarded
    rw [firstChecked, secondChecked]
    rfl
  · rfl

theorem mapM_success {step : α → Except ε β} {items : List α} {results : List β}
    (ok : items.mapM step = .ok results) :
    List.Forall₂ (fun item result => step item = .ok result) items results := by
  induction items generalizing results with
  | nil =>
    rw [List.mapM_nil] at ok
    rw [← pure_success ok]
    exact .nil
  | cons item items ih =>
    rw [List.mapM_cons] at ok
    obtain ⟨result, head, ok⟩ := bind_success ok
    obtain ⟨rest, tail, ok⟩ := bind_success ok
    rw [← pure_success ok]
    exact .cons head (ih tail)

theorem mapM_of_forall₂ {step : α → Except ε β} {items : List α} {results : List β}
    (each : List.Forall₂ (fun item result => step item = .ok result) items results) :
    items.mapM step = .ok results := by
  induction each with
  | nil => rfl
  | cons head _ ih =>
    rw [List.mapM_cons, head, ih]
    rfl

theorem mapM_eq_ok {step : α → Except ε β} {f : α → β} {items : List α}
    (each : ∀ item ∈ items, step item = .ok (f item)) :
    items.mapM step = .ok (items.map f) :=
  mapM_of_forall₂ (List.forall₂_map_right_iff.2 (List.forall₂_same.2 each))

theorem mapM_congr {step other : α → Except ε β} {items : List α}
    (each : ∀ item ∈ items, step item = other item) : items.mapM step = items.mapM other := by
  induction items with
  | nil => rfl
  | cons first rest ih =>
    rw [List.mapM_cons, List.mapM_cons, each first List.mem_cons_self,
      ih fun item inside => each item (List.mem_cons_of_mem first inside)]

theorem mapM_congr_of_map {step : α → Except ε β} {here there : List α}
    (same : here.map step = there.map step) : here.mapM step = there.mapM step := by
  have through : ∀ items : List α, items.mapM step = (items.map step).mapM id := by
    intro items
    have composed : (items.map step).mapM id = items.mapM (id ∘ step) := List.mapM_map
    exact composed.symm
  rw [through here, through there, same]

theorem map_mapM_congr {γ : Type} {step : α → Except ε β} {f : β → γ} {here there : List α}
    (each : List.Forall₂ (fun x y => (step x).map f = (step y).map f) here there) :
    (here.mapM step).map (List.map f) = (there.mapM step).map (List.map f) := by
  have through : ∀ items : List α,
      (items.mapM step).map (List.map f) = items.mapM fun x => (step x).map f := by
    intro items
    induction items with
    | nil => rfl
    | cons first rest ih =>
      rw [List.mapM_cons, List.mapM_cons, ← ih]
      cases step first with
      | error error => rfl
      | ok head =>
        cases rest.mapM step with
        | error error => rfl
        | ok tail => rfl
  rw [through here, through there]
  induction each with
  | nil => rfl
  | cons head _ ih => rw [List.mapM_cons, List.mapM_cons, head, ih]

theorem mapM_range_success {step : Nat → Except ε β} {count : Nat} {results : List β}
    (ok : (List.range count).mapM step = .ok results) {index : Nat} (below : index < count) :
    ∃ result, results[index]? = some result ∧ step index = .ok result := by
  obtain ⟨same, each⟩ := List.forall₂_iff_get.1 (mapM_success ok)
  have inside : index < (List.range count).length := by rwa [List.length_range]
  have found := each index inside (same ▸ inside)
  rw [List.get_eq_getElem, List.getElem_range, List.get_eq_getElem] at found
  exact ⟨_, List.getElem?_eq_getElem (same ▸ inside), found⟩

theorem exists_of_mapM {step : α → Except ε β} {items : List α} {results : List β}
    (ok : items.mapM step = .ok results) {result : β} (inside : result ∈ results) :
    ∃ item ∈ items, step item = .ok result := by
  have related := mapM_success ok
  clear ok
  induction related with
  | nil => cases inside
  | cons head _ ih =>
    rcases List.mem_cons.1 inside with rfl | later
    · exact ⟨_, List.mem_cons_self, head⟩
    · obtain ⟨item, member, done⟩ := ih later
      exact ⟨item, List.mem_cons_of_mem _ member, done⟩

theorem length_of_mapM {step : α → Except ε β} {items : List α} {results : List β}
    (ok : items.mapM step = .ok results) : results.length = items.length :=
  (mapM_success ok).length_eq.symm

theorem mapM_failure {step : α → Except ε β} {items : List α} {item : α} {error : ε}
    (inside : item ∈ items) (failed : step item = .error error) :
    ∃ other ∈ items, ∃ cause, step other = .error cause ∧ items.mapM step = .error cause := by
  induction items with
  | nil => cases inside
  | cons first rest ih =>
    rw [List.mapM_cons]
    cases head : step first with
    | error cause => exact ⟨first, List.mem_cons_self, cause, head, rfl⟩
    | ok result =>
      have later : item ∈ rest := by
        rcases List.mem_cons.1 inside with rfl | later
        · rw [head] at failed
          cases failed
        · exact later
      obtain ⟨other, member, cause, stopped, whole⟩ := ih later
      refine ⟨other, List.mem_cons_of_mem _ member, cause, stopped, ?_⟩
      rw [whole]
      rfl

theorem mapM_eq_error {step : α → Except ε β} {items : List α} {item : α} {error : ε}
    (inside : item ∈ items) (failed : step item = .error error)
    (only : ∀ other ∈ items, ∀ cause, step other = .error cause → cause = error) :
    items.mapM step = .error error := by
  obtain ⟨other, member, cause, stopped, whole⟩ := mapM_failure inside failed
  rw [whole, only other member cause stopped]

/-- A step for every item stops at the first item where it fails. -/
theorem mapM_stopped {step : α → Except ε β} {items : List α} {error : ε}
    (failed : items.mapM step = .error error) :
    ∃ before item after, items = before ++ item :: after ∧ step item = .error error ∧
      ∀ earlier ∈ before, ∃ result, step earlier = .ok result := by
  induction items with
  | nil => cases failed
  | cons first rest ih =>
    rw [List.mapM_cons] at failed
    cases head : step first with
    | error cause =>
      rw [head] at failed
      cases failed
      exact ⟨[], first, rest, rfl, head, fun earlier inside => by cases inside⟩
    | ok result =>
      rw [head] at failed
      have later : rest.mapM step = .error error := by
        change (rest.mapM step >>= _) = _ at failed
        cases tail : rest.mapM step with
        | error cause =>
          rw [tail] at failed
          cases failed
          rfl
        | ok results =>
          rw [tail] at failed
          cases failed
      obtain ⟨before, item, after, split, stopped, done⟩ := ih later
      refine ⟨first :: before, item, after, by rw [split, List.cons_append], stopped, ?_⟩
      intro earlier inside
      rcases List.mem_cons.1 inside with rfl | member
      · exact ⟨result, head⟩
      · exact done earlier member

theorem readAt_eq {items : Array α} {index : Nat} (inside : index < items.size) :
    readAt items index = .ok items[index] := by
  unfold readAt
  rw [Array.getElem?_eq_getElem inside]

end TypedVectors
