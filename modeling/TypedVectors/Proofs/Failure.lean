import TypedVectors.Proofs.Success

/-!
Computations that can fail, as far as they do: where no step fails but for admitted causes, neither
does the whole.
-/
namespace TypedVectors

variable {ε δ α β : Type}

/-- Whether a computation fails for admitted causes only. -/
def FailsOnly (admitted : ε → Prop) (result : Except ε α) : Prop :=
  ∀ cause, result = .error cause → admitted cause

namespace FailsOnly

variable {admitted : ε → Prop} {first : Except ε α}

theorem ok (value : α) : FailsOnly admitted (.ok value) := fun _ failed => by cases failed

theorem error {cause : ε} (allowed : admitted cause) :
    FailsOnly admitted (.error cause : Except ε α) := by
  rintro _ ⟨⟩
  exact allowed

theorem bind {next : α → Except ε β} (before : FailsOnly admitted first)
    (after : ∀ value, first = .ok value → FailsOnly admitted (next value)) :
    FailsOnly admitted (first >>= next) := by
  cases first with
  | error cause => exact error (before cause rfl)
  | ok value => exact after value rfl

theorem map (before : FailsOnly admitted first) (f : α → β) :
    FailsOnly admitted (first.map f) := by
  cases first with
  | error cause => exact error (before cause rfl)
  | ok value => exact ok (f value)

theorem mapError {f : ε → δ} {admitted : δ → Prop}
    (before : FailsOnly (fun cause => admitted (f cause)) first) :
    FailsOnly admitted (first.mapError f) := by
  cases first with
  | error cause => exact error (before cause rfl)
  | ok value => exact ok value

theorem mapM {step : α → Except ε β} {items : List α}
    (each : ∀ item ∈ items, FailsOnly admitted (step item)) :
    FailsOnly admitted (items.mapM step) := by
  induction items with
  | nil => exact ok []
  | cons item rest ih =>
    rw [List.mapM_cons]
    refine bind (each item List.mem_cons_self) fun _ _ => bind ?_ fun _ _ => ok _
    exact ih fun other later => each other (List.mem_cons_of_mem item later)

/-- Two checks that are made under a condition, before a step that is made in any case. -/
theorem guarded {guard : Bool} {check other : Except ε Unit} {next : Unit → Except ε β}
    (before : FailsOnly admitted check) (between : FailsOnly admitted other)
    (after : FailsOnly admitted (next ())) :
    FailsOnly admitted (if guard then check >>= fun _ => other >>= next else next ()) := by
  split
  · exact bind before fun _ _ => bind between fun _ _ => after
  · exact after

theorem of_eq_ok {value : α} (done : first = .ok value) : FailsOnly admitted first :=
  done ▸ ok value

end FailsOnly
end TypedVectors
