import TypedVectors.Proofs.Recycling

/-!
Recycling goes through every operand in cycles. Operands are read as far as the longest of them,
each from its first item to its last and over again, and no item is left out. A warning says which
length does not end where the longest one does.
-/
namespace TypedVectors

theorem longest_mem (lengths : List Nat) : longest lengths ∈ lengths ∨ lengths = [] := by
  cases lengths with
  | nil => exact .inr rfl
  | cons first rest =>
    refine .inl (List.max?_mem ?_)
    rw [longest, List.foldl_cons, Nat.zero_max, List.max?_cons']

namespace Recycling

theorem source_attained {n length place : Nat} (fits : n ≤ length) (inside : place < n) :
    ∃ index < length, source n index = place :=
  ⟨place, Nat.lt_of_lt_of_le inside fits, Nat.mod_eq_of_lt inside⟩

/-- Operands of some lengths read in cycles as far as the longest of them. The warning is about the
first length that does not divide the longest. -/
structure Cycles (lengths : List Nat) (alignment : Alignment) : Prop where
  fits : ∀ n ∈ lengths, n ≤ alignment.length
  attained : alignment.length ∈ lengths ∨ lengths = [] ∧ alignment.length = 0
  cyclic : ∀ n ∈ lengths, ∀ index < alignment.length,
    source n index = index % n ∧ source n index < n
  complete : ∀ n ∈ lengths, ∀ place < n, ∃ index < alignment.length, source n index = place
  silent : alignment.warning? = none ↔ ∀ n ∈ lengths, n ∣ alignment.length
  told : ∀ before n after, lengths = before ++ n :: after →
    (∀ m ∈ before, m ∣ alignment.length) → ¬n ∣ alignment.length →
      alignment.warning? = some (.recycledLength alignment.length n)

theorem cycles_of_align {lengths : List Nat} {alignment : Alignment}
    (ok : align lengths = .ok alignment) : Cycles lengths alignment := by
  have length : alignment.length = longest lengths := (align_success ok).1
  have fits : ∀ n ∈ lengths, n ≤ alignment.length := by
    rw [length]
    exact fun n inside => le_longest inside
  exact
    { fits := fits
      attained := by
        rw [length]
        refine (longest_mem lengths).imp id fun empty => ⟨empty, ?_⟩
        rw [empty]
        rfl
      cyclic := fun n inside index below => ⟨rfl, align_inside ok below inside⟩
      complete := fun n inside place => source_attained (fits n inside)
      silent := by
        rw [length]
        exact (align_warning? ok).1
      told := by
        rw [length]
        exact fun before n after => align_first ok }

/-- Two operands side by side are read as any operands are. -/
structure Pairing.Reads (pairing : Pairing) (left right : Nat) (alignment : Alignment) : Prop where
  length : pairing.length = alignment.length
  left : ∀ index, pairing.left index = source left index
  right : ∀ index, pairing.right index = source right index
  warning : pairing.warning? = alignment.warning?

theorem pair_reads (left right : Nat) :
    (∃ error, align [left, right] = .error error ∧ pair left right = .error error) ∨
      ∃ alignment pairing, align [left, right] = .ok alignment ∧ pair left right = .ok pairing ∧
        pairing.Reads left right alignment := by
  unfold pair
  cases align [left, right] with
  | error error => exact .inl ⟨error, rfl, rfl⟩
  | ok alignment => exact .inr ⟨alignment, _, rfl, rfl, ⟨rfl, fun _ => rfl, fun _ => rfl, rfl⟩⟩

theorem onto_cases (given targets : Nat) :
    (given = 0 ∧ 0 < targets) ∧ onto given targets = .error (.emptyReplacement targets) ∨
      ¬(given = 0 ∧ 0 < targets) ∧ ∃ warning?, onto given targets = .ok warning? := by
  unfold onto
  split
  · next untargeted => exact .inr ⟨by omega, none, rfl⟩
  · next targeted =>
    split
    · next empty => exact .inl ⟨⟨empty, Nat.pos_of_ne_zero targeted⟩, rfl⟩
    · next nonempty =>
      refine .inr ⟨fun both => nonempty both.1, ?_⟩
      split
      · exact ⟨none, rfl⟩
      · exact ⟨some _, rfl⟩

/-- Values are read in cycles for their targets. -/
structure Covers (given targets : Nat) (warning? : Option Warning) : Prop where
  inside : ∀ index < targets, source given index = index % given ∧ source given index < given
  told : warning?.isSome ↔ 0 < targets ∧ ¬given ∣ targets

theorem covers_of_onto {given targets : Nat} {warning? : Option Warning}
    (ok : onto given targets = .ok warning?) : Covers given targets warning? where
  inside := fun index below => ⟨rfl, onto_inside ok below⟩
  told := by
    rw [Option.isSome_iff_ne_none, ne_eq, (onto_warning? ok).1]
    refine ⟨fun part => ⟨Nat.pos_of_ne_zero fun untargeted => part ?_, part⟩, And.right⟩
    rw [untargeted]
    exact Nat.dvd_zero given

/-- Operands are aligned unless an empty one is among others, two of them as any number, and values
are recycled unless there are none for some targets. Whatever is recycled is read in cycles, never
outside, and told of exactly where the last cycle is not whole. -/
theorem recycling_cyclic :
    (∀ lengths, Unfit lengths ∧ align lengths = .error (.emptyOperand lengths) ∨
      ¬Unfit lengths ∧ ∃ alignment, align lengths = .ok alignment ∧ Cycles lengths alignment) ∧
    (∀ left right,
      (∃ error, align [left, right] = .error error ∧ pair left right = .error error) ∨
      ∃ alignment pairing, align [left, right] = .ok alignment ∧ pair left right = .ok pairing ∧
        pairing.Reads left right alignment) ∧
    ∀ given targets,
      (given = 0 ∧ 0 < targets) ∧ onto given targets = .error (.emptyReplacement targets) ∨
      ¬(given = 0 ∧ 0 < targets) ∧
        ∃ warning?, onto given targets = .ok warning? ∧ Covers given targets warning? := by
  refine ⟨fun lengths => ?_, pair_reads, fun given targets => ?_⟩
  · refine (align_cases lengths).imp id fun ⟨fit, alignment, ok⟩ => ?_
    exact ⟨fit, alignment, ok, cycles_of_align ok⟩
  · refine (onto_cases given targets).imp id fun ⟨fit, warning?, ok⟩ => ?_
    exact ⟨fit, warning?, ok, covers_of_onto ok⟩

/-- Six items beside two, four and one: four is the first length that does not divide six. -/
example : align [6, 2, 4, 1] = .ok ⟨6, some (.recycledLength 6 4)⟩ := by decide

end Recycling
end TypedVectors
