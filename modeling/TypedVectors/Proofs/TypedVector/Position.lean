import TypedVectors.Proofs.Binary64.Predecessor
import TypedVectors.Proofs.Elementwise.Selection

/-!
The cell at a position, read directly and extracted. Extraction cuts a position to a whole number.
The direct reading takes one away first, and cuts what is left only where it lies in the tree: a
position with a fraction finds nothing in the tail.
-/
namespace TypedVectors

theorem RadixArray.Canonical.packed_eq {α : Type} {xs : RadixArray α} (canonical : xs.Canonical) :
    xs.packed = (xs.size - 1) / width * width := by
  have layout := layout_ofArray xs.toArray
  have size := size_ofArray xs.toArray
  have same : ofArray xs.toArray = xs := canonical.symm
  rw [same] at layout size
  have split := Nat.div_add_mod' (xs.size - 1) width
  rw [layout.packed, size_treeItems, ← size, tailSize]
  generalize (xs.size - 1) / width * width = whole at *
  split
  · omega
  · omega

namespace TypedVector

open Binary64 Selection

variable {v : TypedVector} {p : Binary64} {place steps : ℕ}

theorem exists_place (finite : p.isFinite) (first : Binary64.le 1 p) :
    ∃ place : ℕ, p.trunc.toInt? = some ((place + 1 : ℕ) : ℤ) := by
  obtain ⟨steps, representable, rfl, reached⟩ := one_le_success finite first
  have positive := Nat.div_pos reached unit_pos
  refine ⟨steps / unit - 1, ?_⟩
  rw [toInt?_trunc rfl, signedSteps_false, ← Int.ofNat_tdiv, Nat.sub_add_cancel positive]

theorem isNaN_sub_one (finite : p.isFinite) (first : Binary64.le 1 p) : (p - 1).isNaN = false := by
  obtain ⟨steps, representable, rfl, reached⟩ := one_le_success finite first
  by_cases ones : unit ∣ steps
  · have count : steps = (steps / unit - 1 + 1) * unit := by
      rw [Nat.sub_add_cancel (Nat.div_pos reached unit_pos), Nat.div_mul_cancel ones]
    obtain ⟨fits, index⟩ := sub_one_whole representable count
    rw [index]
    rfl
  · obtain ⟨fits, index⟩ := sub_one_fraction representable reached ones
    rw [index]
    rfl

theorem placeAt?_finite {representable : Representable steps}
    (index : p - 1 = finite false steps representable) :
    v.placeAt? p =
      if unit ∣ steps ∨ steps / unit < v.cells.packed then some (steps / unit) else none := by
  have nonneg : 0 ≤ (finite false steps representable).level := Int.natCast_nonneg steps
  have notBelow : (finite false steps representable).lt 0 = false :=
    eq_false_of_ne_true (mt (level_lt_zero rfl).1 (not_lt.2 nonneg))
  have cut : (finite false steps representable).floor.toInt?.map Int.toNat =
      some (steps / unit) := by
    rw [toInt?_floor rfl nonneg, level_finite, if_neg Bool.false_ne_true, ← Int.ofNat_tdiv,
      Option.map_some, Int.toNat_natCast]
  unfold placeAt?
  rw [index]
  dsimp only
  rw [isNaN_eq_false (ne_nan_of_finite rfl), if_neg Bool.false_ne_true, notBelow,
    if_neg Bool.false_ne_true, cut, toInt?]
  by_cases ones : unit ∣ steps
  · rw [if_pos (Or.inl ones), if_pos (Nat.mod_eq_zero_of_dvd ones)]
    split
    · rfl
    · rfl
  · have inTree := lt_ofNat_fraction representable ones v.cells.packed
    rw [if_neg (mt Nat.dvd_of_mod_eq_zero ones)]
    split
    · next below => rw [if_pos (Or.inr (inTree.1 below))]
    · next past => rw [if_neg (not_or.2 ⟨ones, mt inTree.2 past⟩), Option.map_none]

section Place

variable (finite : p.isFinite) (first : Binary64.le 1 p)
  (cut : p.trunc.toInt? = some ((place + 1 : ℕ) : ℤ))
include finite first cut

theorem placeAt?_eq : v.placeAt? p =
    if p.isWhole ∨ place < v.cells.packed then some (wholeNumber place) else none := by
  obtain ⟨steps, representable, rfl, reached⟩ := one_le_success finite first
  have positive := unit_pos
  have quotient : steps / unit = place + 1 := by
    rwa [toInt?_trunc rfl, signedSteps_false, ← Int.ofNat_tdiv, Option.some_inj, Int.ofNat_inj]
      at cut
  have whole := isWhole_iff representable
  by_cases ones : unit ∣ steps
  · have count : steps = (place + 1) * unit := by rw [← quotient, Nat.div_mul_cancel ones]
    obtain ⟨fits, index⟩ := sub_one_whole representable count
    rw [placeAt?_finite index, if_pos (Or.inl (Nat.dvd_mul_left _ _)),
      if_pos (Or.inl (whole.2 ones)), Nat.mul_div_cancel _ positive, wholeNumber]
  · obtain ⟨fits, index⟩ := sub_one_fraction representable reached ones
    have fraction : ¬unit ∣ steps - unit := fun rest =>
      ones ((Nat.dvd_sub_iff_left reached (Nat.dvd_refl unit)).1 rest)
    have small : steps < twoTo 53 * unit :=
      Nat.not_le.1 (mt (unit_dvd_steps representable) ones)
    have below : (steps - unit) / unit = place := by
      have next := Nat.div_eq_sub_div positive reached
      omega
    have kept : wholeNumber place = place := by
      refine roundSteps_small ?_
      rw [← below, Nat.div_lt_iff_lt_mul positive]
      omega
    rw [placeAt?_finite index, below, kept]
    simp only [fraction, false_or, whole, ones]

theorem cellAt_eq (canonical : v.cells.Canonical) : v.cellAt p =
    .ok (if p.isWhole ∨ place < (v.length - 1) / 32 * 32 then
      (v.cells.toList[wholeNumber place]?).getD .missing
    else .missing) := by
  have inTree : v.cells.packed = (v.length - 1) / 32 * 32 := canonical.packed_eq
  rw [cellAt, isNaN_sub_one finite first, if_neg (fun both => Bool.false_ne_true both.1),
    placeAt?_eq finite first cut, inTree]
  refine congrArg Except.ok ?_
  split
  · rw [Option.bind_some, canonical.get?_eq]
  · rfl

end Place

theorem resolvePositions_single (cut : p.trunc.toInt? = some ((place + 1 : ℕ) : ℤ)) (length : ℕ) :
    resolvePositions [some p] length .read = .ok (resolution [.place (wholeNumber place)]) := by
  have whole : wholePosition (some p) = .ok (some ((place + 1 : ℕ) : ℤ)) := by
    cases p with
    | nan | infinite _ => cases cut
    | finite _ _ _ => exact congrArg Except.ok cut
  have positions : [some p].mapM wholePosition = .ok [some ((place + 1 : ℕ) : ℤ)] := by
    rw [List.mapM_cons, whole]
    rfl
  have below : ([some ((place + 1 : ℕ) : ℤ)].any (·.any (· < 0))) = false := by
    rw [List.any_cons, List.any_nil, Option.any_some, decide_eq_false (by omega), Bool.or_false]
  have target : Reference.computedTarget? (some ((place + 1 : ℕ) : ℤ)) =
      some (.place (wholeNumber place)) := by
    rw [Reference.computedTarget?, if_pos (by omega), Int.toNat_natCast, Nat.add_sub_cancel]
  simp only [resolvePositions, positions, bind, Except.bind, below, Bool.false_and,
    Bool.false_eq_true, if_false, Reference.addressed_eq, List.filterMap_cons, target]
  rfl

theorem extractBy_cut (regular : v.Regular)
    (cut : p.trunc.toInt? = some ((place + 1 : ℕ) : ℤ)) :
    v.extractBy (.scalar (.number p)) = .ok (v.extracted [.place (wholeNumber place)]) := by
  have resolved := resolvePositions_single cut v.length
  change v.extract (.positions [some p]) = _
  rw [regular.extract_eq, Selector.resolve, resolved]
  rfl

/-- From one on, extraction gives the cell at the whole part of a position. The direct reading gives
the same cell for a whole position and as far as the tree goes, in leaves of 32 cells; past it a
fraction loses the cell. -/
theorem cellAt_extractBy (regular : v.Regular) (finite : p.isFinite) (first : Binary64.le 1 p) :
    ∃ place : ℕ, p.trunc.toInt? = some ((place + 1 : ℕ) : ℤ) ∧
      ∃ w cell, v.extractBy (.scalar (.number p)) = .ok w ∧ w.cells.toList = [cell] ∧
        cell = (v.cells.toList[wholeNumber place]?).getD .missing ∧
        v.cellAt p =
          .ok (if p.isWhole ∨ place < (v.length - 1) / 32 * 32 then cell else .missing) ∧
        (v.cellAt p = .ok cell ↔
          p.isWhole ∨ place < (v.length - 1) / 32 * 32 ∨ cell = .missing) := by
  obtain ⟨place, cut⟩ := exists_place finite first
  have read := cellAt_eq finite first cut regular.canonical
  have only : (v.extracted [.place (wholeNumber place)]).cells.toList =
      [(v.cells.toList[wholeNumber place]?).getD .missing] := toList_extracted v _
  refine ⟨place, cut, _, _, extractBy_cut regular cut, only, rfl, read, ?_⟩
  rw [read]
  generalize (v.cells.toList[wholeNumber place]?).getD .missing = cell
  by_cases found : p.isWhole ∨ place < (v.length - 1) / 32 * 32
  · rw [if_pos found]
    exact iff_of_true rfl (or_assoc.1 (.inl found))
  · rw [if_neg found, ← or_assoc, or_iff_right found, Except.ok.injEq]
    exact eq_comm

/-- Of 33 cells the first 32 are in the tree, where a fraction is cut. -/
theorem cellAt_extractBy_tree :
    let v := make .double (RadixArray.ofList (List.replicate 32 (.number 7) ++ [.number 8])) none
    v.Regular ∧ (3 / 2 : Binary64).isFinite ∧ Binary64.le 1 (3 / 2) ∧
      (3 / 2 : Binary64).isWhole = false ∧ v.cellAt (3 / 2) = .ok (.number 7) ∧
      ∃ w, v.extractBy (.scalar (.number (3 / 2))) = .ok w ∧ w.cells.toList = [.number 7] := by
  intro v
  have regular : v.Regular := follows_make (fun _ _ => trivial) nofun
  have finite : (3 / 2 : Binary64).isFinite := by decide +kernel
  have first : Binary64.le 1 (3 / 2) := by decide +kernel
  have cell : v.cellAt (3 / 2) = .ok (.number 7) := by decide +kernel
  have one : (3 / 2 : Binary64).trunc.toInt? = some 1 := by decide +kernel
  obtain ⟨place, cut, w, there, taken, only, -, -, agree⟩ := cellAt_extractBy regular finite first
  have start : place = 0 := by
    rw [one, Option.some_inj] at cut
    omega
  have inTree : place < (v.length - 1) / 32 * 32 := by
    rw [start]
    decide +kernel
  have same : there = .number 7 :=
    Except.ok.inj ((agree.2 (.inr (.inl inTree))).symm.trans cell)
  rw [same] at only
  exact ⟨regular, finite, first, by decide +kernel, cell, w, taken, only⟩

/-- Three cells are all in the tail. -/
theorem cellAt_extractBy_tail :
    let v := make .double (RadixArray.ofList [.number 10, .number 20, .number 30]) none
    v.Regular ∧ (3 / 2 : Binary64).isFinite ∧ Binary64.le 1 (3 / 2) ∧
      v.cellAt (3 / 2) = .ok .missing ∧
      ∃ w, v.extractBy (.scalar (.number (3 / 2))) = .ok w ∧ w.cells.toList = [.number 10] := by
  intro v
  have regular : v.Regular := follows_make (fun _ _ => trivial) nofun
  have cut : (3 / 2 : Binary64).trunc.toInt? = some ((0 + 1 : ℕ) : ℤ) := by decide +kernel
  refine ⟨regular, by decide +kernel, by decide +kernel, by decide +kernel, _,
    extractBy_cut regular cut, ?_⟩
  rw [toList_extracted]
  decide +kernel

end TypedVector
end TypedVectors
