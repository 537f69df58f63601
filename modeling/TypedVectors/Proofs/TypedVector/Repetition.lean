import TypedVectors.Proofs.Binary64.Counts
import TypedVectors.Proofs.TypedVector.Concatenation

/-!
Repetition in closed form: which cell and which name of the source stands at each place. The names
are repeated as the cells are, so that they stay beside them. Repetitions of one vector one after
another are a repetition. Where nothing is repeated the counts may be too large for the loops over
them.
-/
namespace TypedVectors

section Cycled

variable {α : Type} {each times place : ℕ}

theorem cycled_eq (each times : ℕ) (items : List α) : cycled each times items =
    (List.replicate times (items.flatMap (List.replicate each))).flatten := by
  unfold cycled
  dsimp only
  split
  · next empty =>
    symm
    rw [List.isEmpty_iff.1 empty, List.eq_nil_iff_length_eq_zero]
    simp
  · rfl

theorem cycled_add (each first second : ℕ) (items : List α) :
    cycled each (first + second) items = cycled each first items ++ cycled each second items := by
  rw [cycled_eq, cycled_eq, cycled_eq, List.replicate_add, List.flatten_append]

/-- Without a cell to repeat, the count does not matter. -/
theorem cycled_nothing {items : List α} (nothing : items.length * each = 0) (times : ℕ) :
    cycled each times items = [] := by
  rw [List.eq_nil_iff_length_eq_zero, length_cycled, nothing, Nat.zero_mul]

theorem getElem?_row (positive : 0 < each) (items : List α) (place : ℕ) :
    (items.flatMap (List.replicate each))[place]? = items[place / each]? := by
  induction items generalizing place with
  | nil => simp
  | cons first rest ih =>
    rw [List.flatMap_cons]
    rcases Nat.lt_or_ge place each with here | later
    · rw [List.getElem?_append_left (by rwa [List.length_replicate]), Nat.div_eq_of_lt here,
        List.getElem?_replicate_of_lt here, List.getElem?_cons_zero]
    · rw [List.getElem?_append_right (by rwa [List.length_replicate]), List.length_replicate, ih,
        Nat.div_eq_sub_div positive later, List.getElem?_cons_succ]

theorem getElem?_cycles {row : List α} (inside : place < row.length * times) :
    (List.replicate times row).flatten[place]? = row[place % row.length]? := by
  induction times generalizing place with
  | zero => omega
  | succ times ih =>
    rw [List.replicate_succ, List.flatten_cons]
    rcases Nat.lt_or_ge place row.length with here | later
    · rw [List.getElem?_append_left here, Nat.mod_eq_of_lt here]
    · rw [Nat.mul_add_one] at inside
      rw [List.getElem?_append_right later, ih (by omega), Nat.mod_eq_sub_mod later]

theorem getElem?_cycled {items : List α} (inside : place < items.length * each * times) :
    (cycled each times items)[place]? = items[place % (items.length * each) / each]? := by
  have positive : 0 < each := by
    refine Nat.pos_of_ne_zero ?_
    rintro rfl
    simp at inside
  have length : (items.flatMap (List.replicate each)).length = items.length * each := by
    simp [List.length_flatMap]
  rw [cycled_eq, getElem?_cycles (by rwa [length]), length, getElem?_row positive]

end Cycled

theorem RepeatCount.read_whole (count : RepeatCount) {value : Binary64} {n : ℕ}
    (whole : value.toInt? = some (n : ℤ)) : count.read value = .ok n := by
  rw [read, whole]

theorem RepeatCount.read_cases (count : RepeatCount) (value : Binary64) :
    (∃ n : ℕ, value.toInt? = some (n : ℤ) ∧ count.read value = .ok n) ∨
      count.read value = .error (.invalidCount count value) := by
  unfold read
  cases whole : value.toInt? with
  | none => exact .inr rfl
  | some number =>
    cases number with
    | ofNat n => exact .inl ⟨n, rfl, rfl⟩
    | negSucc n => exact .inr rfl

namespace TypedVector

variable {v : TypedVector} {times each : Binary64} {t e place : ℕ}

/-- A vector of the cells of another, every cell so many times in a row and all of that so many
times over, with the names beside their cells. -/
structure Repetition (v : TypedVector) (each times : ℕ) (w : TypedVector) : Prop where
  kind : w.kind = v.kind
  length : w.length = v.length * each * times
  cells : ∀ place < w.length, place % (v.length * each) / each < v.length ∧
    w.cells.get? place = v.cells.get? (place % (v.length * each) / each)
  unnamed : v.names? = none → w.names? = none
  named : ∀ names, v.names? = some names → ∃ written, w.names? = some written ∧
    written.size = w.length ∧ ∀ place < w.length,
      written.get? place = names.get? (place % (v.length * each) / each)
  regular : w.Regular

def repeatedBy (v : TypedVector) (each times : ℕ) : TypedVector :=
  make v.kind (RadixArray.ofList (cycled each times v.cells.toList))
    (v.names?.map fun names => RadixArray.ofList (cycled each times names.toList))

theorem source_lt {count : ℕ} (inside : place < count * e * t) :
    place % (count * e) / e < count := by
  have row : 0 < count * e := by
    refine Nat.pos_of_ne_zero fun nothing => ?_
    rw [nothing, Nat.zero_mul] at inside
    exact Nat.not_lt_zero _ inside
  rw [Nat.div_lt_iff_lt_mul (Nat.pos_of_ne_zero (right_ne_zero_of_mul row.ne'))]
  exact Nat.mod_lt _ row

theorem length_repeatedBy (regular : v.Regular) (e t : ℕ) :
    (v.repeatedBy e t).length = v.length * e * t := by
  rw [repeatedBy, make, length, RadixArray.size_ofList, length_cycled, regular.length_eq]

theorem repetition_repeatedBy (regular : v.Regular) (e t : ℕ) :
    Repetition v e t (v.repeatedBy e t) where
  kind := rfl
  length := length_repeatedBy regular e t
  cells := by
    rw [length_repeatedBy regular]
    intro place inside
    refine ⟨source_lt inside, ?_⟩
    rw [regular.length_eq] at inside ⊢
    rw [repeatedBy, make, RadixArray.get?_ofList, regular.canonical.get?_eq,
      getElem?_cycled inside]
  unnamed := by
    intro unnamed
    rw [repeatedBy, make, unnamed]
    rfl
  named := by
    intro names named
    obtain ⟨canonical, fit⟩ := regular.names names named
    rw [canonical.size_eq] at fit
    rw [length_repeatedBy regular]
    refine ⟨RadixArray.ofList (cycled e t names.toList), ?_, ?_, ?_⟩
    · rw [repeatedBy, make, named]
      rfl
    · rw [RadixArray.size_ofList, length_cycled, fit]
    · intro place inside
      rw [← fit] at inside ⊢
      rw [RadixArray.get?_ofList, canonical.get?_eq, getElem?_cycled inside]
  regular := by
    refine follows_make (fun _ _ => trivial) fun written found => ?_
    obtain ⟨names, named, rfl⟩ := Option.map_eq_some_iff.1 found
    obtain ⟨canonical, fit⟩ := regular.names names named
    refine ⟨RadixArray.canonical_ofList _, ?_⟩
    rw [canonical.size_eq, regular.length_eq] at fit
    rw [RadixArray.size_ofList, length_cycled, length_cycled, fit]

/-- The counts of a repetition are natural numbers, and what it gives is not too long. -/
structure Counted (v : TypedVector) (times each : Binary64) (t e : ℕ) : Prop where
  times : times.toInt? = some (t : ℤ)
  each : each.toInt? = some (e : ℤ)
  short : v.length * e * t ≤ lengthLimit

/-- The loops of a repetition end and their row can be held. -/
structure Bounded (v : TypedVector) (e t : ℕ) : Prop where
  row : v.length * e ≤ rowLimit
  cycles : t ≤ twoTo 53

/-- Unless nothing is repeated, the length of the result bounds the loops. -/
theorem Counted.bounded (counted : v.Counted times each t e) (something : v.length * e * t ≠ 0) :
    v.Bounded e t where
  row := by
    have cycles := Nat.pos_of_ne_zero (right_ne_zero_of_mul something)
    have limit : lengthLimit ≤ rowLimit := by decide
    have short := counted.short
    have row := Nat.le_mul_of_pos_right (v.length * e) cycles
    omega
  cycles := by
    have row := Nat.pos_of_ne_zero (left_ne_zero_of_mul something)
    have limit : lengthLimit ≤ twoTo 53 := by decide
    have short := counted.short
    have cycles := Nat.le_mul_of_pos_left t row
    omega

/-- The cycles are counted up in double precision, so that too many of them never end. -/
theorem rounds_cases (limit : times.toInt? = some (t : ℤ)) :
    t ≤ twoTo 53 ∧ rounds t = .ok t ∧ (∀ k, (Binary64.counter k).lt times ↔ k < t) ∨
      twoTo 53 < t ∧ rounds t = .error .endless ∧ ∀ k, (Binary64.counter k).lt times := by
  have below := Binary64.counter_lt_iff limit
  rcases Nat.lt_or_ge (twoTo 53) t with past | within
  · refine .inr ⟨past, if_neg (Nat.not_le.2 past), fun k => (below k).2 ?_⟩
    exact Nat.lt_of_le_of_lt (Nat.min_le_right _ _) past
  · exact .inl ⟨within, if_pos within, fun k => (below k).trans (by omega)⟩

theorem repeated_of_counts (first : RepeatCount.times.read times = .ok t)
    (second : RepeatCount.each.read each = .ok e) :
    (Operand.vector v).repeated times each =
      if Binary64.lt (.ofNat lengthLimit) (.ofNat v.length * each * times) then
        .error (.repeatTooLong (.ofNat v.length * each * times))
      else if rowLimit < v.length * e then .error .rowTooLong
      else (rounds t).map (v.repeatedBy e) := by
  have made : ∀ t, v.repeatedBy e t = make v.kind (RadixArray.ofList (cycled e t v.cells.toList))
      ((v.names?.map fun names => cycled e t names.toList).map RadixArray.ofList) := by
    intro t
    rw [repeatedBy, Option.map_map]
    rfl
  -- One step after another, so that the comparison is not computed.
  have step {α β : Type} (value : α) (next : α → Except Error β) :
      (Except.ok value >>= next) = next value := rfl
  rw [Operand.repeated, first, step, second, step, Operand.toVector, step, funext made]
  dsimp only
  generalize Binary64.ofNat v.length * each * times = total
  generalize Binary64.lt (.ofNat lengthLimit) total = long
  cases long with
  | true => rfl
  | false =>
    rw [if_neg Bool.false_ne_true, if_neg Bool.false_ne_true]
    by_cases row : rowLimit < v.length * e
    · rw [if_pos row, if_pos row]
      rfl
    · rw [if_neg row, if_neg row]
      cases rounds t with
      | ok cycles => rfl
      | error cause => rfl

theorem Counted.outcome (counted : v.Counted times each t e) :
    v.Bounded e t ∧ (Operand.vector v).repeated times each = .ok (v.repeatedBy e t) ∨
      rowLimit < v.length * e ∧ t = 0 ∧
        (Operand.vector v).repeated times each = .error .rowTooLong ∨
      v.length * e = 0 ∧ twoTo 53 < t ∧ (∀ k, (Binary64.counter k).lt times) ∧
        (Operand.vector v).repeated times each = .error .endless := by
  have limit : lengthLimit < twoTo 53 := by decide
  have passes := Binary64.lt_product_iff limit v.length counted.each counted.times
  rw [repeated_of_counts (RepeatCount.read_whole .times counted.times)
    (RepeatCount.read_whole .each counted.each),
    if_neg (mt passes.1 (Nat.not_lt.2 counted.short))]
  by_cases row : rowLimit < v.length * e
  · rw [if_pos row]
    refine .inr (.inl ⟨row, ?_, rfl⟩)
    by_contra nonzero
    have bounded := counted.bounded (Nat.mul_ne_zero (Nat.ne_zero_of_lt row) nonzero)
    exact Nat.not_le.2 row bounded.row
  · rw [if_neg row]
    rcases rounds_cases counted.times with ⟨within, done, -⟩ | ⟨past, never, below⟩
    · rw [done]
      exact .inl ⟨⟨Nat.not_lt.1 row, within⟩, rfl⟩
    · rw [never]
      refine .inr (.inr ⟨?_, past, below, rfl⟩)
      by_contra nonzero
      have bounded := counted.bounded (Nat.mul_ne_zero nonzero (Nat.ne_zero_of_lt past))
      exact Nat.not_le.2 past bounded.cycles

theorem repeated_uncounted (uncounted : ¬∃ t e, v.Counted times each t e) :
    ∃ error, (Operand.vector v).repeated times each = .error error ∧
      error.code? = some "INVALID_ARGUMENT" := by
  rcases RepeatCount.times.read_cases times with ⟨t, timesWhole, first⟩ | first
  · rcases RepeatCount.each.read_cases each with ⟨e, eachWhole, second⟩ | second
    · have limit : lengthLimit < twoTo 53 := by decide
      have long : Binary64.lt (.ofNat lengthLimit) (.ofNat v.length * each * times) := by
        rw [Binary64.lt_product_iff limit v.length eachWhole timesWhole]
        exact Nat.not_le.1 fun short => uncounted ⟨t, e, timesWhole, eachWhole, short⟩
      rw [repeated_of_counts first second, if_pos long]
      exact ⟨_, rfl, rfl⟩
    · refine ⟨.invalidCount .each each, ?_, rfl⟩
      rw [Operand.repeated, first, second]
      rfl
  · refine ⟨.invalidCount .times times, ?_, rfl⟩
    rw [Operand.repeated, first]
    rfl

theorem repeated_counted (counted : v.Counted times each t e) (bounded : v.Bounded e t) :
    (Operand.vector v).repeated times each = .ok (v.repeatedBy e t) := by
  rcases counted.outcome with ⟨-, done⟩ | ⟨row, -⟩ | ⟨-, past, -⟩
  · exact done
  · exact absurd bounded.row (Nat.not_le.2 row)
  · exact absurd bounded.cycles (Nat.not_le.2 past)

/-- Repetitions of one vector in a row are one repetition. -/
theorem concatenation_repeatedBy (regular : v.Regular) (e s t : ℕ) :
    Concatenation [v.repeatedBy e s, v.repeatedBy e t] (v.repeatedBy e (s + t)) where
  highest := by
    intro u inside
    rcases List.mem_pair.1 inside with rfl | rfl
    · exact Nat.le_refl _
    · exact Nat.le_refl _
  attained := .inr ⟨_, List.mem_cons_self, rfl⟩
  cells := by
    simp [repeatedBy, make, raisedCells, RadixArray.toList_ofList, cycled_add, Cell.raise_self]
  named := by
    simp [repeatedBy, make]
  names := by
    rw [List.flatMap_cons, List.flatMap_singleton]
    cases named : v.names? with
    | none =>
      have unnamed : ∀ t, (v.repeatedBy e t).names? = none := fun t =>
        (repetition_repeatedBy regular e t).unnamed named
      rw [nameList_unnamed (unnamed _), nameList_unnamed (unnamed _), nameList_unnamed (unnamed _),
        List.replicate_append_replicate, length_repeatedBy regular, length_repeatedBy regular,
        length_repeatedBy regular, Nat.mul_add]
    | some names =>
      have repeated : ∀ t, (v.repeatedBy e t).names? =
          some (RadixArray.ofList (cycled e t names.toList)) := by
        intro t
        rw [repeatedBy, make, named]
        rfl
      rw [nameList_named (repeated _), nameList_named (repeated _), nameList_named (repeated _),
        RadixArray.toList_ofList, RadixArray.toList_ofList, RadixArray.toList_ofList, cycled_add]

theorem combined_repeatedBy (regular : v.Regular) (e s t : ℕ) :
    combined [v.repeatedBy e s, v.repeatedBy e t] = .ok (v.repeatedBy e (s + t)) := by
  have parts : ∀ u ∈ [v.repeatedBy e s, v.repeatedBy e t], u.Regular := by
    intro u inside
    rcases List.mem_pair.1 inside with rfl | rfl
    · exact (repetition_repeatedBy regular e s).regular
    · exact (repetition_repeatedBy regular e t).regular
  obtain ⟨w, ok, fresh, concatenation⟩ := exists_combined parts
  have wRegular : w.Regular := follows_combined CellRule.stable_any parts ok
  have same := concatenation.unique (concatenation_repeatedBy regular e s t) wRegular
    (repetition_repeatedBy regular e (s + t)).regular
  rw [ok, same.eq fresh rfl]

/-- Where the source or the count in a row is empty, nothing is repeated any number of times. -/
theorem repeatedBy_nothing (regular : v.Regular) (nothing : v.length * e = 0) (s t : ℕ) :
    v.repeatedBy e s = v.repeatedBy e t := by
  have cells : v.cells.toList.length * e = 0 := by rwa [← regular.length_eq]
  unfold repeatedBy
  rw [cycled_nothing cells, cycled_nothing cells]
  refine congrArg (make _ _) (Option.map_congr fun names named => ?_)
  obtain ⟨canonical, fit⟩ := regular.names names named
  have few : names.toList.length * e = 0 := by rwa [← canonical.size_eq, fit]
  rw [cycled_nothing few, cycled_nothing few]

/-- The sum of two counts is exact as far as something is repeated. -/
theorem repeatedBy_sum (regular : v.Regular) {first second : Binary64} {s n : ℕ}
    (here : v.Counted first each s e) (there : v.Counted second each t e)
    (sum : v.Counted (first + second) each n e) : v.repeatedBy e (s + t) = v.repeatedBy e n := by
  by_cases nothing : v.length * e = 0
  · exact repeatedBy_nothing regular nothing _ _
  · have positive := Nat.pos_of_ne_zero nothing
    have few := Nat.le_trans (Nat.le_mul_of_pos_left s positive) here.short
    have more := Nat.le_trans (Nat.le_mul_of_pos_left t positive) there.short
    have limit : lengthLimit + lengthLimit ≤ twoTo 53 := by decide
    have whole := Binary64.toInt?_add_count here.times there.times (by omega)
    rw [Binary64.count_unique whole sum.times]

/-- A repetition gives every cell and name of the source at the places that the counts say, for all
counts that are natural numbers and do not make it too long, and no other. Where nothing is
repeated, the row must not be too long either and the cycles must not be too many to be counted.
Counts add up to the concatenation of their repetitions. -/
theorem repeated_exact (regular : v.Regular) :
    (∀ times each,
      (∃ t e, v.Counted times each t e ∧
        (v.Bounded e t ∧
            (∃ w, (Operand.vector v).repeated times each = .ok w ∧ Repetition v e t w) ∨
          rowLimit < v.length * e ∧ t = 0 ∧
            (Operand.vector v).repeated times each = .error .rowTooLong ∨
          v.length * e = 0 ∧ twoTo 53 < t ∧ (∀ k, (Binary64.counter k).lt times) ∧
            (Operand.vector v).repeated times each = .error .endless)) ∨
      (¬∃ t e, v.Counted times each t e) ∧ ∃ error,
        (Operand.vector v).repeated times each = .error error ∧
          error.code? = some "INVALID_ARGUMENT") ∧
    ∀ (first second each : Binary64) (s t n e : ℕ), v.Counted first each s e →
      v.Counted second each t e → v.Counted (first + second) each n e →
      v.Bounded e s → v.Bounded e t → v.Bounded e n →
      ∃ a b w, (Operand.vector v).repeated first each = .ok a ∧
        (Operand.vector v).repeated second each = .ok b ∧
        (Operand.vector v).repeated (first + second) each = .ok w ∧ combined [a, b] = .ok w := by
  refine ⟨fun times each => ?_, fun first second each s t n e here there sum => ?_⟩
  · by_cases whole : ∃ t e, v.Counted times each t e
    · obtain ⟨t, e, counted⟩ := whole
      refine .inl ⟨t, e, counted, counted.outcome.imp_left fun ⟨bounded, done⟩ => ?_⟩
      exact ⟨bounded, _, done, repetition_repeatedBy regular e t⟩
    · exact .inr ⟨whole, repeated_uncounted whole⟩
  · intro boundedHere boundedThere boundedSum
    refine ⟨_, _, _, repeated_counted here boundedHere, repeated_counted there boundedThere,
      repeated_counted sum boundedSum, ?_⟩
    rw [← repeatedBy_sum regular here there sum]
    exact combined_repeatedBy regular e s t

/-- Two cells twice in a row, once and then two times over. -/
theorem repeated_exact_named :
    let v := make .double (RadixArray.ofList [.number 7, .missing])
      (some (RadixArray.ofList ["a", "b"]))
    v.Regular ∧
      (∃ w, (Operand.vector v).repeated 1 2 = .ok w ∧ Repetition v 2 1 w ∧
        w.cells.toList = [.number 7, .number 7, .missing, .missing] ∧
        w.nameList = ["a", "a", "b", "b"]) ∧
      (∃ a b w, (Operand.vector v).repeated 1 2 = .ok a ∧
        (Operand.vector v).repeated 2 2 = .ok b ∧
        (Operand.vector v).repeated (1 + 2) 2 = .ok w ∧ combined [a, b] = .ok w) ∧
      ∃ error, (Operand.vector v).repeated (1 / 2) 2 = .error error ∧
        error.code? = some "INVALID_ARGUMENT" := by
  intro v
  have regular : v.Regular := by
    refine follows_make (fun _ _ => trivial) fun names named => ?_
    cases named
    exact ⟨RadixArray.canonical_ofList _, rfl⟩
  have two : (2 : Binary64).toInt? = some ((2 : ℕ) : ℤ) := by decide +kernel
  have half : (1 / 2 : Binary64).toInt? = none := by decide +kernel
  have once : v.Counted 1 2 1 2 := ⟨Binary64.toInt?_one, two, by decide +kernel⟩
  have twice : v.Counted 2 2 2 2 := ⟨two, two, by decide +kernel⟩
  have thrice : v.Counted (1 + 2) 2 3 2 := ⟨by decide +kernel, two, by decide +kernel⟩
  have bounded : ∀ t ≤ 3, v.Bounded 2 t := fun t few =>
    ⟨by decide +kernel, Nat.le_trans few (by decide +kernel)⟩
  have shown : ((Operand.vector v).repeated 1 2).map (fun w => (w.cells.toList, w.nameList)) =
      .ok ([.number 7, .number 7, .missing, .missing], ["a", "a", "b", "b"]) := by
    decide +kernel
  obtain ⟨outcomes, additive⟩ := repeated_exact regular
  refine ⟨regular, ?_, ?_, ?_⟩
  · obtain ⟨t, e, counted, outcome⟩ | ⟨uncounted, -⟩ := outcomes 1 2
    · obtain rfl := Binary64.count_unique Binary64.toInt?_one counted.times
      obtain rfl := Binary64.count_unique two counted.each
      rcases outcome with ⟨-, w, done, repetition⟩ | ⟨-, never, -⟩ | ⟨never, -⟩
      · rw [done] at shown
        have parts := Prod.mk.inj (Except.ok.inj shown)
        exact ⟨w, done, repetition, parts.1, parts.2⟩
      · cases never
      · cases never
    · exact absurd ⟨1, 2, once⟩ uncounted
  · exact additive 1 2 2 1 2 3 2 once twice thrice (bounded 1 (by decide)) (bounded 2 (by decide))
      (bounded 3 (by decide))
  · obtain ⟨t, e, counted, -⟩ | ⟨-, failed⟩ := outcomes (1 / 2) 2
    · cases half.symm.trans counted.times
    · exact failed

/-- Nothing, so many times that no counter gets there, and a cell so many times in a row that no row
holds it, no times. Neither has more than no cells. -/
theorem repeated_unbounded :
    let v := make .double (RadixArray.ofList []) none
    let w := make .double (RadixArray.ofList [.number 7]) none
    v.Counted (.ofNat (twoTo 53 + 2)) 1 (twoTo 53 + 2) 1 ∧
      (Operand.vector v).repeated (.ofNat (twoTo 53 + 2)) 1 = .error .endless ∧
      w.Counted 0 (.ofNat (twoTo 33)) 0 (twoTo 33) ∧
      (Operand.vector w).repeated 0 (.ofNat (twoTo 33)) = .error .rowTooLong := by
  intro v w
  have never : ((Operand.vector v).repeated (.ofNat (twoTo 53 + 2)) 1).map kind =
      .error .endless := by
    decide +kernel
  have unheld : ((Operand.vector w).repeated 0 (.ofNat (twoTo 33))).map kind =
      .error .rowTooLong := by
    decide +kernel
  exact ⟨⟨by decide +kernel, Binary64.toInt?_one, by decide +kernel⟩, map_failure never,
    ⟨by decide +kernel, by decide +kernel, by decide +kernel⟩, map_failure unheld⟩

end TypedVector
end TypedVectors
