import TypedVectors.Proofs.Session.Run

/-!
Searching names builds an index and keeps it, and nobody can tell: kinds, cells, names and the
places of names are as before, and so are the operands and selectors that commands take.
-/
namespace TypedVectors

namespace TypedVector

/-- Two states of a vector that no operation tells apart: only the index may be built or not. -/
structure SameState (v w : TypedVector) : Prop where
  kind : w.kind = v.kind
  cells : w.cells = v.cells
  names : w.names? = v.names?
  nameIndex : w.nameIndex = v.nameIndex

namespace SameState

variable {v w : TypedVector}

theorem refl (v : TypedVector) : v.SameState v := ⟨rfl, rfl, rfl, rfl⟩

theorem indexed (v : TypedVector) : v.SameState v.indexed := ⟨rfl, rfl, rfl, rfl⟩

variable (same : v.SameState w)
include same

theorem symm : w.SameState v :=
  ⟨same.kind.symm, same.cells.symm, same.names.symm, same.nameIndex.symm⟩

theorem length_eq : w.length = v.length := by
  unfold length
  rw [same.cells]

theorem indexed_eq : w.indexed = v.indexed := by
  unfold TypedVector.indexed
  rw [same.nameIndex, same.kind, same.cells, same.names]

theorem resolve_eq (selector : Selector) (access : Access) :
    selector.resolve w access = selector.resolve v access := by
  cases selector with
  | positions entries | mask entries =>
    unfold Selector.resolve
    rw [same.length_eq]
  | names entries =>
    unfold Selector.resolve
    rw [same.indexed_eq]

end SameState
end TypedVector

namespace Operand

inductive SameState : Operand → Operand → Prop
  | vector {v w : TypedVector} (same : v.SameState w) : SameState (.vector v) (.vector w)
  | scalar (cell : Cell) : SameState (.scalar cell) (.scalar cell)
  | cells (items : List Cell) : SameState (.cells items) (.cells items)

variable {here there : Operand}

theorem SameState.ofOperand_eq (same : here.SameState there) :
    Selector.ofOperand there = Selector.ofOperand here := by
  cases same with
  | vector same =>
    unfold Selector.ofOperand TypedVector.toArray
    dsimp only
    rw [same.kind, same.cells]
  | scalar cell | cells items => rfl

theorem SameState.toVector (same : here.SameState there) {v : TypedVector}
    (made : here.toVector = .ok v) : ∃ w, there.toVector = .ok w ∧ v.SameState w := by
  cases same with
  | vector same =>
    cases made
    exact ⟨_, rfl, same⟩
  | scalar cell | cells items => exact ⟨v, made, .refl v⟩

end Operand

namespace Session

theorem lookup_store_self (session : Session) (name : String) (v : TypedVector) :
    (session.store name v).vectors.lookup name = some v := List.lookup_cons_self

theorem lookup_store_other (session : Session) {name other : String} (v : TypedVector)
    (different : other ≠ name) :
    (session.store name v).vectors.lookup other = session.vectors.lookup other := by
  unfold store
  rw [List.lookup_cons, beq_eq_false_iff_ne.2 different]
  induction session.vectors with
  | nil => rfl
  | cons entry rest ih =>
    by_cases replaced : entry.1 = name
    · have skipped : (other == entry.1) = false := by
        rw [replaced]
        exact beq_eq_false_iff_ne.2 different
      rw [List.filter_cons_of_neg (by simp [replaced]), List.lookup_cons, skipped]
      exact ih
    · rw [List.filter_cons_of_pos (by simp [replaced]), List.lookup_cons, List.lookup_cons]
      cases other == entry.1 with
      | true => rfl
      | false => exact ih

/-- Whether two sessions have the same vector under a name, or none. -/
def AgreeAt (before after : Session) (name : String) : Prop :=
  Option.Rel TypedVector.SameState (before.vectors.lookup name) (after.vectors.lookup name)

theorem AgreeAt.refl (session : Session) (name : String) : session.AgreeAt session name := by
  unfold AgreeAt
  cases session.vectors.lookup name with
  | none => exact .none
  | some v => exact .some (.refl v)

theorem AgreeAt.symm {before after : Session} {name : String} (agree : before.AgreeAt after name) :
    after.AgreeAt before name := by
  unfold AgreeAt at *
  generalize before.vectors.lookup name = here, after.vectors.lookup name = there at *
  cases agree with
  | none => exact .none
  | some same => exact .some same.symm

theorem agreeAt_store_other (session : Session) {name other : String} (v : TypedVector)
    (different : other ≠ name) : session.AgreeAt (session.store name v) other := by
  unfold AgreeAt
  rw [lookup_store_other session v different]
  exact AgreeAt.refl session other

/-- A command that searches for names leaves all vectors as they were. -/
theorem agreeAt_searched (session : Session) (command : Command) (name : String) :
    session.AgreeAt (session.searched command) name := by
  unfold searched
  split
  · next source selector _ =>
    split
    · next v _ found _ =>
      split
      · rcases source with stored | ⟨kind, cells, names?⟩
        · by_cases same : name = stored
          · subst same
            unfold read at found
            unfold AgreeAt update
            dsimp only at found ⊢
            split at found
            · next held =>
              cases found
              rw [held, lookup_store_self]
              exact .some (.indexed v)
            · cases found
          · exact session.agreeAt_store_other v.indexed same
        · exact .refl session name
      · exact .refl session name
    · exact .refl session name
  · exact .refl session name

variable {before after : Session}

theorem AgreeAt.read {name : String} (agree : before.AgreeAt after name) {v : TypedVector}
    (found : before.read (.variable name) = .ok v) :
    ∃ w, after.read (.variable name) = .ok w ∧ v.SameState w := by
  unfold AgreeAt at agree
  unfold Session.read at found ⊢
  dsimp only at found ⊢
  generalize before.vectors.lookup name = here, after.vectors.lookup name = there at *
  cases agree with
  | none => cases found
  | some same =>
    cases found
    exact ⟨_, rfl, same⟩

variable (agree : ∀ name, before.AgreeAt after name)
include agree

theorem read_agree {source : Source} {v : TypedVector} (found : before.read source = .ok v) :
    ∃ w, after.read source = .ok w ∧ v.SameState w := by
  rcases source with name | ⟨kind, cells, names?⟩
  · exact (agree name).read found
  · exact ⟨v, found, .refl v⟩

theorem operand_agree {source : OperandSource} {operand : Operand}
    (found : before.operand source = .ok operand) :
    ∃ other, after.operand source = .ok other ∧ operand.SameState other := by
  cases source with
  | vector source =>
    obtain ⟨v, read, rfl⟩ := map_success found
    obtain ⟨w, read, same⟩ := read_agree agree read
    exact ⟨.vector w, congrArg (Except.map Operand.vector) read, .vector same⟩
  | scalar cell =>
    cases found
    exact ⟨_, rfl, .scalar cell⟩
  | cells items =>
    cases found
    exact ⟨_, rfl, .cells items⟩

theorem operandVector_agree {source : OperandSource} {v : TypedVector}
    (found : before.operandVector source = .ok v) :
    ∃ w, after.operandVector source = .ok w ∧ v.SameState w := by
  obtain ⟨operand, read, made⟩ := bind_success found
  obtain ⟨other, read', sameOperand⟩ := operand_agree agree read
  obtain ⟨w, made', same⟩ := sameOperand.toVector (attempt_success made)
  refine ⟨w, ?_, same⟩
  unfold operandVector
  rw [read']
  exact congrArg attempt made'

end Session
end TypedVectors
