import TypedVectors.Proofs.Elementwise.Results
import TypedVectors.Proofs.Selection.Assignment
import TypedVectors.Proofs.Selection.Extraction
import TypedVectors.Proofs.TypedVector.Operand
import TypedVectors.Session.Basic

/-!
Runs of sessions. A property of vectors that all operations keep holds, after every command of a
program, of the vectors that the session has and of those that it replies.
-/
namespace TypedVectors

/-- A property that holds of every vector that operations make of vectors with it. -/
structure Kept (P : TypedVector → Prop) : Prop where
  build : ∀ {kind cells names? v}, TypedVector.build kind cells names? = .ok v → P v
  blank : ∀ kind, P (.blank kind)
  scalar : ∀ cell, (Operand.scalar cell).Holds P
  combine : ∀ {operands : List Operand} {w}, (∀ operand ∈ operands, operand.Holds P) →
    Operand.combine operands = .ok w → P w
  repeated : ∀ {operand : Operand} {times each w}, operand.Holds P →
    operand.repeated times each = .ok w → P w
  namesVector : ∀ {v w : TypedVector}, P v → v.namesVector? = some w → P w
  withoutNames : ∀ {v : TypedVector}, P v → P v.withoutNames
  withNames : ∀ {v w : TypedVector} {given}, P v → v.withNames given = .ok w → P w
  withNamesOf : ∀ {v source w : TypedVector}, P v → P source → v.withNamesOf source = .ok w → P w
  extract : ∀ {v w : TypedVector} {selector}, P v → v.extract selector = .ok w → P w
  copy : ∀ {v : TypedVector}, P v → P v.copy
  binary : ∀ {operator left right w warnings}, P left → P right →
    TypedVector.binary operator left right = .ok (w, warnings) → P w
  apply : ∀ {f : ElementFunction} {operands w warnings}, (∀ v ∈ operands, P v) →
    f.apply operands = .ok (w, warnings) → P w
  roundTo : ∀ {v places w : TypedVector} {warnings}, P v → P places →
    v.roundTo places = .ok (w, warnings) → P w
  negate : ∀ {v w : TypedVector}, P v → v.negate = .ok w → P w
  complement : ∀ {v w : TypedVector}, P v → v.complement = .ok w → P w
  absences : ∀ {v : TypedVector}, P v → P v.absences
  convert : ∀ {v : TypedVector} kind, P v → P (v.convert kind).1
  assign : ∀ {v value w : TypedVector} {selector warning?}, P v → P value →
    v.assign selector value = .ok (w, warning?) → P w
  indexed : ∀ {v : TypedVector}, P v → P v.indexed

theorem kept_follows {rule : CellRule} (stable : rule.Stable) :
    Kept (TypedVector.Follows rule) where
  build := TypedVector.follows_build stable
  blank := TypedVector.follows_blank stable
  scalar := Operand.follows_scalar stable
  combine := Operand.follows_combine stable
  repeated := Operand.follows_repeated
  namesVector := fun _ => TypedVector.Follows.namesVector? stable
  withoutNames := TypedVector.Follows.withoutNames
  withNames := fun follows => follows.withNames
  withNamesOf := fun follows _ => follows.withNamesOf
  extract := TypedVector.Follows.extract stable
  copy := TypedVector.Follows.copy
  binary := TypedVector.follows_binary stable
  apply := ElementFunction.follows_apply stable
  roundTo := fun follows _ => TypedVector.follows_roundTo stable follows
  negate := TypedVector.Follows.negate stable
  complement := TypedVector.Follows.complement stable
  absences := TypedVector.Follows.absences stable
  convert := fun kind follows => follows.convert stable kind
  assign := fun follows valueFollows => follows.assign stable valueFollows
  indexed := TypedVector.Follows.indexed

theorem kept_regular : Kept TypedVector.Regular := kept_follows CellRule.stable_any

namespace Command

/-- The operands that a command takes as vectors; a selector is none. -/
def operands : Command → List OperandSource
  | .combine sources | .apply _ sources _ => sources
  | .vector source | .repeated source _ _ | .assign _ _ source _ | .negate source
  | .complement source | .absences source | .convert source _ _ => [source]
  | .binary _ left right _ | .roundTo left right _ => [left, right]
  | _ => []

/-- Whether a property holds of the vectors that a command makes of nothing else: those of plain
lists of cells, and progressions. -/
structure Admits (P : TypedVector → Prop) (command : Command) : Prop where
  cells : ∀ items, .cells items ∈ command.operands → (Operand.cells items).Holds P
  progression : ∀ first last step? v, command = .progression first last step? →
    TypedVector.progression first last step? = .ok v → P v

end Command

def Reply.Holds (P : TypedVector → Prop) (reply : Reply) : Prop :=
  ∀ v deliveries, reply = .ok (.vector v, deliveries) → P v

namespace Session

variable {P : TypedVector → Prop} {session : Session}

def Holds (P : TypedVector → Prop) (session : Session) : Prop :=
  ∀ entry ∈ session.vectors, P entry.2

theorem holds_initial (P : TypedVector → Prop) : initial.Holds P :=
  fun _ inside => (List.not_mem_nil inside).elim

theorem Holds.store (holds : session.Holds P) (name : String) {v : TypedVector} (new : P v) :
    (session.store name v).Holds P := by
  intro entry inside
  rcases List.mem_cons.1 inside with rfl | kept
  · exact new
  · exact holds entry (List.mem_of_mem_filter kept)

theorem Holds.update (holds : session.Holds P) (source : Source) {v : TypedVector} (new : P v) :
    (session.update source v).Holds P := by
  rcases source with name | ⟨kind, cells, names?⟩
  · exact holds.store name new
  · exact holds

theorem attempt_success {α : Type} {result : Except Error α} {value : α}
    (ok : attempt result = .ok value) : result = .ok value := mapError_success ok

theorem Holds.read (kept : Kept P) (holds : session.Holds P) {source : Source} {v : TypedVector}
    (ok : session.read source = .ok v) : P v := by
  rcases source with name | ⟨kind, cells, names?⟩
  · unfold Session.read at ok
    dsimp only at ok
    split at ok
    · next stored =>
      cases ok
      obtain ⟨before, after, split, _⟩ := List.lookup_eq_some_iff.1 stored
      exact holds (name, v) (split ▸ List.mem_append_right _ List.mem_cons_self)
    · cases ok
  · exact kept.build (attempt_success ok)

theorem Holds.operand (kept : Kept P) (holds : session.Holds P) {source : OperandSource}
    (plain : ∀ items, source = .cells items → (Operand.cells items).Holds P) {operand : Operand}
    (ok : session.operand source = .ok operand) : operand.Holds P := by
  cases source with
  | vector source =>
    obtain ⟨v, found, rfl⟩ := map_success ok
    intro w made
    cases made
    exact holds.read kept found
  | scalar cell =>
    cases ok
    exact kept.scalar cell
  | cells items =>
    cases ok
    exact plain items rfl

/-- An operand that a command takes as a vector has the property. -/
theorem Holds.taken (kept : Kept P) (holds : session.Holds P) {command : Command}
    (admits : command.Admits P) {source : OperandSource} (inside : source ∈ command.operands)
    {operand : Operand} (ok : session.operand source = .ok operand) : operand.Holds P :=
  holds.operand kept (fun items same => admits.cells items (same ▸ inside)) ok

theorem Holds.takenVector (kept : Kept P) (holds : session.Holds P) {command : Command}
    (admits : command.Admits P) {source : OperandSource} (inside : source ∈ command.operands)
    {v : TypedVector} (ok : session.operandVector source = .ok v) : P v := by
  obtain ⟨operand, found, ok⟩ := bind_success ok
  exact holds.taken kept admits inside found v (attempt_success ok)

theorem Holds.takenAll (kept : Kept P) (holds : session.Holds P) {command : Command}
    (admits : command.Admits P) {operands : List Operand}
    (ok : command.operands.mapM session.operand = .ok operands) :
    ∀ operand ∈ operands, operand.Holds P := by
  intro operand inside
  obtain ⟨source, member, found⟩ := exists_of_mapM ok inside
  exact holds.taken kept admits member found

theorem tell_success {handler? : Option CallHandler} {v w : TypedVector} {warnings : List Warning}
    {deliveries : List Delivery}
    (ok : session.tell handler? v warnings = .ok (.vector w, deliveries)) : v = w := by
  obtain ⟨_, _, ok⟩ := bind_success ok
  cases pure_success ok
  rfl

section Replies

variable {α : Type} {v : TypedVector} {answer : Answer} {deliveries : List Delivery}

theorem holds_vector (new : P v) : Reply.Holds P (.ok (.vector v, deliveries)) := by
  rintro w _ ⟨⟩
  exact new

theorem holds_other (other : ∀ v, answer ≠ .vector v) :
    Reply.Holds P (.ok (answer, deliveries)) := by
  rintro v _ ⟨⟩
  exact (other v rfl).elim

theorem holds_told (new : P v) (handler? : Option CallHandler) (warnings : List Warning) :
    Reply.Holds P (session.tell handler? v warnings) := by
  intro w _ told
  rwa [← tell_success told]

theorem holds_bind {first : Except Failure α} {next : α → Reply}
    (after : ∀ value, first = .ok value → Reply.Holds P (next value)) :
    Reply.Holds P (first >>= next) := by
  intro w deliveries ok
  obtain ⟨value, done, ok⟩ := bind_success ok
  exact after value done w deliveries ok

theorem holds_attempt {first : Except Error α} {next : α → Reply}
    (after : ∀ value, first = .ok value → Reply.Holds P (next value)) :
    Reply.Holds P (attempt first >>= next) :=
  holds_bind fun value done => after value (attempt_success done)

end Replies

section Answers

variable (kept : Kept P) (holds : session.Holds P)
include kept holds

theorem Holds.answer_setNames (source : Source) (names : NamesSource) :
    Reply.Holds P (session.answer (.setNames source names)) := by
  cases names with
  | none => exact holds_bind fun v found => holds_vector (kept.withoutNames (holds.read kept found))
  | cells items =>
    refine holds_bind fun v found => holds_attempt fun named made => holds_vector ?_
    exact kept.withNames (holds.read kept found) made
  | vector names =>
    refine holds_bind fun v found => holds_bind fun given read => ?_
    refine holds_attempt fun named made => holds_vector ?_
    exact kept.withNamesOf (holds.read kept found) (holds.read kept read) made

section Operators

variable {handler? : Option CallHandler}

theorem Holds.answer_binary {operator : Operator} {left right : OperandSource}
    (admits : (Command.binary operator left right handler?).Admits P) :
    Reply.Holds P (session.answer (.binary operator left right handler?)) := by
  refine holds_bind fun leftOperand leftFound => holds_bind fun rightOperand rightFound => ?_
  refine holds_attempt fun ⟨w, warnings⟩ made => holds_told ?_ handler? warnings
  obtain ⟨v, leftMade, made⟩ := bind_success made
  obtain ⟨u, rightMade, made⟩ := bind_success made
  refine kept.binary ?_ ?_ made
  · exact holds.taken kept admits List.mem_cons_self leftFound v leftMade
  · exact holds.taken kept admits (List.mem_cons_of_mem _ List.mem_cons_self) rightFound u rightMade

theorem Holds.answer_apply {f : ElementFunction} {sources : List OperandSource}
    (admits : (Command.apply f sources handler?).Admits P) :
    Reply.Holds P (session.answer (.apply f sources handler?)) := by
  refine holds_bind fun operands found => ?_
  refine holds_attempt fun ⟨w, warnings⟩ made => holds_told ?_ handler? warnings
  obtain ⟨vectors, converted, made⟩ := bind_success made
  refine kept.apply (fun vector inside => ?_) made
  obtain ⟨operand, member, converted⟩ := exists_of_mapM converted inside
  exact holds.takenAll kept admits found operand member vector converted

theorem Holds.answer_roundTo {source places : OperandSource}
    (admits : (Command.roundTo source places handler?).Admits P) :
    Reply.Holds P (session.answer (.roundTo source places handler?)) := by
  refine holds_bind fun operand found => holds_bind fun placesOperand placesFound => ?_
  refine holds_attempt fun ⟨w, warnings⟩ made => holds_told ?_ handler? warnings
  obtain ⟨v, vMade, made⟩ := bind_success made
  obtain ⟨digits, digitsMade, made⟩ := bind_success made
  refine kept.roundTo ?_ ?_ made
  · exact holds.taken kept admits List.mem_cons_self found v vMade
  · exact holds.taken kept admits (List.mem_cons_of_mem _ List.mem_cons_self) placesFound digits
      digitsMade

end Operators

theorem Holds.answer {command : Command} (admits : command.Admits P) :
    Reply.Holds P (session.answer command) := by
  cases command with
  | build source => exact holds_bind fun v found => holds_vector (holds.read kept found)
  | blank kind => exact holds_vector (kept.blank kind)
  | combine sources =>
    refine holds_bind fun operands found => holds_attempt fun v made => holds_vector ?_
    exact kept.combine (holds.takenAll kept admits found) made
  | vector source =>
    exact holds_bind fun v found =>
      holds_vector (holds.takenVector kept admits List.mem_cons_self found)
  | isVector source =>
    refine holds_bind fun operand _ => ?_
    cases operand <;> exact holds_other nofun
  | progression first last step? =>
    exact holds_attempt fun v made => holds_vector (admits.progression first last step? v rfl made)
  | repeated source times each? =>
    refine holds_bind fun operand found => holds_attempt fun v made => holds_vector ?_
    exact kept.repeated (holds.taken kept admits List.mem_cons_self found) made
  | length source | kind source | cells source | placeOf source _ | placesOf source _ =>
    exact holds_bind fun v _ => holds_other nofun
  | cellAt source position =>
    exact holds_bind fun v _ => holds_attempt fun cell _ => holds_other nofun
  | names source =>
    refine holds_bind fun v found => ?_
    split
    · next named => exact holds_vector (kept.namesVector (holds.read kept found) named)
    · exact holds_other nofun
  | setNames source names => exact holds.answer_setNames kept source names
  | resolve source selector access =>
    exact holds_bind fun v _ => holds_bind fun selector _ => holds_attempt fun resolution _ =>
      holds_other nofun
  | extract source selector =>
    refine holds_bind fun v found => holds_bind fun selector _ => ?_
    exact holds_attempt fun w made => holds_vector (kept.extract (holds.read kept found) made)
  | copy source => exact holds_bind fun v found => holds_vector (kept.copy (holds.read kept found))
  | assign _ _ _ _ | configure _ | reset => exact holds_other nofun
  | binary operator left right handler? => exact holds.answer_binary kept admits
  | apply f sources handler? => exact holds.answer_apply kept admits
  | roundTo source places handler? => exact holds.answer_roundTo kept admits
  | negate source =>
    refine holds_bind fun v found => holds_attempt fun w made => holds_vector ?_
    exact kept.negate (holds.takenVector kept admits List.mem_cons_self found) made
  | complement source =>
    refine holds_bind fun v found => holds_attempt fun w made => holds_vector ?_
    exact kept.complement (holds.takenVector kept admits List.mem_cons_self found) made
  | absences source =>
    refine holds_bind fun v found => holds_vector ?_
    exact kept.absences (holds.takenVector kept admits List.mem_cons_self found)
  | convert source kind handler? =>
    refine holds_bind fun v found => holds_told ?_ handler? _
    exact kept.convert kind (holds.takenVector kept admits List.mem_cons_self found)

end Answers

theorem Holds.searched (kept : Kept P) (holds : session.Holds P) (command : Command) :
    (session.searched command).Holds P := by
  unfold Session.searched
  split
  · split
    · next found _ =>
      split
      · exact holds.update _ (kept.indexed (holds.read kept found))
      · exact holds
    · exact holds
  · exact holds

theorem Holds.assignment (kept : Kept P) (holds : session.Holds P) {source : Source}
    {selector value : OperandSource} {w : TypedVector} {warning? : Option Warning}
    {handler? : Option CallHandler}
    (admits : (Command.assign source selector value handler?).Admits P)
    (ok : session.assignment source selector value = .ok (w, warning?)) : P w := by
  obtain ⟨v, found, ok⟩ := bind_success ok
  obtain ⟨selection, _, ok⟩ := bind_success ok
  obtain ⟨operand, read, ok⟩ := bind_success ok
  obtain ⟨given, made, ok⟩ := bind_success (attempt_success ok)
  obtain ⟨_, _, ok⟩ := bind_success ok
  exact kept.assign (holds.read kept found)
    (holds.taken kept admits List.mem_cons_self read given made) ok

theorem Holds.run (kept : Kept P) (holds : session.Holds P) {command : Command}
    (admits : command.Admits P) :
    (session.run command).1.Holds P ∧ Reply.Holds P (session.run command).2 := by
  have searched := holds.searched kept command
  unfold Session.run
  dsimp only
  split
  · next source selector value handler? =>
    split
    · next failure _ => exact ⟨searched, fun v deliveries told => by cases told⟩
    -- The vector is written whether or not its warning is thrown.
    · next w warning? assigned =>
      have new : P w := searched.assignment kept admits assigned
      refine ⟨searched.update source new, fun v deliveries told => ?_⟩
      rw [← tell_success told]
      exact new
  · exact ⟨searched, fun v deliveries told => by cases told⟩
  · exact ⟨searched, fun v deliveries told => by cases told⟩
  · exact ⟨searched, searched.answer kept admits⟩

theorem Holds.runInto (kept : Kept P) (holds : session.Holds P) {command : Command}
    (admits : command.Admits P) (name? : Option String) :
    (session.runInto name? command).1.Holds P ∧
      Reply.Holds P (session.runInto name? command).2 := by
  obtain ⟨after, replied⟩ := holds.run kept admits
  unfold Session.runInto
  dsimp only
  split
  · next name v deliveries told => exact ⟨after.store name (replied v deliveries told), replied⟩
  · exact ⟨after, replied⟩

/-- The sessions after each command of a program, with the replies. A command may name the vector
that it answers. -/
def history (session : Session) : List (Option String × Command) → List (Session × Reply)
  | [] => []
  | (name?, command) :: rest =>
    let point := session.runInto name? command
    point :: point.1.history rest

/-- All along a program, every vector kept and every vector replied has the property. -/
theorem Holds.history (kept : Kept P) (holds : session.Holds P)
    {program : List (Option String × Command)} (admits : ∀ step ∈ program, step.2.Admits P) :
    ∀ point ∈ session.history program, point.1.Holds P ∧ Reply.Holds P point.2 := by
  induction program generalizing session with
  | nil => exact fun point inside => (List.not_mem_nil inside).elim
  | cons step rest ih =>
    obtain ⟨name?, command⟩ := step
    obtain ⟨first, later⟩ := List.forall_mem_cons.1 admits
    obtain ⟨after, replied⟩ := holds.runInto kept first name?
    intro point inside
    rcases List.mem_cons.1 inside with rfl | inside
    · exact ⟨after, replied⟩
    · exact ih after later point inside

end Session

/-- Whether a command takes no plain list of cells as a vector and makes no progression. -/
structure Command.Plain (command : Command) : Prop where
  cells : ∀ items, .cells items ∉ command.operands
  progression : ∀ first last step?, command ≠ .progression first last step?

theorem Command.Plain.admits {command : Command} (plain : command.Plain) (P : TypedVector → Prop) :
    command.Admits P where
  cells := fun items inside => (plain.cells items inside).elim
  progression := fun first last step? _ same => (plain.progression first last step? same).elim

/-- Programs of plain commands, failing ones included, only ever make well-formed vectors. -/
theorem wellFormed_history {program : List (Option String × Command)}
    (plain : ∀ step ∈ program, step.2.Plain) :
    ∀ point ∈ Session.initial.history program,
      point.1.Holds TypedVector.WellFormed ∧ Reply.Holds TypedVector.WellFormed point.2 := by
  have kept : Kept TypedVector.WellFormed := kept_follows CellRule.stable_valid
  have begun := Session.holds_initial TypedVector.WellFormed
  exact begun.history kept fun step inside => (plain step inside).admits _

/-- A text written past the end of truth values, and an operation that then refuses the vector. -/
theorem wellFormed_history_promoted :
    let program : List (Option String × Command) :=
      [(some "v", .build (.literal .logical [.truth true, .missing] none)),
        (none, .assign (.variable "v") (.cells [.number 5]) (.scalar (.text "a")) none),
        (none, .negate (.vector (.variable "v")))]
    (∀ step ∈ program, step.2.Plain) ∧ ∀ point ∈ Session.initial.history program,
      point.1.Holds TypedVector.WellFormed ∧ Reply.Holds TypedVector.WellFormed point.2 := by
  intro program
  have plain : ∀ step ∈ program, step.2.Plain := by
    intro step inside
    rcases List.mem_cons.1 inside with rfl | inside
    · exact ⟨by simp [Command.operands], by simp⟩
    · rcases List.mem_pair.1 inside with rfl | rfl
      · exact ⟨by simp [Command.operands], by simp⟩
      · exact ⟨by simp [Command.operands], by simp⟩
  exact ⟨plain, wellFormed_history plain⟩

theorem TypedVector.regular_progression {first last : Binary64} {step? : Option Binary64}
    {v : TypedVector} (ok : progression first last step? = .ok v) : v.Regular := by
  unfold progression at ok
  dsimp only at ok
  split at ok
  · cases ok
  · obtain ⟨length, _, ok⟩ := bind_success ok
    split at ok
    · cases ok
    · cases pure_success ok
      exact follows_unnamed fun _ _ => trivial

theorem Command.admits_regular (command : Command) : command.Admits TypedVector.Regular where
  cells := by
    intro items _ v ok
    rw [Operand.toVector_cells] at ok
    cases ok
    exact TypedVector.follows_unnamed fun _ _ => trivial
  progression := fun _ _ _ _ _ => TypedVector.regular_progression

namespace Session

/-- The sessions that commands lead to. -/
inductive Reachable : Session → Prop
  | initial : Reachable initial
  | step {session : Session} (reachable : Reachable session) (name? : Option String)
    (command : Command) : Reachable (session.runInto name? command).1

/-- Every vector of a reachable session is regular, whatever was passed to the commands. -/
theorem Reachable.regular {session : Session} (reachable : session.Reachable) :
    session.Holds TypedVector.Regular := by
  induction reachable with
  | initial => exact holds_initial _
  | step _ name? command ih =>
    exact (ih.runInto kept_regular command.admits_regular name?).1

/-- The session that a program leads to. -/
def after (session : Session) (program : List (Option String × Command)) : Session :=
  program.foldl (fun session (name?, command) => (session.runInto name? command).1) session

theorem after_concat (session : Session) (program : List (Option String × Command))
    (name? : Option String) (command : Command) :
    session.after (program ++ [(name?, command)]) =
      ((session.after program).runInto name? command).1 :=
  List.foldl_concat _ _ _ _

theorem after_append (session : Session) (earlier later : List (Option String × Command)) :
    session.after (earlier ++ later) = (session.after earlier).after later := List.foldl_append

theorem Reachable.after {session : Session} (reachable : session.Reachable)
    (program : List (Option String × Command)) : (session.after program).Reachable := by
  induction program generalizing session with
  | nil => exact reachable
  | cons step rest ih => exact ih (.step reachable step.1 step.2)

end Session
end TypedVectors
