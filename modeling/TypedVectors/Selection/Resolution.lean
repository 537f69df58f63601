import Std.Data.HashMap
import Std.Data.HashSet
import TypedVectors.Selection.Selector

/-!
Resolution: what a selector addresses in a vector, as targets in the order of the selector. A target
may lie past the end, where a read finds nothing and a write makes the vector grow.
-/
namespace TypedVectors

/-- What one entry of a selector addresses. -/
inductive Target where
  | missing
  /-- A place from zero. -/
  | place (index : Nat)
  deriving DecidableEq

/-- The index of a target, below zero for a missing one. -/
def Target.index : Target → Int
  | missing => -1
  | place index => index

/-- Whether targets are resolved to be read or to be written. -/
inductive Access where
  | read
  | write
  deriving DecidableEq

/-- The targets of a selector, the highest position among them from one, and the names of the places
past the end that a write by name makes. -/
structure Resolution where
  targets : List Target
  highest : Nat
  grown : List (Nat × String)
  deriving DecidableEq

namespace Selection

/-- The target of a missing entry, which no write allows. -/
def missingTarget : Access → Except Error Target
  | .read => .ok .missing
  | .write => .error .missingTarget

/-- A whole number as double precision holds it. -/
def wholeNumber (n : Nat) : Nat := roundSteps n 1

/-- The highest position from one among targets; zero when there are none. -/
def highest (targets : List Target) : Nat :=
  targets.foldl (fun best target =>
    match target with
    | .missing => best
    | .place index => max best (wholeNumber (index + 1))) 0

/-- Targets that make no new names. -/
def resolution (targets : List Target) : Resolution := ⟨targets, highest targets, []⟩

/-- A position cut to a whole number; not-a-number is missing. -/
def wholePosition : Option Binary64 → Except Error (Option Int)
  | none | some .nan => .ok none
  | some (.infinite negative) => .error (.infinitePosition negative)
  | some x => .ok x.trunc.toInt?

/-- All places below a length but those at the given positions. -/
def remaining (length : Nat) (positions : List Int) : List Target :=
  let excluded := Std.HashSet.ofList (positions.map Int.natAbs)
  (List.range length).filterMap fun index =>
    if excluded.contains (index + 1) then none else some (.place index)

/-- The targets of positions above zero; zeros have none. -/
def addressed (access : Access) (positions : List (Option Int)) : Except Error (List Target) := do
  let targets ← positions.mapM fun
    | none => (missingTarget access).map some
    | some p =>
      .ok (if 0 < p then some (Target.place (wholeNumber (p.toNat - 1))) else none)
  return targets.filterMap id

/-- Resolves positions. Those below zero leave out, and stand with no other and no missing one. -/
def resolvePositions (entries : List (Option Binary64)) (length : Nat) (access : Access) :
    Except Error Resolution := do
  let positions ← entries.mapM wholePosition
  let anyBelow := positions.any (·.any (· < 0))
  if anyBelow && positions.any (·.any (0 < ·)) then
    throw .mixedSigns
  if anyBelow then
    if positions.any (·.isNone) then
      throw .missingExclusion
    return resolution (remaining length (positions.filterMap id))
  return resolution (← addressed access positions)

/-- Resolves a mask, which starts over until the vector ends. -/
def resolveMask (entries : List (Option Bool)) (length : Nat) (access : Access) :
    Except Error Resolution := do
  let mask := entries.toArray
  if mask.isEmpty then
    return resolution []
  let targets ← (List.range (max mask.size length)).mapM fun index => do
    match ← readAt mask (index % mask.size) with
    | none => (missingTarget access).map some
    | some true => .ok (some (Target.place index))
    | some false => .ok none
  return resolution (targets.filterMap id)

/-- The names that a write has made so far: their places, and the names from the last back. -/
structure Growth where
  next : Nat
  places : Std.HashMap String Nat
  reversed : List (Nat × String)

/-- The place of a name that the vector does not have, the next new one unless it was made
before. -/
def Growth.place (growth : Growth) (name : String) : Nat × Growth :=
  match growth.places[name]? with
  | some place => (place, growth)
  | none =>
    (growth.next,
      ⟨growth.next + 1, growth.places.insert name growth.next,
        (growth.next, name) :: growth.reversed⟩)

/-- Resolves one name after another to the first place that carries it. -/
def nameTargets (v : TypedVector) (access : Access) :
    List (Option String) → Growth → Except Error (List Target × Growth)
  | [], growth => .ok ([], growth)
  | none :: entries, growth => do
    let target ← missingTarget access
    let (targets, growth) ← nameTargets v access entries growth
    return (target :: targets, growth)
  | some name :: entries, growth => do
    let (target, growth) := match v.placeOf? name, access with
      | some place, _ => (Target.place place, growth)
      | none, .read => (.missing, growth)
      | none, .write =>
        let (place, growth) := growth.place name
        (.place place, growth)
    let (targets, growth) ← nameTargets v access entries growth
    return (target :: targets, growth)

/-- Resolves names; a write makes a new place for each name that the vector does not have. -/
def resolveNames (v : TypedVector) (entries : List (Option String)) (access : Access) :
    Except Error Resolution := do
  let (targets, growth) ← nameTargets v access entries ⟨v.length, ∅, []⟩
  return ⟨targets, highest targets, growth.reversed.reverse⟩

end Selection

/-- What a selector addresses in a vector. -/
def Selector.resolve (selector : Selector) (v : TypedVector) (access : Access) :
    Except Error Resolution :=
  match selector with
  | positions entries => Selection.resolvePositions entries v.length access
  | mask entries => Selection.resolveMask entries v.length access
  | names entries =>
    -- The index is built once for all names.
    Selection.resolveNames v.indexed entries access

end TypedVectors
