import GuardedUpdate.Condition.Expression
import GuardedUpdate.Request.Basic
import GuardedUpdate.Update.Change

/-!
# Conditional updates

An update collects changes of an item and conditions on it. `Update.request` turns it into a
request. References are named only then, and conditions after all changes; so it does not matter
in which order changes and conditions were given, only how the changes follow one another and how
the conditions do.
-/

namespace GuardedUpdate

/-- A conditional update of an item. -/
structure Update where
  /-- The table of the item. -/
  table : String
  /-- The key of the item. -/
  key : Key
  /-- What the store is to answer with. -/
  returns : ReturnOptions := {}
  /-- The changes in the order in which they were given. -/
  changes : List Change := []
  /-- The conditions. -/
  guard : Guard := ∅

/-- What can be added to an update. -/
inductive Step where
  /-- A change. -/
  | change (change : Change)
  /-- A condition, with how it is joined to those before it. -/
  | require (joiner : Joiner) (condition : Condition)

namespace Update

/-- Adds a change or a condition. -/
def step (u : Update) : Step → Update
  | .change c => { u with changes := u.changes ++ [c] }
  | .require joiner condition => { u with guard := u.guard.push joiner condition }

/-- Adds several changes and conditions. -/
def run (u : Update) (steps : List Step) : Update := steps.foldl step u

@[simp] theorem run_nil (u : Update) : u.run [] = u := rfl

@[simp] theorem run_cons (u : Update) (s : Step) (steps : List Step) :
    u.run (s :: steps) = (u.step s).run steps := rfl

/-- The changes among some steps. -/
def changesOf (steps : List Step) : List Change :=
  steps.filterMap fun
    | .change c => some c
    | .require _ _ => none

/-- The conditions among some steps, each with its joiner. -/
def conditionsOf (steps : List Step) : List (Joiner × Condition) :=
  steps.filterMap fun
    | .change _ => none
    | .require joiner c => some (joiner, c)

/-- After some steps, the changes among them have been added and so have the conditions; how the
two were mixed does not matter. -/
theorem run_eq (u : Update) (steps : List Step) :
    u.run steps =
      { u with
        changes := u.changes ++ changesOf steps
        guard := u.guard.pushAll (conditionsOf steps) } := by
  induction steps generalizing u with
  | nil => simp [changesOf, conditionsOf, Guard.pushAll]
  | cons s steps ih =>
    rw [run_cons, ih]
    cases s with
    | change c => simp [step, changesOf, conditionsOf]
    | require joiner c => simp [step, changesOf, conditionsOf, Guard.pushAll]

/-- What the names and placeholders of the request stand for. -/
def bindings (u : Update) : Bindings :=
  Bindings.ofLists (u.changes.flatMap Change.attributes ++ u.guard.attributes)
    (u.changes.flatMap Change.bindings ++ u.guard.bindings [])

/-- The request for an update. -/
def request (u : Update) : Request :=
  let clauses := Clauses.ofChanges u.changes
  { table := u.table
    key := u.key.toItem
    update := clauses.expression
    condition := u.guard.expression?
    names := u.bindings.names
    values := u.bindings.values?
    returns := u.returns
    clauses := clauses }

end Update

end GuardedUpdate
