import GuardedUpdate.Proofs.Update.Values

/-!
# The order of changes and conditions

A request can also be put together step by step. `Draft` does so: a change gets its text and binds
its values at once, whereas a condition is only kept, and is named when the draft is closed. What
comes out is the request of the update (`Update.request_draft`), because the conditions are named
after all changes in either case. So it makes no difference how changes and conditions were mixed,
also where they meet at one placeholder (`Update.request_run_of_same_parts`).
-/

namespace GuardedUpdate

/-! ## Bindings that grow -/

namespace Bindings

/-- Makes attributes known and gives placeholders values, in order. -/
def extend (b : Bindings) (attributes : List String) (values : List (String × Value)) : Bindings :=
  values.foldl (fun b e => b.bind e.1 e.2) (attributes.foldl mention b)

theorem foldl_mention (b : Bindings) (attributes : List String) :
    attributes.foldl mention b =
      { b with
        names := (attributes.map fun a => (Placeholder.ofName a, a)).foldl
          (fun m e => m.insert e.1 e.2) b.names } := by
  induction attributes generalizing b with
  | nil => rfl
  | cons a attributes ih =>
    rw [List.foldl_cons, ih]
    rfl

theorem foldl_bind (b : Bindings) (values : List (String × Value)) :
    values.foldl (fun b e => b.bind e.1 e.2) b =
      { b with values := values.foldl (fun m e => m.insert e.1 e.2) b.values } := by
  induction values generalizing b with
  | nil => rfl
  | cons e values ih =>
    rw [List.foldl_cons, ih]
    rfl

/-- Bindings that grow are those for all that they were ever given. -/
theorem extend_ofLists (attributes more : List String) (values others : List (String × Value)) :
    (ofLists attributes values).extend more others =
      ofLists (attributes ++ more) (values ++ others) := by
  unfold extend ofLists KeyMap.ofList
  rw [foldl_mention, foldl_bind, List.map_append, List.foldl_append, List.foldl_append]

end Bindings

/-! ## Drafts -/

/-- An update on its way to a request. -/
structure Draft where
  /-- The table of the item. -/
  table : String
  /-- The key of the item. -/
  key : Key
  /-- What the store is to answer with. -/
  returns : ReturnOptions := {}
  /-- The text of the changes so far. -/
  clauses : Clauses := {}
  /-- What the references of the changes so far stand for. -/
  bindings : Bindings := {}
  /-- The conditions so far, without names. -/
  guard : Guard := ∅

namespace Draft

/-- Adds a change, with its text and its values, or a condition as it is. -/
def step (d : Draft) : Step → Draft
  | .change c =>
    { d with
      clauses := d.clauses.putChange c
      bindings := d.bindings.extend c.attributes c.bindings }
  | .require joiner c => { d with guard := d.guard.push joiner c }

/-- Adds several changes and conditions. -/
def run (d : Draft) (steps : List Step) : Draft := steps.foldl step d

@[simp] theorem run_cons (d : Draft) (s : Step) (steps : List Step) :
    d.run (s :: steps) = (d.step s).run steps := rfl

/-- Names the conditions and closes a draft. -/
def request (d : Draft) : Request :=
  let bindings := d.bindings.extend d.guard.attributes (d.guard.bindings [])
  { table := d.table
    key := d.key.toItem
    update := d.clauses.expression
    condition := d.guard.expression?
    names := bindings.names
    values := bindings.values?
    returns := d.returns
    clauses := d.clauses }

end Draft

namespace Update

/-- The draft of an update. -/
def draft (u : Update) : Draft where
  table := u.table
  key := u.key
  returns := u.returns
  clauses := .ofChanges u.changes
  bindings := .ofLists (u.changes.flatMap Change.attributes) (u.changes.flatMap Change.bindings)
  guard := u.guard

/-- A step of an update is a step of its draft. -/
theorem draft_step (u : Update) (s : Step) : (u.step s).draft = u.draft.step s := by
  cases s with
  | change c =>
    unfold step draft Draft.step
    simp only [Clauses.ofChanges_append_singleton, Bindings.extend_ofLists, List.flatMap_append,
      List.flatMap_singleton]
  | require joiner c => rfl

/-- The draft after some steps holds the same as the update after them. -/
theorem draft_run (u : Update) (steps : List Step) :
    (u.run steps).draft = u.draft.run steps := by
  induction steps generalizing u with
  | nil => rfl
  | cons s steps ih => rw [run_cons, ih, draft_step, Draft.run_cons]

/-- A draft is closed with the request of the update. -/
theorem request_draft (u : Update) : u.draft.request = u.request := by
  unfold Draft.request draft request Update.bindings
  rw [Bindings.extend_ofLists]

/-! ## The order of the steps -/

/-- After some steps an update depends on the changes and on the conditions among them only. -/
theorem run_eq_of_same_parts {u : Update} {a b : List Step} (hchanges : changesOf a = changesOf b)
    (hconditions : conditionsOf a = conditionsOf b) : u.run a = u.run b := by
  rw [run_eq, run_eq, hchanges, hconditions]

/-- Two runs with the same changes and the same conditions end in one request, however the two are
mixed. It is also the request that is put together step by step, with the values of changes bound
at once. A leaf of the conditions gets its own value, even if a change before or after it binds the
same placeholder. -/
theorem request_run_of_same_parts {u : Update} {a b : List Step}
    (hchanges : changesOf a = changesOf b) (hconditions : conditionsOf a = conditionsOf b) :
    (u.run a).request = (u.run b).request ∧
    (u.draft.run a).request = (u.run a).request ∧
    (u.draft.run b).request = (u.run b).request ∧
    ∀ path attr v, (u.run a).guard.LeafAt path attr v →
      (u.draft.run a).request.given? (Placeholder.ofCondition path attr) = some v ∧
      (u.draft.run b).request.given? (Placeholder.ofCondition path attr) = some v := by
  have hrun : u.run a = u.run b := run_eq_of_same_parts hchanges hconditions
  have hdraft : ∀ steps, (u.draft.run steps).request = (u.run steps).request := by
    intro steps
    rw [← draft_run, request_draft]
  refine ⟨congrArg request hrun, hdraft a, hdraft b, ?_⟩
  intro path attr v leaf
  rw [hdraft a, hdraft b, ← hrun]
  exact ⟨given?_request_of_leafAt leaf, given?_request_of_leafAt leaf⟩

/-- A value is written to an attribute that is called like the placeholder of a condition, before
the condition is given and after it. -/
theorem request_run_of_swapped :
    let u : Update := { table := "items", key := { partition := ("id", .string "1") } }
    let change : Step := .change (.set "condition_1_status" (.string "new"))
    let require : Step := .require .and (.test "status" false (.compare .equal (.string "old")))
    (u.run [change, require]).request = (u.run [require, change]).request ∧
      (u.draft.run [change, require]).request.given? ":condition_1_status" = some (.string "old") ∧
      (u.draft.run [require, change]).request.given? ":condition_1_status" =
        some (.string "old") := by
  intro u change require
  have hparts := request_run_of_same_parts (u := u) (a := [change, require])
    (b := [require, change]) rfl rfl
  have leaf : (u.run [change, require]).guard.LeafAt [1] "status" (.string "old") :=
    .test (i := 0) rfl (.compare _ _)
  exact ⟨hparts.1, hparts.2.2.2 [1] "status" _ leaf⟩

end Update
end GuardedUpdate
