import GuardedUpdate.Entity.RoutingConfig
import GuardedUpdate.Entity.Template
import GuardedUpdate.Proofs.Update.Referential

/-!
# The references of updates of entities

Edits mention attributes that are fixed, all of them names. The one text that is taken from outside
and mentioned is the name of a supplier. So a request for an entity passes the check of its
references, with the exception of suppliers whose names cannot stand in a reference. The empty list
is not an exception: the only list that edits create is that of the validation errors, and nothing
else is assigned to it.
-/

namespace GuardedUpdate

/-! ## Updates by edits -/

namespace Update

variable {α : Type} {f : α → List Step} {edits : List α} {u : Update}

/-- The changes of an update that begins without any are those of its edits, in their order. -/
theorem changes_run_flatMap (hu : u.changes = []) :
    (u.run (edits.flatMap f)).changes = edits.flatMap fun e => changesOf (f e) := by
  rw [run_eq]
  show u.changes ++ changesOf (edits.flatMap f) = _
  unfold changesOf
  rw [hu, List.nil_append, List.filterMap_flatMap]

theorem mem_changes_run_flatMap_iff (hu : u.changes = []) {c : Change} :
    c ∈ (u.run (edits.flatMap f)).changes ↔ ∃ e ∈ edits, c ∈ changesOf (f e) := by
  rw [changes_run_flatMap hu, List.mem_flatMap]

/-- An update by edits mentions names only if each of the edits does. -/
theorem mentionsNames_run_flatMap_iff (hu : u.MentionsNames) :
    (u.run (edits.flatMap f)).MentionsNames ↔
      ∀ e ∈ edits, ∀ s ∈ f e, ∀ a ∈ s.attributes, IsName a := by
  rw [mentionsNames_run_iff, and_iff_right hu]
  constructor
  · intro h e he s hs
    exact h s (List.mem_flatMap.2 ⟨e, he, hs⟩)
  · intro h s hs
    obtain ⟨e, he, hse⟩ := List.mem_flatMap.1 hs
    exact h e he s hse

end Update

theorem Entity.mentionsNames_update (table client id : String) (returns : ReturnOptions) :
    (Entity.update table client id returns).MentionsNames :=
  fun _ h => absurd h List.not_mem_nil

/-! ## Routing configurations -/

namespace RoutingConfig

theorem isName_of_mem_attributes (e : Edit) :
    ∀ s ∈ e.steps, ∀ a ∈ s.attributes, IsName a := by
  cases e with
  | shared e => cases e <;> exact of_decide_eq_true rfl
  | _ => exact of_decide_eq_true rfl

/-- No edit of a routing configuration creates a list. -/
theorem creates_eq_false (e : Edit) : ∀ c ∈ Update.changesOf e.steps, c.creates = false := by
  cases e with
  | shared e => cases e <;> exact of_decide_eq_true rfl
  | _ => exact of_decide_eq_true rfl

/-- The request for a routing configuration passes the check. -/
theorem checkReferences_update (table client id : String) (returns : ReturnOptions)
    (edits : List Edit) :
    (update table client id returns edits).request.checkReferences = .ok () := by
  have hnames : (update table client id returns edits).MentionsNames :=
    (Update.mentionsNames_run_flatMap_iff (Entity.mentionsNames_update table client id returns)).2
      fun e _ => isName_of_mem_attributes e
  have hnone : ∀ attr items,
      Change.appendOrCreate attr items ∉ (update table client id returns edits).changes := by
    intro attr items hmem
    obtain ⟨e, -, he⟩ := (Update.mem_changes_run_flatMap_iff rfl).1 hmem
    exact absurd (creates_eq_false e _ he) (by simp [Change.creates])
  exact Update.checkReferences_eq_ok hnames (Or.inl hnone)

end RoutingConfig

/-! ## Templates -/

namespace Template

/-- An edit of a template mentions names, except that a supplier may be called anything. -/
theorem forall_isName_iff (e : Edit) :
    (∀ s ∈ e.steps, ∀ a ∈ s.attributes, IsName a) ↔
      ∀ supplier reference, e = .setSupplierReference supplier reference → IsName supplier := by
  by_cases hsupplier : ∃ supplier reference, e = .setSupplierReference supplier reference
  · obtain ⟨supplier, reference, rfl⟩ := hsupplier
    have hattr : IsName supplierReferencesAttr := by decide
    simp [Edit.steps, Step.attributes, Change.attributes, hattr]
  · have hnames : ∀ s ∈ e.steps, ∀ a ∈ s.attributes, IsName a := by
      cases e with
      | shared e => cases e <;> exact of_decide_eq_true rfl
      | setRender which details => cases which <;> exact of_decide_eq_true rfl
      | setLockTime time expiry => cases expiry <;> exact of_decide_eq_true rfl
      | expectStatusIn statuses => cases statuses <;> exact of_decide_eq_true rfl
      | expectNotStatusIn statuses => cases statuses <;> exact of_decide_eq_true rfl
      | setSupplierReference supplier reference => exact absurd ⟨supplier, reference, rfl⟩ hsupplier
      | _ => exact of_decide_eq_true rfl
    refine iff_of_true hnames ?_
    intro supplier reference he
    exact absurd ⟨supplier, reference, he⟩ hsupplier

/-- Whatever a supplier is called, the attributes that are changed are names; and it is the
validation errors that are created as a list, and nothing else is assigned to them. -/
theorem target_and_creates (e : Edit) :
    ∀ c ∈ Update.changesOf e.steps,
      IsName c.target ∧ (c.creates ↔ c.assigned? = some "validationErrors") := by
  -- The texts of names are evaluated where they stand in the list of attributes.
  have heval : ∀ c ∈ Update.changesOf e.steps,
      (∀ a ∈ c.attributes.head?, IsName a) ∧
        (c.creates ↔ c.assigned? = some "validationErrors") := by
    cases e with
    | shared e => cases e <;> exact of_decide_eq_true rfl
    | setRender which details => cases which <;> exact of_decide_eq_true rfl
    | setLockTime time expiry => cases expiry <;> exact of_decide_eq_true rfl
    | expectStatusIn statuses => cases statuses <;> exact of_decide_eq_true rfl
    | expectNotStatusIn statuses => cases statuses <;> exact of_decide_eq_true rfl
    | _ => exact of_decide_eq_true rfl
  intro c hc
  obtain ⟨hhead, hcreates⟩ := heval c hc
  exact ⟨hhead c.target c.head?_attributes, hcreates⟩

section Update

variable (table client id : String) (returns : ReturnOptions) (edits : List Edit)

theorem mentionsNames_update_iff :
    (update table client id returns edits).MentionsNames ↔
      ∀ supplier reference, .setSupplierReference supplier reference ∈ edits → IsName supplier := by
  have hedits : (update table client id returns edits).MentionsNames ↔
      ∀ e ∈ edits, ∀ s ∈ e.steps, ∀ a ∈ s.attributes, IsName a :=
    Update.mentionsNames_run_flatMap_iff (Entity.mentionsNames_update table client id returns)
  rw [hedits]
  simp only [forall_isName_iff]
  constructor
  · intro h supplier reference hmem
    exact h _ hmem supplier reference rfl
  · intro h e he supplier reference heq
    exact h supplier reference (heq ▸ he)

theorem target_and_creates_update :
    ∀ c ∈ (update table client id returns edits).changes,
      IsName c.target ∧ (c.creates ↔ c.assigned? = some "validationErrors") := by
  intro c hc
  obtain ⟨e, -, he⟩ := (Update.mem_changes_run_flatMap_iff rfl).1 hc
  exact target_and_creates e c he

theorem onlyCreated_update :
    Change.OnlyCreated (update table client id returns edits).changes := by
  have hcreates := target_and_creates_update table client id returns edits
  intro c hc hcc d hd hassigned
  have hc' : c.assigned? = some "validationErrors" := (hcreates c hc).2.1 hcc
  exact (hcreates d hd).2.2 (hassigned.trans hc')

end Update

end Template

/-! ## The check -/

/-- Every request for a routing configuration passes the check of its references. A request for a
template passes exactly if all its suppliers have names that a reference can carry. Whatever they
are called, the empty list is not bound without a reference to it. -/
theorem checkReferences_edits (table client id : String) (returns : ReturnOptions) :
    (∀ edits,
      (RoutingConfig.update table client id returns edits).request.checkReferences = .ok ()) ∧
    ∀ edits,
      ((Template.update table client id returns edits).request.checkReferences = .ok () ↔
        ∀ supplier reference, .setSupplierReference supplier reference ∈ edits →
          IsName supplier) ∧
      (Placeholder.emptyList ∈ (Template.update table client id returns edits).request.placeholders →
        Placeholder.emptyList ∈
          (Template.update table client id returns edits).request.references ':') := by
  refine ⟨RoutingConfig.checkReferences_update table client id returns, ?_⟩
  intro edits
  have hnames := Template.mentionsNames_update_iff table client id returns edits
  have hcreated := Template.onlyCreated_update table client id returns edits
  refine ⟨?_, ?_⟩
  · rw [← hnames]
    exact ⟨Update.mentionsNames_of_checkReferences,
      fun h => Update.checkReferences_eq_ok h hcreated.emptyListUsed⟩
  · exact Update.emptyList_mem_references hcreated fun c hc =>
      (Template.target_and_creates_update table client id returns edits c hc).1

end GuardedUpdate
