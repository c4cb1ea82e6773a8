import GuardedUpdate.Proofs.Update.Referential

/-!
# The values that changes give and those that conditions compare with

Both kinds of value stand in one map. A value that is written to `x` has the placeholder `:x`, and
`x` may itself look like the rest of a condition's placeholder: a change of `condition_1_status`
binds what a first condition on `status` binds. Conditions come after all changes, so where the
two meet the compared value is in the map and the written one is lost
(`Update.given?_request`); without changes the map has the values of the guard and no other
(`Update.given?_request_of_no_changes`). The meeting places are exactly the names `condition_p_x` of the leaves
of the guard (`Update.changeValues_kept`).
-/

namespace GuardedUpdate

/-- The value that a request gives a placeholder. -/
def Request.given? (r : Request) (placeholder : String) : Option Value :=
  r.values.bind (·.get? placeholder)

namespace Placeholder

theorem ofClause_injective {a b : String} (h : ofClause a = ofClause b) : a = b := by
  have htext := congrArg String.toList h
  rw [ofClause, ofClause, String.toList_append, String.toList_append,
    List.append_cancel_left_eq] at htext
  exact String.toList_inj.1 htext

theorem ofName_injective {a b : String} (h : ofName a = ofName b) : a = b := by
  have htext := congrArg String.toList h
  rw [ofName, ofName, String.toList_append, String.toList_append,
    List.append_cancel_left_eq] at htext
  exact String.toList_inj.1 htext

/-- The placeholder of a condition is that of a change under a longer name. -/
theorem ofCondition_eq_ofClause (path : List Nat) (attr : String) :
    ofCondition path attr = ofClause ("condition_" ++ pathText path ++ "_" ++ attr) := by
  apply String.toList_inj.1
  simp [ofCondition, ofClause]

end Placeholder

namespace Update

/-- The value that the changes of an update gave a placeholder last. -/
def changeValue? (u : Update) (placeholder : String) : Option Value :=
  KeyMap.lastValue? (u.changes.flatMap Change.bindings) placeholder

theorem isSome_changeValue?_iff {u : Update} {k : String} :
    (u.changeValue? k).isSome ↔ ∃ c ∈ u.changes, k ∈ c.bindings.map Prod.fst := by
  rw [changeValue?, KeyMap.isSome_lastValue?, List.map_flatMap, List.mem_flatMap]

/-- A request gives what is bound for it. -/
theorem given?_request_eq_get? (u : Update) (k : String) :
    u.request.given? k = u.bindings.values.get? k := by
  show u.bindings.values?.bind (·.get? k) = _
  unfold Bindings.values?
  split
  · next hsize => rw [KeyMap.eq_empty_of_size_eq_zero hsize, KeyMap.get?_empty]; rfl
  · rfl

/-- A request gives what the conditions of its update bind, and for the rest what the changes
do. -/
theorem given?_request (u : Update) (k : String) :
    u.request.given? k = (u.guard.ownBindings.values.get? k).or (u.changeValue? k) := by
  rw [given?_request_eq_get?]
  unfold Update.bindings Guard.ownBindings Bindings.ofLists changeValue?
  rw [KeyMap.get?_ofList, KeyMap.get?_ofList, KeyMap.lastValue?_append]

/-- The request of an update without changes gives the leaves of the guard and nothing else. -/
theorem given?_request_of_no_changes {u : Update} (h : u.changes = []) {k : String} {v : Value} :
    u.request.given? k = some v ↔
      ∃ path attr, u.guard.LeafAt path attr v ∧ k = Placeholder.ofCondition path attr := by
  rw [given?_request_eq_get?, bindings_of_no_changes h]
  exact Guard.get?_ownBindings_eq_some_iff

/-- The placeholder of a leaf is bound by a change exactly if the change binds its value under the
longer name. -/
theorem isSome_changeValue?_ofCondition_iff {u : Update} {path : List Nat} {attr : String} :
    (u.changeValue? (Placeholder.ofCondition path attr)).isSome ↔
      ∃ c ∈ u.changes,
        c.boundName? = some ("condition_" ++ Placeholder.pathText path ++ "_" ++ attr) := by
  have hempty := Placeholder.ofCondition_ne_emptyList path attr
  rw [isSome_changeValue?_iff]
  apply exists_congr
  intro c
  apply and_congr_right
  intro _
  rw [Change.mem_map_bindings_iff, or_iff_left (fun h => hempty h.2),
    Placeholder.ofCondition_eq_ofClause]
  constructor
  · intro hyp
    obtain ⟨name, hname, heq⟩ := hyp
    rw [hname, Placeholder.ofClause_injective heq]
  · intro hname
    exact ⟨_, hname, rfl⟩

/-- A request gives a placeholder of a leaf the value of the leaf. -/
theorem given?_request_of_leafAt {u : Update} {path : List Nat} {attr : String} {v : Value}
    (leaf : u.guard.LeafAt path attr v) :
    u.request.given? (Placeholder.ofCondition path attr) = some v := by
  have hown : u.guard.ownBindings.values.get? (Placeholder.ofCondition path attr) = some v :=
    Guard.get?_ownBindings_eq_some_iff.2 ⟨path, attr, leaf, rfl⟩
  rw [given?_request, hown, Option.some_or]

/-- The values of changes are all kept exactly if no leaf has another value under a placeholder
that a change binds. -/
theorem forall_given?_request_iff (u : Update) :
    (∀ k v, u.changeValue? k = some v → u.request.given? k = some v) ↔
      ∀ path attr v, u.guard.LeafAt path attr v →
        ∀ w, u.changeValue? (Placeholder.ofCondition path attr) = some w → w = v := by
  constructor
  · intro hkept path attr v leaf w hw
    have hgiven := hkept _ w hw
    rw [given?_request_of_leafAt leaf] at hgiven
    exact (Option.some.inj hgiven).symm
  · intro hsame k w hw
    rw [given?_request]
    cases hown : u.guard.ownBindings.values.get? k with
    | none => rw [Option.none_or, hw]
    | some v =>
      obtain ⟨path, attr, leaf, rfl⟩ := Guard.get?_ownBindings_eq_some_iff.1 hown
      rw [Option.some_or, hsame path attr v leaf w hw]

/-- What a request gives for the placeholders of changes and conditions. The values of conditions
come before those of changes. So the changes keep their values exactly where no leaf of the guard
has another one under the same placeholder, and the conditions only add placeholders exactly if no
change binds its value under the name `condition_p_x` of a leaf with the path `p` and the attribute
`x`. -/
theorem changeValues_kept (u : Update) :
    (∀ k, u.request.given? k = (u.guard.ownBindings.values.get? k).or (u.changeValue? k)) ∧
    ((∀ k v, u.changeValue? k = some v → u.request.given? k = some v) ↔
      ∀ path attr v, u.guard.LeafAt path attr v →
        ∀ w, u.changeValue? (Placeholder.ofCondition path attr) = some w → w = v) ∧
    ((∀ k ∈ u.guard.ownBindings.values.keys, u.changeValue? k = none) ↔
      ∀ path attr v, u.guard.LeafAt path attr v → ∀ c ∈ u.changes,
        c.boundName? ≠ some ("condition_" ++ Placeholder.pathText path ++ "_" ++ attr)) := by
  refine ⟨u.given?_request, u.forall_given?_request_iff, ?_⟩
  constructor
  · intro hadds path attr v leaf c hc hname
    have hsome := isSome_changeValue?_ofCondition_iff.2 ⟨c, hc, hname⟩
    have hown := Guard.get?_ownBindings_eq_some_iff.2 ⟨path, attr, leaf, rfl⟩
    rw [hadds _ (KeyMap.isSome_get?.1 (by rw [hown]; rfl))] at hsome
    cases hsome
  · intro hfree k hk
    obtain ⟨v, hv⟩ := Option.isSome_iff_exists.1 (KeyMap.isSome_get?.2 hk)
    obtain ⟨path, attr, leaf, rfl⟩ := Guard.get?_ownBindings_eq_some_iff.1 hv
    rw [← Option.not_isSome_iff_eq_none, isSome_changeValue?_ofCondition_iff]
    intro hyp
    obtain ⟨c, hc, hname⟩ := hyp
    exact hfree path attr v leaf c hc hname

/-- A condition takes the placeholder of a change, though both have names and the references are in
order: the value that was to be written is not in the request. -/
theorem condition_replaces_changeValue :
    ¬∀ u : Update, u.MentionsNames → u.request.checkReferences = .ok () →
      ∀ k v, u.changeValue? k = some v → u.request.given? k = some v := by
  intro h
  let u : Update :=
    { table := "items"
      key := { partition := ("id", .string "1") }
      changes := [.set "condition_1_status" (.string "new")]
      guard := .ofList [(.and, .test "status" false (.compare .equal (.string "old")))] }
  have hlegal : u.MentionsNames := by decide
  have hused : Change.EmptyListUsed u.changes :=
    Or.inl fun attr items hmem => by simp [u] at hmem
  have hchecked : u.request.checkReferences = .ok () :=
    (Request.checkReferences_eq_ok_iff).2
      ⟨fun x => mem_references_name_iff hlegal, fun x => by
        rw [mem_references_value_iff hlegal]
        exact and_iff_left fun _ => hused⟩
  have hlast : u.changeValue? ":condition_1_status" = some (.string "new") := by decide
  have hgiven : u.request.given? ":condition_1_status" = some (.string "old") := by decide
  rw [h u hlegal hchecked _ _ hlast] at hgiven
  exact absurd hgiven (by decide)

end Update
end GuardedUpdate
