import GuardedUpdate.Proofs.Condition.References
import GuardedUpdate.Proofs.Request.Check
import GuardedUpdate.Proofs.Update.Fragments

/-!
# The references of an update's request

Names and values are collected from all changes and conditions of an update, and the expressions
hold only the last changes. The check of the references passes all the same, with two exceptions:
something that is mentioned is no name, or the empty list was bound for a list that some later
change no longer creates (`Update.mem_references_value_iff`).
-/

namespace GuardedUpdate

/-! ## Assignments -/

/-- The attribute that a change gives a value as a whole. -/
def Change.assigned? : Change → Option String
  | set attr _ => some attr
  | setIfAbsent attr _ => some attr
  | append attr _ => some attr
  | appendOrCreate attr _ => some attr
  | setEntry _ _ _ => none
  | remove _ => none
  | add _ _ => none
  | delete _ _ => none

namespace Change

/-- The last of some changes that gives an attribute a value as a whole. -/
def lastAssignment? (changes : List Change) (attr : String) : Option Change :=
  changes.reverse.find? fun c => c.assigned? = some attr

/-- The empty list that an update may create a list from is in use: no change creates a list, or one
of the last assignments does, or some change binds its value where the empty list would be. -/
def EmptyListUsed (changes : List Change) : Prop :=
  (∀ attr items, appendOrCreate attr items ∉ changes) ∨
    (∃ attr items, lastAssignment? changes attr = some (appendOrCreate attr items)) ∨
    ∃ c ∈ changes, c.boundName? = some "emptyList"

theorem creates_iff {c : Change} : c.creates ↔ ∃ attr items, c = appendOrCreate attr items := by
  cases c <;> simp [creates]

/-- What gives an attribute a value as a whole stands under it in the clause that sets. -/
theorem assigned?_eq_some_iff {c : Change} {attr : String} (h : IsName attr) :
    c.assigned? = some attr ↔ c.clause = .set ∧ c.key = attr := by
  cases c with
  | setEntry a key value =>
    constructor
    · intro heq
      cases heq
    · intro hyp
      obtain ⟨-, hkey⟩ := hyp
      exact absurd (hkey ▸ h) (not_isName_key_setEntry a key value)
  | _ => simp [assigned?, clause, Change.key]

theorem lastAssignment?_eq (changes : List Change) {attr : String} (h : IsName attr) :
    lastAssignment? changes attr = last? changes .set attr := by
  unfold lastAssignment? last?
  congr 1
  funext c
  exact decide_eq_decide.2 (assigned?_eq_some_iff h)

/-- A last change creates a list exactly if some last assignment does. -/
theorem exists_last?_creates_iff {changes : List Change}
    (hlegal : ∀ c ∈ changes, ∀ a ∈ c.attributes, IsName a) :
    (∃ clause k c, last? changes clause k = some c ∧ c.creates) ↔
      ∃ attr items, lastAssignment? changes attr = some (appendOrCreate attr items) := by
  constructor
  · intro hyp
    obtain ⟨clause, k, c, hlast, hcreates⟩ := hyp
    obtain ⟨attr, items, rfl⟩ := creates_iff.1 hcreates
    obtain ⟨hmem, hclause, hkey⟩ := of_last?_eq_some hlast
    have hattr : IsName attr := hlegal _ hmem attr List.mem_cons_self
    refine ⟨attr, items, ?_⟩
    rw [lastAssignment?_eq changes hattr]
    rw [← hclause, ← hkey] at hlast
    exact hlast
  · intro hyp
    obtain ⟨attr, items, hlast⟩ := hyp
    have hmem : appendOrCreate attr items ∈ changes.reverse := List.mem_of_find?_eq_some hlast
    have hattr : IsName attr := hlegal _ (List.mem_reverse.1 hmem) attr List.mem_cons_self
    rw [lastAssignment?_eq changes hattr] at hlast
    exact ⟨.set, attr, appendOrCreate attr items, hlast, rfl⟩

theorem ofClause_eq_emptyList_iff {name : String} :
    Placeholder.ofClause name = Placeholder.emptyList ↔ name = "emptyList" := by
  constructor
  · intro h
    have htext := congrArg String.toList h
    rw [Placeholder.ofClause, String.toList_append] at htext
    exact String.toList_inj.1 (List.cons.inj htext).2
  · intro h
    rw [h]
    rfl

/-- The clauses refer to what the changes bind, but to the empty list only where it is in use. -/
theorem mem_referencesIn_value_ofChanges_iff_bound {changes : List Change}
    (hlegal : ∀ c ∈ changes, ∀ a ∈ c.attributes, IsName a) {x : String} :
    x ∈ referencesIn ':' (Clauses.ofChanges changes).expression.toList ↔
      (∃ c ∈ changes, x ∈ c.bindings.map Prod.fst) ∧
        (x = Placeholder.emptyList → EmptyListUsed changes) := by
  rw [mem_referencesIn_value_ofChanges_iff hlegal]
  constructor
  · intro h
    rcases h with ⟨c, hc, name, hname, hx⟩ | ⟨hcreated, hx⟩
    · refine ⟨⟨c, hc, mem_map_bindings_iff.2 (Or.inl ⟨name, hname, hx⟩)⟩, ?_⟩
      intro hempty
      rw [hx, ofClause_eq_emptyList_iff] at hempty
      exact Or.inr (Or.inr ⟨c, hc, hempty ▸ hname⟩)
    · refine ⟨?_, fun _ => Or.inr (Or.inl ((exists_last?_creates_iff hlegal).1 hcreated))⟩
      obtain ⟨clause, k, c, hlast, hcreates⟩ := hcreated
      exact ⟨c, (of_last?_eq_some hlast).1, mem_map_bindings_iff.2 (Or.inr ⟨hcreates, hx⟩)⟩
  · intro hyp
    obtain ⟨⟨c, hc, hx⟩, hused⟩ := hyp
    rcases mem_map_bindings_iff.1 hx with ⟨name, hname, hvalue⟩ | ⟨hcreates, hempty⟩
    · exact Or.inl ⟨c, hc, name, hname, hvalue⟩
    · -- The empty list is bound, so one of the three reasons for its use must be there.
      rcases hused hempty with hnone | hlast | ⟨d, hd, hname⟩
      · obtain ⟨attr, items, heq⟩ := creates_iff.1 hcreates
        exact absurd (heq ▸ hc) (hnone attr items)
      · exact Or.inr ⟨(exists_last?_creates_iff hlegal).2 hlast, hempty⟩
      · exact Or.inl ⟨d, hd, "emptyList", hname, hempty⟩

/-! ## Lists that nothing else assigns -/

/-- What some change may create as a list gets a value as a whole by such changes only. -/
def OnlyCreated (changes : List Change) : Prop :=
  ∀ c ∈ changes, c.creates → ∀ d ∈ changes, d.assigned? = c.assigned? → d.creates

theorem OnlyCreated.creates_of_assigned {changes : List Change} (h : OnlyCreated changes)
    {attr : String} {items : List Value} (hmem : appendOrCreate attr items ∈ changes) {d : Change}
    (hd : d ∈ changes) (hattr : d.assigned? = some attr) :
    ∃ items, d = appendOrCreate attr items := by
  obtain ⟨attr', items', rfl⟩ := creates_iff.1 (h _ hmem rfl d hd hattr)
  obtain rfl := Option.some.inj hattr
  exact ⟨items', rfl⟩

/-- Where only such changes assign a list, the empty list is in use. -/
theorem OnlyCreated.emptyListUsed {changes : List Change} (h : OnlyCreated changes) :
    EmptyListUsed changes := by
  by_cases hnone : ∀ attr items, appendOrCreate attr items ∉ changes
  · exact Or.inl hnone
  · simp only [not_forall, not_not] at hnone
    obtain ⟨attr, items, hmem⟩ := hnone
    have hfound : (lastAssignment? changes attr).isSome := by
      unfold lastAssignment?
      rw [List.find?_isSome]
      exact ⟨_, List.mem_reverse.2 hmem, by simp [assigned?]⟩
    obtain ⟨d, hd⟩ := Option.isSome_iff_exists.1 hfound
    have hdmem : d ∈ changes := List.mem_reverse.1 (List.mem_of_find?_eq_some hd)
    have hdattr : d.assigned? = some attr := by simpa using List.find?_some hd
    obtain ⟨items', rfl⟩ := h.creates_of_assigned hmem hdmem hdattr
    exact Or.inr (Or.inl ⟨attr, items', hd⟩)

/-- Then the clauses refer to the empty list as soon as a change binds it, even if other changes
mention what is no name. -/
theorem OnlyCreated.emptyList_mem_referencesIn {changes : List Change} (h : OnlyCreated changes)
    (htarget : ∀ c ∈ changes, IsName c.target) {c : Change} (hc : c ∈ changes)
    (hbound : Placeholder.emptyList ∈ c.bindings.map Prod.fst) :
    Placeholder.emptyList ∈ referencesIn ':' (Clauses.ofChanges changes).expression.toList := by
  -- A change that comes last in its place mentions names only and binds the empty list.
  obtain ⟨clause, key, d, hd, hnames, hdbound⟩ : ∃ clause key d, last? changes clause key = some d ∧
      (∀ a ∈ d.attributes, IsName a) ∧ Placeholder.emptyList ∈ d.bindings.map Prod.fst := by
    rcases mem_map_bindings_iff.1 hbound with ⟨name, hname, hempty⟩ | ⟨hcreates, -⟩
    · obtain rfl := ofClause_eq_emptyList_iff.1 hempty.symm
      obtain ⟨d, hd, hattr, hdname⟩ := exists_last?_of_mem htarget hc
      refine ⟨_, _, d, hd, ?_, mem_map_bindings_iff.2 (Or.inl ⟨_, hdname.trans hname, rfl⟩)⟩
      intro a ha
      rw [hattr, mem_attributes_iff, hname] at ha
      rcases ha with rfl | ha
      · exact htarget c hc
      · rw [← Option.some.inj ha]
        decide
    · obtain ⟨attr, items, rfl⟩ := creates_iff.1 hcreates
      have hattr : IsName attr := htarget _ hc
      obtain ⟨d, hd⟩ := exists_last?_eq_some hc
      obtain ⟨hdmem, hdplace⟩ := of_last?_eq_some hd
      obtain ⟨items', rfl⟩ :=
        h.creates_of_assigned hc hdmem ((assigned?_eq_some_iff hattr).2 hdplace)
      refine ⟨_, _, _, hd, ?_, mem_map_bindings_iff.2 (Or.inr ⟨rfl, rfl⟩)⟩
      intro a ha
      rwa [List.mem_singleton.1 ha]
  rw [Clauses.mem_referencesIn_expression_iff (by decide)]
  refine ⟨clause, d.fragment, Clauses.mem_fragments_ofChanges_iff.2 ⟨key, d, hd, rfl⟩, ?_⟩
  exact (mem_referencesIn_value_iff hnames).2 hdbound

end Change

/-- The conditions of a guard do not bind the empty list. -/
theorem Guard.emptyList_not_mem (g : Guard) (path : List Nat) :
    Placeholder.emptyList ∉ (g.bindings path).map Prod.fst := by
  intro h
  obtain ⟨e, he, hempty⟩ := List.mem_map.1 h
  obtain ⟨rest, attr, -, hk⟩ := mem_bindings_iff_leafAt.1 he
  exact Placeholder.ofCondition_ne_emptyList _ attr (hk.symm.trans hempty)

/-- The attributes that a step mentions. -/
def Step.attributes : Step → List String
  | .change c => c.attributes
  | .require _ c => c.attributes

namespace Update

/-- Everything that an update mentions is a name. -/
def MentionsNames (u : Update) : Prop :=
  ∀ a ∈ u.changes.flatMap Change.attributes ++ u.guard.attributes, IsName a

instance (u : Update) : Decidable u.MentionsNames := inferInstanceAs (Decidable (∀ _ ∈ _, _))

theorem MentionsNames.changes {u : Update} (h : u.MentionsNames) :
    ∀ c ∈ u.changes, ∀ a ∈ c.attributes, IsName a := by
  intro c hc a ha
  exact h a (List.mem_append_left _ (List.mem_flatMap.2 ⟨c, hc, ha⟩))

theorem MentionsNames.guard {u : Update} (h : u.MentionsNames) :
    ∀ a ∈ u.guard.attributes, IsName a := by
  intro a ha
  exact h a (List.mem_append_right _ ha)

/-- What is added to an update that mentions names must do so, too. -/
theorem mentionsNames_step_iff {u : Update} {s : Step} :
    (u.step s).MentionsNames ↔ u.MentionsNames ∧ ∀ a ∈ s.attributes, IsName a := by
  unfold MentionsNames
  cases s with
  | change c =>
    simp only [step, Step.attributes, List.flatMap_append, List.flatMap_singleton,
      List.forall_mem_append]
    exact and_right_comm
  | require joiner c =>
    simp only [step, Step.attributes, Guard.attributes_push, List.forall_mem_append, and_assoc]

/-- After some steps an update mentions names only if it did before and the steps do. -/
theorem mentionsNames_run_iff {u : Update} {steps : List Step} :
    (u.run steps).MentionsNames ↔
      u.MentionsNames ∧ ∀ s ∈ steps, ∀ a ∈ s.attributes, IsName a := by
  induction steps generalizing u with
  | nil => simp
  | cons s steps ih =>
    rw [run_cons, ih, mentionsNames_step_iff, List.forall_mem_cons, and_assoc]

/-! ## What a request gives and what it refers to -/

/-- A request gives the names of everything that its update mentions. -/
theorem mem_names_request_iff {u : Update} {x : String} :
    x ∈ u.request.names.keys ↔
      (∃ c ∈ u.changes, x ∈ c.attributes.map Placeholder.ofName) ∨
        x ∈ u.guard.attributes.map Placeholder.ofName := by
  show x ∈ (KeyMap.ofList _).keys ↔ _
  rw [KeyMap.mem_keys_ofList, List.map_map, List.map_append, List.mem_append, List.map_flatMap,
    List.mem_flatMap]
  rfl

/-- A request gives the placeholders that the changes and the guard of its update bind. -/
theorem mem_placeholders_request_iff {u : Update} {x : String} :
    x ∈ u.request.placeholders ↔
      (∃ c ∈ u.changes, x ∈ c.bindings.map Prod.fst) ∨
        x ∈ (u.guard.bindings []).map Prod.fst := by
  have hvalues : u.request.placeholders = u.bindings.values.keys := by
    show (u.bindings.values?).elim ∅ KeyMap.keys = _
    unfold Bindings.values?
    split
    · next hsize => rw [KeyMap.eq_empty_of_size_eq_zero hsize]; rfl
    · rfl
  rw [hvalues]
  show x ∈ (KeyMap.ofList _).keys ↔ _
  rw [KeyMap.mem_keys_ofList, List.map_append, List.mem_append, List.map_flatMap, List.mem_flatMap]

/-- The references of a request are those of the clauses and those of the guard. -/
theorem mem_references_request_iff {u : Update} {mark : Char} {x : String} :
    x ∈ u.request.references mark ↔
      x ∈ referencesIn mark (Clauses.ofChanges u.changes).expression.toList ∨
        x ∈ referencesIn mark (u.guard.text []).toList := by
  have hguard : u.guard.expression?.elim [] (fun c => referencesIn mark c.toList) =
      referencesIn mark (u.guard.text []).toList := by
    unfold Guard.expression?
    cases u.guard <;> rfl
  rw [← hguard]
  unfold Request.references
  rw [KeySet.mem_ofList, List.mem_append]
  rfl

/-- An update over names refers to all names that it gives, and to no others. -/
theorem mem_references_name_iff {u : Update} (h : u.MentionsNames) {x : String} :
    x ∈ u.request.references '#' ↔ x ∈ u.request.names.keys := by
  rw [mem_references_request_iff, mem_names_request_iff,
    Change.mem_referencesIn_name_ofChanges_iff h.changes, Guard.mem_referencesIn_name_iff h.guard]

/-- An update over names refers to all placeholders that it gives and to no others, but for the
empty list where it is not in use. -/
theorem mem_references_value_iff {u : Update} (h : u.MentionsNames) {x : String} :
    x ∈ u.request.references ':' ↔
      x ∈ u.request.placeholders ∧
        (x = Placeholder.emptyList → Change.EmptyListUsed u.changes) := by
  rw [mem_references_request_iff, mem_placeholders_request_iff,
    Change.mem_referencesIn_value_ofChanges_iff_bound h.changes,
    Guard.mem_referencesIn_value_iff h.guard]
  constructor
  · intro hx
    rcases hx with ⟨hchange, hused⟩ | hguard
    · exact ⟨Or.inl hchange, hused⟩
    · refine ⟨Or.inr hguard, ?_⟩
      intro hempty
      exact absurd (hempty ▸ hguard) (u.guard.emptyList_not_mem [])
  · intro hyp
    obtain ⟨hx, hused⟩ := hyp
    rcases hx with hchange | hguard
    · exact Or.inl ⟨hchange, hused⟩
    · exact Or.inr hguard

/-- An update over names passes the check if the empty list is in use. -/
theorem checkReferences_eq_ok {u : Update} (h : u.MentionsNames)
    (hused : Change.EmptyListUsed u.changes) : u.request.checkReferences = .ok () := by
  rw [Request.checkReferences_eq_ok_iff]
  refine ⟨fun x => mem_references_name_iff h, fun x => ?_⟩
  rw [mem_references_value_iff h]
  exact and_iff_left fun _ => hused

/-- Only names pass the check: nothing else is read back from an expression. -/
theorem mentionsNames_of_checkReferences {u : Update} (h : u.request.checkReferences = .ok ()) :
    u.MentionsNames := by
  have hnames := (Request.checkReferences_eq_ok_iff.1 h).1
  intro a ha
  -- The name is given, so it must be read back somewhere.
  have hmem : Placeholder.ofName a ∈ u.request.names.keys := by
    rw [mem_names_request_iff]
    rcases List.mem_append.1 ha with hchange | hguard
    · obtain ⟨c, hc, hac⟩ := List.mem_flatMap.1 hchange
      exact Or.inl ⟨c, hc, List.mem_map.2 ⟨a, hac, rfl⟩⟩
    · exact Or.inr (List.mem_map.2 ⟨a, hguard, rfl⟩)
  rcases mem_references_request_iff.1 ((hnames _).2 hmem) with hclauses | hguard
  · exact isName_of_ofName_mem hclauses
  · exact isName_of_ofName_mem hguard

/-- Where the empty list is not in use, some change has bound it. -/
theorem emptyList_mem_placeholders {u : Update} (h : ¬Change.EmptyListUsed u.changes) :
    Placeholder.emptyList ∈ u.request.placeholders := by
  obtain ⟨attr, items, hmem⟩ : ∃ attr items, Change.appendOrCreate attr items ∈ u.changes := by
    by_contra hnone
    exact h (Or.inl fun attr items hmem => hnone ⟨attr, items, hmem⟩)
  exact mem_placeholders_request_iff.2 (Or.inl ⟨_, hmem, by simp [Change.bindings]⟩)

/-- Where only changes that may create a list assign it, the empty list is referred to if it is
bound. -/
theorem emptyList_mem_references {u : Update} (hcreated : Change.OnlyCreated u.changes)
    (htarget : ∀ c ∈ u.changes, IsName c.target)
    (h : Placeholder.emptyList ∈ u.request.placeholders) :
    Placeholder.emptyList ∈ u.request.references ':' := by
  rcases mem_placeholders_request_iff.1 h with ⟨c, hc, hbound⟩ | hguard
  · exact mem_references_request_iff.2
      (Or.inl (hcreated.emptyList_mem_referencesIn htarget hc hbound))
  · exact absurd hguard (u.guard.emptyList_not_mem [])

/-- The request of an update passes the check of its references exactly when everything that the
update mentions is a name and the empty list is in use. If only the empty list is not, then it is
what the check reports. -/
theorem checkReferences_request (u : Update) :
    (u.request.checkReferences = .ok () ↔
      u.MentionsNames ∧ Change.EmptyListUsed u.changes) ∧
    (u.MentionsNames → ¬Change.EmptyListUsed u.changes →
      u.request.checkReferences = .error (.unusedValues [Placeholder.emptyList])) := by
  have hunused : u.MentionsNames → ¬Change.EmptyListUsed u.changes →
      u.request.checkReferences = .error (.unusedValues [Placeholder.emptyList]) := by
    intro hlegal hnot
    apply Request.checkReferences_eq_unusedValues
    · exact fun x => mem_references_name_iff hlegal
    · intro x
      rw [mem_references_value_iff hlegal]
      exact and_congr_right fun _ => ⟨fun himp hx => hnot (himp hx), fun hne hx => absurd hx hne⟩
    · exact emptyList_mem_placeholders hnot
  refine ⟨⟨?_, ?_⟩, hunused⟩
  · intro hok
    have hlegal := mentionsNames_of_checkReferences hok
    refine ⟨hlegal, ?_⟩
    by_contra hnot
    rw [hunused hlegal hnot] at hok
    cases hok
  · intro hyp
    obtain ⟨hlegal, hused⟩ := hyp
    rw [Request.checkReferences_eq_ok_iff]
    refine ⟨fun x => mem_references_name_iff hlegal, fun x => ?_⟩
    rw [mem_references_value_iff hlegal]
    exact and_iff_left fun _ => hused

/-- A list that is created and then overwritten leaves the empty list behind. -/
theorem checkReferences_overwritten :
    let u : Update :=
      { table := "items"
        key := { partition := ("id", .string "1") }
        changes := [.appendOrCreate "tags" [], .set "tags" (.bool true)] }
    u.MentionsNames ∧ ¬Change.EmptyListUsed u.changes ∧
      u.request.checkReferences = .error (.unusedValues [Placeholder.emptyList]) := by
  intro u
  have hlegal : u.MentionsNames := by decide
  have hnot : ¬Change.EmptyListUsed u.changes := by
    intro hused
    rcases hused with hnone | ⟨attr, items, hlast⟩ | ⟨c, hc, hname⟩
    · exact hnone "tags" [] List.mem_cons_self
    · -- The last assignment of any attribute is the one that overwrites.
      have hset : Change.lastAssignment? u.changes attr =
          if "tags" = attr then some (.set "tags" (.bool true)) else none := by
        by_cases hattr : "tags" = attr
        · simp [Change.lastAssignment?, Change.assigned?, u, hattr]
        · simp [Change.lastAssignment?, Change.assigned?, u, hattr]
      rw [hset] at hlast
      split at hlast <;> cases hlast
    · rcases List.mem_cons.1 hc with rfl | hc
      · exact absurd hname (by decide)
      · rw [List.mem_singleton.1 hc] at hname
        exact absurd hname (by decide)
  exact ⟨hlegal, hnot, (checkReferences_request u).2 hlegal hnot⟩

end Update
end GuardedUpdate
