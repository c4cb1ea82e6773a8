import GuardedUpdate.Proofs.Update.Values

/-!
# What a request gives

The names of a request are those of everything that its update mentions, and its values are those
that changes and conditions bind; of two values for one placeholder the last one counts
(`Update.gives_exactly`). A change gives the placeholder of its own value, and one that may create a
list gives `:emptyList` the empty list. Nothing keeps `:emptyList` for these lists: it is also the
placeholder of an attribute or entry that is called `emptyList`, and lists are created empty exactly
if the last change that gives it gives the empty list (`Update.base_of_created_lists`).
-/

namespace GuardedUpdate

/-! ## The last of many entries -/

namespace KeyMap

variable {α β : Type} {f : β → List (String × α)} {l : List β} {k : String} {a : α}

theorem lastValue?_flatMap_eq_none_iff :
    lastValue? (l.flatMap f) k = none ↔ ∀ b ∈ l, lastValue? (f b) k = none := by
  induction l with
  | nil => simp [lastValue?]
  | cons b l ih =>
    rw [List.flatMap_cons, lastValue?_append, Option.or_eq_none_iff, ih, List.forall_mem_cons]
    exact and_comm

/-- Of many lists the last one that has a key decides its value. -/
theorem lastValue?_flatMap_eq_some_iff :
    lastValue? (l.flatMap f) k = some a ↔
      ∃ before b after, l = before ++ b :: after ∧ lastValue? (f b) k = some a ∧
        ∀ c ∈ after, lastValue? (f c) k = none := by
  constructor
  · intro h
    induction l with
    | nil => cases h
    | cons b l ih =>
      rw [List.flatMap_cons, lastValue?_append] at h
      cases hlater : lastValue? (l.flatMap f) k with
      | none =>
        rw [hlater, Option.none_or] at h
        exact ⟨[], b, l, rfl, h, lastValue?_flatMap_eq_none_iff.1 hlater⟩
      | some a' =>
        rw [hlater, Option.some_or] at h
        obtain ⟨before, c, after, hl, hc, hafter⟩ := ih (hlater.trans h)
        exact ⟨b :: before, c, after, by rw [hl, List.cons_append], hc, hafter⟩
  · intro hyp
    obtain ⟨before, b, after, hl, hb, hafter⟩ := hyp
    rw [hl, List.flatMap_append, List.flatMap_cons, lastValue?_append, lastValue?_append,
      lastValue?_flatMap_eq_none_iff.2 hafter, Option.none_or, hb, Option.some_or]

/-- Only a list without entries makes a map without entries. -/
theorem size_ofList_eq_zero_iff {l : List (String × α)} : (ofList l).size = 0 ↔ l = [] := by
  constructor
  · intro h
    cases l with
    | nil => rfl
    | cons e l =>
      have hkey : e.1 ∈ (ofList (e :: l)).keys := mem_keys_ofList.2 (by simp)
      rw [eq_empty_of_size_eq_zero h] at hkey
      exact absurd hkey (KeySet.not_mem_empty _)
  · intro h
    rw [h]
    rfl

end KeyMap

/-! ## Changes -/

namespace Change

open Placeholder

/-- The value that a change carries. -/
def value? : Change → Option Value
  | set _ value => some value
  | setIfAbsent _ value => some value
  | append _ items => some (.list items)
  | appendOrCreate _ items => some (.list items)
  | setEntry _ _ value => some value
  | remove _ => none
  | add _ value => some value
  | delete _ members => some members

/-- What a change gives a placeholder: its own value if the placeholder is that of its attribute or
entry, but the empty list to `:emptyList` if it may create a list, whatever its attribute is
called. -/
def gives? (c : Change) (placeholder : String) : Option Value :=
  if c.creates ∧ placeholder = emptyList then some (.list [])
  else if c.boundName?.map ofClause = some placeholder then c.value?
  else none

/-- Of what a change binds, in order, the last value is what it gives. -/
theorem lastValue?_bindings (c : Change) (placeholder : String) :
    KeyMap.lastValue? c.bindings placeholder = c.gives? placeholder := by
  have hone : ∀ (k : String) (v : Value), KeyMap.lastValue? [(k, v)] placeholder =
      if k = placeholder then some v else none := by
    intro k v
    by_cases h : k = placeholder <;> simp [KeyMap.lastValue?, h]
  cases c with
  | appendOrCreate attr items =>
    have htwo : (appendOrCreate attr items).bindings =
        [(ofClause attr, .list items)] ++ [(emptyList, .list [])] := rfl
    rw [htwo, KeyMap.lastValue?_append, hone, hone]
    by_cases h : placeholder = emptyList
    · simp [gives?, creates, h]
    · simp [gives?, creates, boundName?, value?, h, Ne.symm h]
  | remove attr => simp [bindings, KeyMap.lastValue?, gives?, creates, boundName?]
  | _ => simp [bindings, hone, gives?, creates, boundName?, value?]

/-- A change without a value takes an attribute away. -/
theorem bindings_eq_nil_iff {c : Change} : c.bindings = [] ↔ ∃ attr, c = .remove attr := by
  cases c <;> simp [bindings]

/-- A change that may create a list gives `:emptyList` the empty list, and any other gives it its
value if it is about something that is called `emptyList`. -/
theorem gives?_emptyList (c : Change) :
    c.gives? emptyList =
      if c.creates then some (.list [])
      else if c.boundName? = some "emptyList" then c.value? else none := by
  have hname : c.boundName?.map ofClause = some emptyList ↔ c.boundName? = some "emptyList" := by
    simp [ofClause_eq_emptyList_iff]
  simp only [gives?, hname, and_true]

/-- What has a placeholder of its own has a value. -/
theorem value?_ne_none {c : Change} {name : String} (h : c.boundName? = some name) :
    c.value? ≠ none := by
  cases c with
  | remove attr => cases h
  | _ => exact Option.some_ne_none _

theorem gives?_emptyList_eq_none_iff {c : Change} :
    c.gives? emptyList = none ↔ ¬c.creates ∧ c.boundName? ≠ some "emptyList" := by
  rw [gives?_emptyList]
  by_cases hcreates : c.creates
  · simp [hcreates]
  · by_cases hname : c.boundName? = some "emptyList"
    · simp [hcreates, hname, value?_ne_none hname]
    · simp [hcreates, hname]

theorem gives?_emptyList_eq_some_nil_iff {c : Change} :
    c.gives? emptyList = some (.list []) ↔
      c.creates ∨ c.boundName? = some "emptyList" ∧ c.value? = some (.list []) := by
  rw [gives?_emptyList]
  by_cases hcreates : c.creates
  · simp [hcreates]
  · by_cases hname : c.boundName? = some "emptyList"
    · simp [hcreates, hname]
    · simp [hcreates, hname]

/-- `:emptyList` is given nothing but the empty list by a change that carries no other value for
something called `emptyList`. -/
theorem eq_nil_of_gives?_emptyList {c : Change} {v : Value} (h : c.gives? emptyList = some v)
    (hcarried : c.boundName? = some "emptyList" → c.value? = some (.list [])) : v = .list [] := by
  rw [gives?_emptyList] at h
  split at h
  · exact (Option.some.inj h).symm
  · split at h
    · next hname => exact Option.some.inj (h.symm.trans (hcarried hname))
    · cases h

/-- The text of a change that may create a list refers to the empty list, whatever the attribute is
called. -/
theorem emptyList_mem_referencesIn_appendOrCreate (attr : String) (items : List Value) :
    emptyList ∈ referencesIn ':' (appendOrCreate attr items).fragment.toList := by
  have htext : (appendOrCreate attr items).fragment.toList =
      (ofName attr ++ " = list_append(if_not_exists(" ++ ofName attr ++ ", ").toList ++
        (emptyList.toList ++ ("), " ++ ofClause attr ++ ")").toList) := by
    simp [fragment]
  have hends : NameEnds ("), " ++ ofClause attr ++ ")").toList := by
    simp [isReferenceChar]
  have hbegins : NameEnds (emptyList.toList ++ ("), " ++ ofClause attr ++ ")").toList) := by
    simp [emptyList, isReferenceChar]
  rw [htext, referencesIn_append hbegins, List.mem_append,
    isReference_emptyList.referencesIn_append (by decide) hends]
  exact Or.inr List.mem_cons_self

end Change

/-! ## Updates -/

namespace Update

/-- An update mentions the attributes of its changes, the entries that they give values, and the
attributes that its conditions test. -/
def Mentions (u : Update) (name : String) : Prop :=
  (∃ c ∈ u.changes, name = c.target ∨ ∃ attr value, c = .setEntry attr name value) ∨
    u.guard.Mentions name

theorem mentions_iff {u : Update} {name : String} :
    u.Mentions name ↔
      name ∈ u.changes.flatMap Change.attributes ++ u.guard.attributes := by
  have hchange : ∀ c : Change, name ∈ c.attributes ↔
      name = c.target ∨ ∃ attr value, c = .setEntry attr name value := by
    intro c
    cases c <;> simp [Change.attributes, Change.target, eq_comm]
  unfold Mentions
  simp only [List.mem_append, List.mem_flatMap, hchange, Guard.mem_attributes_iff_mentions]

/-- The names of a request are those that its update mentions, each under its own reference. -/
theorem get?_names_request_eq_some_iff {u : Update} {k x : String} :
    u.request.names.get? k = some x ↔ k = Placeholder.ofName x ∧ u.Mentions x := by
  let names := (u.changes.flatMap Change.attributes ++ u.guard.attributes).map
    fun a => (Placeholder.ofName a, a)
  have hfun : ∀ k a b, (k, a) ∈ names → (k, b) ∈ names → a = b := by
    intro k a b ha hb
    obtain ⟨a', -, ha⟩ := List.mem_map.1 ha
    obtain ⟨b', -, hb⟩ := List.mem_map.1 hb
    cases ha
    obtain ⟨href, rfl⟩ := Prod.mk.inj hb
    exact (Placeholder.ofName_injective href).symm
  calc u.request.names.get? k = some x ↔ (k, x) ∈ names := KeyMap.get?_ofList_eq_some_iff hfun
    _ ↔ k = Placeholder.ofName x ∧ u.Mentions x := by
      rw [List.mem_map, mentions_iff]
      constructor
      · intro hyp
        obtain ⟨a, ha, heq⟩ := hyp
        cases heq
        exact ⟨rfl, ha⟩
      · intro hyp
        obtain ⟨rfl, hx⟩ := hyp
        exact ⟨x, hx, rfl⟩

/-- The last change that gives a placeholder a value decides it among the changes. -/
theorem changeValue?_eq_some_iff {u : Update} {k : String} {v : Value} :
    u.changeValue? k = some v ↔
      ∃ before c after, u.changes = before ++ c :: after ∧ c.gives? k = some v ∧
        ∀ d ∈ after, d.gives? k = none := by
  unfold changeValue?
  rw [KeyMap.lastValue?_flatMap_eq_some_iff]
  simp only [Change.lastValue?_bindings]

/-- A request has no values exactly if neither a change nor a leaf of the guard has one. -/
theorem values_request_eq_none_iff {u : Update} :
    u.request.values = none ↔
      (∀ c ∈ u.changes, ∃ attr, c = .remove attr) ∧
        ∀ path attr v, ¬u.guard.LeafAt path attr v := by
  have hleaf : u.guard.bindings [] = [] ↔ ∀ path attr v, ¬u.guard.LeafAt path attr v := by
    rw [List.eq_nil_iff_forall_not_mem]
    constructor
    · intro h path attr v leaf
      exact h (_, v) (Guard.mem_bindings_iff_leafAt.2 ⟨path, attr, leaf, rfl⟩)
    · intro h e he
      obtain ⟨path, attr, leaf, -⟩ := Guard.mem_bindings_iff_leafAt.1 he
      exact h path attr e.2 leaf
  have hnone : u.request.values = none ↔ u.bindings.values.size = 0 := by
    show u.bindings.values? = none ↔ _
    unfold Bindings.values?
    split
    · next h => simp [h]
    · next h => simp [h]
  rw [hnone]
  show (KeyMap.ofList _).size = 0 ↔ _
  rw [KeyMap.size_ofList_eq_zero_iff, List.append_eq_nil_iff, List.flatMap_eq_nil_iff, hleaf]
  simp only [Change.bindings_eq_nil_iff]

/-- What a request gives. Its names are exactly those that the update mentions, with one reference
for each. It has no values exactly if all changes take attributes away and the guard has no leaf.
Without conditions it gives a placeholder exactly if some change does, and then the value that the
last such change gives. -/
theorem gives_exactly (u : Update) :
    (∀ k x, u.request.names.get? k = some x ↔ k = Placeholder.ofName x ∧ u.Mentions x) ∧
    (∀ x, u.Mentions x → ∃! k, u.request.names.get? k = some x) ∧
    (u.request.values = none ↔
      (∀ c ∈ u.changes, ∃ attr, c = .remove attr) ∧
        ∀ path attr v, ¬u.guard.LeafAt path attr v) ∧
    (u.guard = ∅ → ∀ k v, u.request.given? k = some v ↔
      ∃ before c after, u.changes = before ++ c :: after ∧ c.gives? k = some v ∧
        ∀ d ∈ after, d.gives? k = none) := by
  refine ⟨fun k x => get?_names_request_eq_some_iff, ?_, values_request_eq_none_iff, ?_⟩
  · intro x hx
    refine ⟨Placeholder.ofName x, get?_names_request_eq_some_iff.2 ⟨rfl, hx⟩, ?_⟩
    intro k hk
    exact (get?_names_request_eq_some_iff.1 hk).1
  · intro hguard k v
    have hown : u.guard.ownBindings.values.get? k = none := by
      rw [hguard]
      exact KeyMap.get?_empty k
    rw [given?_request, hown, Option.none_or]
    exact changeValue?_eq_some_iff

/-- Items of a list that is itself called `emptyList` are not what its placeholder stands for. -/
theorem gives_exactly_emptyList :
    let u : Update :=
      { table := "items"
        key := { partition := ("id", .string "1") }
        changes := [.set "emptyList" (.bool true), .appendOrCreate "emptyList" [.bool false],
          .remove "emptyList"] }
    u.guard = ∅ ∧ u.request.given? ":emptyList" = some (.list []) := by
  intro u
  have hguard : u.guard = ∅ := rfl
  refine ⟨hguard, ((gives_exactly u).2.2.2 hguard _ _).2 ?_⟩
  exact ⟨[.set "emptyList" (.bool true)], .appendOrCreate "emptyList" [.bool false],
    [.remove "emptyList"], rfl, by decide, by decide⟩

/-! ## The empty list -/

/-- Conditions do not touch the empty list. -/
theorem given?_emptyList (u : Update) :
    u.request.given? Placeholder.emptyList = u.changeValue? Placeholder.emptyList := by
  have hown : u.guard.ownBindings.values.get? Placeholder.emptyList = none := by
    apply KeyMap.get?_eq_none
    intro hmem
    obtain ⟨v, hv⟩ := Option.isSome_iff_exists.1 (KeyMap.isSome_get?.2 hmem)
    obtain ⟨path, attr, -, heq⟩ := Guard.get?_ownBindings_eq_some_iff.1 hv
    exact Placeholder.ofCondition_ne_emptyList path attr heq.symm
  rw [given?_request, hown, Option.none_or]

/-- What lists are created from. `:emptyList` stands for the empty list exactly if the last change
that gives it a value either may create a list or carries the empty list for something that is
called `emptyList`. So where the text of such a change stands among the new values, and the update
is over names, `:emptyList` has a value, and this is the empty list if nothing called `emptyList` is
given another one. -/
theorem base_of_created_lists (u : Update) :
    (u.request.given? Placeholder.emptyList = some (.list []) ↔
      ∃ before c after, u.changes = before ++ c :: after ∧
        (c.creates ∨ c.boundName? = some "emptyList" ∧ c.value? = some (.list [])) ∧
        ∀ d ∈ after, ¬d.creates ∧ d.boundName? ≠ some "emptyList") ∧
    ∀ attr, (Change.appendOrCreate attr []).fragment ∈ u.request.clauses.fragments .set →
      (∀ c ∈ u.changes, ∀ a ∈ c.attributes, IsName a) →
      (∃ v, u.request.given? Placeholder.emptyList = some v) ∧
        ((∀ c ∈ u.changes, c.boundName? = some "emptyList" → c.value? = some (.list [])) →
          u.request.given? Placeholder.emptyList = some (.list [])) := by
  simp only [given?_emptyList]
  constructor
  · rw [changeValue?_eq_some_iff]
    simp only [Change.gives?_emptyList_eq_some_nil_iff, Change.gives?_emptyList_eq_none_iff]
  · intro attr hfragment hlegal
    obtain ⟨key, c, hlast, htext⟩ := Clauses.mem_fragments_ofChanges_iff.1 hfragment
    obtain ⟨hmem, -⟩ := Change.of_last?_eq_some hlast
    -- Whichever change has this text refers to the empty list and so binds it.
    have hbound : Placeholder.emptyList ∈ c.bindings.map Prod.fst := by
      rw [← Change.mem_referencesIn_value_iff (hlegal c hmem), htext]
      exact Change.emptyList_mem_referencesIn_appendOrCreate attr []
    obtain ⟨v, hv⟩ := Option.isSome_iff_exists.1 (isSome_changeValue?_iff.2 ⟨c, hmem, hbound⟩)
    refine ⟨⟨v, hv⟩, ?_⟩
    intro hcarried
    obtain ⟨before, d, after, hsplit, hd, -⟩ := changeValue?_eq_some_iff.1 hv
    have hdmem : d ∈ u.changes := by rw [hsplit]; simp
    rw [hv, Change.eq_nil_of_gives?_emptyList hd (hcarried d hdmem)]

/-- The list of tags is created empty among changes that are about something called `emptyList`, as
an attribute and as an entry, as long as these too carry the empty list. -/
theorem base_of_created_lists_shared :
    let u : Update :=
      { table := "items"
        key := { partition := ("id", .string "1") }
        changes := [.set "emptyList" (.list []), .appendOrCreate "tags" [.bool true],
          .setEntry "files" "emptyList" (.list [])] }
    u.request.given? ":emptyList" = some (.list []) := by
  intro u
  have hfragment :
      (Change.appendOrCreate "tags" []).fragment ∈ u.request.clauses.fragments .set := by
    decide
  exact ((base_of_created_lists u).2 "tags" hfragment (by decide)).2 (by decide)

/-- A later change of an attribute called `emptyList` gives created lists another base, though all
names are names and the references are in order. -/
theorem base_of_created_lists_replaced :
    ¬∀ u : Update, u.MentionsNames → u.request.checkReferences = .ok () →
      ∀ attr, (Change.appendOrCreate attr []).fragment ∈ u.request.clauses.fragments .set →
        u.request.given? Placeholder.emptyList = some (.list []) := by
  intro h
  let u : Update :=
    { table := "items"
      key := { partition := ("id", .string "1") }
      changes := [.appendOrCreate "tags" [.string "a"], .set "emptyList" (.string "x")] }
  have hlegal : u.MentionsNames := by decide
  have hused : Change.EmptyListUsed u.changes := Or.inr (Or.inl ⟨"tags", [.string "a"], rfl⟩)
  have hchecked := checkReferences_eq_ok hlegal hused
  have hfragment :
      (Change.appendOrCreate "tags" []).fragment ∈ u.request.clauses.fragments .set := by
    decide
  have hgiven : u.request.given? Placeholder.emptyList = some (.string "x") := by decide
  rw [h u hlegal hchecked "tags" hfragment] at hgiven
  exact absurd hgiven (by decide)

end Update
end GuardedUpdate
