import GuardedUpdate.Proofs.Condition.Leaves
import GuardedUpdate.Proofs.Request.Scan

/-!
# What a condition expression refers to

The text of a guard refers to the attributes that the guard mentions and to the placeholders that it
binds, wherever it stands, if the attributes are names.
-/

namespace GuardedUpdate

variable {mark : Char}

/-! ## Placeholders -/

/-- A path is written with reference characters. -/
theorem isReferenceChar_of_mem_pathText {path : List Nat} {c : Char}
    (h : c ∈ (Placeholder.pathText path).toList) : isReferenceChar c = true := by
  by_cases hpath : path = []
  · rw [hpath] at h
    exact absurd h List.not_mem_nil
  · -- Up to one more underscore the text of a path is its steps.
    have hsteps : c ∈ Placeholder.steps path := by
      rw [← Placeholder.toList_pathText_append hpath]
      exact List.mem_append_left _ h
    obtain ⟨p, -, hp⟩ := List.mem_flatMap.1 hsteps
    rcases List.mem_append.1 hp with hdigit | hunderscore
    · simp [isReferenceChar, Char.isAlphanum, Decimal.isDigit_of_mem_ofNat hdigit]
    · rw [List.mem_singleton.1 hunderscore]
      decide

theorem isReference_ofCondition (path : List Nat) {attr : String} (h : IsName attr) :
    IsReference ':' (Placeholder.ofCondition path attr) := by
  refine ⟨"condition_".toList ++ (Placeholder.pathText path).toList ++ '_' :: attr.toList,
    by simp, ?_, by simp [Placeholder.ofCondition]⟩
  intro c hc
  rw [List.mem_append, List.mem_append, List.mem_cons] at hc
  rcases hc with (hfixed | hpath) | hunderscore | hattr
  · have hall : "condition_".toList.all isReferenceChar = true := by decide
    exact List.all_eq_true.1 hall c hfixed
  · exact isReferenceChar_of_mem_pathText hpath
  · rw [hunderscore]
    decide
  · exact h.2 c hattr

/-! ## Predicates -/

namespace Predicate

/-- A call refers to what its arguments refer to. -/
theorem mem_referencesIn_callText_iff (hmark : mark ∈ ['#', ':']) {name : String}
    (hname : mark ∉ name.toList) {arguments : List String} {x : String} :
    x ∈ referencesIn mark (callText name arguments).toList ↔
      ∃ t ∈ arguments, x ∈ referencesIn mark t.toList := by
  have hsep : mark ∉ ", ".toList := not_mem_of_isMark hmark (by decide) (by decide)
  have hopen : mark ∉ " (".toList := not_mem_of_isMark hmark (by decide) (by decide)
  have hclose : mark ∉ ")".toList := not_mem_of_isMark hmark (by decide) (by decide)
  have hends : NameEnds ")".toList := by simp [isReferenceChar]
  rw [callText, String.toList_append, referencesIn_append hends, referencesIn_of_not_mem hclose,
    List.append_nil, String.toList_append, String.toList_append, List.append_assoc,
    referencesIn_append_of_not_mem hname, referencesIn_append_of_not_mem hopen,
    mem_referencesIn_intercalate hsep (by simp [isReferenceChar])]

/-- The text of a predicate refers to what its attribute and its placeholders refer to. -/
theorem mem_referencesIn_text_iff (hmark : mark ∈ ['#', ':']) {path : List Nat} {attr : String}
    {p : Predicate} {x : String} :
    x ∈ referencesIn mark (p.text path attr).toList ↔
      x ∈ referencesIn mark (Placeholder.ofName attr).toList ∨
        ∃ t ∈ p.placeholders path attr, x ∈ referencesIn mark t.toList := by
  have hblank : mark ∉ " ".toList := not_mem_of_isMark hmark (by decide) (by decide)
  have hends : ∀ s, NameEnds (" ".toList ++ s) := by simp [isReferenceChar]
  cases p with
  | compare op v =>
    have hop : mark ∉ (Vocabulary.name op).toList := by
      apply not_mem_of_isMark hmark <;> cases op <;> decide
    simp only [text, String.toList_append, List.append_assoc, placeholders, bindings]
    rw [referencesIn_append (hends _), referencesIn_append_of_not_mem hblank,
      referencesIn_append_of_not_mem hop, referencesIn_append_of_not_mem hblank]
    simp
  | oneOf l =>
    have hin : mark ∉ "IN".toList := not_mem_of_isMark hmark (by decide) (by decide)
    rw [text, String.toList_append, String.toList_append, List.append_assoc,
      referencesIn_append (hends _), referencesIn_append_of_not_mem hblank, List.mem_append,
      mem_referencesIn_callText_iff hmark hin]
  | call f =>
    have hname : mark ∉ f.name.toList := by
      apply not_mem_of_isMark hmark <;> cases f <;> simp [AttributeFunction.name]
    rw [text, mem_referencesIn_callText_iff hmark hname]
    simp only [List.mem_cons, exists_eq_or_imp]

/-- The placeholders of a predicate are references. -/
theorem isReference_of_mem_placeholders {path : List Nat} {attr t : String} {p : Predicate}
    (h : IsName attr) (ht : t ∈ p.placeholders path attr) : IsReference ':' t := by
  obtain ⟨e, he, rfl⟩ := List.mem_map.1 ht
  obtain ⟨rest, -, hk⟩ := mem_bindings_iff.1 he
  rw [hk]
  exact isReference_ofCondition _ h

theorem mem_referencesIn_name_iff {path : List Nat} {attr : String} {p : Predicate}
    (h : IsName attr) {x : String} :
    x ∈ referencesIn '#' (p.text path attr).toList ↔ x = Placeholder.ofName attr := by
  rw [mem_referencesIn_text_iff (by decide), (isReference_ofName h).referencesIn_toList (by decide),
    List.mem_singleton]
  constructor
  · intro hx
    rcases hx with hname | ⟨t, ht, hvalue⟩
    · exact hname
    · rw [(isReference_of_mem_placeholders h ht).referencesIn_toList_of_ne (by decide)
        (by decide)] at hvalue
      cases hvalue
  · exact Or.inl

theorem mem_referencesIn_value_iff {path : List Nat} {attr : String} {p : Predicate}
    (h : IsName attr) {x : String} :
    x ∈ referencesIn ':' (p.text path attr).toList ↔ x ∈ p.placeholders path attr := by
  rw [mem_referencesIn_text_iff (by decide),
    (isReference_ofName h).referencesIn_toList_of_ne (by decide) (by decide)]
  constructor
  · intro hx
    rcases hx with hname | ⟨t, ht, hvalue⟩
    · cases hname
    · rw [(isReference_of_mem_placeholders h ht).referencesIn_toList (by decide),
        List.mem_singleton] at hvalue
      rwa [hvalue]
  · intro hx
    refine Or.inr ⟨x, hx, ?_⟩
    rw [(isReference_of_mem_placeholders h hx).referencesIn_toList (by decide)]
    exact List.mem_singleton_self x

end Predicate

namespace Guard

/-- The text of the conditions from a position on begins with a blank, if there is any. -/
theorem nameEnds_textFrom (path : List Nat) (position : Nat) (more : List (Joiner × Condition)) :
    NameEnds (textFrom path position more).toList := by
  cases more with
  | nil => exact nameEnds_nil
  | cons m more =>
    obtain ⟨j, c⟩ := m
    simp [textFrom, isReferenceChar]

theorem mem_referencesIn_textFrom_iff (hmark : mark ∈ ['#', ':']) {path : List Nat}
    {position : Nat} {more : List (Joiner × Condition)} {x : String} :
    x ∈ referencesIn mark (textFrom path position more).toList ↔
      ∃ (i : Nat) (j : Joiner) (c : Condition), more[i]? = some (j, c) ∧
        x ∈ referencesIn mark (c.text (path ++ [position + i])).toList := by
  induction more generalizing position with
  | nil => simp [textFrom]
  | cons m more ih =>
    obtain ⟨j, c⟩ := m
    have hblank : mark ∉ " ".toList := not_mem_of_isMark hmark (by decide) (by decide)
    have hjoiner : mark ∉ (Vocabulary.name j).toList := by
      apply not_mem_of_isMark hmark <;> cases j <;> decide
    rw [textFrom, String.toList_append, referencesIn_append (nameEnds_textFrom _ _ _)]
    simp only [String.toList_append, List.append_assoc]
    rw [referencesIn_append_of_not_mem hblank, referencesIn_append_of_not_mem hjoiner,
      referencesIn_append_of_not_mem hblank, List.mem_append, ih]
    exact (exists_node_cons_iff position
      (Q := fun p d => x ∈ referencesIn mark (d.text (path ++ [p])).toList)).symm

/-- A guard refers to what its conditions refer to, each at its position below the path of the
guard. -/
theorem mem_referencesIn_text_iff (hmark : mark ∈ ['#', ':']) {g : Guard} {path : List Nat}
    {x : String} :
    x ∈ referencesIn mark (g.text path).toList ↔
      ∃ (i : Nat) (j : Option Joiner) (c : Condition), g.toList[i]? = some (j, c) ∧
        x ∈ referencesIn mark (c.text (path ++ [i + 1])).toList := by
  cases g with
  | empty => simp [text, toList]
  | joined first more =>
    rw [text, String.toList_append, referencesIn_append (nameEnds_textFrom _ _ _), List.mem_append,
      mem_referencesIn_textFrom_iff hmark]
    exact (exists_node_joined_iff
      (Q := fun p d => x ∈ referencesIn mark (d.text (path ++ [p])).toList)).symm

end Guard

/-- A test refers to what its predicate refers to. -/
theorem Condition.referencesIn_text_test (hmark : mark ∈ ['#', ':']) (path : List Nat)
    (attr : String) (negated : Bool) (p : Predicate) :
    referencesIn mark ((test attr negated p).text path).toList =
      referencesIn mark (p.text path attr).toList := by
  have hnot : mark ∉ "NOT ".toList := not_mem_of_isMark hmark (by decide) (by decide)
  cases negated with
  | true =>
    rw [text, if_pos rfl, String.toList_append, referencesIn_append_of_not_mem hnot]
  | false =>
    rw [text, if_neg Bool.false_ne_true, String.toList_append]
    rfl

/-- A group refers to what its guard refers to. -/
theorem Condition.referencesIn_text_group (hmark : mark ∈ ['#', ':']) (path : List Nat)
    (inner : Guard) :
    referencesIn mark ((group inner).text path).toList =
      referencesIn mark (inner.text path).toList := by
  have hopen : mark ∉ "(".toList := not_mem_of_isMark hmark (by decide) (by decide)
  have hclose : mark ∉ ")".toList := not_mem_of_isMark hmark (by decide) (by decide)
  have hends : NameEnds ")".toList := by simp [isReferenceChar]
  rw [text, String.toList_append, referencesIn_append hends, referencesIn_of_not_mem hclose,
    List.append_nil, String.toList_append, referencesIn_append_of_not_mem hopen]

namespace Guard

/-- Two properties that a guard has through its conditions, each at its position, agree on guards
over names if they agree on tests of names. -/
theorem iff_of_tests {P Q : List Nat → Guard → Prop} {p q : List Nat → Condition → Prop}
    (hP : ∀ path g, P path g ↔ ∃ (i : Nat) (j : Option Joiner) (c : Condition),
      g.toList[i]? = some (j, c) ∧ p (path ++ [i + 1]) c)
    (hQ : ∀ path g, Q path g ↔ ∃ (i : Nat) (j : Option Joiner) (c : Condition),
      g.toList[i]? = some (j, c) ∧ q (path ++ [i + 1]) c)
    (hp : ∀ path inner, p path (.group inner) ↔ P path inner)
    (hq : ∀ path inner, q path (.group inner) ↔ Q path inner)
    (htest : ∀ path attr negated t, IsName attr →
      (p path (.test attr negated t) ↔ q path (.test attr negated t)))
    {g : Guard} (h : ∀ a ∈ g.attributes, IsName a) (path : List Nat) : P path g ↔ Q path g := by
  induction g using Guard.induction generalizing path with
  | step g ih =>
    have hcondition : ∀ (i : Nat) (j : Option Joiner) (c : Condition),
        g.toList[i]? = some (j, c) → (p (path ++ [i + 1]) c ↔ q (path ++ [i + 1]) c) := by
      intro i j c node
      cases c with
      | test attr negated t =>
        exact htest _ attr negated t (h attr (mem_attributes_of_node node List.mem_cons_self))
      | group inner =>
        rw [hp, hq]
        apply ih j inner (List.mem_of_getElem? node)
        intro a ha
        exact h a (mem_attributes_of_node node ha)
    rw [hP, hQ]
    constructor
    · intro hx
      obtain ⟨i, j, c, node, hc⟩ := hx
      exact ⟨i, j, c, node, (hcondition i j c node).1 hc⟩
    · intro hx
      obtain ⟨i, j, c, node, hc⟩ := hx
      exact ⟨i, j, c, node, (hcondition i j c node).2 hc⟩

/-- What a guard has through its conditions it also has after a function. -/
theorem mem_map_iff_of_nodes {α β : Type} {f : α → β} {g : Guard} {all : List α}
    {each : Nat → Condition → List α}
    (h : ∀ a, a ∈ all ↔ ∃ (i : Nat) (j : Option Joiner) (c : Condition),
      g.toList[i]? = some (j, c) ∧ a ∈ each i c) {b : β} :
    b ∈ all.map f ↔ ∃ (i : Nat) (j : Option Joiner) (c : Condition),
      g.toList[i]? = some (j, c) ∧ b ∈ (each i c).map f := by
  constructor
  · intro hb
    obtain ⟨a, ha, rfl⟩ := List.mem_map.1 hb
    obtain ⟨i, j, c, node, hc⟩ := (h a).1 ha
    exact ⟨i, j, c, node, List.mem_map.2 ⟨a, hc, rfl⟩⟩
  · intro hb
    obtain ⟨i, j, c, node, hc⟩ := hb
    obtain ⟨a, ha, rfl⟩ := List.mem_map.1 hc
    exact List.mem_map.2 ⟨a, (h a).2 ⟨i, j, c, node, ha⟩, rfl⟩

/-- A guard over names refers to the attributes that it mentions. -/
theorem mem_referencesIn_name_iff {g : Guard} (h : ∀ a ∈ g.attributes, IsName a) {path : List Nat}
    {x : String} :
    x ∈ referencesIn '#' (g.text path).toList ↔ x ∈ g.attributes.map Placeholder.ofName := by
  apply iff_of_tests (P := fun path g => x ∈ referencesIn '#' (g.text path).toList)
    (Q := fun _ g => x ∈ g.attributes.map Placeholder.ofName)
    (p := fun path c => x ∈ referencesIn '#' (c.text path).toList)
    (q := fun _ c => x ∈ c.attributes.map Placeholder.ofName) _ _ _ _ _ h
  · exact fun path g => mem_referencesIn_text_iff (by decide)
  · exact fun path g => mem_map_iff_of_nodes fun a => mem_attributes_iff
  · intro path inner
    rw [Condition.referencesIn_text_group (by decide)]
  · exact fun path inner => Iff.rfl
  · intro path attr negated t hattr
    rw [Condition.referencesIn_text_test (by decide), Predicate.mem_referencesIn_name_iff hattr]
    exact List.mem_singleton.symm

/-- A guard over names refers to the placeholders that it binds. -/
theorem mem_referencesIn_value_iff {g : Guard} (h : ∀ a ∈ g.attributes, IsName a) {path : List Nat}
    {x : String} :
    x ∈ referencesIn ':' (g.text path).toList ↔ x ∈ (g.bindings path).map Prod.fst := by
  apply iff_of_tests (P := fun path g => x ∈ referencesIn ':' (g.text path).toList)
    (Q := fun path g => x ∈ (g.bindings path).map Prod.fst)
    (p := fun path c => x ∈ referencesIn ':' (c.text path).toList)
    (q := fun path c => x ∈ (c.bindings path).map Prod.fst) _ _ _ _ _ h
  · exact fun path g => mem_referencesIn_text_iff (by decide)
  · exact fun path g => mem_map_iff_of_nodes fun e => mem_bindings_iff
  · intro path inner
    rw [Condition.referencesIn_text_group (by decide)]
  · exact fun path inner => Iff.rfl
  · intro path attr negated t hattr
    rw [Condition.referencesIn_text_test (by decide), Predicate.mem_referencesIn_value_iff hattr]
    exact Iff.rfl

end Guard
end GuardedUpdate
