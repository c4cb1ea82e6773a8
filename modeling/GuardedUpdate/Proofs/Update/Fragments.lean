import GuardedUpdate.Proofs.Placeholder.Path
import GuardedUpdate.Proofs.Update.Accumulation

/-!
# What a change mentions and binds

The fragment of a change refers to the attributes that the change mentions and to the placeholders
that it binds, if these are names. A change that comes last in its clause under a key mentions what
the earlier ones there mention and binds its value under the same name. So of what changes bind,
only the empty list can be left without a reference.
-/

namespace GuardedUpdate
namespace Change

open Placeholder

/-! ## References of a fragment -/

/-- The fragment of a change refers to the attributes that it mentions. -/
theorem mem_referencesIn_name_iff {c : Change} (h : ∀ a ∈ c.attributes, IsName a) {x : String} :
    x ∈ referencesIn '#' c.fragment.toList ↔ x ∈ c.attributes.map ofName := by
  have hempty := isReference_emptyList
  cases c with
  | setEntry attr key value =>
    have hattr := isReference_ofName (h attr (by simp [attributes]))
    have hkey := isReference_ofName (h key (by simp [attributes]))
    have hvalue := isReference_ofClause (h key (by simp [attributes]))
    simp [fragment, attributes, referencesIn_cons_of_ne, hattr.referencesIn_append,
      hkey.referencesIn_append, hvalue.referencesIn_toList_of_ne, isReferenceChar]
  | remove attr =>
    have hattr := isReference_ofName (h attr (by simp [attributes]))
    simp [fragment, attributes, hattr.referencesIn_toList, isReferenceChar]
  | _ attr _ =>
    have hattr := isReference_ofName (h attr (by simp [attributes]))
    have hvalue := isReference_ofClause (h attr (by simp [attributes]))
    simp [fragment, attributes, referencesIn_cons_of_ne, hattr.referencesIn_append,
      hvalue.referencesIn_append_of_ne, hempty.referencesIn_append_of_ne,
      hvalue.referencesIn_toList_of_ne, isReferenceChar]

/-- The fragment of a change refers to the placeholders that it binds. -/
theorem mem_referencesIn_value_iff {c : Change} (h : ∀ a ∈ c.attributes, IsName a) {x : String} :
    x ∈ referencesIn ':' c.fragment.toList ↔ x ∈ c.bindings.map Prod.fst := by
  have hempty := isReference_emptyList
  cases c with
  | setEntry attr key value =>
    have hattr := isReference_ofName (h attr (by simp [attributes]))
    have hkey := isReference_ofName (h key (by simp [attributes]))
    have hvalue := isReference_ofClause (h key (by simp [attributes]))
    simp [fragment, bindings, referencesIn_cons_of_ne, hattr.referencesIn_append_of_ne,
      hkey.referencesIn_append_of_ne, hvalue.referencesIn_toList, isReferenceChar]
  | remove attr =>
    have hattr := isReference_ofName (h attr (by simp [attributes]))
    simp [fragment, bindings, hattr.referencesIn_toList_of_ne, isReferenceChar]
  | _ attr _ =>
    have hattr := isReference_ofName (h attr (by simp [attributes]))
    have hvalue := isReference_ofClause (h attr (by simp [attributes]))
    simp [fragment, bindings, referencesIn_cons_of_ne, hattr.referencesIn_append_of_ne,
      hvalue.referencesIn_append, hempty.referencesIn_append, hvalue.referencesIn_toList,
      isReferenceChar, or_comm]

/-! ## What is bound -/

/-- The name under which a change binds its value. -/
def boundName? : Change → Option String
  | set attr _ => some attr
  | setIfAbsent attr _ => some attr
  | append attr _ => some attr
  | appendOrCreate attr _ => some attr
  | setEntry _ key _ => some key
  | remove _ => none
  | add attr _ => some attr
  | delete attr _ => some attr

/-- Whether a change creates the list that it appends to, where there is none. -/
def creates : Change → Bool
  | appendOrCreate _ _ => true
  | _ => false

/-- A change binds its value, and the empty list where it may create one. -/
theorem mem_map_bindings_iff {c : Change} {x : String} :
    x ∈ c.bindings.map Prod.fst ↔
      (∃ name, c.boundName? = some name ∧ x = ofClause name) ∨ (c.creates ∧ x = emptyList) := by
  cases c <;> simp [bindings, boundName?, creates]

/-! ## What is kept in one place -/

/-- The attribute that a change is made to. -/
def target : Change → String
  | set attr _ => attr
  | setIfAbsent attr _ => attr
  | append attr _ => attr
  | appendOrCreate attr _ => attr
  | setEntry attr _ _ => attr
  | remove attr => attr
  | add attr _ => attr
  | delete attr _ => attr

/-- A change mentions the attribute that it is made to and what it binds its value under. -/
theorem mem_attributes_iff {c : Change} {a : String} :
    a ∈ c.attributes ↔ a = c.target ∨ c.boundName? = some a := by
  cases c <;> simp [attributes, target, boundName?, eq_comm]

/-- The attribute that a change is made to is mentioned first. -/
theorem head?_attributes (c : Change) : c.attributes.head? = some c.target := by
  cases c <;> rfl

/-- What a change mentions and binds by its place: only an entry of a map is not kept under the
attribute alone. -/
theorem setEntry_or_of_key (c : Change) :
    (∃ attr key value, c = .setEntry attr key value) ∨
      (c.target = c.key ∧ c.attributes = [c.key] ∧
        c.boundName? = if c.clause = .remove then none else some c.key) := by
  cases c with
  | setEntry attr key value => exact Or.inl ⟨attr, key, value, rfl⟩
  | _ => exact Or.inr ⟨rfl, rfl, rfl⟩

/-- The key of an entry is no name. -/
theorem not_isName_key_setEntry (attr key : String) (value : Value) :
    ¬IsName (setEntry attr key value).key := by
  intro h
  have hdot : '.' ∈ (setEntry attr key value).key.toList := by simp [Change.key]
  exact absurd (h.2 '.' hdot) (by decide)

/-- Two changes that stand in one clause under one key mention the same attributes and bind their
values under one name. -/
theorem eq_of_key_eq {c d : Change} (hc : IsName c.target) (hd : IsName d.target)
    (hclause : c.clause = d.clause) (hkey : c.key = d.key) :
    c.attributes = d.attributes ∧ c.boundName? = d.boundName? := by
  rcases c.setEntry_or_of_key with ⟨attr, key, value, rfl⟩ | ⟨hctarget, hcattr, hcname⟩
  · rcases d.setEntry_or_of_key with ⟨attr', key', value', rfl⟩ | ⟨hdtarget, -, -⟩
    · -- The attribute ends at the first dot.
      have htext := congrArg String.toList hkey
      simp only [Change.key, String.toList_append, List.append_assoc] at htext
      obtain ⟨h, -, hrest⟩ :=
        append_cons_inj hc.2 hd.2 (by decide : ¬isReferenceChar '.' = true) (by decide) htext
      obtain rfl : attr = attr' := String.toList_inj.1 h
      obtain rfl : key = key' := String.toList_inj.1 hrest
      exact ⟨rfl, rfl⟩
    · have hname : IsName d.key := hdtarget ▸ hd
      exact absurd (hkey ▸ hname) (not_isName_key_setEntry attr key value)
  · rcases d.setEntry_or_of_key with ⟨attr', key', value', rfl⟩ | ⟨-, hdattr, hdname⟩
    · have hname : IsName c.key := hctarget ▸ hc
      exact absurd (hkey ▸ hname) (not_isName_key_setEntry attr' key' value')
    · rw [hcattr, hdattr, hcname, hdname, hclause, hkey]
      exact ⟨rfl, rfl⟩

/-! ## The last changes -/

/-- Behind every change there is a last one in its place, and it mentions the same attributes and
binds its value under the same name. -/
theorem exists_last?_of_mem {changes : List Change} (htarget : ∀ c ∈ changes, IsName c.target)
    {c : Change} (h : c ∈ changes) :
    ∃ d, last? changes c.clause c.key = some d ∧ d.attributes = c.attributes ∧
      d.boundName? = c.boundName? := by
  obtain ⟨d, hd⟩ := exists_last?_eq_some h
  obtain ⟨hmem, hclause, hkey⟩ := of_last?_eq_some hd
  obtain ⟨hattr, hname⟩ := eq_of_key_eq (htarget d hmem) (htarget c h) hclause hkey
  exact ⟨d, hd, hattr, hname⟩

section Last

variable {changes : List Change} (hlegal : ∀ c ∈ changes, ∀ a ∈ c.attributes, IsName a)
include hlegal

theorem isName_target {c : Change} (h : c ∈ changes) : IsName c.target :=
  hlegal c h c.target (mem_attributes_iff.2 (Or.inl rfl))

/-- The clauses refer to the attributes that any of the changes mentions. -/
theorem mem_referencesIn_name_ofChanges_iff {x : String} :
    x ∈ referencesIn '#' (Clauses.ofChanges changes).expression.toList ↔
      ∃ c ∈ changes, x ∈ c.attributes.map ofName := by
  rw [Clauses.mem_referencesIn_expression_iff (by decide)]
  constructor
  · intro hyp
    obtain ⟨clause, f, hf, hx⟩ := hyp
    obtain ⟨k, c, hc, rfl⟩ := Clauses.mem_fragments_ofChanges_iff.1 hf
    have hmem := (of_last?_eq_some hc).1
    exact ⟨c, hmem, (mem_referencesIn_name_iff (hlegal c hmem)).1 hx⟩
  · intro hyp
    obtain ⟨c, hmem, hx⟩ := hyp
    obtain ⟨d, hd, hattr, -⟩ := exists_last?_of_mem (fun _ => isName_target hlegal) hmem
    have hdmem := (of_last?_eq_some hd).1
    refine ⟨c.clause, d.fragment, Clauses.mem_fragments_ofChanges_iff.2 ⟨c.key, d, hd, rfl⟩, ?_⟩
    exact (mem_referencesIn_name_iff (hlegal d hdmem)).2 (hattr ▸ hx)

/-- The clauses refer to the values of all changes, and to the empty list where a last change may
create one. -/
theorem mem_referencesIn_value_ofChanges_iff {x : String} :
    x ∈ referencesIn ':' (Clauses.ofChanges changes).expression.toList ↔
      (∃ c ∈ changes, ∃ name, c.boundName? = some name ∧ x = ofClause name) ∨
        ((∃ clause k c, last? changes clause k = some c ∧ c.creates) ∧ x = emptyList) := by
  rw [Clauses.mem_referencesIn_expression_iff (by decide)]
  constructor
  · intro hyp
    obtain ⟨clause, f, hf, hx⟩ := hyp
    obtain ⟨k, c, hc, rfl⟩ := Clauses.mem_fragments_ofChanges_iff.1 hf
    have hmem := (of_last?_eq_some hc).1
    rw [mem_referencesIn_value_iff (hlegal c hmem), mem_map_bindings_iff] at hx
    rcases hx with hvalue | ⟨hcreates, hempty⟩
    · exact Or.inl ⟨c, hmem, hvalue⟩
    · exact Or.inr ⟨⟨clause, k, c, hc, hcreates⟩, hempty⟩
  · have hreferred : ∀ clause k d, last? changes clause k = some d → x ∈ d.bindings.map Prod.fst →
        ∃ clause, ∃ f ∈ (Clauses.ofChanges changes).fragments clause,
          x ∈ referencesIn ':' f.toList := by
      intro clause k d hd hx
      have hdmem := (of_last?_eq_some hd).1
      refine ⟨clause, d.fragment, Clauses.mem_fragments_ofChanges_iff.2 ⟨k, d, hd, rfl⟩, ?_⟩
      exact (mem_referencesIn_value_iff (hlegal d hdmem)).2 hx
    intro h
    rcases h with ⟨c, hmem, name, hname, hx⟩ | ⟨⟨clause, k, c, hc, hcreates⟩, hx⟩
    · -- The last change in the place of this one binds its value under the same name.
      obtain ⟨d, hd, -, hdname⟩ := exists_last?_of_mem (fun _ => isName_target hlegal) hmem
      exact hreferred _ _ d hd (mem_map_bindings_iff.2 (Or.inl ⟨name, hdname.trans hname, hx⟩))
    · exact hreferred _ _ c hc (mem_map_bindings_iff.2 (Or.inr ⟨hcreates, hx⟩))

end Last

end Change
end GuardedUpdate
