import GuardedUpdate.Proofs.Request.Scan
import GuardedUpdate.Update.Change
import Mathlib.Data.List.Induction

/-!
# What stands in the clauses after some changes

A change takes the place of an earlier one in the same clause under the same key. So a clause holds
one fragment for each key that some change has in it, and this is the fragment of the last such
change (`Clauses.mem_entries_ofChanges_iff`).
-/

namespace GuardedUpdate

/-- The last of some changes that stands in a clause under a key. -/
def Change.last? (changes : List Change) (clause : Clause) (key : String) : Option Change :=
  changes.reverse.find? fun c => c.clause = clause ∧ c.key = key

namespace Change

theorem last?_append_singleton (changes : List Change) (c : Change) (clause : Clause)
    (key : String) :
    last? (changes ++ [c]) clause key =
      if c.clause = clause ∧ c.key = key then some c else last? changes clause key := by
  unfold last?
  rw [List.reverse_append, List.reverse_singleton, List.singleton_append, List.find?_cons]
  by_cases h : c.clause = clause ∧ c.key = key
  · simp [h]
  · simp [h]

/-- The last change in a clause under a key is one of the changes, in this clause under this
key. -/
theorem of_last?_eq_some {changes : List Change} {clause : Clause} {key : String} {c : Change}
    (h : last? changes clause key = some c) : c ∈ changes ∧ c.clause = clause ∧ c.key = key := by
  unfold last? at h
  have hmem : c ∈ changes.reverse := List.mem_of_find?_eq_some h
  have hc : c.clause = clause ∧ c.key = key := by simpa using List.find?_some h
  exact ⟨List.mem_reverse.1 hmem, hc⟩

/-- Behind every change there is a last one in its clause under its key. -/
theorem exists_last?_eq_some {changes : List Change} {c : Change} (h : c ∈ changes) :
    ∃ d, last? changes c.clause c.key = some d := by
  apply Option.isSome_iff_exists.1
  unfold last?
  rw [List.find?_isSome]
  exact ⟨c, List.mem_reverse.2 h, by simp⟩

end Change

namespace Clauses

/-- The fragments in a clause under their keys, in order. -/
def entries (c : Clauses) : Clause → List (String × String)
  | .set => c.set
  | .remove => c.remove.map fun attr => (attr, Placeholder.ofName attr)
  | .add => c.add
  | .delete => c.delete

theorem fragments_eq_map_entries (c : Clauses) (clause : Clause) :
    c.fragments clause = (c.entries clause).map Prod.snd := by
  cases clause <;> simp [fragments, entries]

/-! ## Putting a fragment -/

/-- No key stands twice after a fragment has been put into its place. -/
theorem nodup_keys_putFragment {l : List (String × String)} (h : (l.map Prod.fst).Nodup)
    (key fragment : String) : ((putFragment key fragment l).map Prod.fst).Nodup := by
  by_cases hkey : key ∈ l.map Prod.fst
  · rw [map_fst_putFragment_of_mem hkey]
    exact h
  · rw [putFragment_of_not_mem hkey, List.map_append]
    refine List.nodup_append.2 ⟨h, by simp, ?_⟩
    intro a ha b hb hab
    rw [List.map_singleton, List.mem_singleton] at hb
    rw [hab, hb] at ha
    exact hkey ha

/-- A fragment is the only one under its key after it has been put into its place, and what stands
under other keys stays. -/
theorem mem_putFragment_iff {l : List (String × String)} (h : (l.map Prod.fst).Nodup)
    {key fragment k f : String} :
    (k, f) ∈ putFragment key fragment l ↔ if k = key then f = fragment else (k, f) ∈ l := by
  induction l with
  | nil =>
    rw [putFragment, List.mem_singleton, Prod.mk.injEq]
    split
    · next hk => simp [hk]
    · next hk => simp [hk]
  | cons e l ih =>
    obtain ⟨ek, ef⟩ := e
    rw [List.map_cons, List.nodup_cons] at h
    rw [putFragment]
    by_cases hkey : ek = key
    · -- The new fragment takes the place of this one, and no other has the key.
      subst hkey
      have hnot : ∀ f, (ek, f) ∉ l := fun f hf => h.1 (List.mem_map.2 ⟨(ek, f), hf, rfl⟩)
      rw [if_pos rfl, List.mem_cons, List.mem_cons, Prod.mk.injEq, Prod.mk.injEq]
      by_cases hk : k = ek
      · subst hk
        simp [hnot]
      · simp [hk]
    · rw [if_neg hkey, List.mem_cons, List.mem_cons, ih h.2, Prod.mk.injEq]
      by_cases hk : k = key
      · subst hk
        simp [Ne.symm hkey]
      · simp [hk]

/-- Names without fragments are put like names that are their own fragments. -/
theorem map_putName (name : String) (names : List String) :
    (putName name names).map (fun attr => (attr, Placeholder.ofName attr)) =
      putFragment name (Placeholder.ofName name)
        (names.map fun attr => (attr, Placeholder.ofName attr)) := by
  by_cases h : name ∈ names
  · rw [putName, if_pos h]
    induction names with
    | nil => exact absurd h List.not_mem_nil
    | cons a names ih =>
      rw [List.map_cons, putFragment]
      by_cases ha : a = name
      · rw [if_pos ha, ha]
      · rw [if_neg ha, ← ih ((List.mem_cons.1 h).resolve_left (Ne.symm ha))]
  · have hkeys : name ∉ (names.map fun attr => (attr, Placeholder.ofName attr)).map Prod.fst := by
      simpa using h
    rw [putName, if_neg h, putFragment_of_not_mem hkeys, List.map_append, List.map_singleton]

/-- A change is put into its clause, and the other clauses stay. -/
theorem entries_putChange (c : Clauses) (change : Change) (clause : Clause) :
    (c.putChange change).entries clause =
      if change.clause = clause then putFragment change.key change.fragment (c.entries clause)
      else c.entries clause := by
  cases change with
  | remove attr =>
    cases clause with
    | remove => exact map_putName attr c.remove
    | set => rfl
    | add => rfl
    | delete => rfl
  | _ => cases clause <;> rfl

/-! ## Putting all changes -/

theorem ofChanges_append_singleton (changes : List Change) (c : Change) :
    ofChanges (changes ++ [c]) = (ofChanges changes).putChange c := by
  unfold ofChanges
  rw [List.foldl_append, List.foldl_cons, List.foldl_nil]

/-- In a clause each key stands once. -/
theorem nodup_keys_ofChanges (changes : List Change) (clause : Clause) :
    (((ofChanges changes).entries clause).map Prod.fst).Nodup := by
  induction changes using List.reverseRecOn with
  | nil => cases clause <;> exact List.nodup_nil
  | append_singleton changes c ih =>
    rw [ofChanges_append_singleton, entries_putChange]
    split
    · exact nodup_keys_putFragment ih _ _
    · exact ih

/-- Under a key of a clause stands the fragment of the last change that belongs there. -/
theorem mem_entries_ofChanges_iff {changes : List Change} {clause : Clause} {k f : String} :
    (k, f) ∈ (ofChanges changes).entries clause ↔
      ∃ c, Change.last? changes clause k = some c ∧ c.fragment = f := by
  induction changes using List.reverseRecOn with
  | nil => cases clause <;> simp [ofChanges, entries, Change.last?]
  | append_singleton changes c ih =>
    -- The last change decides what stands under its own key in its own clause, and nothing else.
    rw [ofChanges_append_singleton, entries_putChange, Change.last?_append_singleton]
    by_cases hclause : c.clause = clause
    · rw [if_pos hclause, mem_putFragment_iff (nodup_keys_ofChanges changes clause)]
      by_cases hkey : c.key = k
      · simp [hclause, hkey, eq_comm]
      · rw [if_neg (Ne.symm hkey), ih, if_neg (fun h => hkey h.2)]
    · rw [if_neg hclause, ih, if_neg (fun h => hclause h.1)]

/-- The fragments of a clause are those of the last changes under its keys. -/
theorem mem_fragments_ofChanges_iff {changes : List Change} {clause : Clause} {f : String} :
    f ∈ (ofChanges changes).fragments clause ↔
      ∃ k c, Change.last? changes clause k = some c ∧ c.fragment = f := by
  rw [fragments_eq_map_entries, List.mem_map]
  constructor
  · intro hyp
    obtain ⟨e, he, hf⟩ := hyp
    subst hf
    exact ⟨e.1, mem_entries_ofChanges_iff.1 he⟩
  · intro hyp
    obtain ⟨k, hk⟩ := hyp
    exact ⟨(k, f), mem_entries_ofChanges_iff.2 hk, rfl⟩

/-! ## References of the expression -/

variable {mark : Char}

/-- The text of a clause refers to what its fragments refer to. -/
theorem mem_referencesIn_clauseText?_iff (hmark : mark ∈ ['#', ':']) {c : Clauses}
    {clause : Clause} {x : String} :
    (∃ t, c.clauseText? clause = some t ∧ x ∈ referencesIn mark t.toList) ↔
      ∃ f ∈ c.fragments clause, x ∈ referencesIn mark f.toList := by
  have hkeyword : mark ∉ (Vocabulary.name clause ++ " ").toList := by
    apply not_mem_of_isMark hmark <;> cases clause <;> decide
  have hsep : mark ∉ ", ".toList := not_mem_of_isMark hmark (by decide) (by decide)
  unfold clauseText?
  split
  · next h => simp [h]
  · simp only [Option.some.injEq, exists_eq_left']
    rw [String.toList_append, referencesIn_append_of_not_mem hkeyword,
      mem_referencesIn_intercalate hsep (by simp [isReferenceChar])]

/-- An update expression refers to what the fragments in its clauses refer to. -/
theorem mem_referencesIn_expression_iff (hmark : mark ∈ ['#', ':']) {c : Clauses} {x : String} :
    x ∈ referencesIn mark c.expression.toList ↔
      ∃ clause, ∃ f ∈ c.fragments clause, x ∈ referencesIn mark f.toList := by
  have hsep : mark ∉ " ".toList := not_mem_of_isMark hmark (by decide) (by decide)
  unfold expression
  rw [mem_referencesIn_intercalate hsep (by simp [isReferenceChar])]
  constructor
  · intro hyp
    obtain ⟨t, ht, hx⟩ := hyp
    obtain ⟨clause, -, hclause⟩ := List.mem_filterMap.1 ht
    exact ⟨clause, (mem_referencesIn_clauseText?_iff hmark).1 ⟨t, hclause, hx⟩⟩
  · intro hyp
    obtain ⟨clause, h⟩ := hyp
    obtain ⟨t, hclause, hx⟩ := (mem_referencesIn_clauseText?_iff hmark).2 h
    exact ⟨t, List.mem_filterMap.2 ⟨clause, LawfulVocabulary.mem_constants clause, hclause⟩, hx⟩

end Clauses
end GuardedUpdate
