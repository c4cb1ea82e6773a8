import GuardedUpdate.Proofs.Update.Accumulation
import GuardedUpdate.Update.Basic
import Mathlib.Data.List.Basic

/-!
# The sections of an update expression

A clause lists its keys in the order in which changes first gave them, each with the fragment of the
last change under it, and the expression is put together from these lists alone
(`Update.clauses_of_changes`). The same lists come out if the place of each key is kept in an index
instead of being searched for: `IndexedEntries` holds a row of fragments together with such an
index, and the two cannot get out of step.
-/

namespace GuardedUpdate

/-! ## The order of the keys -/

namespace Change

/-- The keys under which some changes stand in a clause, in the order of the changes. -/
def keysIn (changes : List Change) (clause : Clause) : List String :=
  (changes.filter fun c => c.clause = clause).map key

theorem keysIn_append_singleton (changes : List Change) (c : Change) (clause : Clause) :
    keysIn (changes ++ [c]) clause =
      if c.clause = clause then keysIn changes clause ++ [c.key] else keysIn changes clause := by
  unfold keysIn
  rw [List.filter_append, List.map_append]
  split
  · next h => simp [h]
  · next h => simp [h]

theorem mem_keysIn_iff {changes : List Change} {clause : Clause} {k : String} :
    k ∈ keysIn changes clause ↔ ∃ c ∈ changes, c.clause = clause ∧ c.key = k := by
  simp [keysIn, and_assoc]

end Change

namespace Clauses

/-- A clause has the keys that changes gave in it. -/
theorem mem_keys_ofChanges_iff {changes : List Change} {clause : Clause} {k : String} :
    k ∈ ((ofChanges changes).entries clause).map Prod.fst ↔ k ∈ Change.keysIn changes clause := by
  rw [List.mem_map, Change.mem_keysIn_iff]
  constructor
  · intro hyp
    obtain ⟨e, he, hk⟩ := hyp
    obtain ⟨c, hc, -⟩ := mem_entries_ofChanges_iff.1 (show (e.1, e.2) ∈ _ from he)
    rw [hk] at hc
    exact ⟨c, Change.of_last?_eq_some hc⟩
  · intro hyp
    obtain ⟨c, hc, rfl, rfl⟩ := hyp
    obtain ⟨d, hd⟩ := Change.exists_last?_eq_some hc
    exact ⟨(c.key, d.fragment), mem_entries_ofChanges_iff.2 ⟨d, hd, rfl⟩, rfl⟩

theorem entries_ofChanges_eq_nil_iff {changes : List Change} {clause : Clause} :
    (ofChanges changes).entries clause = [] ↔ Change.keysIn changes clause = [] := by
  rw [← List.map_eq_nil_iff (f := Prod.fst), List.eq_nil_iff_forall_not_mem,
    List.eq_nil_iff_forall_not_mem]
  simp only [mem_keys_ofChanges_iff]

/-- The keys of a clause stand in the order in which they were first given. -/
theorem pairwise_keys_ofChanges (changes : List Change) (clause : Clause) :
    (((ofChanges changes).entries clause).map Prod.fst).Pairwise fun a b =>
      (Change.keysIn changes clause).idxOf a < (Change.keysIn changes clause).idxOf b := by
  induction changes using List.reverseRecOn with
  | nil => cases clause <;> exact List.Pairwise.nil
  | append_singleton changes c ih =>
    rw [ofChanges_append_singleton, entries_putChange, Change.keysIn_append_singleton]
    split
    · -- A key that is there is found where it was; a new one is found behind all others.
      have hold : ∀ a ∈ ((ofChanges changes).entries clause).map Prod.fst,
          (Change.keysIn changes clause ++ [c.key]).idxOf a =
            (Change.keysIn changes clause).idxOf a := by
        intro a ha
        exact List.idxOf_append_of_mem (mem_keys_ofChanges_iff.1 ha)
      have hordered := ih.imp_of_mem fun {a b} ha hb hab => by
        rw [← hold a ha, ← hold b hb] at hab
        exact hab
      by_cases hkey : c.key ∈ ((ofChanges changes).entries clause).map Prod.fst
      · rw [map_fst_putFragment_of_mem hkey]
        exact hordered
      · rw [putFragment_of_not_mem hkey, List.map_append, List.map_singleton]
        refine List.pairwise_append.2 ⟨hordered, List.pairwise_singleton _ _, ?_⟩
        intro a ha b hb
        have hlt : (Change.keysIn changes clause).idxOf a < (Change.keysIn changes clause).length :=
          List.idxOf_lt_length_iff.2 (mem_keys_ofChanges_iff.1 ha)
        rw [List.mem_singleton.1 hb, hold a ha,
          List.idxOf_append_of_notMem fun h => hkey (mem_keys_ofChanges_iff.2 h)]
        omega
    · exact ih

end Clauses

/-! ## Places kept in an index -/

/-- Fragments under their keys, with the place of each key. -/
structure IndexedEntries where
  /-- The fragments with their keys, in order. -/
  entries : Array (String × String) := #[]
  /-- The place of each key. -/
  index : KeyMap Nat := ∅
  /-- A key has the place at which it stands. -/
  index_iff : ∀ key i, index.get? key = some i ↔ (entries[i]?).map Prod.fst = some key := by
    simp

namespace IndexedEntries

/-- A new key has the place behind the last one. -/
theorem index_push (m : IndexedEntries) {key : String} (h : m.index.get? key = none)
    (fragment k : String) (i : Nat) :
    (m.index.insert key m.entries.size).get? k = some i ↔
      ((m.entries.push (key, fragment))[i]?).map Prod.fst = some k := by
  rw [KeyMap.get?_insert, Array.getElem?_push]
  by_cases hk : k = key
  · subst hk
    by_cases hi : i = m.entries.size
    · simp [hi]
    · rw [if_pos rfl, if_neg hi, ← m.index_iff, h]
      simp [Ne.symm hi]
  · rw [if_neg hk, m.index_iff]
    by_cases hi : i = m.entries.size
    · simp [hi, Ne.symm hk]
    · rw [if_neg hi]

/-- Keys stay where they are when a fragment is replaced. -/
theorem index_modify (m : IndexedEntries) (place : Nat) (fragment k : String) (i : Nat) :
    m.index.get? k = some i ↔
      ((m.entries.modify place fun e => (e.1, fragment))[i]?).map Prod.fst = some k := by
  rw [m.index_iff, Array.getElem?_modify]
  split
  · rw [Option.map_map]
    rfl
  · rfl

/-- Puts a fragment under a key: at the place of the key, else at the end. -/
def put (key fragment : String) (m : IndexedEntries) : IndexedEntries :=
  match h : m.index.get? key with
  | some i =>
    { entries := m.entries.modify i fun e => (e.1, fragment)
      index := m.index
      index_iff := m.index_modify i fragment }
  | none =>
    { entries := m.entries.push (key, fragment)
      index := m.index.insert key m.entries.size
      index_iff := m.index_push h fragment }

/-- To replace the fragment at the place of a key is to put it where the key is found first. -/
theorem modify_eq_putFragment {key : String} (fragment : String) {l : List (String × String)}
    {i : Nat} (hi : (l[i]?).map Prod.fst = some key)
    (hfirst : ∀ j, (l[j]?).map Prod.fst = some key → j = i) :
    (l.modify i fun e => (e.1, fragment)) = Clauses.putFragment key fragment l := by
  induction l generalizing i with
  | nil => simp at hi
  | cons e l ih =>
    rw [Clauses.putFragment]
    cases i with
    | zero =>
      have he : e.1 = key := by simpa using hi
      rw [if_pos he, List.modify_zero_cons, he]
    | succ i =>
      have he : e.1 ≠ key := by
        intro h
        have hzero := hfirst 0 (by simp [h])
        omega
      have hi' : (l[i]?).map Prod.fst = some key := by simpa using hi
      have hfirst' : ∀ j, (l[j]?).map Prod.fst = some key → j = i := by
        intro j hj
        have hsucc := hfirst (j + 1) (by simpa using hj)
        omega
      rw [if_neg he, List.modify_succ_cons, ih hi' hfirst']

/-- The index makes no difference to what stands where. -/
theorem toList_put (m : IndexedEntries) (key fragment : String) :
    (m.put key fragment).entries.toList = Clauses.putFragment key fragment m.entries.toList := by
  unfold put
  split
  · next i h =>
    rw [Array.toList_modify]
    refine modify_eq_putFragment fragment ?_ ?_
    · rw [Array.getElem?_toList, ← m.index_iff, h]
    · intro j hj
      rw [Array.getElem?_toList, ← m.index_iff, h] at hj
      exact (Option.some.inj hj).symm
  · next h =>
    have hkey : key ∉ m.entries.toList.map Prod.fst := by
      intro hmem
      obtain ⟨i, hi⟩ := List.mem_iff_getElem?.1 hmem
      rw [List.getElem?_map, Array.getElem?_toList, ← m.index_iff, h] at hi
      cases hi
    rw [Array.toList_push, Clauses.putFragment_of_not_mem hkey]

end IndexedEntries

/-- The clauses of an update with an index for each of them. Attributes that are taken away are kept
with fragments like all others. -/
structure IndexedClauses where
  /-- Fragments that give new values. -/
  set : IndexedEntries := {}
  /-- References to the attributes to take away. -/
  remove : IndexedEntries := {}
  /-- Fragments that add. -/
  add : IndexedEntries := {}
  /-- Fragments that take members out. -/
  delete : IndexedEntries := {}

namespace IndexedClauses

/-- Puts a change into its clause. -/
def putChange (c : IndexedClauses) (change : Change) : IndexedClauses :=
  match change.clause with
  | .set => { c with set := c.set.put change.key change.fragment }
  | .remove => { c with remove := c.remove.put change.key change.fragment }
  | .add => { c with add := c.add.put change.key change.fragment }
  | .delete => { c with delete := c.delete.put change.key change.fragment }

/-- The clauses for some changes, one after the other. -/
def ofChanges (changes : List Change) : IndexedClauses := changes.foldl putChange {}

/-- The fragments of a clause with their keys. -/
def entries (c : IndexedClauses) : Clause → List (String × String)
  | .set => c.set.entries.toList
  | .remove => c.remove.entries.toList
  | .add => c.add.entries.toList
  | .delete => c.delete.entries.toList

/-- The clauses without their indices. -/
def toClauses (c : IndexedClauses) : Clauses where
  set := c.entries .set
  remove := (c.entries .remove).map Prod.fst
  add := c.entries .add
  delete := c.entries .delete

/-- A change is put where it is put without an index. -/
theorem entries_putChange (c : IndexedClauses) (change : Change) (clause : Clause) :
    (c.putChange change).entries clause =
      if change.clause = clause then
        Clauses.putFragment change.key change.fragment (c.entries clause)
      else c.entries clause := by
  unfold putChange
  split <;> next h => cases clause <;> simp [h, entries, IndexedEntries.toList_put]

theorem entries_ofChanges (changes : List Change) (clause : Clause) :
    (ofChanges changes).entries clause = (Clauses.ofChanges changes).entries clause := by
  induction changes using List.reverseRecOn with
  | nil => cases clause <;> rfl
  | append_singleton changes c ih =>
    have hput : ofChanges (changes ++ [c]) = (ofChanges changes).putChange c := List.foldl_concat ..
    rw [hput, entries_putChange, Clauses.ofChanges_append_singleton, Clauses.entries_putChange, ih]

/-- With and without indices some changes lead to the same clauses. -/
theorem toClauses_ofChanges (changes : List Change) :
    (ofChanges changes).toClauses = Clauses.ofChanges changes := by
  unfold toClauses
  simp only [entries_ofChanges, Clauses.entries]
  rw [List.map_map]
  exact congrArg (fun remove => { Clauses.ofChanges changes with remove }) (List.map_id _)

end IndexedClauses

/-! ## The text -/

namespace Clauses

/-- An expression has a section for each clause in which something stands: its keyword, a blank and
the fragments. -/
theorem expression_eq (c : Clauses) :
    c.expression = " ".intercalate
      ((([("SET", .set), ("REMOVE", .remove), ("ADD", .add), ("DELETE", .delete)] :
          List (String × Clause)).filter fun s => c.entries s.2 ≠ []).map fun s =>
        s.1 ++ " " ++ ", ".intercalate ((c.entries s.2).map Prod.snd)) := by
  have htext : ∀ clause, c.clauseText? clause =
      if c.entries clause ≠ [] then
        some (Vocabulary.name clause ++ " " ++ ", ".intercalate ((c.entries clause).map Prod.snd))
      else none := by
    intro clause
    unfold clauseText?
    rw [fragments_eq_map_entries]
    cases c.entries clause <;> rfl
  have hfilter : ∀ (p : String × Clause → Bool) (f : String × Clause → String)
      (l : List (String × Clause)),
      (l.filter p).map f = l.filterMap fun s => if p s then some (f s) else none := by
    intro p f l
    rw [← List.filterMap_eq_map, List.filterMap_filter]
    rfl
  unfold expression
  rw [funext htext, hfilter]
  simp only [decide_eq_true_eq]
  rfl

/-- Only texts without characters are put together to such a text. -/
theorem eq_nil_of_intercalate_eq_empty {sep : String} {l : List String} (hne : ∀ t ∈ l, t ≠ "")
    (h : sep.intercalate l = "") : l = [] := by
  cases l with
  | nil => rfl
  | cons t l =>
    have ht : t ≠ "" := hne t List.mem_cons_self
    cases l with
    | nil => exact absurd (by simpa using h) ht
    | cons u l =>
      rw [String.intercalate_cons_cons, String.append_eq_empty_iff, String.append_eq_empty_iff] at h
      exact absurd h.1.1 ht

theorem clauseText?_eq_none_iff {c : Clauses} {clause : Clause} :
    c.clauseText? clause = none ↔ c.entries clause = [] := by
  unfold clauseText?
  rw [fragments_eq_map_entries]
  cases c.entries clause <;> simp

/-- A section has at least its keyword. -/
theorem ne_empty_of_clauseText? {c : Clauses} {clause : Clause} {t : String}
    (h : c.clauseText? clause = some t) : t ≠ "" := by
  unfold clauseText? at h
  split at h
  · cases h
  · rw [← Option.some.inj h, ne_eq, String.append_eq_empty_iff, String.append_eq_empty_iff, not_and]
    intro hname
    cases clause <;> exact absurd hname.1 (by decide)

/-- An expression is empty only if nothing stands in any clause. -/
theorem expression_eq_empty_iff {c : Clauses} :
    c.expression = "" ↔ ∀ clause, c.entries clause = [] := by
  simp only [← clauseText?_eq_none_iff]
  unfold expression
  constructor
  · intro h clause
    have hnone := eq_nil_of_intercalate_eq_empty (fun t ht => ?_) h
    · exact List.filterMap_eq_nil_iff.1 hnone clause (LawfulVocabulary.mem_constants clause)
    · obtain ⟨clause, -, htext⟩ := List.mem_filterMap.1 ht
      exact ne_empty_of_clauseText? htext
  · intro h
    rw [List.filterMap_eq_nil_iff.2 fun clause _ => h clause]
    rfl

/-- Any change leaves a trace in the expression. -/
theorem expression_ofChanges_eq_empty_iff {changes : List Change} :
    (ofChanges changes).expression = "" ↔ changes = [] := by
  rw [expression_eq_empty_iff]
  constructor
  · intro h
    by_contra hne
    obtain ⟨c, hc⟩ := List.exists_mem_of_ne_nil changes hne
    obtain ⟨d, hd⟩ := Change.exists_last?_eq_some hc
    have hentry := mem_entries_ofChanges_iff.2 ⟨d, hd, rfl⟩
    rw [h c.clause] at hentry
    exact List.not_mem_nil hentry
  · intro h clause
    rw [h]
    cases clause <;> rfl

end Clauses

/-! ## Requests -/

/-- Every clause of a request has each key once, at the place where a change first gave it, with the
fragment of the last change that gave it; a change leaves the other clauses as they are. Keeping the
places of the keys in an index leads to the same clauses. The update expression is the sections of
the clauses in which something stands, and it is empty only without any change. -/
theorem Update.clauses_of_changes (u : Update) :
    (∀ clause,
      let keys := (u.request.clauses.entries clause).map Prod.fst
      let given := Change.keysIn u.changes clause
      keys.Nodup ∧ (∀ k, k ∈ keys ↔ k ∈ given) ∧
        keys.Pairwise (fun a b => given.idxOf a < given.idxOf b) ∧
        ∀ k f, (k, f) ∈ u.request.clauses.entries clause ↔
          ∃ c, Change.last? u.changes clause k = some c ∧ c.fragment = f) ∧
    (∀ change clause,
      (u.step (.change change)).request.clauses.entries clause =
        if change.clause = clause then
          Clauses.putFragment change.key change.fragment (u.request.clauses.entries clause)
        else u.request.clauses.entries clause) ∧
    (IndexedClauses.ofChanges u.changes).toClauses = u.request.clauses ∧
    u.request.update = " ".intercalate
      ((([("SET", .set), ("REMOVE", .remove), ("ADD", .add), ("DELETE", .delete)] :
          List (String × Clause)).filter fun s => Change.keysIn u.changes s.2 ≠ []).map fun s =>
        s.1 ++ " " ++ ", ".intercalate ((u.request.clauses.entries s.2).map Prod.snd)) ∧
    (u.request.update = "" ↔ u.changes = []) := by
  have hclauses : u.request.clauses = Clauses.ofChanges u.changes := rfl
  refine ⟨?_, ?_, ?_, ?_, ?_⟩
  · intro clause
    rw [hclauses]
    exact ⟨Clauses.nodup_keys_ofChanges u.changes clause,
      fun k => Clauses.mem_keys_ofChanges_iff,
      Clauses.pairwise_keys_ofChanges u.changes clause,
      fun k f => Clauses.mem_entries_ofChanges_iff⟩
  · intro change clause
    show (Clauses.ofChanges (u.changes ++ [change])).entries clause = _
    rw [Clauses.ofChanges_append_singleton, Clauses.entries_putChange, hclauses]
  · exact IndexedClauses.toClauses_ofChanges u.changes
  · show (Clauses.ofChanges u.changes).expression = _
    rw [Clauses.expression_eq]
    simp only [ne_eq, Clauses.entries_ofChanges_eq_nil_iff, hclauses]
  · exact Clauses.expression_ofChanges_eq_empty_iff

end GuardedUpdate
