import GuardedUpdate.KeyMap
import GuardedUpdate.Proofs.Results
import Mathlib.Data.List.Nodup

/-!
# Maps made from lists of entries

`KeyMap.ofList` lets the last entry of a key count. Two facts are needed about it again and again:
the keys of the map are those of the list, and where no key stands with two values the map has
exactly the entries of the list.
-/

namespace GuardedUpdate

/-- A set without members to count is the empty one. -/
theorem KeySet.size_eq_zero_iff {s : KeySet} : s.size = 0 ↔ s = ∅ := by
  constructor
  · intro h
    have hnil : s.toList = [] := List.eq_nil_of_length_eq_zero h
    apply KeySet.ext
    intro k
    rw [KeySet.mem_iff, hnil]
    rfl
  · intro h
    rw [h]
    rfl

namespace KeyMap

variable {α : Type}

/-- A map without entries to count is the empty one. -/
theorem eq_empty_of_size_eq_zero {m : KeyMap α} (h : m.size = 0) : m = ∅ := by
  have hkeys : m.keys = ∅ := KeySet.size_eq_zero_iff.1 h
  apply KeyMap.ext
  intro k
  rw [get?_empty]
  exact get?_eq_none (hkeys ▸ KeySet.not_mem_empty k)

/-- A map with one key has one entry. -/
theorem mk_singleton_eq {k : String} {sorted : [k].Pairwise (· < ·)}
    (f : ∀ x, x ∈ (⟨[k], sorted⟩ : KeySet) → α) :
    (⟨⟨[k], sorted⟩, f⟩ : KeyMap α) = (∅ : KeyMap α).insert k (f k List.mem_cons_self) := by
  apply KeyMap.ext
  intro x
  rw [get?_insert, get?_empty]
  by_cases h : x = k
  · subst h
    rw [if_pos rfl, get?_of_mem]
  · rw [if_neg h, get?_eq_none]
    intro hx
    exact h (List.mem_singleton.1 hx)

/-- An entry that gives a key its value is an entry of the list. -/
theorem mem_of_lastValue? {l : List (String × α)} {k : String} {a : α}
    (h : lastValue? l k = some a) : (k, a) ∈ l := by
  unfold lastValue? at h
  obtain ⟨e, he, rfl⟩ := Option.map_eq_some_iff.1 h
  have hk : e.1 = k := by simpa using List.find?_some he
  have hmem : e ∈ l.reverse := List.mem_of_find?_eq_some he
  rw [← hk]
  exact List.mem_reverse.1 hmem

theorem isSome_lastValue? {l : List (String × α)} {k : String} :
    (lastValue? l k).isSome ↔ k ∈ l.map Prod.fst := by
  simp [lastValue?]

/-- The later of two lists counts. -/
theorem lastValue?_append (l m : List (String × α)) (k : String) :
    lastValue? (l ++ m) k = (lastValue? m k).or (lastValue? l k) := by
  unfold lastValue?
  rw [List.reverse_append, List.find?_append, Option.map_or]

/-- The keys of a map are those of the list it was made from. -/
theorem mem_keys_ofList {l : List (String × α)} {k : String} :
    k ∈ (ofList l).keys ↔ k ∈ l.map Prod.fst := by
  rw [← isSome_get?, get?_ofList, isSome_lastValue?]

/-- Where no key stands with two values, a map has exactly the entries of its list. -/
theorem get?_ofList_eq_some_iff {l : List (String × α)}
    (h : ∀ k a b, (k, a) ∈ l → (k, b) ∈ l → a = b) {k : String} {a : α} :
    (ofList l).get? k = some a ↔ (k, a) ∈ l := by
  rw [get?_ofList]
  constructor
  · exact mem_of_lastValue?
  · intro hmem
    have hsome : (lastValue? l k).isSome :=
      isSome_lastValue?.2 (List.mem_map.2 ⟨(k, a), hmem, rfl⟩)
    obtain ⟨b, hb⟩ := Option.isSome_iff_exists.1 hsome
    rw [hb, h k b a (mem_of_lastValue? hb) hmem]

/-- Where no key is repeated, every entry of the list is in the map. -/
theorem get?_ofList_of_nodup {l : List (String × α)} (hnodup : (l.map Prod.fst).Nodup) {k : String}
    {a : α} (h : (k, a) ∈ l) : (ofList l).get? k = some a := by
  have hunique : ∀ k a b, (k, a) ∈ l → (k, b) ∈ l → a = b := by
    intro k a b ha hb
    exact (Prod.mk.inj (List.inj_on_of_nodup_map hnodup ha hb rfl)).2
  exact (get?_ofList_eq_some_iff hunique).2 h

/-- A list without repeated keys that gives a map of one entry has only this entry. -/
theorem eq_singleton_of_ofList {l : List (String × α)} (hnodup : (l.map Prod.fst).Nodup)
    {k : String} {a : α} (h : ofList l = (∅ : KeyMap α).insert k a) : l = [(k, a)] := by
  have hkeys : ∀ x, x ∈ l.map Prod.fst ↔ x = k := by
    intro x
    rw [← mem_keys_ofList, h, keys_insert, KeySet.mem_insert]
    exact or_iff_left (KeySet.not_mem_empty x)
  have hvalue : lastValue? l k = some a := by rw [← get?_ofList, h, get?_insert_self]
  match l, hnodup, hkeys, hvalue with
  | [], _, hkeys, _ => exact absurd ((hkeys k).2 rfl) List.not_mem_nil
  | [(x, b)], _, _, hvalue =>
    have hmem : (k, a) ∈ [(x, b)] := mem_of_lastValue? hvalue
    rw [List.mem_singleton.1 hmem]
  | x :: y :: l, hnodup, hkeys, _ =>
    -- Both keys are `k`.
    have hx : x.1 = k := (hkeys _).1 (by simp)
    have hy : y.1 = k := (hkeys _).1 (by simp)
    simp [hx, hy] at hnodup

/-! ## Reading the values of a list of entries -/

section

variable {β ε : Type}

/-- Reads the value of an entry. -/
def readEntry (f : α → Except ε β) (e : String × α) : Except ε (String × β) :=
  (f e.2).map fun b => (e.1, b)

theorem readEntry_eq_ok_iff {f : α → Except ε β} {e : String × α} {r : String × β} :
    readEntry f e = .ok r ↔ e.1 = r.1 ∧ f e.2 = .ok r.2 := by
  obtain ⟨k, b⟩ := r
  rw [readEntry, map_eq_ok_iff]
  constructor
  · intro hyp
    obtain ⟨b, hb, heq⟩ := hyp
    cases heq
    exact ⟨rfl, hb⟩
  · intro hyp
    exact ⟨b, hyp.2, by rw [hyp.1]⟩

theorem map_ofList (f : α → β) (l : List (String × α)) :
    (ofList l).map f = ofList (l.map fun e => (e.1, f e.2)) := by
  apply KeyMap.ext
  intro k
  rw [get?_map, get?_ofList, get?_ofList, lastValue?, lastValue?, ← List.map_reverse,
    List.find?_map, Option.map_map, Option.map_map]
  rfl

theorem mapM_readEntry_eq_ok_iff {f : α → Except ε β} {l : List (String × α)}
    {r : List (String × β)} : l.mapM (readEntry f) = .ok r ↔
      (l.map fun e => (e.1, f e.2)) = r.map fun e => (e.1, .ok e.2) := by
  rw [mapM_eq_ok_iff]
  induction l generalizing r with
  | nil => cases r <;> simp
  | cons e l ih =>
    cases r with
    | nil => simp
    | cons s r =>
      simp only [List.map_cons, List.cons.injEq, ih, readEntry_eq_ok_iff, Prod.mk.injEq]

/-- What is read from the entries of a list, one after the other, is read from their map. -/
theorem collect_ofList {f : α → Except ε β} {l : List (String × α)} {r : List (String × β)}
    (h : l.mapM (readEntry f) = .ok r) : ((ofList l).map f).collect = .ok (ofList r) := by
  rw [collect_eq_ok_iff, map_ofList, map_ofList, mapM_readEntry_eq_ok_iff.1 h]

/-- Where no key is repeated, what is read from a map is read from the entries of its list. -/
theorem exists_mapM_of_collect_ofList {f : α → Except ε β} {l : List (String × α)} {m : KeyMap β}
    (hnodup : (l.map Prod.fst).Nodup) (h : ((ofList l).map f).collect = .ok m) :
    ∃ r, l.mapM (readEntry f) = .ok r ∧ ofList r = m := by
  -- No entry is hidden by a later one, so each of them can be read.
  have hread : ∀ e ∈ l, ∃ r, readEntry f e = .ok r := by
    intro e he
    have hget : (ofList l).get? e.1 = some e.2 := get?_ofList_of_nodup hnodup he
    have hvalue : (m.get? e.1).map .ok = some (f e.2) := by
      rw [← get?_map, ← collect_eq_ok_iff.1 h, get?_map, hget]
      rfl
    obtain ⟨b, -, hb⟩ := Option.map_eq_some_iff.1 hvalue
    exact ⟨(e.1, b), readEntry_eq_ok_iff.2 ⟨rfl, hb.symm⟩⟩
  obtain ⟨r, hr⟩ := exists_mapM_eq_ok hread
  refine ⟨r, hr, ?_⟩
  have hcollect := collect_ofList hr
  rw [h] at hcollect
  exact (Except.ok.inj hcollect).symm

end

end KeyMap
end GuardedUpdate
