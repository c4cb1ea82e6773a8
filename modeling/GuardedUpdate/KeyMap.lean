import GuardedUpdate.KeySet

/-!
# Finite maps keyed by names

A `KeyMap α` is a set of keys together with a value for each of them. The keys are held in name
order and the values are given as a function on the keys, which has two consequences:

* two maps with the same entries are equal (`KeyMap.ext`), so "the same map" is plain equality;
* `α` occurs only as the result of a function, so a recursive type may hold maps of itself.

Every operation is described through `get?`.
-/

namespace GuardedUpdate

/-- A finite map from names to values of `α`. -/
structure KeyMap (α : Type) where
  /-- The names that have a value. -/
  keys : KeySet
  /-- The value of each key. -/
  value : ∀ k, k ∈ keys → α

namespace KeyMap

variable {α β ε : Type}

/-- The map without entries. -/
def empty : KeyMap α := ⟨∅, fun k h => absurd h (KeySet.not_mem_empty k)⟩

instance : EmptyCollection (KeyMap α) := ⟨empty⟩
instance : Inhabited (KeyMap α) := ⟨empty⟩

instance : Membership String (KeyMap α) where
  mem m k := k ∈ m.keys

instance (k : String) (m : KeyMap α) : Decidable (k ∈ m) :=
  inferInstanceAs (Decidable (k ∈ m.keys))

theorem mem_iff {m : KeyMap α} {k : String} : k ∈ m ↔ k ∈ m.keys := Iff.rfl

/-- The number of entries. -/
def size (m : KeyMap α) : Nat := m.keys.size

/-- The value of `k`, if it is a key. -/
def get? (m : KeyMap α) (k : String) : Option α :=
  if h : k ∈ m.keys then some (m.value k h) else none

/-- The entries in the order of their keys. -/
def toList (m : KeyMap α) : List (String × α) :=
  m.keys.toList.attach.map fun k => (k.1, m.value k.1 k.2)

theorem get?_of_mem {m : KeyMap α} {k : String} (h : k ∈ m.keys) :
    m.get? k = some (m.value k h) := by simp [get?, h]

theorem get?_eq_none {m : KeyMap α} {k : String} (h : k ∉ m.keys) : m.get? k = none := by
  simp [get?, h]

@[simp] theorem isSome_get? {m : KeyMap α} {k : String} : (m.get? k).isSome ↔ k ∈ m.keys := by
  simp [get?]

@[simp] theorem get?_empty (k : String) : (∅ : KeyMap α).get? k = none :=
  get?_eq_none (KeySet.not_mem_empty k)

/-- Maps that answer alike are equal. -/
theorem ext {m n : KeyMap α} (h : ∀ k, m.get? k = n.get? k) : m = n := by
  obtain ⟨ks, f⟩ := m
  obtain ⟨ls, g⟩ := n
  have hk : ks = ls := KeySet.ext fun k => by
    rw [← isSome_get? (m := ⟨ks, f⟩), ← isSome_get? (m := ⟨ls, g⟩), h k]
  subst hk
  congr
  funext k hmem
  have := h k
  rw [get?_of_mem (m := ⟨ks, f⟩) hmem, get?_of_mem (m := ⟨ks, g⟩) hmem] at this
  exact Option.some.inj this

@[simp] theorem mem_toList {m : KeyMap α} {k : String} {a : α} :
    (k, a) ∈ m.toList ↔ m.get? k = some a := by
  simp only [toList, List.mem_map, List.mem_attach, true_and, Subtype.exists, Prod.mk.injEq]
  constructor
  · rintro ⟨_, hk, rfl, rfl⟩
    exact get?_of_mem hk
  · intro h
    have hk : k ∈ m.keys := isSome_get?.1 (by simp [h])
    exact ⟨k, hk, rfl, Option.some.inj ((get?_of_mem hk).symm.trans h)⟩

/-! ## Adding entries -/

/-- Gives `k` the value `a`, in place of the one it had. -/
def insert (m : KeyMap α) (k : String) (a : α) : KeyMap α where
  keys := m.keys.insert k
  value x h := if hx : x = k then a else m.value x ((KeySet.mem_insert.1 h).resolve_left hx)

@[simp] theorem keys_insert (m : KeyMap α) (k : String) (a : α) :
    (m.insert k a).keys = m.keys.insert k := rfl

@[simp] theorem get?_insert_self (m : KeyMap α) (k : String) (a : α) :
    (m.insert k a).get? k = some a := by
  rw [get?_of_mem (by simp : k ∈ (m.insert k a).keys)]
  simp [insert]

theorem get?_insert_of_ne (m : KeyMap α) {k x : String} (h : x ≠ k) (a : α) :
    (m.insert k a).get? x = m.get? x := by
  by_cases hx : x ∈ m.keys
  · rw [get?_of_mem hx, get?_of_mem (by simp [hx] : x ∈ (m.insert k a).keys)]
    simp [insert, h]
  · rw [get?_eq_none hx, get?_eq_none (by simp [hx, h])]

theorem get?_insert (m : KeyMap α) (k x : String) (a : α) :
    (m.insert k a).get? x = if x = k then some a else m.get? x := by
  split
  · next h => subst h; simp
  · next h => exact get?_insert_of_ne m h a

/-- The map with the entries of a list; of two entries with one key the later counts. -/
def ofList (l : List (String × α)) : KeyMap α :=
  l.foldl (fun m e => m.insert e.1 e.2) ∅

/-- The value of a key in a list of entries: that of the last entry with the key. -/
def lastValue? (l : List (String × α)) (k : String) : Option α :=
  (l.reverse.find? fun e => e.1 = k).map Prod.snd

theorem lastValue?_append_singleton (l : List (String × α)) (e : String × α) (k : String) :
    lastValue? (l ++ [e]) k = if k = e.1 then some e.2 else lastValue? l k := by
  by_cases h : k = e.1
  · simp [lastValue?, h]
  · simp [lastValue?, h, Ne.symm h]

theorem ofList_append_singleton (l : List (String × α)) (e : String × α) :
    ofList (l ++ [e]) = (ofList l).insert e.1 e.2 := by
  simp [ofList]

@[simp] theorem get?_ofList (l : List (String × α)) (k : String) :
    (ofList l).get? k = lastValue? l k := by
  rw [← List.reverse_reverse l]
  induction l.reverse with
  | nil => simp [ofList, lastValue?]
  | cons e es ih =>
    -- The list without its last entry comes first.
    rw [List.reverse_cons, ofList_append_singleton, get?_insert, lastValue?_append_singleton, ih]

/-! ## Changing and collecting values -/

/-- Applies a function to every value. -/
def map (f : α → β) (m : KeyMap α) : KeyMap β := ⟨m.keys, fun k h => f (m.value k h)⟩

@[simp] theorem get?_map (f : α → β) (m : KeyMap α) (k : String) :
    (m.map f).get? k = (m.get? k).map f := by
  by_cases hk : k ∈ m.keys
  · rw [get?_of_mem hk, get?_of_mem (m := m.map f) hk]; rfl
  · rw [get?_eq_none hk, get?_eq_none (m := m.map f) hk]; rfl

/-- Turns a family of results, one for each name of a list, into a result for the family. The
first failure in the order of the list is the failure of the whole. -/
def collectOn : (ks : List String) → (∀ k, k ∈ ks → Except ε β) → Except ε (∀ k, k ∈ ks → β)
  | [], _ => .ok fun _ h => absurd h List.not_mem_nil
  | a :: ks, f => do
    let b ← f a List.mem_cons_self
    let g ← collectOn ks fun k h => f k (List.mem_cons_of_mem a h)
    return fun k h => if hk : k = a then b else g k ((List.mem_cons.1 h).resolve_left hk)

/-- The family succeeds exactly when each of its members does, with their values. -/
theorem collectOn_eq_ok_iff {ks : List String} {f : ∀ k, k ∈ ks → Except ε β}
    {g : ∀ k, k ∈ ks → β} : collectOn ks f = .ok g ↔ ∀ k h, f k h = .ok (g k h) := by
  induction ks with
  | nil =>
    refine ⟨fun _ k h => absurd h List.not_mem_nil, fun _ => ?_⟩
    simp only [collectOn]
    congr
    funext k h
    exact absurd h List.not_mem_nil
  | cons a ks ih =>
    simp only [collectOn, bind, Except.bind, pure, Except.pure]
    constructor
    · intro heq
      split at heq
      · cases heq
      · next b hb =>
        split at heq
        · cases heq
        · next g' hg' =>
          cases heq
          intro k h
          by_cases hk : k = a
          · subst hk; simpa using hb
          · simpa [hk] using (ih.1 hg') k ((List.mem_cons.1 h).resolve_left hk)
    · intro hall
      have hrest := (ih (f := fun k h => f k (List.mem_cons_of_mem a h))
        (g := fun k h => g k (List.mem_cons_of_mem a h))).2 fun k h => hall k _
      rw [hall a List.mem_cons_self]
      simp only [hrest]
      congr
      funext k h
      by_cases hk : k = a
      · subst hk; simp
      · simp [hk]

/-- Turns a map of results into a result for the map: the failure of the least key that has one
is the failure of the whole. -/
def collect (m : KeyMap (Except ε β)) : Except ε (KeyMap β) :=
  (collectOn m.keys.toList m.value).map (KeyMap.mk m.keys)

theorem collect_eq_ok_iff {m : KeyMap (Except ε β)} {n : KeyMap β} :
    m.collect = .ok n ↔ m = n.map .ok := by
  obtain ⟨ks, f⟩ := m
  obtain ⟨ls, g⟩ := n
  simp only [collect, map, mk.injEq]
  constructor
  · intro h
    cases hc : collectOn ks.toList f with
    | error e => simp [hc, Except.map] at h
    | ok g' =>
      simp only [hc, Except.map, Except.ok.injEq, mk.injEq] at h
      obtain ⟨rfl, hg⟩ := h
      obtain rfl := eq_of_heq hg
      refine ⟨rfl, heq_of_eq ?_⟩
      funext k hk
      exact collectOn_eq_ok_iff.1 hc k hk
  · rintro ⟨rfl, hf⟩
    obtain rfl := eq_of_heq hf
    have : collectOn ks.toList (fun k h => Except.ok (ε := ε) (g k h)) = .ok g :=
      collectOn_eq_ok_iff.2 fun _ _ => rfl
    exact congrArg (Except.map (KeyMap.mk ks)) this

/-! ## Equality -/

/-- Decides a statement about every member of a list. -/
def decideForall : (ks : List String) → {p : ∀ k, k ∈ ks → Prop} →
    (∀ k h, Decidable (p k h)) → Decidable (∀ k h, p k h)
  | [], _, _ => isTrue fun _ h => absurd h List.not_mem_nil
  | a :: ks, p, d =>
    match d a List.mem_cons_self with
    | isFalse hn => isFalse fun hall => hn (hall a List.mem_cons_self)
    | isTrue ha =>
      match decideForall ks (p := fun k h => p k (List.mem_cons_of_mem a h)) fun k h => d k _ with
      | isFalse hn => isFalse fun hall => hn fun k h => hall k _
      | isTrue hks => isTrue fun k h => by
          rcases List.mem_cons.1 h with rfl | hk
          · exact ha
          · exact hks k hk

/-- Decides whether two families on the same keys agree, given a decision for each key. -/
def decideEq {ks ls : KeySet} {f : ∀ k, k ∈ ks → α} {g : ∀ k, k ∈ ls → α}
    (d : ∀ k (h : k ∈ ks) (h' : k ∈ ls), Decidable (f k h = g k h')) :
    Decidable (KeyMap.mk ks f = KeyMap.mk ls g) :=
  if hk : ks = ls then
    match decideForall ks.toList (p := fun k h => f k h = g k (hk ▸ h)) fun k h => d k h _ with
    | isTrue h => isTrue (by subst hk; congr; funext k hmem; exact h k hmem)
    | isFalse h => isFalse fun heq => h fun k hmem => by
        subst hk; cases heq; rfl
  else isFalse fun heq => hk (by injection heq)

instance [DecidableEq α] : DecidableEq (KeyMap α)
  | ⟨_, f⟩, ⟨_, g⟩ => decideEq fun k h h' => decEq (f k h) (g k h')

end KeyMap

end GuardedUpdate
