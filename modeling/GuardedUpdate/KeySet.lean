/-!
# Sets of names in name order

A `KeySet` is the strictly ascending list of its members, so two sets with the same members are
equal (`KeySet.ext`). Names are ordered by code point, which is also the order of their UTF-8
bytes.
-/

namespace GuardedUpdate

/-- A finite set of names, held as the strictly ascending list of its members. -/
structure KeySet where
  /-- The members in ascending order. -/
  toList : List String
  /-- No member stands before a smaller or an equal one. -/
  sorted : toList.Pairwise (· < ·)
deriving DecidableEq

namespace KeySet

instance : Membership String KeySet where
  mem s k := k ∈ s.toList

instance (k : String) (s : KeySet) : Decidable (k ∈ s) :=
  inferInstanceAs (Decidable (k ∈ s.toList))

theorem mem_iff {s : KeySet} {k : String} : k ∈ s ↔ k ∈ s.toList := Iff.rfl

/-- The set without members. -/
def empty : KeySet := ⟨[], List.Pairwise.nil⟩

instance : EmptyCollection KeySet := ⟨empty⟩
instance : Inhabited KeySet := ⟨empty⟩

@[simp] theorem not_mem_empty (k : String) : k ∉ (∅ : KeySet) := List.not_mem_nil

/-- The number of members. -/
def size (s : KeySet) : Nat := s.toList.length

/-! ## Adding a member -/

/-- Puts a name into an ascending list, at its place. -/
def insertInto (k : String) : List String → List String
  | [] => [k]
  | x :: xs => if k < x then k :: x :: xs else if k = x then x :: xs else x :: insertInto k xs

theorem mem_insertInto {k x : String} {l : List String} :
    x ∈ insertInto k l ↔ x = k ∨ x ∈ l := by
  induction l with
  | nil => simp [insertInto]
  | cons y ys ih =>
    simp only [insertInto]
    split
    · simp
    · split
      · next h => subst h; simp
      · simp only [List.mem_cons, ih]; grind

theorem lt_of_not_lt_of_ne {k x : String} (h : ¬k < x) (hne : k ≠ x) : x < k := by
  rcases Std.le_total (a := k) (b := x) with hle | hle
  · exact absurd (Std.lt_of_le_of_ne hle hne) h
  · exact Std.lt_of_le_of_ne hle (Ne.symm hne)

theorem pairwise_insertInto {k : String} {l : List String} (h : l.Pairwise (· < ·)) :
    (insertInto k l).Pairwise (· < ·) := by
  induction l with
  | nil => simp [insertInto]
  | cons y ys ih =>
    obtain ⟨hy, hys⟩ := List.pairwise_cons.1 h
    simp only [insertInto]
    split
    · next hk =>
      refine List.pairwise_cons.2 ⟨fun z hz => ?_, h⟩
      rcases List.mem_cons.1 hz with rfl | hz
      · exact hk
      · exact Std.lt_trans hk (hy z hz)
    · next hk =>
      split
      · exact h
      · next hne =>
        refine List.pairwise_cons.2 ⟨fun z hz => ?_, ih hys⟩
        rcases mem_insertInto.1 hz with rfl | hz
        · exact lt_of_not_lt_of_ne hk hne
        · exact hy z hz

/-- Adds a member; a name that is there already changes nothing. -/
def insert (s : KeySet) (k : String) : KeySet :=
  ⟨insertInto k s.toList, pairwise_insertInto s.sorted⟩

@[simp] theorem mem_insert {s : KeySet} {k x : String} : x ∈ s.insert k ↔ x = k ∨ x ∈ s :=
  mem_insertInto

/-- The set of the names in a list. -/
def ofList (l : List String) : KeySet := l.foldl insert ∅

@[simp] theorem mem_ofList {l : List String} {x : String} : x ∈ ofList l ↔ x ∈ l := by
  suffices h : ∀ s : KeySet, x ∈ l.foldl insert s ↔ x ∈ s ∨ x ∈ l by
    simpa [ofList] using h ∅
  induction l with
  | nil => simp
  | cons y ys ih => intro s; simp only [List.foldl_cons, ih, mem_insert, List.mem_cons]; grind

/-! ## Comparing sets -/

/-- The members of `s` that are not keys of `t`. -/
def diff (s t : KeySet) : KeySet :=
  ⟨s.toList.filter (· ∉ t), s.sorted.filter _⟩

@[simp] theorem mem_diff {s t : KeySet} {x : String} : x ∈ s.diff t ↔ x ∈ s ∧ x ∉ t := by
  simp [diff, mem_iff]

/-- An ascending list is determined by its members. -/
theorem eq_of_pairwise_of_mem_iff {l m : List String} (hl : l.Pairwise (· < ·))
    (hm : m.Pairwise (· < ·)) (h : ∀ x, x ∈ l ↔ x ∈ m) : l = m := by
  induction l generalizing m with
  | nil =>
    cases m with
    | nil => rfl
    | cons y ys => simpa using (h y).2 (by simp)
  | cons x xs ih =>
    cases m with
    | nil => simpa using (h x).1 (by simp)
    | cons y ys =>
      obtain ⟨hx, hxs⟩ := List.pairwise_cons.1 hl
      obtain ⟨hy, hys⟩ := List.pairwise_cons.1 hm
      have hxy : x = y := by
        rcases List.mem_cons.1 ((h x).1 (by simp)) with e | hmem
        · exact e
        · rcases List.mem_cons.1 ((h y).2 (by simp)) with e | hmem'
          · exact e.symm
          · exact absurd (Std.lt_trans (hx y hmem') (hy x hmem)) (Std.lt_irrefl)
      subst hxy
      congr 1
      refine ih hxs hys fun z => ⟨fun hz => ?_, fun hz => ?_⟩
      · rcases List.mem_cons.1 ((h z).1 (by simp [hz])) with e | hz'
        · subst e; exact absurd (hx _ hz) Std.lt_irrefl
        · exact hz'
      · rcases List.mem_cons.1 ((h z).2 (by simp [hz])) with e | hz'
        · subst e; exact absurd (hy _ hz) Std.lt_irrefl
        · exact hz'

/-- Two sets with the same members are equal. -/
theorem ext {s t : KeySet} (h : ∀ x, x ∈ s ↔ x ∈ t) : s = t := by
  cases s; cases t
  congr
  exact eq_of_pairwise_of_mem_iff (by assumption) (by assumption) h

end KeySet

end GuardedUpdate
