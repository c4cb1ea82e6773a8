import GuardedUpdate.Request.References

/-!
# References in texts that are put together

An expression is put together from pieces, and its references are read off the whole. What a piece
contributes does not depend on what surrounds it, as long as no piece goes on with a reference
character (`referencesIn_append`); a separator without marks contributes nothing
(`mem_referencesIn_intercalate`). What is read is always a mark and a name (`IsReference`), and a
reference that is written where it ends is read back (`IsReference.referencesIn_append`). So a
reference to something that is no name is never read back (`isName_of_ofName_mem`).
-/

namespace GuardedUpdate

/-- A name that a reference can carry: not empty, and of letters, digits and underscores. -/
def IsName (s : String) : Prop := s ≠ "" ∧ ∀ c ∈ s.toList, isReferenceChar c = true

instance (s : String) : Decidable (IsName s) :=
  decidable_of_iff (s ≠ "" ∧ s.toList.all isReferenceChar = true) (by rw [IsName, List.all_eq_true])

/-- A name that stands in front of the text ends there. -/
def NameEnds (s : List Char) : Prop := ∀ c ∈ s.head?, isReferenceChar c = false

@[simp] theorem nameEnds_nil : NameEnds [] := fun _ h => absurd h (Option.not_mem_none _)

@[simp] theorem nameEnds_cons {c : Char} {s : List Char} :
    NameEnds (c :: s) ↔ isReferenceChar c = false := by simp [NameEnds]

variable {mark : Char}

/-! ## Pieces -/

/-- A name does not go on into a text where it ends. -/
theorem takeWhile_append_of_nameEnds {a b : List Char} (h : NameEnds b) :
    (a ++ b).takeWhile isReferenceChar = a.takeWhile isReferenceChar := by
  induction a with
  | nil =>
    cases b with
    | nil => rfl
    | cons c b =>
      have hc : isReferenceChar c = false := nameEnds_cons.1 h
      exact List.takeWhile_cons_of_neg (by simp [hc])
  | cons c a ih => rw [List.cons_append, List.takeWhile_cons, List.takeWhile_cons, ih]

/-- A text of reference characters only is a name as a whole. -/
theorem takeWhile_eq_self {a : List Char} (h : ∀ c ∈ a, isReferenceChar c = true) :
    a.takeWhile isReferenceChar = a := by
  have hnil : (a ++ []).takeWhile isReferenceChar = a ++ [] := List.takeWhile_append_of_pos h
  rwa [List.append_nil] at hnil

/-- The references of two texts, where the second goes on with no reference of the first. -/
theorem referencesIn_append {a b : List Char} (h : NameEnds b) :
    referencesIn mark (a ++ b) = referencesIn mark a ++ referencesIn mark b := by
  induction a with
  | nil => rfl
  | cons c a ih =>
    -- A mark reads the same name in the first text alone and in both.
    rw [List.cons_append, referencesIn, referencesIn, takeWhile_append_of_nameEnds h, ih]
    split <;> rfl

@[simp] theorem referencesIn_nil : referencesIn mark [] = [] := rfl

theorem referencesIn_cons_of_ne {c : Char} (h : c ≠ mark) (s : List Char) :
    referencesIn mark (c :: s) = referencesIn mark s := by
  rw [referencesIn, if_neg (fun hc => h hc.1)]

/-- A text without marks contributes nothing to what follows it. -/
theorem referencesIn_append_of_not_mem {a : List Char} (h : mark ∉ a) (b : List Char) :
    referencesIn mark (a ++ b) = referencesIn mark b := by
  induction a with
  | nil => rfl
  | cons c a ih =>
    rw [List.mem_cons, not_or] at h
    rw [List.cons_append, referencesIn_cons_of_ne (Ne.symm h.1), ih h.2]

theorem referencesIn_of_not_mem {a : List Char} (h : mark ∉ a) : referencesIn mark a = [] := by
  have hnil := referencesIn_append_of_not_mem h []
  rwa [List.append_nil] at hnil

/-- A text without either of the two marks has neither. -/
theorem not_mem_of_isMark {s : List Char} (hmark : mark ∈ ['#', ':']) (hname : '#' ∉ s)
    (hvalue : ':' ∉ s) : mark ∉ s := by
  rcases List.mem_cons.1 hmark with rfl | hmark
  · exact hname
  · rwa [List.mem_singleton.1 hmark]

/-- The references of a list of texts between separators are those of the texts. -/
theorem mem_referencesIn_intercalate {sep : String} (hmark : mark ∉ sep.toList)
    (hends : ∀ s, NameEnds (sep.toList ++ s)) {l : List String} {x : String} :
    x ∈ referencesIn mark (sep.intercalate l).toList ↔ ∃ t ∈ l, x ∈ referencesIn mark t.toList := by
  rw [String.toList_intercalate]
  induction l with
  | nil => simp
  | cons t l ih =>
    cases l with
    | nil => simp
    | cons u l =>
      rw [List.map_cons, List.map_cons, List.intercalate_cons_cons, ← List.map_cons,
        List.append_assoc, referencesIn_append (hends _), referencesIn_append_of_not_mem hmark,
        List.mem_append, ih]
      simp only [List.mem_cons, exists_eq_or_imp]

/-! ## References -/

/-- A mark and a name. -/
def IsReference (mark : Char) (s : String) : Prop :=
  ∃ name, name ≠ [] ∧ (∀ c ∈ name, isReferenceChar c = true) ∧ s.toList = mark :: name

/-- A mark in front of a name makes a reference. -/
theorem IsName.isReference {attr s : String} (h : IsName attr)
    (hs : s.toList = mark :: attr.toList) : IsReference mark s :=
  ⟨attr.toList, fun hnil => h.1 (String.toList_eq_nil_iff.1 hnil), h.2, hs⟩

theorem isReference_ofName {attr : String} (h : IsName attr) :
    IsReference '#' (Placeholder.ofName attr) := h.isReference (by simp [Placeholder.ofName])

theorem isReference_ofClause {attr : String} (h : IsName attr) :
    IsReference ':' (Placeholder.ofClause attr) := h.isReference (by simp [Placeholder.ofClause])

theorem isReference_emptyList : IsReference ':' Placeholder.emptyList :=
  ⟨"emptyList".toList, by decide, List.all_eq_true.1 (by decide), by decide⟩

namespace IsReference

variable {s : String}

/-- A reference is read back from where it ends. -/
theorem referencesIn_append (h : IsReference mark s) (hmark : isReferenceChar mark = false)
    {rest : List Char} (hrest : NameEnds rest) :
    referencesIn mark (s.toList ++ rest) = s :: referencesIn mark rest := by
  obtain ⟨name, hne, hname, hs⟩ := h
  have hnot : mark ∉ name := by
    intro hmem
    rw [hname mark hmem] at hmark
    cases hmark
  rw [GuardedUpdate.referencesIn_append hrest, hs, referencesIn, takeWhile_eq_self hname,
    if_pos ⟨rfl, hne⟩, referencesIn_of_not_mem hnot, ← hs, String.ofList_toList, List.singleton_append]

theorem referencesIn_toList (h : IsReference mark s) (hmark : isReferenceChar mark = false) :
    referencesIn mark s.toList = [s] := by
  have hnil := h.referencesIn_append hmark nameEnds_nil
  rwa [List.append_nil] at hnil

/-- A reference with another mark contributes nothing. -/
theorem referencesIn_append_of_ne {other : Char} (h : IsReference other s) (hne : other ≠ mark)
    (hmark : isReferenceChar mark = false) (rest : List Char) :
    referencesIn mark (s.toList ++ rest) = referencesIn mark rest := by
  obtain ⟨name, -, hname, hs⟩ := h
  apply referencesIn_append_of_not_mem
  rw [hs, List.mem_cons, not_or]
  refine ⟨Ne.symm hne, ?_⟩
  intro hmem
  rw [hname mark hmem] at hmark
  cases hmark

theorem referencesIn_toList_of_ne {other : Char} (h : IsReference other s) (hne : other ≠ mark)
    (hmark : isReferenceChar mark = false) : referencesIn mark s.toList = [] := by
  have hnil := h.referencesIn_append_of_ne hne hmark []
  rwa [List.append_nil] at hnil

end IsReference

/-- What is read is a reference. -/
theorem isReference_of_mem {s : List Char} {x : String} (h : x ∈ referencesIn mark s) :
    IsReference mark x := by
  induction s with
  | nil => cases h
  | cons c s ih =>
    rw [referencesIn] at h
    split at h
    · next hc =>
      rcases List.mem_cons.1 h with rfl | h
      · refine ⟨s.takeWhile isReferenceChar, hc.2, ?_, String.toList_ofList⟩
        intro d hd
        exact List.all_eq_true.1 List.all_takeWhile d hd
      · exact ih h
    · exact ih h

/-- Only names as in `IsName` are read back. -/
theorem isName_of_ofName_mem {s : List Char} {a : String}
    (h : Placeholder.ofName a ∈ referencesIn '#' s) : IsName a := by
  obtain ⟨name, hne, hname, htext⟩ := isReference_of_mem h
  have ha : a.toList = name := by
    rw [Placeholder.ofName, String.toList_append] at htext
    exact (List.cons.inj htext).2
  refine ⟨?_, fun c hc => hname c (ha ▸ hc)⟩
  intro hempty
  rw [hempty] at ha
  exact hne ha.symm

end GuardedUpdate
