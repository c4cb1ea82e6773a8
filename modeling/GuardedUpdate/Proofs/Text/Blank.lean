import GuardedUpdate.Text.Characters
import Mathlib.Data.List.DropRight

/-!
# What is left of a text without the white space around it

Every text stands between white space in exactly one way if it is to have none at its own ends, and
this is what removing the white space gives (`Text.trim_eq_iff`). So a trimmed text has a property
that no text with white space at its ends has exactly if some text between white space has it
(`Text.exists_encloses_iff`).
-/

namespace GuardedUpdate.Text

theorem isBlank_eq_false_of_isDigit {c : Char} (h : c.isDigit = true) : isBlank c = false := by
  have hrange := Char.isDigit_iff_toNat.1 h
  have hzero : '0'.toNat = 48 := rfl
  have hnine : '9'.toNat = 57 := rfl
  rw [Bool.eq_false_iff]
  intro hblank
  simp only [isBlank, inRanges, blankRanges, List.any_cons, List.any_nil, Bool.or_false,
    Bool.or_eq_true, decide_eq_true_eq] at hblank
  omega

/-- A text has nothing but white space around another one. -/
def Encloses (s t : List Char) : Prop :=
  ∃ before after, s = before ++ (t ++ after) ∧ (∀ c ∈ before, isBlank c = true) ∧
    ∀ c ∈ after, isBlank c = true

/-- A text has no white space at its ends. -/
def IsTrimmed (s : List Char) : Prop :=
  (∀ c ∈ s.head?, isBlank c = false) ∧ ∀ c ∈ s.getLast?, isBlank c = false

theorem isTrimmed_of_forall {s : List Char} (h : ∀ c ∈ s, isBlank c = false) : IsTrimmed s :=
  ⟨fun c hc => h c (List.mem_of_mem_head? hc), fun c hc => h c (List.mem_of_mem_getLast? hc)⟩

/-! ## One end -/

/-- White space is dropped up to the first character that is none. -/
theorem dropWhile_isBlank_append {before rest : List Char} (hbefore : ∀ c ∈ before, isBlank c = true)
    (hrest : ∀ c ∈ rest.head?, isBlank c = false) :
    (before ++ rest).dropWhile isBlank = rest := by
  rw [List.dropWhile_append_of_pos hbefore]
  cases rest with
  | nil => rfl
  | cons c rest =>
    apply List.dropWhile_cons_of_neg
    rw [hrest c rfl]
    decide

theorem isBlank_head?_dropWhile {s : List Char} {c : Char}
    (h : c ∈ (s.dropWhile isBlank).head?) : isBlank c = false := by
  have hnot := List.head?_dropWhile_not isBlank s
  rw [Option.mem_def.1 h] at hnot
  exact hnot

/-! ## Both ends -/

/-- Only white space is removed. -/
theorem encloses_trim (s : List Char) : Encloses s (trim s) := by
  refine ⟨s.takeWhile isBlank, (s.dropWhile isBlank).rtakeWhile isBlank, ?_, ?_, ?_⟩
  · show s = s.takeWhile isBlank ++
      ((s.dropWhile isBlank).rdropWhile isBlank ++ (s.dropWhile isBlank).rtakeWhile isBlank)
    rw [List.rdropWhile_append_rtakeWhile, List.takeWhile_append_dropWhile]
  · intro c hc
    exact List.mem_takeWhile_imp hc
  · intro c hc
    exact List.mem_rtakeWhile_imp hc

/-- No white space is left at the ends. -/
theorem isTrimmed_trim (s : List Char) : IsTrimmed (trim s) := by
  constructor
  · -- What is left begins like the text without the white space in front of it.
    intro c hc
    obtain ⟨after, hafter⟩ : trim s <+: s.dropWhile isBlank := List.rdropWhile_prefix isBlank _
    apply isBlank_head?_dropWhile (s := s)
    rw [← hafter, List.head?_append, Option.mem_def.1 hc]
    rfl
  · intro c hc
    unfold trim at hc
    rw [List.getLast?_reverse] at hc
    exact isBlank_head?_dropWhile hc

/-- Between white space, a text without white space at its ends is what trimming gives. -/
theorem trim_of_encloses {s t : List Char} (hs : Encloses s t) (ht : IsTrimmed t) :
    trim s = t := by
  obtain ⟨before, after, rfl, hbefore, hafter⟩ := hs
  unfold trim
  by_cases hnil : t = []
  · have hall : ∀ c ∈ before ++ after, isBlank c = true := by
      intro c hc
      exact (List.mem_append.1 hc).elim (hbefore c) (hafter c)
    rw [hnil, List.nil_append, List.dropWhile_eq_nil_iff.2 hall]
    rfl
  · have hhead : ∀ c ∈ (t ++ after).head?, isBlank c = false := by
      rw [List.head?_append_of_ne_nil t hnil]
      exact ht.1
    have hlast : ∀ c ∈ t.reverse.head?, isBlank c = false := by
      rw [List.head?_reverse]
      exact ht.2
    have hafter' : ∀ c ∈ after.reverse, isBlank c = true := by
      intro c hc
      exact hafter c (List.mem_reverse.1 hc)
    rw [dropWhile_isBlank_append hbefore hhead, List.reverse_append,
      dropWhile_isBlank_append hafter' hlast, List.reverse_reverse]

/-- Trimming gives the one text between white space that has none at its own ends. -/
theorem trim_eq_iff {s t : List Char} : trim s = t ↔ Encloses s t ∧ IsTrimmed t := by
  constructor
  · intro h
    rw [← h]
    exact ⟨encloses_trim s, isTrimmed_trim s⟩
  · intro h
    exact trim_of_encloses h.1 h.2

/-- A property that no text with white space at its ends has is had by a trimmed text exactly if it
is had by some text between white space. -/
theorem exists_encloses_iff {P : List Char → Prop} {s : List Char}
    (hP : ∀ t, P t → IsTrimmed t) : (∃ t, Encloses s t ∧ P t) ↔ P (trim s) := by
  constructor
  · intro hyp
    obtain ⟨t, hencloses, ht⟩ := hyp
    rw [trim_eq_iff.2 ⟨hencloses, hP t ht⟩]
    exact ht
  · intro h
    exact ⟨trim s, encloses_trim s, h⟩

end GuardedUpdate.Text
