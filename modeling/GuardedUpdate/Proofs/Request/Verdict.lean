import GuardedUpdate.Proofs.Request.Check
import GuardedUpdate.Proofs.Request.Scan
import GuardedUpdate.Proofs.Text.ByteOrder

/-!
# What the check of the references answers

A text refers to what stands at one of its places: a mark and a name behind it that goes as far as
it can (`RefersIn`). `Request.Verdict` says by this alone what the check of a request has to answer,
whatever its expressions and maps are: the first reference that is not given, or else all that is
given without being referred to, in the order of bytes. The check answers this and nothing else
(`Request.checkReferences_verdict`), and a scan that goes through each expression once, leaving out
the names it has read, meets the same references.
-/

namespace GuardedUpdate

/-! ## Places of references -/

/-- Somewhere in a text stands a mark with a name behind it, which goes as far as it can. -/
def RefersIn (mark : Char) (text : List Char) (x : String) : Prop :=
  ∃ before name after, text = before ++ mark :: (name ++ after) ∧ x = String.ofList (mark :: name) ∧
    name ≠ [] ∧ (∀ c ∈ name, isReferenceChar c = true) ∧ NameEnds after

theorem nameEnds_dropWhile (s : List Char) : NameEnds (s.dropWhile isReferenceChar) := by
  intro c hc
  have hhead := List.head?_dropWhile_not isReferenceChar s
  rwa [Option.mem_def.1 hc] at hhead

/-- The references that are read off a text are those at its places. -/
theorem mem_referencesIn_iff {mark : Char} {text : List Char} {x : String} :
    x ∈ referencesIn mark text ↔ RefersIn mark text x := by
  induction text with
  | nil =>
    refine iff_of_false List.not_mem_nil ?_
    intro hyp
    obtain ⟨before, name, after, htext, -⟩ := hyp
    exact absurd htext.symm (by simp)
  | cons c s ih =>
    constructor
    · intro h
      have hlater : x ∈ referencesIn mark s → RefersIn mark (c :: s) x := by
        intro hx
        obtain ⟨before, name, after, htext, hname⟩ := ih.1 hx
        exact ⟨c :: before, name, after, by rw [htext]; rfl, hname⟩
      rw [referencesIn] at h
      split at h
      · next hc =>
        rcases List.mem_cons.1 h with hx | hx
        · refine ⟨[], s.takeWhile isReferenceChar, s.dropWhile isReferenceChar, ?_, hx, hc.2, ?_,
            nameEnds_dropWhile s⟩
          · rw [List.takeWhile_append_dropWhile, hc.1]
            rfl
          · exact fun d hd => List.all_eq_true.1 List.all_takeWhile d hd
        · exact hlater hx
      · exact hlater h
    · intro hyp
      obtain ⟨before, name, after, htext, hx, hne, hname, hends⟩ := hyp
      rw [referencesIn]
      cases before with
      | nil =>
        -- The place is the first one, and the name there is the longest run behind the mark.
        obtain ⟨rfl, rfl⟩ := List.cons.inj htext
        have htake : (name ++ after).takeWhile isReferenceChar = name := by
          rw [takeWhile_append_of_nameEnds hends, takeWhile_eq_self hname]
        rw [htake, if_pos ⟨rfl, hne⟩, hx]
        exact List.mem_cons_self
      | cons b before =>
        obtain ⟨rfl, hs⟩ := List.cons.inj htext
        have hmem : x ∈ referencesIn mark s := ih.2 ⟨before, name, after, hs, hx, hne, hname, hends⟩
        split
        · exact List.mem_cons_of_mem _ hmem
        · exact hmem

/-! ## One scan for both marks -/

/-- The references that a scan has found. -/
structure References where
  /-- References to names. -/
  names : KeySet := ∅
  /-- Placeholders. -/
  values : KeySet := ∅

namespace References

/-- Adds a mark and the name behind it, unless nothing is behind it. -/
def note (mark : Char) (name : List Char) (found : KeySet) : KeySet :=
  if name = [] then found else found.insert (String.ofList (mark :: name))

/-- Goes through a text once. Where a mark stands, the name behind it is taken off the text. -/
def scan (found : References) : List Char → References
  | [] => found
  | c :: s =>
    let name := s.takeWhile isReferenceChar
    let rest := s.dropWhile isReferenceChar
    if c = '#' then scan { found with names := note '#' name found.names } rest
    else if c = ':' then scan { found with values := note ':' name found.values } rest
    else scan found s
termination_by s => s.length
decreasing_by
  all_goals
    have hlength : (s.dropWhile isReferenceChar).length ≤ s.length :=
      (List.dropWhile_suffix _).length_le
    simp only [List.length_cons]
    omega

/-- Scans the expressions of a request. -/
def ofRequest (r : Request) : References :=
  (r.condition.toList).foldl (fun found t => found.scan t.toList) (scan {} r.update.toList)

/-- No mark stands in a name, so nothing is missed when it is taken off. -/
theorem referencesIn_dropWhile {mark : Char} (hmark : isReferenceChar mark = false)
    (s : List Char) : referencesIn mark (s.dropWhile isReferenceChar) = referencesIn mark s := by
  have hnot : mark ∉ s.takeWhile isReferenceChar := by
    intro hmem
    rw [List.all_eq_true.1 List.all_takeWhile mark hmem] at hmark
    cases hmark
  rw [← referencesIn_append_of_not_mem hnot, List.takeWhile_append_dropWhile]

theorem mem_note_iff {mark : Char} {s : List Char} {found : KeySet} {x : String} :
    x ∈ note mark (s.takeWhile isReferenceChar) found ∨ x ∈ referencesIn mark s ↔
      x ∈ found ∨ x ∈ referencesIn mark (mark :: s) := by
  rw [referencesIn, note]
  by_cases hname : s.takeWhile isReferenceChar = []
  · simp [hname]
  · simp [hname, or_comm, or_left_comm]

/-- A scan adds the references of the text to those it had found. -/
theorem mem_scan_iff (found : References) (s : List Char) :
    (∀ x, x ∈ (found.scan s).names ↔ x ∈ found.names ∨ x ∈ referencesIn '#' s) ∧
      ∀ x, x ∈ (found.scan s).values ↔ x ∈ found.values ∨ x ∈ referencesIn ':' s := by
  fun_induction scan found s with
  | case1 found => simp
  | case2 found s name rest ih =>
    have hother : referencesIn ':' ('#' :: s) = referencesIn ':' s :=
      referencesIn_cons_of_ne (by decide) s
    simp only [ih, rest, name, referencesIn_dropWhile (by decide : isReferenceChar '#' = false),
      referencesIn_dropWhile (by decide : isReferenceChar ':' = false), mem_note_iff, hother,
      implies_true, and_self]
  | case3 found s name rest hne ih =>
    have hother : referencesIn '#' (':' :: s) = referencesIn '#' s :=
      referencesIn_cons_of_ne (by decide) s
    simp only [ih, rest, name, referencesIn_dropWhile (by decide : isReferenceChar '#' = false),
      referencesIn_dropWhile (by decide : isReferenceChar ':' = false), mem_note_iff, hother,
      implies_true, and_self]
  | case4 found c s hname hvalue ih =>
    rw [referencesIn_cons_of_ne hname, referencesIn_cons_of_ne hvalue]
    exact ih

end References

/-! ## First and listed texts -/

/-- A text comes before all others with a property, in the order of bytes. -/
def IsFirst (p : String → Prop) (x : String) : Prop :=
  p x ∧ ∀ y, p y → y ≠ x → x.toUTF8.toList < y.toUTF8.toList

/-- A list holds the texts with a property, in the order of bytes. -/
def Lists (p : String → Prop) (l : List String) : Prop :=
  l.Pairwise (fun x y => x.toUTF8.toList < y.toUTF8.toList) ∧ ∀ x, x ∈ l ↔ p x

namespace KeySet

variable {s : KeySet} {p : String → Prop} (h : ∀ x, x ∈ s ↔ p x)
include h

theorem toList_eq_nil_iff : s.toList = [] ↔ ∀ x, ¬p x := by
  rw [List.eq_nil_iff_forall_not_mem]
  exact forall_congr' fun x => not_congr (h x)

theorem exists_toList_eq_cons_iff {x : String} :
    (∃ l, s.toList = x :: l) ↔ IsFirst p x := by
  constructor
  · intro hyp
    obtain ⟨l, hl⟩ := hyp
    have hsorted := s.sorted
    rw [hl, List.pairwise_cons] at hsorted
    refine ⟨(h x).1 (KeySet.mem_iff.2 (hl ▸ List.mem_cons_self)), ?_⟩
    intro y hy hne
    have hmem : y ∈ x :: l := hl ▸ KeySet.mem_iff.1 ((h y).2 hy)
    exact Text.toUTF8_toList_lt_iff.2 (hsorted.1 y ((List.mem_cons.1 hmem).resolve_left hne))
  · intro hyp
    obtain ⟨hx, hfirst⟩ := hyp
    have hmem : x ∈ s.toList := KeySet.mem_iff.1 ((h x).2 hx)
    have hsorted := s.sorted
    cases hl : s.toList with
    | nil =>
      rw [hl] at hmem
      cases hmem
    | cons y l =>
      rw [hl, List.pairwise_cons] at hsorted
      rw [hl] at hmem
      -- Were the first member another one, `x` would stand behind it and in front of it.
      by_cases hxy : x = y
      · exact ⟨l, by rw [hxy]⟩
      · have hlater : y < x := hsorted.1 x ((List.mem_cons.1 hmem).resolve_left hxy)
        have hp : p y := (h y).1 (KeySet.mem_iff.2 (hl ▸ List.mem_cons_self))
        have hsooner : x < y := Text.toUTF8_toList_lt_iff.1 (hfirst y hp (Ne.symm hxy))
        exact absurd (Std.lt_trans hlater hsooner) Std.lt_irrefl

theorem toList_eq_iff {l : List String} : s.toList = l ↔ Lists p l := by
  unfold Lists
  simp only [Text.toUTF8_toList_lt_iff]
  constructor
  · intro hl
    rw [← hl]
    exact ⟨s.sorted, h⟩
  · intro hyp
    exact eq_of_pairwise_of_mem_iff s.sorted hyp.1 fun x => (h x).trans (hyp.2 x).symm

end KeySet

/-! ## Verdicts -/

namespace Request

variable {r : Request}

/-- One of the expressions of a request refers to `x`. -/
def RefersTo (r : Request) (mark : Char) (x : String) : Prop :=
  RefersIn mark r.update.toList x ∨ ∃ t ∈ r.condition, RefersIn mark t.toList x

/-- A name is referred to and not given. -/
def UnresolvedName (r : Request) (x : String) : Prop := r.RefersTo '#' x ∧ x ∉ r.names.keys

/-- A placeholder is given. Without values none is. -/
def GivesValue (r : Request) (x : String) : Prop := ∃ values ∈ r.values, x ∈ values.keys

/-- A placeholder is referred to and not given. -/
def UnresolvedValue (r : Request) (x : String) : Prop := r.RefersTo ':' x ∧ ¬r.GivesValue x

/-- A name is given and not referred to. -/
def UnusedName (r : Request) (x : String) : Prop := x ∈ r.names.keys ∧ ¬r.RefersTo '#' x

/-- A placeholder is given and not referred to. -/
def UnusedValue (r : Request) (x : String) : Prop := r.GivesValue x ∧ ¬r.RefersTo ':' x

/-- What the check of a request has to answer. -/
inductive Verdict (r : Request) : Except ReferenceFault Unit → Prop where
  /-- The first name that is not given. -/
  | unresolvedName {x : String} (first : IsFirst r.UnresolvedName x) :
      Verdict r (.error (.unresolvedName x))
  /-- If all names are given, the first placeholder that is not. -/
  | unresolvedValue {x : String} (names : ∀ x, ¬r.UnresolvedName x)
      (first : IsFirst r.UnresolvedValue x) : Verdict r (.error (.unresolvedValue x))
  /-- If nothing is missing, all names without a reference. -/
  | unusedNames {l : List String} (names : ∀ x, ¬r.UnresolvedName x)
      (values : ∀ x, ¬r.UnresolvedValue x) (lists : Lists r.UnusedName l) (nonempty : l ≠ []) :
      Verdict r (.error (.unusedNames l))
  /-- If there is none of these either, all placeholders without a reference. -/
  | unusedValues {l : List String} (names : ∀ x, ¬r.UnresolvedName x)
      (values : ∀ x, ¬r.UnresolvedValue x) (used : ∀ x, ¬r.UnusedName x)
      (lists : Lists r.UnusedValue l) (nonempty : l ≠ []) : Verdict r (.error (.unusedValues l))
  /-- Otherwise nothing is wrong. -/
  | passed (names : ∀ x, ¬r.UnresolvedName x) (values : ∀ x, ¬r.UnresolvedValue x)
      (usedNames : ∀ x, ¬r.UnusedName x) (usedValues : ∀ x, ¬r.UnusedValue x) : Verdict r (.ok ())

theorem mem_references_iff {mark : Char} {x : String} :
    x ∈ r.references mark ↔ r.RefersTo mark x := by
  rw [references, KeySet.mem_ofList, List.mem_append, RefersTo, mem_referencesIn_iff]
  cases r.condition <;> simp [mem_referencesIn_iff]

theorem mem_placeholders_iff {x : String} : x ∈ r.placeholders ↔ r.GivesValue x := by
  unfold placeholders GivesValue
  cases r.values <;> simp

theorem mem_unresolvedNames_iff (x : String) :
    x ∈ (r.references '#').diff r.names.keys ↔ r.UnresolvedName x := by
  rw [KeySet.mem_diff, mem_references_iff, UnresolvedName]

theorem mem_unresolvedValues_iff (x : String) :
    x ∈ (r.references ':').diff r.placeholders ↔ r.UnresolvedValue x := by
  rw [KeySet.mem_diff, mem_references_iff, mem_placeholders_iff, UnresolvedValue]

theorem mem_unusedNames_iff (x : String) :
    x ∈ r.names.keys.diff (r.references '#') ↔ r.UnusedName x := by
  rw [KeySet.mem_diff, mem_references_iff, UnusedName]

theorem mem_unusedValues_iff (x : String) :
    x ∈ r.placeholders.diff (r.references ':') ↔ r.UnusedValue x := by
  rw [KeySet.mem_diff, mem_references_iff, mem_placeholders_iff, UnusedValue]

/-- The check answers as it has to. -/
theorem verdict_checkReferences (r : Request) : r.Verdict r.checkReferences := by
  rw [checkReferences_eq]
  split
  · next x l hl =>
    exact .unresolvedName ((KeySet.exists_toList_eq_cons_iff mem_unresolvedNames_iff).1 ⟨l, hl⟩)
  · next x l hnames hl =>
    rw [KeySet.toList_eq_nil_iff mem_unresolvedNames_iff] at hnames
    exact .unresolvedValue hnames
      ((KeySet.exists_toList_eq_cons_iff mem_unresolvedValues_iff).1 ⟨l, hl⟩)
  · next x l hnames hvalues hl =>
    rw [KeySet.toList_eq_nil_iff mem_unresolvedNames_iff] at hnames
    rw [KeySet.toList_eq_nil_iff mem_unresolvedValues_iff] at hvalues
    exact .unusedNames hnames hvalues ((KeySet.toList_eq_iff mem_unusedNames_iff).1 hl)
      (List.cons_ne_nil x l)
  · next x l hnames hvalues hused hl =>
    rw [KeySet.toList_eq_nil_iff mem_unresolvedNames_iff] at hnames
    rw [KeySet.toList_eq_nil_iff mem_unresolvedValues_iff] at hvalues
    rw [KeySet.toList_eq_nil_iff mem_unusedNames_iff] at hused
    exact .unusedValues hnames hvalues hused ((KeySet.toList_eq_iff mem_unusedValues_iff).1 hl)
      (List.cons_ne_nil x l)
  · next hnames hvalues husedNames husedValues =>
    rw [KeySet.toList_eq_nil_iff mem_unresolvedNames_iff] at hnames
    rw [KeySet.toList_eq_nil_iff mem_unresolvedValues_iff] at hvalues
    rw [KeySet.toList_eq_nil_iff mem_unusedNames_iff] at husedNames
    rw [KeySet.toList_eq_nil_iff mem_unusedValues_iff] at husedValues
    exact .passed hnames hvalues husedNames husedValues

/-- There is no other answer that it might have to give. -/
theorem checkReferences_of_verdict {a : Except ReferenceFault Unit} (h : r.Verdict a) :
    r.checkReferences = a := by
  rw [checkReferences_eq]
  cases h with
  | unresolvedName first =>
    obtain ⟨l, hl⟩ := (KeySet.exists_toList_eq_cons_iff mem_unresolvedNames_iff).2 first
    rw [hl]
  | unresolvedValue names first =>
    obtain ⟨l, hl⟩ := (KeySet.exists_toList_eq_cons_iff mem_unresolvedValues_iff).2 first
    rw [(KeySet.toList_eq_nil_iff mem_unresolvedNames_iff).2 names, hl]
  | @unusedNames l names values lists nonempty =>
    rw [(KeySet.toList_eq_nil_iff mem_unresolvedNames_iff).2 names,
      (KeySet.toList_eq_nil_iff mem_unresolvedValues_iff).2 values,
      (KeySet.toList_eq_iff mem_unusedNames_iff).2 lists]
    cases l with
    | nil => exact absurd rfl nonempty
    | cons x l => rfl
  | @unusedValues l names values used lists nonempty =>
    rw [(KeySet.toList_eq_nil_iff mem_unresolvedNames_iff).2 names,
      (KeySet.toList_eq_nil_iff mem_unresolvedValues_iff).2 values,
      (KeySet.toList_eq_nil_iff mem_unusedNames_iff).2 used,
      (KeySet.toList_eq_iff mem_unusedValues_iff).2 lists]
    cases l with
    | nil => exact absurd rfl nonempty
    | cons x l => rfl
  | passed names values usedNames usedValues =>
    rw [(KeySet.toList_eq_nil_iff mem_unresolvedNames_iff).2 names,
      (KeySet.toList_eq_nil_iff mem_unresolvedValues_iff).2 values,
      (KeySet.toList_eq_nil_iff mem_unusedNames_iff).2 usedNames,
      (KeySet.toList_eq_nil_iff mem_unusedValues_iff).2 usedValues]

/-- The scan of the expressions finds the references that stand at their places. -/
theorem mem_ofRequest_iff (r : Request) :
    (∀ x, x ∈ (References.ofRequest r).names ↔ r.RefersTo '#' x) ∧
      ∀ x, x ∈ (References.ofRequest r).values ↔ r.RefersTo ':' x := by
  simp only [References.ofRequest, RefersTo, ← mem_referencesIn_iff]
  cases r.condition <;> simp [References.mem_scan_iff]

/-- For every request the check gives the one answer that its references and its maps call for: the
first name that is missing, else the first placeholder that is missing, else all names that are
given without need, else all such placeholders, else nothing. One scan of the expressions that looks
for both marks finds the same references. -/
theorem checkReferences_verdict (r : Request) :
    (∀ a, r.checkReferences = a ↔ r.Verdict a) ∧
      (∀ x, x ∈ (References.ofRequest r).names ↔ r.RefersTo '#' x) ∧
      ∀ x, x ∈ (References.ofRequest r).values ↔ r.RefersTo ':' x := by
  refine ⟨?_, mem_ofRequest_iff r⟩
  intro a
  constructor
  · intro h
    rw [← h]
    exact verdict_checkReferences r
  · exact checkReferences_of_verdict

/-- Adjacent marks, a mark without a name and a name behind another one. -/
example : referencesIn '#' "##a#b:#c: :d#".toList = ["#a", "#b", "#c"] := by decide

end Request
end GuardedUpdate
