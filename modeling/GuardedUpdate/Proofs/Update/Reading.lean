import GuardedUpdate.Proofs.Condition.Reading
import GuardedUpdate.Proofs.Request.Wire
import GuardedUpdate.Proofs.Update.Fragments
import GuardedUpdate.Proofs.Update.Sections

/-!
# Clauses are read back from update expressions

Fragments stand between commas and have commas of their own, and a section begins with a keyword that
may just as well be the name of an attribute. The expression still has one reading. Two fragments of
one clause whose texts begin the same text are the same fragment, stand under the same key and leave
the same rest (`Change.eq_of_fragment_append_eq`). What follows a fragment tells whether the section
goes on, and the word behind a blank tells which section comes next
(`Clauses.entries_eq_of_sectionsText_eq`). So the wire form of a request can do without the clauses
(`Update.clauses_read_back`).
-/

namespace GuardedUpdate

/-- Two names that both end are read off what they begin. -/
theorem append_inj_of_nameEnds {x y r s : List Char} (hx : ∀ c ∈ x, isReferenceChar c = true)
    (hy : ∀ c ∈ y, isReferenceChar c = true) (hr : NameEnds r) (hs : NameEnds s)
    (h : x ++ r = y ++ s) : x = y ∧ r = s := by
  have hxy : x = y := by
    calc x = (x ++ r).takeWhile isReferenceChar := by
          rw [takeWhile_append_of_nameEnds hr, takeWhile_eq_self hx]
      _ = (y ++ s).takeWhile isReferenceChar := by rw [h]
      _ = y := by rw [takeWhile_append_of_nameEnds hs, takeWhile_eq_self hy]
  rw [hxy] at h
  exact ⟨hxy, List.append_cancel_left h⟩

/-! ## Fragments -/

namespace Change

open Placeholder

/-- A function and its arguments, without a blank in front of the parenthesis. -/
def callText (name : String) (arguments : List String) : String :=
  name ++ "(" ++ ", ".intercalate arguments ++ ")"

/-- What follows the attribute in the text of a change. -/
def operation : Change → String
  | set attr _ => " = " ++ ofClause attr
  | setIfAbsent attr _ => " = " ++ callText "if_not_exists" [ofName attr, ofClause attr]
  | append attr _ => " = " ++ callText "list_append" [ofName attr, ofClause attr]
  | appendOrCreate attr _ =>
    " = " ++ callText "list_append"
      [callText "if_not_exists" [ofName attr, emptyList], ofClause attr]
  | setEntry _ key _ => "." ++ ofName key ++ " = " ++ ofClause key
  | remove _ => ""
  | add attr _ => " " ++ ofClause attr
  | delete attr _ => " " ++ ofClause attr

theorem fragment_eq (c : Change) : c.fragment = ofName c.target ++ c.operation := by
  apply String.toList_inj.1
  cases c <;> simp [fragment, target, operation, callText]

theorem toList_fragment_append (c : Change) (s : List Char) :
    c.fragment.toList ++ s = '#' :: (c.target.toList ++ (c.operation.toList ++ s)) := by
  simp [fragment_eq, ofName]

/-- The attribute of a change ends where its operation begins. -/
theorem nameEnds_operation_append (c : Change) {s : List Char} (hs : NameEnds s) :
    NameEnds (c.operation.toList ++ s) := by
  cases c with
  | remove attr => exact hs
  | _ => simp [operation, isReferenceChar]

/-- The operation of a change in a known clause, on a known attribute, is read off what it
begins. -/
theorem operation_eq_of_append_eq {c d : Change} (hc : ∀ a ∈ c.attributes, IsName a)
    (hd : ∀ a ∈ d.attributes, IsName a) (hclause : c.clause = d.clause)
    (htarget : c.target = d.target) {s t : List Char}
    (h : c.operation.toList ++ s = d.operation.toList ++ t) :
    c.key = d.key ∧ c.operation = d.operation := by
  cases c <;> cases d <;> simp only [clause, reduceCtorEq] at hclause
  case setEntry.setEntry attr key value attr' key' value' =>
    -- The entry ends at the blank in front of the equals sign.
    obtain rfl : attr = attr' := htarget
    have hkey : IsName key := hc key (by simp [attributes])
    have hkey' : IsName key' := hd key' (by simp [attributes])
    simp only [operation, ofName, String.toList_append, List.append_assoc,
      List.append_cancel_left_eq] at h
    obtain ⟨hread, -⟩ := append_inj_of_nameEnds hkey.2 hkey'.2 (by simp [isReferenceChar])
      (by simp [isReferenceChar]) h
    obtain rfl := String.toList_inj.1 hread
    exact ⟨rfl, rfl⟩
  all_goals
    -- Different operations differ before a name comes, and one operation has one name.
    simp only [target] at htarget
    subst htarget
    simp [operation, callText, ofName, ofClause, emptyList] at h <;> exact ⟨rfl, rfl⟩

/-- Two changes in one clause whose texts begin the same text have the same text and stand under
the same key. -/
theorem eq_of_fragment_append_eq {c d : Change} (hc : ∀ a ∈ c.attributes, IsName a)
    (hd : ∀ a ∈ d.attributes, IsName a) (hclause : c.clause = d.clause) {s t : List Char}
    (hs : NameEnds s) (ht : NameEnds t)
    (h : c.fragment.toList ++ s = d.fragment.toList ++ t) :
    c.key = d.key ∧ c.fragment = d.fragment ∧ s = t := by
  have hread := h
  rw [toList_fragment_append, toList_fragment_append] at hread
  have htarget : IsName c.target := hc _ (mem_attributes_iff.2 (Or.inl rfl))
  have htarget' : IsName d.target := hd _ (mem_attributes_iff.2 (Or.inl rfl))
  obtain ⟨hattr, hrest⟩ := append_inj_of_nameEnds htarget.2 htarget'.2
    (c.nameEnds_operation_append hs) (d.nameEnds_operation_append ht) (List.cons.inj hread).2
  have hattr : c.target = d.target := String.toList_inj.1 hattr
  obtain ⟨hkey, hoperation⟩ := operation_eq_of_append_eq hc hd hclause hattr hrest
  have hfragment : c.fragment = d.fragment := by
    rw [fragment_eq, fragment_eq, hattr, hoperation]
  rw [hfragment] at h
  exact ⟨hkey, hfragment, List.append_cancel_left h⟩

end Change

namespace Clauses

/-! ## Sections -/

/-- An entry of a clause is that of some change which mentions names only. -/
def IsEntry (clause : Clause) (e : String × String) : Prop :=
  ∃ change : Change, change.clause = clause ∧ (∀ a ∈ change.attributes, IsName a) ∧
    e = (change.key, change.fragment)

theorem isEntry_of_mem_ofChanges {changes : List Change}
    (hlegal : ∀ c ∈ changes, ∀ a ∈ c.attributes, IsName a) {clause : Clause}
    {e : String × String} (h : e ∈ (ofChanges changes).entries clause) : IsEntry clause e := by
  obtain ⟨c, hlast, hfragment⟩ := mem_entries_ofChanges_iff.1 (show (e.1, e.2) ∈ _ from h)
  obtain ⟨hmem, hclause, hkey⟩ := Change.of_last?_eq_some hlast
  exact ⟨c, hclause, hlegal c hmem, by rw [hkey, hfragment]⟩

/-- Nothing follows a section but the blank in front of the next one. -/
def SectionEnds (s : List Char) : Prop := ∀ c ∈ s.head?, c = ' '

theorem SectionEnds.nil : SectionEnds [] := fun _ h => absurd h (Option.not_mem_none _)

theorem SectionEnds.blank (s : List Char) : SectionEnds (' ' :: s) :=
  fun _ h => (Option.some.inj h).symm

theorem SectionEnds.ne_cons {s r : List Char} {c : Char} (h : SectionEnds s) (hc : c ≠ ' ') :
    s ≠ c :: r := by
  intro hs
  rw [hs] at h
  exact hc (h c rfl)

theorem SectionEnds.nameEnds {s : List Char} (h : SectionEnds s) : NameEnds s := by
  intro c hc
  rw [h c hc]
  decide

/-- The fragments of some entries, each behind a comma. -/
def fragmentsText (l : List (String × String)) : List Char :=
  l.flatMap fun e => [',', ' '] ++ e.2.toList

theorem fragmentsText_cons_append (e : String × String) (l : List (String × String))
    (s : List Char) :
    fragmentsText (e :: l) ++ s = [',', ' '] ++ (e.2.toList ++ (fragmentsText l ++ s)) := by
  simp [fragmentsText]

theorem nameEnds_fragmentsText_append (l : List (String × String)) {s : List Char}
    (hs : SectionEnds s) : NameEnds (fragmentsText l ++ s) := by
  cases l with
  | nil => exact hs.nameEnds
  | cons e l =>
    rw [fragmentsText_cons_append]
    exact nameEnds_cons.2 (by decide)

/-- The entries of a clause are read off their fragments up to the end of the section. -/
theorem eq_of_fragmentsText_append_eq {clause : Clause} {l l' : List (String × String)}
    (hl : ∀ e ∈ l, IsEntry clause e) (hl' : ∀ e ∈ l', IsEntry clause e) {s s' : List Char}
    (hs : SectionEnds s) (hs' : SectionEnds s')
    (h : fragmentsText l ++ s = fragmentsText l' ++ s') : l = l' ∧ s = s' := by
  induction l generalizing l' with
  | nil =>
    cases l' with
    | nil => exact ⟨rfl, h⟩
    | cons e' l' =>
      rw [fragmentsText_cons_append] at h
      exact absurd h (hs.ne_cons (by decide))
  | cons e l ih =>
    cases l' with
    | nil =>
      rw [fragmentsText_cons_append] at h
      exact absurd h.symm (hs'.ne_cons (by decide))
    | cons e' l' =>
      rw [fragmentsText_cons_append, fragmentsText_cons_append, List.append_cancel_left_eq] at h
      rw [List.forall_mem_cons] at hl hl'
      obtain ⟨⟨c, hclause, hc, rfl⟩, hrest⟩ := hl
      obtain ⟨⟨d, hclause', hd, rfl⟩, hrest'⟩ := hl'
      obtain ⟨hkey, hfragment, htail⟩ := Change.eq_of_fragment_append_eq hc hd
        (hclause.trans hclause'.symm) (nameEnds_fragmentsText_append l hs)
        (nameEnds_fragmentsText_append l' hs') h
      obtain ⟨rfl, hss⟩ := ih hrest hrest' htail
      exact ⟨by rw [hkey, hfragment], hss⟩

/-- The text of a clause behind a blank, or nothing. -/
def sectionText (c : Clauses) (clause : Clause) : List Char :=
  (c.clauseText? clause).elim [] fun t => ' ' :: t.toList

/-- The texts of some clauses in order, each behind a blank. -/
def sectionsText (c : Clauses) (order : List Clause) : List Char := order.flatMap c.sectionText

theorem sectionText_of_nil {c : Clauses} {clause : Clause} (h : c.entries clause = []) :
    c.sectionText clause = [] := by
  unfold sectionText
  rw [clauseText?_eq_none_iff.2 h]
  rfl

theorem sectionText_append_of_cons {c : Clauses} {clause : Clause} {e : String × String}
    {l : List (String × String)} (h : c.entries clause = e :: l) (s : List Char) :
    c.sectionText clause ++ s =
      ' ' :: ((Vocabulary.name clause).toList ++
        ' ' :: (e.2.toList ++ (fragmentsText l ++ s))) := by
  have hjoin : [',', ' '] ++ (", ".intercalate (e.2 :: l.map Prod.snd)).toList =
      [',', ' '] ++ (e.2.toList ++ fragmentsText l) := by
    rw [String.toList_intercalate, List.map_cons]
    show [',', ' '] ++ [',', ' '].intercalate _ = _
    rw [append_intercalate_cons, List.flatMap_cons, List.map_map, List.flatMap_map,
      List.append_assoc]
    rfl
  have hfragments : c.fragments clause = e.2 :: l.map Prod.snd := by
    rw [fragments_eq_map_entries, h, List.map_cons]
  unfold sectionText clauseText?
  rw [hfragments]
  simp [List.append_cancel_left hjoin]

/-- Sections begin with the keyword of one of their clauses. -/
theorem sectionsText_eq_nil_or (c : Clauses) (order : List Clause) :
    c.sectionsText order = [] ∨ ∃ clause ∈ order, ∃ r,
      c.sectionsText order = ' ' :: ((Vocabulary.name clause).toList ++ ' ' :: r) := by
  induction order with
  | nil => exact Or.inl rfl
  | cons clause order ih =>
    unfold sectionsText at ih ⊢
    rw [List.flatMap_cons]
    cases hentries : c.entries clause with
    | nil =>
      rw [sectionText_of_nil hentries, List.nil_append]
      rcases ih with hnil | ⟨next, hnext, hr⟩
      · exact Or.inl hnil
      · exact Or.inr ⟨next, List.mem_cons_of_mem clause hnext, hr⟩
    | cons e l =>
      rw [sectionText_append_of_cons hentries]
      exact Or.inr ⟨clause, List.mem_cons_self, _, rfl⟩

theorem sectionEnds_sectionsText (c : Clauses) (order : List Clause) :
    SectionEnds (c.sectionsText order) := by
  rcases c.sectionsText_eq_nil_or order with hnil | ⟨clause, -, r, hr⟩
  · rw [hnil]
    exact .nil
  · rw [hr]
    exact .blank _

theorem blank_not_mem_name (clause : Clause) : ' ' ∉ (Vocabulary.name clause).toList := by
  cases clause <;> decide

/-- The first keyword is that of a clause which has a section. -/
theorem mem_of_sectionsText_eq {c : Clauses} {order : List Clause} {clause : Clause}
    {r : List Char}
    (h : c.sectionsText order = ' ' :: ((Vocabulary.name clause).toList ++ ' ' :: r)) :
    clause ∈ order := by
  rcases c.sectionsText_eq_nil_or order with hnil | ⟨first, hfirst, r', hr'⟩
  · rw [hnil] at h
    cases h
  · rw [hr'] at h
    obtain ⟨hname, -⟩ := append_cons_inj_of_not_mem (blank_not_mem_name first)
      (blank_not_mem_name clause) (List.cons.inj h).2
    rw [← LawfulVocabulary.name_injective (String.toList_inj.1 hname)]
    exact hfirst

/-- Sections are read off their text, one clause after the other. -/
theorem entries_eq_of_sectionsText_eq {c d : Clauses}
    (hc : ∀ clause, ∀ e ∈ c.entries clause, IsEntry clause e)
    (hd : ∀ clause, ∀ e ∈ d.entries clause, IsEntry clause e) {order : List Clause}
    (hnodup : order.Nodup) (h : c.sectionsText order = d.sectionsText order) :
    ∀ clause ∈ order, c.entries clause = d.entries clause := by
  induction order with
  | nil => exact fun _ hmem => absurd hmem List.not_mem_nil
  | cons clause order ih =>
    obtain ⟨hnot, hnodup⟩ := List.nodup_cons.1 hnodup
    have hcons : ∀ b : Clauses,
        b.sectionsText (clause :: order) = b.sectionText clause ++ b.sectionsText order :=
      fun b => List.flatMap_cons
    rw [hcons, hcons] at h
    rw [List.forall_mem_cons]
    -- A keyword that comes later is not the one of this clause.
    cases hentries : c.entries clause with
    | nil =>
      rw [sectionText_of_nil hentries, List.nil_append] at h
      cases hentries' : d.entries clause with
      | nil =>
        rw [sectionText_of_nil hentries', List.nil_append] at h
        exact ⟨rfl, ih hnodup h⟩
      | cons e l =>
        rw [sectionText_append_of_cons hentries'] at h
        exact absurd (mem_of_sectionsText_eq h) hnot
    | cons e l =>
      rw [sectionText_append_of_cons hentries] at h
      cases hentries' : d.entries clause with
      | nil =>
        rw [sectionText_of_nil hentries', List.nil_append] at h
        exact absurd (mem_of_sectionsText_eq h.symm) hnot
      | cons e' l' =>
        rw [sectionText_append_of_cons hentries'] at h
        have hfirst := (List.cons.inj (List.append_cancel_left (List.cons.inj h).2)).2
        have hlist : fragmentsText (e :: l) ++ c.sectionsText order =
            fragmentsText (e' :: l') ++ d.sectionsText order := by
          rw [fragmentsText_cons_append, fragmentsText_cons_append, hfirst]
        have hl : ∀ x ∈ e :: l, IsEntry clause x := hentries ▸ hc clause
        have hl' : ∀ x ∈ e' :: l', IsEntry clause x := hentries' ▸ hd clause
        obtain ⟨hsame, hrest⟩ := eq_of_fragmentsText_append_eq hl hl'
          (c.sectionEnds_sectionsText order) (d.sectionEnds_sectionsText order) hlist
        exact ⟨hsame, ih hnodup hrest⟩

/-! ## The expression -/

/-- An expression with a blank in front is all its sections with a blank in front of each. -/
theorem cons_toList_expression {c : Clauses} (h : c.expression ≠ "") :
    ' ' :: c.expression.toList = c.sectionsText Vocabulary.constants := by
  have hsections : c.sectionsText Vocabulary.constants =
      (Vocabulary.constants.filterMap c.clauseText?).flatMap fun t => ' ' :: t.toList := by
    rw [List.filterMap_eq_flatMap_toList, List.flatMap_assoc]
    unfold sectionsText
    congr 1
    funext clause
    unfold sectionText
    cases c.clauseText? clause <;> simp
  rw [hsections]
  unfold expression at h ⊢
  cases htexts : Vocabulary.constants.filterMap c.clauseText? with
  | nil => exact absurd (by rw [htexts]; rfl) h
  | cons t l =>
    rw [String.toList_intercalate, List.map_cons]
    show [' '] ++ [' '].intercalate _ = _
    rw [append_intercalate_cons, ← List.map_cons, List.flatMap_map]
    rfl

/-- Clauses with the same entries are the same. -/
theorem ext_entries {c d : Clauses} (h : ∀ clause, c.entries clause = d.entries clause) :
    c = d := by
  have hremove : c.remove = d.remove := by
    have hkeys := congrArg (List.map Prod.fst) (h .remove)
    simpa [entries, Function.comp_def] using hkeys
  cases c
  cases d
  rw [Clauses.mk.injEq]
  exact ⟨h .set, hremove, h .add, h .delete⟩

/-- Clauses of changes that mention names only are read off their expression. -/
theorem eq_of_expression_eq {c d : Clauses}
    (hc : ∀ clause, ∀ e ∈ c.entries clause, IsEntry clause e)
    (hd : ∀ clause, ∀ e ∈ d.entries clause, IsEntry clause e)
    (h : c.expression = d.expression) : c = d := by
  apply ext_entries
  intro clause
  by_cases hempty : c.expression = ""
  · have hempty' : d.expression = "" := by rw [← h, hempty]
    rw [expression_eq_empty_iff.1 hempty clause, expression_eq_empty_iff.1 hempty' clause]
  · have hsections : c.sectionsText Vocabulary.constants = d.sectionsText Vocabulary.constants := by
      rw [← cons_toList_expression hempty, h, cons_toList_expression (h ▸ hempty)]
    exact entries_eq_of_sectionsText_eq hc hd (by decide) hsections clause
      (LawfulVocabulary.mem_constants clause)

end Clauses

/-! ## Requests -/

/-- A request is all but its clauses together with them. -/
theorem Request.eq_of_clauses_eq {r s : Request}
    (hrest : { r with clauses := {} } = { s with clauses := {} }) (h : r.clauses = s.clauses) :
    r = s := by
  cases r
  cases s
  rw [Request.mk.injEq] at hrest ⊢
  exact ⟨hrest.1, hrest.2.1, hrest.2.2.1, hrest.2.2.2.1, hrest.2.2.2.2.1, hrest.2.2.2.2.2.1,
    hrest.2.2.2.2.2.2.1, h⟩

namespace Update

/-- The clauses of a request are told by its update expression, if its changes mention names only.
So requests that are put together from such changes are told by their wire forms, which have the
expression and not the clauses. -/
theorem clauses_read_back (u v : Update) (hu : ∀ c ∈ u.changes, ∀ a ∈ c.attributes, IsName a)
    (hv : ∀ c ∈ v.changes, ∀ a ∈ c.attributes, IsName a) :
    (u.request.update = v.request.update ↔ u.request.clauses = v.request.clauses) ∧
    (u.request.encode = v.request.encode ↔ u.request = v.request) := by
  have hclauses : u.request.update = v.request.update → u.request.clauses = v.request.clauses :=
    Clauses.eq_of_expression_eq
      (fun clause e he => Clauses.isEntry_of_mem_ofChanges hu he)
      (fun clause e he => Clauses.isEntry_of_mem_ofChanges hv he)
  refine ⟨⟨hclauses, congrArg Clauses.expression⟩, ?_, congrArg Request.encode⟩
  intro hwire
  -- Everything else is on the wire, the update expression too.
  have hrest : ({ u.request with clauses := {} } : Request) = { v.request with clauses := {} } :=
    Request.encode_eq_iff.1 hwire
  exact Request.eq_of_clauses_eq hrest (hclauses (Request.mk.inj hrest).2.2.1)

/-- The same clauses after different changes: attributes called like keywords, a list that is
created and one that is appended to, and a value that is given twice. -/
theorem clauses_read_back_after_overwriting :
    let key : Key := { partition := ("id", .string "1") }
    let u : Update :=
      { table := "items", key
        changes := [.set "ADD" (.bool true), .setEntry "SET" "ADD" (.bool true), .remove "REMOVE",
          .append "ADD" [], .appendOrCreate "ADD" []] }
    let v : Update :=
      { table := "drafts", key
        changes := [.appendOrCreate "ADD" [.bool false], .remove "REMOVE",
          .setEntry "SET" "ADD" (.bool false)] }
    (∀ c ∈ u.changes, ∀ a ∈ c.attributes, IsName a) ∧
      (∀ c ∈ v.changes, ∀ a ∈ c.attributes, IsName a) ∧
      u.request.update = v.request.update ∧ u.request.clauses = v.request.clauses := by
  intro key u v
  have hu : ∀ c ∈ u.changes, ∀ a ∈ c.attributes, IsName a := by decide
  have hv : ∀ c ∈ v.changes, ∀ a ∈ c.attributes, IsName a := by decide
  have hupdate : u.request.update = v.request.update := by decide
  exact ⟨hu, hv, hupdate, (clauses_read_back u v hu hv).1.1 hupdate⟩

end Update
end GuardedUpdate
