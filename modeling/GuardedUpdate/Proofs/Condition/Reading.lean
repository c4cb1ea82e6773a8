import GuardedUpdate.Proofs.Condition.Leaves
import GuardedUpdate.Proofs.Request.Scan

/-!
# Guards are read back from their expressions

The expression of a guard is flat text: parentheses stand around arguments, candidates and groups,
and `NOT` and the joiners are words in front of a test. It still has one reading. Two conditions
whose texts begin the same text are the same condition and leave the same rest
(`Condition.eq_of_text_append_eq`), given what their placeholders stand for; so a guard is told by
its expression and its values, and an update's guard by the request.

All statements are about two texts at one path: at one path placeholders with one attribute are the
same text, so a placeholder never has to be taken apart.
-/

namespace GuardedUpdate

/-- The map has the entries of the list. -/
def Holds (m : KeyMap Value) (l : List (String × Value)) : Prop :=
  ∀ e ∈ l, m.get? e.1 = some e.2

theorem Holds.left {m : KeyMap Value} {l l' : List (String × Value)} (h : Holds m (l ++ l')) :
    Holds m l := fun e he => h e (List.mem_append_left l' he)

theorem Holds.right {m : KeyMap Value} {l l' : List (String × Value)} (h : Holds m (l ++ l')) :
    Holds m l' := fun e he => h e (List.mem_append_right l he)

/-- A placeholder has one value in a map. -/
theorem eq_of_holds_singleton {m : KeyMap Value} {k : String} {v w : Value}
    (hv : Holds m [(k, v)]) (hw : Holds m [(k, w)]) : v = w := by
  have hv' := hv _ List.mem_cons_self
  rw [hw _ List.mem_cons_self] at hv'
  exact (Option.some.inj hv').symm

/-! ## Texts of predicates -/

/-- With one more separator in front, each text of a list stands behind one. -/
theorem append_intercalate_cons {α : Type} (sep x : List α) (l : List (List α)) :
    sep ++ sep.intercalate (x :: l) = (x :: l).flatMap (sep ++ ·) := by
  induction l generalizing x with
  | nil => simp
  | cons y l ih =>
    rw [List.intercalate_cons_cons, List.flatMap_cons, ← ih, List.append_assoc, List.append_assoc]

namespace Predicate

/-- The texts of the placeholders of some candidates, the first at a position. -/
def candidateTexts (path : List Nat) (attr : String) (position : Nat) (l : List Value) :
    List (List Char) :=
  (l.zipIdx position).map fun c => (Placeholder.ofCondition (path ++ [c.2]) attr).toList

@[simp] theorem candidateTexts_nil (path : List Nat) (attr : String) (position : Nat) :
    candidateTexts path attr position [] = [] := rfl

@[simp] theorem candidateTexts_cons (path : List Nat) (attr : String) (position : Nat) (v : Value)
    (l : List Value) :
    candidateTexts path attr position (v :: l) =
      (Placeholder.ofCondition (path ++ [position]) attr).toList ::
        candidateTexts path attr (position + 1) l := by
  simp [candidateTexts]

/-- What stands between the attribute and the end of a call. -/
def argumentText (path : List Nat) (attr : String) (f : AttributeFunction) : List Char :=
  match f.argument? with
  | none => []
  | some _ => ',' :: ' ' :: (Placeholder.ofCondition path attr).toList

theorem toList_text_compare_append (path : List Nat) (attr : String) (op : Comparator) (v : Value)
    (s : List Char) :
    ((compare op v).text path attr).toList ++ s =
      '#' :: (attr.toList ++ ' ' :: ((Vocabulary.name op).toList ++
        ' ' :: ((Placeholder.ofCondition path attr).toList ++ s))) := by
  simp [text, Placeholder.ofName]

theorem toList_text_oneOf_append (path : List Nat) (attr : String) (l : List Value)
    (s : List Char) :
    ((oneOf l).text path attr).toList ++ s =
      '#' :: (attr.toList ++ ' ' :: ("IN".toList ++ ' ' :: '(' ::
        ([',', ' '].intercalate (candidateTexts path attr 1 l) ++ ')' :: s))) := by
  simp [text, callText, placeholders, bindings, candidateTexts, Placeholder.ofName,
    Function.comp_def]

theorem toList_text_call_append (path : List Nat) (attr : String) (f : AttributeFunction)
    (s : List Char) :
    ((call f).text path attr).toList ++ s =
      f.name.toList ++ ' ' :: '(' :: '#' ::
        (attr.toList ++ (argumentText path attr f ++ ')' :: s)) := by
  cases f <;> simp [text, callText, placeholders, bindings, argumentText, Placeholder.ofName,
    AttributeFunction.argument?]

/-- The text of a predicate begins with the mark of a name or with a small letter. -/
theorem exists_toList_text_append_eq (path : List Nat) (attr : String) (p : Predicate)
    (s : List Char) :
    ∃ c r, (p.text path attr).toList ++ s = c :: r ∧ c ∈ ['#', 'a', 'b', 'c'] := by
  cases p with
  | compare op v => exact ⟨_, _, toList_text_compare_append path attr op v s, by decide⟩
  | oneOf l => exact ⟨_, _, toList_text_oneOf_append path attr l s, by decide⟩
  | call f =>
    rw [toList_text_call_append]
    cases f <;> simp [AttributeFunction.name]

/-! ## Reading predicates -/

/-- Two lists of candidates whose texts begin the same text up to a parenthesis are equal. -/
theorem eq_of_candidateTexts {m : KeyMap Value} {path : List Nat} {attr : String} {position : Nat}
    {l l' : List Value} {s s' : List Char}
    (hl : Holds m ((l.zipIdx position).map fun c =>
      (Placeholder.ofCondition (path ++ [c.2]) attr, c.1)))
    (hl' : Holds m ((l'.zipIdx position).map fun c =>
      (Placeholder.ofCondition (path ++ [c.2]) attr, c.1)))
    (h : (candidateTexts path attr position l).flatMap ([',', ' '] ++ ·) ++ ')' :: s =
      (candidateTexts path attr position l').flatMap ([',', ' '] ++ ·) ++ ')' :: s') :
    l = l' ∧ s = s' := by
  induction l generalizing position l' with
  | nil =>
    cases l' with
    | nil => exact ⟨rfl, (List.cons.inj h).2⟩
    | cons v' l' => simp at h
  | cons v l ih =>
    cases l' with
    | nil => simp at h
    | cons v' l' =>
      simp only [candidateTexts_cons, List.flatMap_cons, List.append_assoc,
        List.append_cancel_left_eq] at h
      rw [List.zipIdx_cons, List.map_cons] at hl hl'
      -- Both first candidates have the placeholder of the position.
      have hv := hl _ List.mem_cons_self
      have hv' := hl' _ List.mem_cons_self
      obtain rfl : v = v' := Option.some.inj (hv.symm.trans hv')
      obtain ⟨rfl, rfl⟩ := ih (fun e he => hl e (List.mem_cons_of_mem _ he))
        (fun e he => hl' e (List.mem_cons_of_mem _ he)) h
      exact ⟨rfl, rfl⟩

/-- Two choices whose candidates begin the same text up to a parenthesis are equal. -/
theorem eq_of_candidates {m : KeyMap Value} {path : List Nat} {attr : String} {l l' : List Value}
    {s s' : List Char} (hl : Holds m ((oneOf l).bindings path attr))
    (hl' : Holds m ((oneOf l').bindings path attr))
    (h : [',', ' '].intercalate (candidateTexts path attr 1 l) ++ ')' :: s =
      [',', ' '].intercalate (candidateTexts path attr 1 l') ++ ')' :: s') : l = l' ∧ s = s' := by
  cases l with
  | nil =>
    cases l' with
    | nil => exact ⟨rfl, (List.cons.inj h).2⟩
    | cons v' l' => simp [Placeholder.ofCondition] at h
  | cons v l =>
    cases l' with
    | nil => simp [Placeholder.ofCondition] at h
    | cons v' l' =>
      have hsep := congrArg ([',', ' '] ++ ·) h
      simp only [candidateTexts_cons, ← List.append_assoc, append_intercalate_cons] at hsep
      exact eq_of_candidateTexts hl hl' hsep

/-- An attribute and the word behind it are read off a text. -/
theorem eq_of_named_text {attr attr' : String} {w w' r r' : List Char} (ha : IsName attr)
    (ha' : IsName attr') (hw : ' ' ∉ w) (hw' : ' ' ∉ w')
    (h : '#' :: (attr.toList ++ ' ' :: (w ++ ' ' :: r)) =
      '#' :: (attr'.toList ++ ' ' :: (w' ++ ' ' :: r'))) :
    attr = attr' ∧ w = w' ∧ r = r' := by
  obtain ⟨hattr, -, h⟩ := append_cons_inj ha.2 ha'.2 (by decide) (by decide) (List.cons.inj h).2
  obtain ⟨hword, h⟩ := append_cons_inj_of_not_mem hw hw' h
  exact ⟨String.toList_inj.1 hattr, hword, h⟩

theorem blank_not_mem_comparator (op : Comparator) : ' ' ∉ (Vocabulary.name op).toList := by
  cases op <;> decide

theorem comparator_ne_in (op : Comparator) : (Vocabulary.name op).toList ≠ "IN".toList := by
  cases op <;> decide

theorem blank_not_mem_function (f : AttributeFunction) : ' ' ∉ f.name.toList := by
  cases f <;> simp [AttributeFunction.name]

/-- A call is told from a test that begins with a name. -/
theorem toList_text_call_append_ne (path : List Nat) (attr : String) (f : AttributeFunction)
    (s t : List Char) : ((call f).text path attr).toList ++ s ≠ '#' :: t := by
  rw [toList_text_call_append]
  cases f <;> simp [AttributeFunction.name]

/-- What follows the attribute of a call goes on with no reference character. -/
theorem exists_argumentText_eq (path : List Nat) (attr : String) (f : AttributeFunction)
    (s : List Char) :
    ∃ d r, argumentText path attr f ++ ')' :: s = d :: r ∧ ¬isReferenceChar d = true := by
  unfold argumentText
  cases f.argument? with
  | none => exact ⟨')', s, rfl, by decide⟩
  | some v => exact ⟨',', _, rfl, by decide⟩

/-- A function is told by its name and its argument. -/
theorem function_eq_of_name_eq {f f' : AttributeFunction} (hname : f.name = f'.name)
    (harg : ∀ v w, f.argument? = some v → f'.argument? = some w → v = w) : f = f' := by
  cases f <;> cases f' <;> simp [AttributeFunction.name] at hname
  · rfl
  · rfl
  · rw [harg _ _ rfl rfl]
  · rw [harg _ _ rfl rfl]
  · next k l =>
    have hdescriptor : k.descriptor = l.descriptor := Value.string.inj (harg _ _ rfl rfl)
    have hkind : k = l := LawfulVocabulary.name_injective hdescriptor
    rw [hkind]

/-- Two calls whose texts begin the same text are equal. -/
theorem eq_of_call_text_append_eq {m : KeyMap Value} {path : List Nat} {attr attr' : String}
    {f f' : AttributeFunction} {s s' : List Char} (ha : IsName attr) (ha' : IsName attr')
    (hf : Holds m ((call f).bindings path attr)) (hf' : Holds m ((call f').bindings path attr'))
    (h : ((call f).text path attr).toList ++ s = ((call f').text path attr').toList ++ s') :
    attr = attr' ∧ f = f' ∧ s = s' := by
  rw [toList_text_call_append, toList_text_call_append] at h
  -- The function is read first, then the attribute up to the comma or the parenthesis.
  obtain ⟨hname, h⟩ :=
    append_cons_inj_of_not_mem (blank_not_mem_function f) (blank_not_mem_function f') h
  obtain ⟨d, r, hd, hdn⟩ := exists_argumentText_eq path attr f s
  obtain ⟨d', r', hd', hdn'⟩ := exists_argumentText_eq path attr' f' s'
  have hattr := (List.cons.inj (List.cons.inj h).2).2
  rw [hd, hd'] at hattr
  obtain ⟨hattr, hdd, hrr⟩ := append_cons_inj ha.2 ha'.2 hdn hdn' hattr
  obtain rfl := String.toList_inj.1 hattr
  -- With one attribute both arguments have one placeholder.
  obtain rfl : f = f' := by
    refine function_eq_of_name_eq (String.toList_inj.1 hname) fun v w hv hw => ?_
    rw [bindings, hv] at hf
    rw [bindings, hw] at hf'
    exact eq_of_holds_singleton hf hf'
  have hrest : argumentText path attr f ++ ')' :: s = argumentText path attr f ++ ')' :: s' := by
    rw [hd, hd', hdd, hrr]
  exact ⟨rfl, rfl, (List.cons.inj (List.append_cancel_left hrest)).2⟩

/-- A test is read off its text: two tests whose texts begin the same text are equal. -/
theorem eq_of_text_append_eq {m : KeyMap Value} {path : List Nat} {attr attr' : String}
    {p p' : Predicate} {s s' : List Char} (ha : IsName attr) (ha' : IsName attr')
    (hp : Holds m (p.bindings path attr)) (hp' : Holds m (p'.bindings path attr'))
    (h : (p.text path attr).toList ++ s = (p'.text path attr').toList ++ s') :
    attr = attr' ∧ p = p' ∧ s = s' := by
  -- A call begins with a letter, and of the others only a choice has the word IN.
  cases p with
  | compare op v =>
    rw [toList_text_compare_append] at h
    cases p' with
    | compare op' v' =>
      rw [toList_text_compare_append] at h
      obtain ⟨rfl, hop, hrest⟩ := eq_of_named_text ha ha' (blank_not_mem_comparator op)
        (blank_not_mem_comparator op') h
      obtain rfl : op = op' := LawfulVocabulary.name_injective (String.toList_inj.1 hop)
      obtain rfl : v = v' := eq_of_holds_singleton hp hp'
      exact ⟨rfl, rfl, List.append_cancel_left hrest⟩
    | oneOf l' =>
      rw [toList_text_oneOf_append] at h
      obtain ⟨-, hop, -⟩ := eq_of_named_text ha ha' (blank_not_mem_comparator op) (by decide) h
      exact absurd hop (comparator_ne_in op)
    | call f' => exact absurd h.symm (toList_text_call_append_ne _ _ _ _ _)
  | oneOf l =>
    rw [toList_text_oneOf_append] at h
    cases p' with
    | compare op' v' =>
      rw [toList_text_compare_append] at h
      obtain ⟨-, hop, -⟩ := eq_of_named_text ha ha' (by decide) (blank_not_mem_comparator op') h
      exact absurd hop.symm (comparator_ne_in op')
    | oneOf l' =>
      rw [toList_text_oneOf_append] at h
      obtain ⟨rfl, -, hrest⟩ := eq_of_named_text ha ha' (by decide) (by decide) h
      obtain ⟨rfl, rfl⟩ := eq_of_candidates hp hp' (List.cons.inj hrest).2
      exact ⟨rfl, rfl, rfl⟩
    | call f' => exact absurd h.symm (toList_text_call_append_ne _ _ _ _ _)
  | call f =>
    cases p' with
    | compare op' v' =>
      rw [toList_text_compare_append] at h
      exact absurd h (toList_text_call_append_ne _ _ _ _ _)
    | oneOf l' =>
      rw [toList_text_oneOf_append] at h
      exact absurd h (toList_text_call_append_ne _ _ _ _ _)
    | call f' =>
      obtain ⟨rfl, rfl, rfl⟩ := eq_of_call_text_append_eq ha ha' hp hp' h
      exact ⟨rfl, rfl, rfl⟩

end Predicate

/-! ## Texts of conditions and guards -/

namespace Condition

/-- What stands in front of a test. -/
def negationText (negated : Bool) : List Char := if negated then "NOT ".toList else []

theorem toList_text_test_append (path : List Nat) (attr : String) (negated : Bool) (p : Predicate)
    (s : List Char) :
    ((test attr negated p).text path).toList ++ s =
      negationText negated ++ ((p.text path attr).toList ++ s) := by
  cases negated <;> simp [text, negationText]

theorem toList_text_group_append (path : List Nat) (inner : Guard) (s : List Char) :
    ((group inner).text path).toList ++ s = '(' :: ((inner.text path).toList ++ ')' :: s) := by
  simp [text]

/-- A test begins like its predicate or with `NOT`. -/
theorem exists_toList_text_test_append_eq (path : List Nat) (attr : String) (negated : Bool)
    (p : Predicate) (s : List Char) :
    ∃ d r, ((test attr negated p).text path).toList ++ s = d :: r ∧
      d ∈ ['#', 'a', 'b', 'c', 'N'] := by
  rw [toList_text_test_append]
  cases negated with
  | true => exact ⟨'N', _, rfl, by decide⟩
  | false =>
    obtain ⟨d, r, hd, hmem⟩ := p.exists_toList_text_append_eq path attr s
    exact ⟨d, r, hd, List.mem_append_left ['N'] hmem⟩

/-- A test is told from a group. -/
theorem toList_text_test_append_ne (path : List Nat) (attr : String) (negated : Bool)
    (p : Predicate) (s t : List Char) :
    ((test attr negated p).text path).toList ++ s ≠ '(' :: t := by
  obtain ⟨d, r, hd, hmem⟩ := exists_toList_text_test_append_eq path attr negated p s
  intro h
  rw [hd] at h
  obtain rfl : d = '(' := (List.cons.inj h).1
  exact absurd hmem (by decide)

/-- A condition does not begin with the parenthesis that closes a group. -/
theorem exists_toList_text_append_eq (path : List Nat) (c : Condition) (s : List Char) :
    ∃ d r, (c.text path).toList ++ s = d :: r ∧ d ≠ ')' := by
  cases c with
  | test attr negated p =>
    obtain ⟨d, r, hd, hmem⟩ := exists_toList_text_test_append_eq path attr negated p s
    refine ⟨d, r, hd, ?_⟩
    intro hclose
    rw [hclose] at hmem
    exact absurd hmem (by decide)
  | group inner => exact ⟨'(', _, toList_text_group_append path inner s, by decide⟩

end Condition

namespace Guard

theorem toList_text_joined_append (path : List Nat) (first : Condition)
    (more : List (Joiner × Condition)) (s : List Char) :
    ((joined first more).text path).toList ++ s =
      (first.text (path ++ [1])).toList ++ ((textFrom path 2 more).toList ++ s) := by
  simp [text]

theorem toList_textFrom_cons_append (path : List Nat) (position : Nat) (j : Joiner) (c : Condition)
    (more : List (Joiner × Condition)) (s : List Char) :
    (textFrom path position ((j, c) :: more)).toList ++ s =
      ' ' :: ((Vocabulary.name j).toList ++ ' ' :: ((c.text (path ++ [position])).toList ++
        ((textFrom path (position + 1) more).toList ++ s))) := by
  simp [textFrom]

end Guard

/-! ## Reading guards -/

/-- Nothing follows a guard but the parenthesis that closes its group. -/
def Stops (s : List Char) : Prop := ∀ c ∈ s.head?, c = ')'

theorem Stops.nil : Stops [] := fun _ h => absurd h (Option.not_mem_none _)

theorem Stops.close (s : List Char) : Stops (')' :: s) := fun _ h => (Option.some.inj h).symm

theorem Stops.ne_cons {s r : List Char} {c : Char} (h : Stops s) (hc : c ≠ ')') : s ≠ c :: r := by
  intro hs
  rw [hs] at h
  exact hc (h c rfl)

/-- A guard is read off its text where a map has its values: another guard whose text at the same
path begins the same text is this one. -/
def Guard.ReadBack (m : KeyMap Value) (g : Guard) : Prop :=
  ∀ path h s s', (∀ a ∈ g.attributes, IsName a) → (∀ a ∈ h.attributes, IsName a) →
    Holds m (g.bindings path) → Holds m (h.bindings path) → Stops s → Stops s' →
    (g.text path).toList ++ s = (h.text path).toList ++ s' → g = h ∧ s = s'

/-- The word in front of a test tells whether it is negated. -/
theorem Condition.negated_eq_of_text_eq {path : List Nat} {attr attr' : String} {b b' : Bool}
    {p p' : Predicate} {s s' : List Char}
    (h : negationText b ++ ((p.text path attr).toList ++ s) =
      negationText b' ++ ((p'.text path attr').toList ++ s')) : b = b' := by
  obtain ⟨d, r, hd, hmem⟩ := p.exists_toList_text_append_eq path attr s
  obtain ⟨d', r', hd', hmem'⟩ := p'.exists_toList_text_append_eq path attr' s'
  rw [hd, hd'] at h
  cases b <;> cases b'
  · rfl
  · obtain rfl : d = 'N' := (List.cons.inj h).1
    exact absurd hmem (by decide)
  · obtain rfl : 'N' = d' := (List.cons.inj h).1
    exact absurd hmem' (by decide)
  · rfl

/-- A condition is read off its text where its group is. -/
theorem Condition.eq_of_text_append_eq {m : KeyMap Value} {path : List Nat} {c c' : Condition}
    {s s' : List Char} (ih : ∀ inner, c = .group inner → inner.ReadBack m)
    (hc : ∀ a ∈ c.attributes, IsName a) (hc' : ∀ a ∈ c'.attributes, IsName a)
    (hb : Holds m (c.bindings path)) (hb' : Holds m (c'.bindings path))
    (h : (c.text path).toList ++ s = (c'.text path).toList ++ s') : c = c' ∧ s = s' := by
  cases c with
  | test attr b p =>
    rw [toList_text_test_append] at h
    cases c' with
    | test attr' b' p' =>
      rw [toList_text_test_append] at h
      obtain rfl := negated_eq_of_text_eq h
      have ha : IsName attr := hc attr List.mem_cons_self
      have ha' : IsName attr' := hc' attr' List.mem_cons_self
      obtain ⟨rfl, rfl, rfl⟩ :=
        Predicate.eq_of_text_append_eq ha ha' hb hb' (List.append_cancel_left h)
      exact ⟨rfl, rfl⟩
    | group inner' =>
      rw [← toList_text_test_append, toList_text_group_append] at h
      exact absurd h (toList_text_test_append_ne _ _ _ _ _ _)
  | group inner =>
    rw [toList_text_group_append] at h
    cases c' with
    | test attr' b' p' => exact absurd h.symm (toList_text_test_append_ne _ _ _ _ _ _)
    | group inner' =>
      rw [toList_text_group_append] at h
      obtain ⟨rfl, hs⟩ := ih inner rfl path inner' _ _ hc hc' hb hb' (Stops.close s)
        (Stops.close s') (List.cons.inj h).2
      exact ⟨rfl, (List.cons.inj hs).2⟩

namespace Guard

theorem blank_not_mem_joiner (j : Joiner) : ' ' ∉ (Vocabulary.name j).toList := by
  cases j <;> decide

/-- The conditions behind the first one are read off their text where their groups are. -/
theorem eq_of_textFrom_append_eq {m : KeyMap Value} {path : List Nat} {position : Nat}
    {more more' : List (Joiner × Condition)} {s s' : List Char}
    (ih : ∀ j inner, (j, Condition.group inner) ∈ more → inner.ReadBack m)
    (hn : ∀ a ∈ attributesOf more, IsName a) (hn' : ∀ a ∈ attributesOf more', IsName a)
    (hb : Holds m (bindingsFrom path position more))
    (hb' : Holds m (bindingsFrom path position more')) (hs : Stops s) (hs' : Stops s')
    (h : (textFrom path position more).toList ++ s = (textFrom path position more').toList ++ s') :
    more = more' ∧ s = s' := by
  induction more generalizing position more' with
  | nil =>
    cases more' with
    | nil => exact ⟨rfl, h⟩
    | cons n' more' =>
      -- One list has ended, and the other goes on with a blank.
      rw [toList_textFrom_cons_append] at h
      exact absurd h (hs.ne_cons (by decide))
  | cons n more ihm =>
    obtain ⟨j, c⟩ := n
    rw [toList_textFrom_cons_append] at h
    cases more' with
    | nil => exact absurd h.symm (hs'.ne_cons (by decide))
    | cons n' more' =>
      obtain ⟨j', c'⟩ := n'
      rw [toList_textFrom_cons_append] at h
      rw [attributesOf, List.forall_mem_append] at hn hn'
      -- The joiner ends at the second blank, the condition where its own reading says.
      obtain ⟨hj, hmore⟩ := append_cons_inj_of_not_mem (blank_not_mem_joiner j)
        (blank_not_mem_joiner j') (List.cons.inj h).2
      obtain rfl : j = j' := LawfulVocabulary.name_injective (String.toList_inj.1 hj)
      obtain ⟨rfl, htail⟩ := Condition.eq_of_text_append_eq
        (fun inner hc => ih j inner (hc ▸ List.mem_cons_self)) hn.1 hn'.1 hb.left hb'.left hmore
      obtain ⟨rfl, hrest⟩ := ihm (fun j inner hmem => ih j inner (List.mem_cons_of_mem _ hmem))
        hn.2 hn'.2 hb.right hb'.right htail
      exact ⟨rfl, hrest⟩

/-- Every guard is read off its text. -/
theorem readBack (m : KeyMap Value) (g : Guard) : g.ReadBack m := by
  induction g using Guard.induction with
  | step g ih =>
    intro path h s s' hn hn' hb hb' hs hs' heq
    cases g with
    | empty =>
      cases h with
      | empty => exact ⟨rfl, heq⟩
      | joined first' more' =>
        -- The first condition begins with something else than a closing parenthesis.
        rw [toList_text_joined_append] at heq
        obtain ⟨d, r, hd, hne⟩ := first'.exists_toList_text_append_eq (path ++ [1])
          ((textFrom path 2 more').toList ++ s')
        exact absurd (heq.trans hd) (hs.ne_cons hne)
    | joined first more =>
      rw [toList_text_joined_append] at heq
      cases h with
      | empty =>
        obtain ⟨d, r, hd, hne⟩ := first.exists_toList_text_append_eq (path ++ [1])
          ((textFrom path 2 more).toList ++ s)
        exact absurd (heq.symm.trans hd) (hs'.ne_cons hne)
      | joined first' more' =>
        rw [toList_text_joined_append] at heq
        rw [attributes, List.forall_mem_append] at hn hn'
        obtain ⟨rfl, htail⟩ := Condition.eq_of_text_append_eq
          (fun inner hc => ih none inner (hc ▸ List.mem_cons_self)) hn.1 hn'.1 hb.left hb'.left heq
        obtain ⟨rfl, hrest⟩ := eq_of_textFrom_append_eq
          (fun j inner hmem => ih (some j) inner
            (List.mem_cons_of_mem _ (List.mem_map.2 ⟨(j, .group inner), hmem, rfl⟩)))
          hn.2 hn'.2 hb.right hb'.right hs hs' htail
        exact ⟨rfl, hrest⟩

/-! ## One guard for an expression and its values -/

/-- The values of a guard are in a map that has the values bound by it. -/
theorem holds_ownBindings (g : Guard) : Holds g.ownBindings.values (g.bindings []) := by
  intro e he
  obtain ⟨path, attr, leaf, hk⟩ := mem_bindings_iff_leafAt.1 he
  exact get?_ownBindings_eq_some_iff.2 ⟨path, attr, leaf, hk⟩

/-- Two guards with one expression that are bound in one map are equal. -/
theorem eq_of_expression?_eq {m : KeyMap Value} {g h : Guard}
    (hg : ∀ a ∈ g.attributes, IsName a) (hh : ∀ a ∈ h.attributes, IsName a)
    (hb : Holds m (g.bindings [])) (hb' : Holds m (h.bindings []))
    (heq : g.expression? = h.expression?) : g = h := by
  have htext : g.text [] = h.text [] := by
    cases g with
    | empty =>
      cases h with
      | empty => rfl
      | joined _ _ => cases heq
    | joined _ _ =>
      cases h with
      | empty => cases heq
      | joined _ _ => exact Option.some.inj heq
  refine (readBack m g [] h [] [] hg hh hb hb' .nil .nil ?_).1
  rw [htext]

end Guard

/-- Bindings with the same values to send have the same values. -/
theorem Bindings.values_eq_of_values?_eq {b b' : Bindings} (h : b.values? = b'.values?) :
    b.values = b'.values := by
  unfold values? at h
  split at h
  · next hb =>
    split at h
    · next hb' => rw [KeyMap.eq_empty_of_size_eq_zero hb, KeyMap.eq_empty_of_size_eq_zero hb']
    · cases h
  · split at h
    · cases h
    · exact Option.some.inj h

/-- The values of an update's guard are in the values of the update: those of the changes come
before them. -/
theorem Update.holds_bindings (u : Update) : Holds u.bindings.values (u.guard.bindings []) := by
  intro e he
  have hown := u.guard.holds_ownBindings e he
  rw [Guard.ownBindings, Bindings.ofLists, KeyMap.get?_ofList] at hown
  rw [Update.bindings, Bindings.ofLists, KeyMap.get?_ofList, KeyMap.lastValue?_append, hown]
  rfl

/-- A guard over proper names is told by its expression and its values, and by the condition and
the values of any request that it is part of. So requests with different guards are different. -/
theorem Guard.eq_of_expression_of_values (g h : Guard) (hg : ∀ a ∈ g.attributes, IsName a)
    (hh : ∀ a ∈ h.attributes, IsName a) :
    (g.expression? = h.expression? ∧ g.ownBindings.values = h.ownBindings.values ↔ g = h) ∧
    ∀ u v : Update, u.guard = g → v.guard = h →
      u.request.condition = v.request.condition → u.request.values = v.request.values → g = h := by
  constructor
  · constructor
    · intro hyp
      obtain ⟨hexpr, hvalues⟩ := hyp
      exact eq_of_expression?_eq hg hh g.holds_ownBindings (hvalues ▸ h.holds_ownBindings) hexpr
    · intro heq
      rw [heq]
      exact ⟨rfl, rfl⟩
  · intro u v hu hv hcondition hvalues
    subst hu hv
    have hb : u.bindings.values = v.bindings.values := Bindings.values_eq_of_values?_eq hvalues
    exact eq_of_expression?_eq hg hh u.holds_bindings (hb ▸ v.holds_bindings) hcondition

/-- A group and a test with one placeholder for one value: their values are the same, so their
expressions are not. -/
theorem Guard.group_expression?_ne :
    let test (attr : String) := Condition.test attr false (.compare .equal (.bool true))
    let grouped : Guard := .ofList [(.and, .group (.ofList [(.and, test "x")]))]
    let plain : Guard := .ofList [(.and, test "1_x")]
    (∀ a ∈ grouped.attributes, IsName a) ∧ (∀ a ∈ plain.attributes, IsName a) ∧
      grouped.ownBindings.values = plain.ownBindings.values ∧
      grouped.expression? ≠ plain.expression? := by
  intro test grouped plain
  have hgrouped : ∀ a ∈ grouped.attributes, IsName a := by decide
  have hplain : ∀ a ∈ plain.attributes, IsName a := by decide
  have hvalues : grouped.ownBindings.values = plain.ownBindings.values := by
    apply KeyMap.ext
    intro k
    rfl
  refine ⟨hgrouped, hplain, hvalues, ?_⟩
  intro hexpr
  have heq : grouped = plain :=
    (Guard.eq_of_expression_of_values grouped plain hgrouped hplain).1.1 ⟨hexpr, hvalues⟩
  have hattributes : grouped.attributes = plain.attributes := congrArg Guard.attributes heq
  exact absurd hattributes (by decide)

end GuardedUpdate
