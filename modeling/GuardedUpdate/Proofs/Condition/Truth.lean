import GuardedUpdate.Condition.Basic

/-!
# When a guard holds

What a guard says, given which tests hold: `NOT` turns its own test around, a group holds when its
guard does, and `AND` binds tighter than `OR`. So a guard is a choice between its alternatives, the
runs of conditions between two `OR`s (`Guard.holds_iff`). Where every joiner is `AND` there is one
alternative, and each condition is binding (`Guard.holds_ofList_of_and`).
-/

namespace GuardedUpdate

/-- Which predicates hold of which attributes. -/
abbrev Truth := String → Predicate → Bool

mutual

/-- Whether a condition holds. -/
def Condition.holds (truth : Truth) : Condition → Bool
  | .test attr negated p => truth attr p != negated
  | .group inner => Guard.holds truth inner

/-- Whether a guard holds; without conditions it does. -/
def Guard.holds (truth : Truth) : Guard → Bool
  | .empty => true
  | .joined first more => Guard.holdsFrom truth (Condition.holds truth first) more

/-- Whether the rest of a guard holds, or the run of conditions before it that ended here. -/
def Guard.holdsFrom (truth : Truth) (run : Bool) : List (Joiner × Condition) → Bool
  | [] => run
  | (.and, c) :: more => Guard.holdsFrom truth (run && Condition.holds truth c) more
  | (.or, c) :: more => run || Guard.holdsFrom truth (Condition.holds truth c) more

end

/-- Conditions that can hold together: none is the negation of another one. -/
def Consistent (l : List Condition) : Prop :=
  ∀ attr p, .test attr false p ∈ l → .test attr true p ∉ l

/-- Conditions that hold together can do so. -/
theorem consistent_of_holds {truth : Truth} {l : List Condition}
    (h : ∀ c ∈ l, c.holds truth = true) : Consistent l := by
  intro attr p hp hn
  have hplain := h _ hp
  have hnegated := h _ hn
  rw [Condition.holds] at hplain hnegated
  cases hb : truth attr p with
  | true => simp [hb] at hnegated
  | false => simp [hb] at hplain

namespace Guard

/-! ## Alternatives -/

/-- The alternatives of the rest of a guard, the first of which begins with a run. -/
def alternativesFrom (run : List Condition) : List (Joiner × Condition) → List (List Condition)
  | [] => [run]
  | (.and, c) :: more => alternativesFrom (run ++ [c]) more
  | (.or, c) :: more => run :: alternativesFrom [c] more

/-- The runs of conditions between the `OR`s of a guard. -/
def alternatives : Guard → List (List Condition)
  | empty => [[]]
  | joined first more => alternativesFrom [first] more

theorem holdsFrom_iff {truth : Truth} {b : Bool} {run : List Condition}
    {more : List (Joiner × Condition)} (hrun : b = true ↔ ∀ c ∈ run, c.holds truth = true) :
    holdsFrom truth b more = true ↔
      ∃ l ∈ alternativesFrom run more, ∀ c ∈ l, c.holds truth = true := by
  -- The truth value stands for the run that has been read so far.
  induction more generalizing b run with
  | nil => simp [holdsFrom, alternativesFrom, hrun]
  | cons m more ih =>
    obtain ⟨j, c⟩ := m
    cases j with
    | and =>
      apply ih
      rw [Bool.and_eq_true, hrun, List.forall_mem_append, List.forall_mem_singleton]
    | or =>
      have hc : c.holds truth = true ↔ ∀ d ∈ [c], d.holds truth = true := by simp
      rw [holdsFrom, Bool.or_eq_true, hrun, ih hc, alternativesFrom]
      simp only [List.mem_cons, exists_eq_or_imp]

/-- A guard holds when all conditions of one of its alternatives do. -/
theorem holds_iff {truth : Truth} {g : Guard} :
    g.holds truth = true ↔ ∃ l ∈ g.alternatives, ∀ c ∈ l, c.holds truth = true := by
  cases g with
  | empty => simp [holds, alternatives]
  | joined first more =>
    rw [holds, alternatives]
    apply holdsFrom_iff
    rw [List.forall_mem_singleton]

/-- A guard implies some other guards, whichever tests hold. -/
def Binds (g : Guard) (preconditions : List Guard) : Prop :=
  ∀ truth, g.holds truth = true → ∀ h ∈ preconditions, h.holds truth = true

/-- Each of some alternatives that can hold has, for each of some guards, an alternative of this
guard in it. -/
def Covers (alternatives : List (List Condition)) (preconditions : List Guard) : Prop :=
  ∀ l ∈ alternatives, Consistent l →
    ∀ h ∈ preconditions, ∃ l' ∈ h.alternatives, ∀ c ∈ l', c ∈ l

/-- A guard implies what its alternatives cover. -/
theorem binds_of_covers {g : Guard} {preconditions : List Guard}
    (h : Covers g.alternatives preconditions) : g.Binds preconditions := by
  intro truth hg p hp
  obtain ⟨l, hl, hall⟩ := holds_iff.1 hg
  obtain ⟨l', hl', hsub⟩ := h l hl (consistent_of_holds hall) p hp
  exact holds_iff.2 ⟨l', hl', fun c hc => hall c (hsub c hc)⟩

/-! ## Guards of lists -/

theorem pushAll_joined (first : Condition) (more l : List (Joiner × Condition)) :
    (joined first more).pushAll l = joined first (more ++ l) := by
  unfold pushAll
  induction l generalizing more with
  | nil => rw [List.append_nil, List.foldl_nil]
  | cons m l ih =>
    rw [List.foldl_cons, push, ih, List.append_assoc]
    rfl

theorem ofList_cons (m : Joiner × Condition) (l : List (Joiner × Condition)) :
    ofList (m :: l) = joined m.2 l := pushAll_joined m.2 [] l

theorem mem_of_mem_alternativesFrom {run : List Condition} {more : List (Joiner × Condition)}
    {l : List Condition} {c : Condition} (hl : l ∈ alternativesFrom run more) (hc : c ∈ l) :
    c ∈ run ∨ c ∈ more.map Prod.snd := by
  induction more generalizing run with
  | nil =>
    rw [alternativesFrom, List.mem_singleton] at hl
    exact Or.inl (hl ▸ hc)
  | cons m more ih =>
    obtain ⟨j, d⟩ := m
    rw [List.map_cons, List.mem_cons]
    cases j with
    | and =>
      rcases ih hl with hrun | hmore
      · rcases List.mem_append.1 hrun with hrun | hd
        · exact Or.inl hrun
        · exact Or.inr (Or.inl (List.mem_singleton.1 hd))
      · exact Or.inr (Or.inr hmore)
    | or =>
      rw [alternativesFrom, List.mem_cons] at hl
      rcases hl with hrun | hl
      · exact Or.inl (hrun ▸ hc)
      · rcases ih hl with hd | hmore
        · exact Or.inr (Or.inl (List.mem_singleton.1 hd))
        · exact Or.inr (Or.inr hmore)

/-- The alternatives of the guard of a list have its conditions in them. -/
theorem mem_of_mem_alternatives {m : List (Joiner × Condition)} {l : List Condition}
    {c : Condition} (hl : l ∈ (ofList m).alternatives) (hc : c ∈ l) : c ∈ m.map Prod.snd := by
  cases m with
  | nil =>
    obtain rfl : l = [] := List.mem_singleton.1 hl
    exact hc
  | cons n m =>
    rw [ofList_cons] at hl
    rcases mem_of_mem_alternativesFrom hl hc with hn | hm
    · exact List.mem_cons.2 (Or.inl (List.mem_singleton.1 hn))
    · exact List.mem_cons.2 (Or.inr hm)

/-- Conditions that are joined by `AND` go on with a run. -/
theorem alternativesFrom_append_of_and {run : List Condition} {more : List (Joiner × Condition)}
    (h : ∀ m ∈ more, m.1 = .and) (rest : List (Joiner × Condition)) :
    alternativesFrom run (more ++ rest) = alternativesFrom (run ++ more.map Prod.snd) rest := by
  induction more generalizing run with
  | nil => rw [List.map_nil, List.append_nil, List.nil_append]
  | cons m more ih =>
    obtain ⟨j, c⟩ := m
    obtain rfl : j = .and := h _ List.mem_cons_self
    rw [List.cons_append, alternativesFrom, ih fun n hn => h n (List.mem_cons_of_mem _ hn),
      List.map_cons, List.append_assoc, List.singleton_append]

/-- The guard of a list that begins with an `AND` has the alternatives of the list. -/
theorem alternatives_ofList {m : List (Joiner × Condition)} (h : ∀ n ∈ m.head?, n.1 = .and) :
    (ofList m).alternatives = alternativesFrom [] m := by
  cases m with
  | nil => rfl
  | cons n m =>
    obtain ⟨j, c⟩ := n
    obtain rfl : j = .and := h _ rfl
    rw [ofList_cons]
    rfl

/-- Without an `OR` all conditions are one alternative. -/
theorem alternatives_ofList_of_and {m : List (Joiner × Condition)} (h : ∀ n ∈ m, n.1 = .and) :
    (ofList m).alternatives = [m.map Prod.snd] := by
  rw [alternatives_ofList fun n hn => h n (List.mem_of_mem_head? hn)]
  have hall : alternativesFrom [] (m ++ []) = alternativesFrom ([] ++ m.map Prod.snd) [] :=
    alternativesFrom_append_of_and h []
  rwa [List.append_nil, List.nil_append] at hall

/-- Without an `OR` a guard implies the guard of any of its conditions. -/
theorem holds_ofList_of_and {truth : Truth} {m n : List (Joiner × Condition)}
    (hm : ∀ e ∈ m, e.1 = .and) (hn : ∀ e ∈ n, e ∈ m) (h : (ofList m).holds truth = true) :
    (ofList n).holds truth = true := by
  rw [holds_iff, alternatives_ofList_of_and hm] at h
  rw [holds_iff, alternatives_ofList_of_and fun e he => hm e (hn e he)]
  obtain ⟨l, hl, hall⟩ := h
  refine ⟨n.map Prod.snd, List.mem_singleton_self _, ?_⟩
  intro c hc
  obtain ⟨e, he, rfl⟩ := List.mem_map.1 hc
  apply hall
  rw [List.mem_singleton.1 hl]
  exact List.mem_map.2 ⟨e, hn e he, rfl⟩

end Guard
end GuardedUpdate
