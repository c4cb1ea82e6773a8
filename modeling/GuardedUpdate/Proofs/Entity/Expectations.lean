import GuardedUpdate.Entity.RoutingConfig
import GuardedUpdate.Entity.Template
import GuardedUpdate.Proofs.Condition.Truth

/-!
# Whether expectations are binding

Each edit of an entity may require something of the stored item, its precondition. An update is
written under one guard for all its edits, and it should only be written if the precondition of each
holds. For routing configurations this is so (`RoutingConfig.binds`). For templates it is so as long
as no lock is taken with an expiry (`Template.binds_of_untimed`): the second part of that
precondition is joined by an `OR` to the conditions of all edits before it, so what these expect is
not asked of a lock that is later than the expiry. `Template.binds_iff_covers` tells exactly which
updates are safe; one of them is an update that takes such a lock and requires nothing else
(`Template.covers_of_only_lock`).
-/

namespace GuardedUpdate

/-- The guard of an update that begins without one holds the conditions of its steps. -/
theorem Update.guard_run {u : Update} (h : u.guard = ∅) (steps : List Step) :
    (u.run steps).guard = .ofList (conditionsOf steps) := by
  rw [run_eq]
  show u.guard.pushAll _ = _
  rw [h]
  rfl

theorem Update.conditionsOf_flatMap {α : Type} (f : α → List Step) (l : List α) :
    conditionsOf (l.flatMap f) = l.flatMap fun a => conditionsOf (f a) := by
  unfold conditionsOf
  rw [List.filterMap_flatMap]

/-- Where the steps of edits only join by `AND`, all that they require is implied. -/
theorem Update.binds_run_of_and {α : Type} {f : α → List Step} {precondition : α → Guard}
    (hpre : ∀ e, precondition e = .ofList (conditionsOf (f e))) {edits : List α}
    (h : ∀ e ∈ edits, ∀ m ∈ conditionsOf (f e), m.1 = .and) {u : Update} (hu : u.guard = ∅) :
    (u.run (edits.flatMap f)).guard.Binds (edits.map precondition) := by
  intro truth hg p hp
  obtain ⟨e, he, rfl⟩ := List.mem_map.1 hp
  rw [guard_run hu, conditionsOf_flatMap] at hg
  rw [hpre]
  refine Guard.holds_ofList_of_and ?_ ?_ hg
  · intro m hm
    obtain ⟨d, hd, hmd⟩ := List.mem_flatMap.1 hm
    exact h d hd m hmd
  · intro m hm
    exact List.mem_flatMap.2 ⟨e, he, hm⟩

/-! ## Routing configurations -/

namespace RoutingConfig

/-- What an edit requires. -/
def Edit.precondition : Edit → Guard
  | .shared _ => ∅
  | .setStatus _ => ∅
  | .setCascade _ => ∅
  | .setCascadeGroupOverrides _ => ∅
  | .expectStatus status =>
    .ofList [(.and, .test statusAttr false (.compare .equal (.ofConstant status)))]
  | .expectExists => .ofList [(.and, .test Entity.idAttr false (.call .exists))]
  | .expectLockNumber number =>
    .ofList [(.and, .test Entity.lockNumberAttr false (.compare .equal (.ofInt number.toNat)))]

/-- An edit by itself requires its precondition. -/
theorem precondition_eq (e : Edit) :
    e.precondition = .ofList (Update.conditionsOf e.steps) := by
  cases e with
  | shared e => cases e <;> rfl
  | _ => rfl

theorem joiner_eq_and (e : Edit) : ∀ m ∈ Update.conditionsOf e.steps, m.1 = .and := by
  intro m hm
  cases e with
  | shared e => cases e <;> exact absurd hm List.not_mem_nil
  | setStatus | setCascade | setCascadeGroupOverrides => exact absurd hm List.not_mem_nil
  | expectStatus | expectExists | expectLockNumber => rw [List.mem_singleton.1 hm]

/-- An update of a routing configuration is written only if it is as all edits expect. -/
theorem binds (table client id : String) (returns : ReturnOptions) (edits : List Edit) :
    (update table client id returns edits).guard.Binds (edits.map Edit.precondition) :=
  Update.binds_run_of_and precondition_eq (fun e _ => joiner_eq_and e) rfl

end RoutingConfig

/-! ## Templates -/

namespace Template

/-- What an edit requires. -/
def Edit.precondition : Edit → Guard
  | .shared _ => ∅
  | .setSubject _ => ∅
  | .setMessage _ => ∅
  | .setStatus _ => ∅
  | .setPersonalisation _ _ => ∅
  | .setLetterVariantId _ => ∅
  | .removeLetterVariantId => ∅
  | .setRender _ _ => ∅
  | .appendValidationErrors _ => ∅
  | .setLockTime _ none => .ofList [(.and, .test lockTimeAttr false (.call .notExists))]
  | .setLockTime _ (some expiry) =>
    .ofList
      [(.and, .test lockTimeAttr false (.call .notExists)),
        (.or, .test lockTimeAttr false (.compare .greater (.ofInt expiry.toInt)))]
  | .setLockTimeUnconditional _ => ∅
  | .initialiseSupplierReferences => ∅
  | .setSupplierReference _ _ => ∅
  | .expectStatus status =>
    .ofList [(.and, .test statusAttr false (.compare .equal (.ofConstant status)))]
  | .expectStatusIn [] => ∅
  | .expectStatusIn statuses =>
    .ofList [(.and, .test statusAttr false (.oneOf (statuses.map Value.ofConstant)))]
  | .expectNotStatus status =>
    .ofList [(.and, .test statusAttr true (.compare .equal (.ofConstant status)))]
  | .expectNotStatusIn [] => ∅
  | .expectNotStatusIn statuses =>
    .ofList [(.and, .test statusAttr true (.oneOf (statuses.map Value.ofConstant)))]
  | .expectNotFinalStatus =>
    .ofList [(.and, .test statusAttr true (.oneOf (TemplateStatus.final.map Value.ofConstant)))]
  | .expectTemplateType type =>
    .ofList [(.and, .test Entity.templateTypeAttr false (.compare .equal (.ofConstant type)))]
  | .expectLetterVersion version =>
    .ofList [(.and, .test "letterVersion" false (.compare .equal (.ofConstant version)))]
  | .expectClientId id =>
    .ofList [(.and, .test "clientId" false (.compare .equal (.string id)))]
  | .expectExists => .ofList [(.and, .test Entity.idAttr false (.call .exists))]
  | .expectProofingEnabled =>
    .ofList [(.and, .test "proofingEnabled" false (.compare .equal (.bool true)))]
  | .expectLockNumber number => .ofList [(.and, .group (lockNumberGuard number))]

/-- An edit by itself requires its precondition. -/
theorem precondition_eq (e : Edit) :
    e.precondition = .ofList (Update.conditionsOf e.steps) := by
  cases e with
  | shared e => cases e <;> rfl
  | setLockTime time expiry => cases expiry <;> rfl
  | expectStatusIn statuses => cases statuses <;> rfl
  | expectNotStatusIn statuses => cases statuses <;> rfl
  | _ => rfl

/-- What an edit of a template requires is a test of another attribute than the lock number, or the
group for that. -/
inductive IsExpectation : Condition → Prop where
  /-- A test of another attribute. -/
  | test {attr : String} {negated : Bool} {p : Predicate} (other : attr ≠ Entity.lockNumberAttr) :
      IsExpectation (.test attr negated p)
  /-- The group for the lock number. -/
  | lockNumber (number : UInt64) : IsExpectation (.group (lockNumberGuard number))

/-- The test that there is no lock. -/
def lockFree : Condition := .test lockTimeAttr false (.call .notExists)

/-- The test that the lock has a time after `expiry`. -/
def lockAfter (expiry : Int64) : Condition :=
  .test lockTimeAttr false (.compare .greater (.ofInt expiry.toInt))

/-- Whether an edit takes the lock with an expiry. -/
def Edit.IsTimedLock (e : Edit) : Prop := ∃ time expiry, e = .setLockTime time (some expiry)

/-- What an edit requires: nothing, or one thing joined by `AND`, or that there is no lock or one
after an expiry, the latter joined by `OR`. -/
theorem conditionsOf_steps_cases (e : Edit) :
    Update.conditionsOf e.steps = [] ∨
      (∃ c, Update.conditionsOf e.steps = [(.and, c)] ∧ IsExpectation c) ∨
      ∃ expiry, e.IsTimedLock ∧
        Update.conditionsOf e.steps = [(.and, lockFree), (.or, lockAfter expiry)] := by
  have hstatus : ∀ negated statuses, Update.conditionsOf (statusIn negated statuses) = [] ∨
      ∃ c, Update.conditionsOf (statusIn negated statuses) = [(.and, c)] ∧ IsExpectation c := by
    intro negated statuses
    cases statuses with
    | nil => exact Or.inl rfl
    | cons s statuses => exact Or.inr ⟨_, rfl, .test (by decide)⟩
  cases e with
  | shared e => cases e <;> exact Or.inl rfl
  | setSubject | setMessage | setStatus | setPersonalisation | setLetterVariantId
  | removeLetterVariantId | setRender | appendValidationErrors | setLockTimeUnconditional
  | initialiseSupplierReferences | setSupplierReference => exact Or.inl rfl
  | setLockTime time expiry =>
    cases expiry with
    | none => exact Or.inr (Or.inl ⟨_, rfl, .test (by decide)⟩)
    | some expiry => exact Or.inr (Or.inr ⟨expiry, ⟨time, expiry, rfl⟩, rfl⟩)
  | expectStatusIn statuses => exact (hstatus false statuses).imp_right Or.inl
  | expectNotStatusIn statuses => exact (hstatus true statuses).imp_right Or.inl
  | expectNotFinalStatus => exact (hstatus true TemplateStatus.final).imp_right Or.inl
  | expectLockNumber number => exact Or.inr (Or.inl ⟨_, rfl, .lockNumber number⟩)
  | expectStatus | expectNotStatus | expectTemplateType | expectLetterVersion | expectClientId
  | expectExists | expectProofingEnabled => exact Or.inr (Or.inl ⟨_, rfl, .test (by decide)⟩)

/-- The conditions of an edit. -/
def Edit.conditions (e : Edit) : List Condition := (Update.conditionsOf e.steps).map Prod.snd

theorem isExpectation_of_mem_conditions {e : Edit} {c : Condition} (h : c ∈ e.conditions) :
    IsExpectation c := by
  unfold Edit.conditions at h
  rcases conditionsOf_steps_cases e with heq | ⟨d, heq, hd⟩ | ⟨expiry, -, heq⟩
  · rw [heq] at h
    exact absurd h List.not_mem_nil
  · rw [heq] at h
    rwa [List.mem_singleton.1 h]
  · rw [heq] at h
    rcases List.mem_cons.1 h with hc | h
    · rw [hc]
      exact .test (by decide)
    · rw [List.mem_singleton.1 h]
      exact .test (by decide)

/-- The conditions of one edit do not contradict each other. -/
theorem consistent_conditions (e : Edit) : Consistent e.conditions := by
  unfold Edit.conditions
  rcases conditionsOf_steps_cases e with heq | ⟨d, heq, -⟩ | ⟨expiry, -, heq⟩
  · rw [heq]
    intro attr p hp
    exact absurd hp List.not_mem_nil
  · rw [heq]
    intro attr p hp hn
    cases (List.mem_singleton.1 hp).trans (List.mem_singleton.1 hn).symm
  · -- Neither of the two tests of the lock is negated.
    rw [heq]
    intro attr p _ hn
    rcases List.mem_cons.1 hn with hc | hn
    · cases hc
    · cases List.mem_singleton.1 hn

/-- Only a lock with an expiry is joined by `OR`. -/
theorem joiner_eq_and {e : Edit} (h : ¬e.IsTimedLock) :
    ∀ m ∈ Update.conditionsOf e.steps, m.1 = .and := by
  intro m hm
  rcases conditionsOf_steps_cases e with heq | ⟨d, heq, -⟩ | ⟨expiry, htimed, -⟩
  · rw [heq] at hm
    exact absurd hm List.not_mem_nil
  · rw [heq] at hm
    rw [List.mem_singleton.1 hm]
  · exact absurd htimed h

/-! ## Making expectations hold -/

/-- The group for the lock number holds where the number is this one or there is none. -/
theorem holds_lockNumber (truth : Truth) (n : UInt64) :
    (Condition.group (lockNumberGuard n)).holds truth =
      (truth Entity.lockNumberAttr (.compare .equal (.ofInt n.toNat)) ||
        truth Entity.lockNumberAttr (.call .notExists)) := by
  simp [lockNumberGuard, Guard.ofList_cons, Condition.holds, Guard.holds, Guard.holdsFrom]

/-- The lock number is one that a group of a list asks for. -/
def AsksForNumber (l : List Condition) (attr : String) (p : Predicate) : Prop :=
  attr = Entity.lockNumberAttr ∧
    ∃ n : UInt64, .group (lockNumberGuard n) ∈ l ∧ p = .compare .equal (.ofInt n.toNat)

open Classical in
/-- The truth in which the conditions of one list hold and no others of another list: what the first
asks for is true, and so is what the second rules out. -/
noncomputable def truthOf (l m : List Condition) : Truth := fun attr p => decide
  (.test attr false p ∈ l ∨ AsksForNumber l attr p ∨
    (.test attr true p ∈ m ∧ .test attr true p ∉ l))

section

variable {l m : List Condition}

open Classical in
theorem truthOf_eq_true_iff {attr : String} {p : Predicate} :
    truthOf l m attr p = true ↔ .test attr false p ∈ l ∨ AsksForNumber l attr p ∨
      (.test attr true p ∈ m ∧ .test attr true p ∉ l) := decide_eq_true_iff

theorem truthOf_eq_false_iff {attr : String} {p : Predicate} :
    truthOf l m attr p = false ↔ ¬(.test attr false p ∈ l ∨ AsksForNumber l attr p ∨
      (.test attr true p ∈ m ∧ .test attr true p ∉ l)) := by
  rw [← truthOf_eq_true_iff, Bool.not_eq_true]

/-- Expectations that can hold together do. -/
theorem holds_truthOf_of_mem (hl : ∀ c ∈ l, IsExpectation c) (hconsistent : Consistent l)
    {c : Condition} (hc : c ∈ l) : c.holds (truthOf l m) = true := by
  cases hl c hc with
  | @test attr negated p hother =>
    cases negated with
    | false =>
      have htrue : truthOf l m attr p = true := truthOf_eq_true_iff.2 (Or.inl hc)
      rw [Condition.holds, htrue]
      rfl
    | true =>
      have hfalse : truthOf l m attr p = false := by
        rw [truthOf_eq_false_iff]
        intro h
        rcases h with hplain | hnumber | hruled
        · exact hconsistent attr p hplain hc
        · exact hother hnumber.1
        · exact hruled.2 hc
      rw [Condition.holds, hfalse]
      rfl
  | lockNumber n =>
    have hnumber : truthOf l m Entity.lockNumberAttr (.compare .equal (.ofInt n.toNat)) = true :=
      truthOf_eq_true_iff.2 (Or.inr (Or.inl ⟨rfl, n, hc, rfl⟩))
    rw [holds_lockNumber, hnumber, Bool.true_or]

/-- No expectation tests the lock number outside of its group. -/
theorem test_lockNumber_not_mem (hl : ∀ c ∈ l, IsExpectation c) (negated : Bool) (p : Predicate) :
    .test Entity.lockNumberAttr negated p ∉ l := by
  intro h
  cases hl _ h with
  | test hother => exact hother rfl

/-- Of the lock number nothing is true that no group asks for. -/
theorem truthOf_lockNumber (hl : ∀ c ∈ l, IsExpectation c) (hm : ∀ c ∈ m, IsExpectation c)
    {p : Predicate} (h : ¬AsksForNumber l Entity.lockNumberAttr p) :
    truthOf l m Entity.lockNumberAttr p = false := by
  rw [truthOf_eq_false_iff]
  intro htrue
  rcases htrue with hplain | hnumber | hruled
  · exact test_lockNumber_not_mem hl false p hplain
  · exact h hnumber
  · exact test_lockNumber_not_mem hm true p hruled.1

/-- Other expectations do not hold. -/
theorem holds_truthOf_of_not_mem (hl : ∀ c ∈ l, IsExpectation c) (hm : ∀ c ∈ m, IsExpectation c)
    (hconsistent : Consistent m) {c : Condition} (hc : c ∈ m) (hnot : c ∉ l) :
    c.holds (truthOf l m) = false := by
  cases hm c hc with
  | @test attr negated p hother =>
    cases negated with
    | false =>
      have hfalse : truthOf l m attr p = false := by
        rw [truthOf_eq_false_iff]
        intro h
        rcases h with hplain | hnumber | hruled
        · exact hnot hplain
        · exact hother hnumber.1
        · exact hconsistent attr p hc hruled.1
      rw [Condition.holds, hfalse]
      rfl
    | true =>
      have htrue : truthOf l m attr p = true := truthOf_eq_true_iff.2 (Or.inr (Or.inr ⟨hc, hnot⟩))
      rw [Condition.holds, htrue]
      rfl
  | lockNumber n =>
    have hnumber : ¬AsksForNumber l Entity.lockNumberAttr (.compare .equal (.ofInt n.toNat)) := by
      intro h
      obtain ⟨-, k, hk, heq⟩ := h
      -- Two groups that ask for one number are one group.
      have hgroup : lockNumberGuard n = lockNumberGuard k := by
        rw [lockNumberGuard, lockNumberGuard, heq]
      exact hnot (hgroup ▸ hk)
    have hnone : ¬AsksForNumber l Entity.lockNumberAttr (.call .notExists) := by
      intro h
      obtain ⟨-, k, -, heq⟩ := h
      cases heq
    rw [holds_lockNumber, truthOf_lockNumber hl hm hnumber, truthOf_lockNumber hl hm hnone,
      Bool.or_false]

end

/-! ## Updates of templates -/

/-- The runs of conditions that the edits require together, the first of which begins with some: a
lock with an expiry ends a run, and the next one begins with the expiry. -/
def runs (run : List Condition) : List Edit → List (List Condition)
  | [] => [run]
  | .setLockTime _ (some expiry) :: edits => (run ++ [lockFree]) :: runs [lockAfter expiry] edits
  | e :: edits => runs (run ++ e.conditions) edits

theorem runs_cons_of_untimed {e : Edit} (h : ¬e.IsTimedLock) (run : List Condition)
    (edits : List Edit) : runs run (e :: edits) = runs (run ++ e.conditions) edits := by
  rw [runs]
  intro time expiry heq
  exact h ⟨time, expiry, heq⟩

/-- Edits that require nothing leave the runs as they are. -/
theorem runs_append_of_no_conditions {l : List Edit} (h : ∀ e ∈ l, e.conditions = [])
    (run : List Condition) (edits : List Edit) : runs run (l ++ edits) = runs run edits := by
  induction l with
  | nil => rfl
  | cons e l ih =>
    have hnone := h e List.mem_cons_self
    have huntimed : ¬e.IsTimedLock := by
      intro htimed
      obtain ⟨time, expiry, rfl⟩ := htimed
      cases hnone
    rw [List.cons_append, runs_cons_of_untimed huntimed, hnone, List.append_nil]
    exact ih fun d hd => h d (List.mem_cons_of_mem _ hd)

theorem alternativesFrom_conditions (run : List Condition) (edits : List Edit) :
    Guard.alternativesFrom run (edits.flatMap fun e => Update.conditionsOf e.steps) =
      runs run edits := by
  induction edits generalizing run with
  | nil => rfl
  | cons e edits ih =>
    rw [List.flatMap_cons]
    by_cases htimed : e.IsTimedLock
    · obtain ⟨time, expiry, rfl⟩ := htimed
      rw [runs, ← ih]
      rfl
    · rw [runs_cons_of_untimed htimed, Guard.alternativesFrom_append_of_and (joiner_eq_and htimed),
        ih]
      rfl

/-- The first condition of some edits is joined by `AND`. -/
theorem head?_joiner_eq_and (edits : List Edit) :
    ∀ m ∈ (edits.flatMap fun e => Update.conditionsOf e.steps).head?, m.1 = .and := by
  induction edits with
  | nil =>
    intro m hm
    cases hm
  | cons e edits ih =>
    intro m hm
    rw [List.flatMap_cons] at hm
    rcases conditionsOf_steps_cases e with heq | ⟨d, heq, -⟩ | ⟨expiry, -, heq⟩
    · rw [heq, List.nil_append] at hm
      exact ih m hm
    · rw [heq] at hm
      cases hm
      rfl
    · rw [heq] at hm
      cases hm
      rfl

section

variable (table client id : String) (returns : ReturnOptions) (edits : List Edit)

theorem guard_update :
    (update table client id returns edits).guard =
      .ofList (edits.flatMap fun e => Update.conditionsOf e.steps) := by
  rw [← Update.conditionsOf_flatMap]
  exact Update.guard_run rfl _

/-- The alternatives of the guard of an update are the runs of its edits. -/
theorem alternatives_update :
    (update table client id returns edits).guard.alternatives = runs [] edits := by
  rw [guard_update, Guard.alternatives_ofList (head?_joiner_eq_and edits),
    alternativesFrom_conditions]

/-- The conditions in an alternative come from the edits. -/
theorem isExpectation_of_mem_alternatives {l : List Condition}
    (hl : l ∈ (update table client id returns edits).guard.alternatives) :
    ∀ c ∈ l, IsExpectation c := by
  intro c hc
  rw [guard_update] at hl
  obtain ⟨m, hm, rfl⟩ := List.mem_map.1 (Guard.mem_of_mem_alternatives hl hc)
  obtain ⟨e, -, he⟩ := List.mem_flatMap.1 hm
  exact isExpectation_of_mem_conditions (e := e) (List.mem_map.2 ⟨m, he, rfl⟩)

/-- An update of a template implies what its edits require exactly if all its runs cover it. -/
theorem binds_iff_covers :
    (update table client id returns edits).guard.Binds (edits.map Edit.precondition) ↔
      Guard.Covers (runs [] edits) (edits.map Edit.precondition) := by
  rw [← alternatives_update table client id returns edits]
  refine ⟨?_, Guard.binds_of_covers⟩
  intro hbinds l hl hconsistent h hh
  obtain ⟨e, -, rfl⟩ := List.mem_map.1 hh
  have hl' := isExpectation_of_mem_alternatives table client id returns edits hl
  have hedit : ∀ c ∈ e.conditions, IsExpectation c := fun c => isExpectation_of_mem_conditions
  -- Let just this alternative hold, and of the other conditions of the edit none.
  have hguard := Guard.holds_iff.2 ⟨l, hl, fun c => holds_truthOf_of_mem (m := e.conditions) hl'
    hconsistent⟩
  obtain ⟨k, hk, hall⟩ := Guard.holds_iff.1 (hbinds _ hguard _ hh)
  refine ⟨k, hk, ?_⟩
  intro c hc
  rw [precondition_eq] at hk
  have hmem : c ∈ e.conditions := Guard.mem_of_mem_alternatives hk hc
  by_cases hcl : c ∈ l
  · exact hcl
  · have hfalse := holds_truthOf_of_not_mem hl' hedit (consistent_conditions e) hmem hcl
    rw [hall c hc] at hfalse
    cases hfalse

/-- Without a lock with an expiry all that the edits require is implied. -/
theorem binds_of_untimed (h : ∀ e ∈ edits, ¬e.IsTimedLock) :
    (update table client id returns edits).guard.Binds (edits.map Edit.precondition) :=
  Update.binds_run_of_and precondition_eq (fun e he => joiner_eq_and (h e he)) rfl

end

/-- A lock with an expiry is covered where it is the only edit that requires something. -/
theorem covers_of_only_lock {before after : List Edit} (hbefore : ∀ e ∈ before, e.conditions = [])
    (hafter : ∀ e ∈ after, e.conditions = []) (time expiry : Int64) :
    Guard.Covers (runs [] (before ++ .setLockTime time (some expiry) :: after))
      ((before ++ .setLockTime time (some expiry) :: after).map Edit.precondition) := by
  have hruns : runs [] (before ++ .setLockTime time (some expiry) :: after) =
      [[lockFree], [lockAfter expiry]] := by
    rw [runs_append_of_no_conditions hbefore, runs, ← List.append_nil after,
      runs_append_of_no_conditions hafter]
    rfl
  rw [hruns]
  intro l hl _ p hp
  obtain ⟨e, he, rfl⟩ := List.mem_map.1 hp
  by_cases hnone : e.conditions = []
  · -- The edit requires nothing.
    refine ⟨[], ?_, fun c hc => absurd hc List.not_mem_nil⟩
    rw [precondition_eq, List.map_eq_nil_iff.1 hnone]
    exact List.mem_singleton_self _
  · -- The edit is the lock, and the runs are its own alternatives.
    have heq : e = .setLockTime time (some expiry) := by
      rcases List.mem_append.1 he with he | he
      · exact absurd (hbefore e he) hnone
      · rcases List.mem_cons.1 he with heq | he
        · exact heq
        · exact absurd (hafter e he) hnone
    rw [heq]
    exact ⟨l, hl, fun c hc => hc⟩

/-- A lock with an expiry lets an update pass that expects another state: a lock after the expiry is
enough for the whole guard. -/
theorem lockTime_bypasses_status :
    ¬∀ (table client id : String) (returns : ReturnOptions) (edits : List Edit),
      (update table client id returns edits).guard.Binds (edits.map Edit.precondition) := by
  intro h
  let edits : List Edit := [.expectStatus .notYetSubmitted, .setLockTime 500 (some 0)]
  -- No test holds but that the lock is later than the expiry.
  let truth : Truth := fun attr p =>
    attr = lockTimeAttr && match p with
      | .compare .greater _ => true
      | _ => false
  have hguard : (update "templates" "client" "id" {} edits).guard.holds truth = true := by decide
  have hstatus : (Edit.expectStatus .notYetSubmitted).precondition.holds truth = false := by decide
  have hbinds := h "templates" "client" "id" {} edits truth hguard _ List.mem_cons_self
  rw [hstatus] at hbinds
  cases hbinds

end Template

/-- What edits expect of a routing configuration is always binding. What they expect of a template
is binding exactly if every alternative of the guard that can hold covers it, so in any case if no
lock is taken with an expiry. -/
theorem expectations_binding (table client id : String) (returns : ReturnOptions) :
    (∀ edits : List RoutingConfig.Edit,
      (RoutingConfig.update table client id returns edits).guard.Binds
        (edits.map RoutingConfig.Edit.precondition)) ∧
    (∀ edits : List Template.Edit,
      (Template.update table client id returns edits).guard.Binds
          (edits.map Template.Edit.precondition) ↔
        Guard.Covers (Template.runs [] edits) (edits.map Template.Edit.precondition)) ∧
    ∀ edits : List Template.Edit, (∀ e ∈ edits, ¬e.IsTimedLock) →
      (Template.update table client id returns edits).guard.Binds
        (edits.map Template.Edit.precondition) :=
  ⟨RoutingConfig.binds table client id returns, Template.binds_iff_covers table client id returns,
    Template.binds_of_untimed table client id returns⟩

/-- A lock with an expiry besides new values is covered, a lock without an expiry binds a state that
is expected with it, and so does a routing configuration. -/
theorem expectations_binding_of_locks :
    let timed : List Template.Edit :=
      [.setStatus .submitted, .setLockTime 500 (some 400), .shared .incrementLockNumber]
    let untimed : List Template.Edit := [.expectStatus .notYetSubmitted, .setLockTime 500 none]
    let routing : List RoutingConfig.Edit := [.expectExists, .expectLockNumber 3]
    (Guard.Covers (Template.runs [] timed) (timed.map Template.Edit.precondition) ∧
      (Template.update "templates" "client" "id" {} timed).guard.Binds
        (timed.map Template.Edit.precondition)) ∧
    (Template.update "templates" "client" "id" {} untimed).guard.Binds
      (untimed.map Template.Edit.precondition) ∧
    (RoutingConfig.update "templates" "client" "id" {} routing).guard.Binds
      (routing.map RoutingConfig.Edit.precondition) := by
  intro timed untimed routing
  obtain ⟨hrouting, hcovers, huntimed⟩ := expectations_binding "templates" "client" "id" {}
  have htimed : Guard.Covers (Template.runs [] timed) (timed.map Template.Edit.precondition) :=
    @Template.covers_of_only_lock [.setStatus .submitted] [.shared .incrementLockNumber]
      (fun e he => by rw [List.mem_singleton.1 he]; rfl)
      (fun e he => by rw [List.mem_singleton.1 he]; rfl) 500 400
  have hnot : ∀ e ∈ untimed, ¬e.IsTimedLock := by
    intro e he hlock
    obtain ⟨time, expiry, rfl⟩ := hlock
    simp [untimed] at he
  exact ⟨⟨htimed, (hcovers timed).2 htimed⟩, huntimed untimed hnot, hrouting routing⟩

end GuardedUpdate
