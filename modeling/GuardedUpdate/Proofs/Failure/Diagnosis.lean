import GuardedUpdate.Failure.Diagnosis
import GuardedUpdate.Proofs.Decimal.Natural

/-!
# Which diagnosis a failure gets

An item may show several causes at once: a deleted template with an old lock number also shows the
change of the lock. `Expectation.Shows` says for each cause alone when an item shows it and what it
means; the diagnosis is what the first one of them means, in the order `Cause.inOrder`
(`Expectation.diagnoseWith_eq_iff`).
-/

namespace GuardedUpdate

/-- The causes that an item can show. -/
inductive Cause where
  /-- The item has been deleted. -/
  | deleted
  /-- The item has a state in which it can not be changed. -/
  | submitted
  /-- The template has another type. -/
  | typeChanged
  /-- The item has been changed since it was read. -/
  | lockChanged
  /-- The caller has a reason of its own. -/
  | unsupported
deriving DecidableEq

/-- The order in which the causes count. -/
def Cause.inOrder : List Cause := [.deleted, .submitted, .typeChanged, .lockChanged, .unsupported]

/-- A number is read from the texts that denote it, if it has no more than 64 bits. -/
theorem Value.asUInt64?_number_eq_some_iff {text : String} {n : Nat} :
    (number text).asUInt64? = some n ↔ Decimal.Denotes text.toList n ∧ n < UInt64.size :=
  Decimal.unsignedBelow?_eq_some_iff

namespace Expectation

/-- An item shows a cause, which has a meaning; the other causes do not matter. -/
inductive Shows (x : Expectation) (check : Item → Option String) (item : Item) :
    Cause → Diagnosis → Prop
  /-- The state is `DELETED`. -/
  | deleted (hstatus : item.get? x.entity.statusAttr = some (.string "DELETED")) :
    Shows x check item .deleted (.notFound x.entity)
  /-- The state is the submitted one or one of the blocked ones. -/
  | submitted {status : String} (hstatus : item.get? x.entity.statusAttr = some (.string status))
    (hblocked : status = x.entity.submittedStatus ∨
      ∃ b ∈ x.blocked, status = Vocabulary.name b) :
    Shows x check item .submitted (.alreadySubmitted x.entity status)
  /-- A type is expected and the item has the text of another one. -/
  | typeChanged {type : TemplateType} {stored : String} (htype : x.templateType = some type)
    (hstored : item.get? Entity.templateTypeAttr = some (.string stored))
    (hne : stored ≠ Vocabulary.name type) :
    Shows x check item .typeChanged (.typeChanged stored (Vocabulary.name type))
  /-- A type is expected and the item has no text for one. -/
  | typeMissing {type : TemplateType} (htype : x.templateType = some type)
    (hstored : ∀ s, item.get? Entity.templateTypeAttr ≠ some (.string s)) :
    Shows x check item .typeChanged (.typeChanged "" (Vocabulary.name type))
  /-- There is no lock number, or it is not a number, or its text does not denote the expected
  one. -/
  | lockChanged (hlock : ∀ text, item.get? Entity.lockNumberAttr = some (.number text) →
      ¬Decimal.Denotes text.toList x.lockNumber.toNat) :
    Shows x check item .lockChanged (.conflict x.entity)
  /-- The caller's check gives a text. -/
  | unsupported {text : String} (htext : check item = some text) :
    Shows x check item .unsupported (.unsupported text)

/-- The diagnosis is what the first cause means that an item shows. -/
def FirstShown (x : Expectation) (check : Item → Option String) (item : Item) (d : Diagnosis) :
    Prop :=
  ∃ before cause after, Cause.inOrder = before ++ cause :: after ∧ x.Shows check item cause d ∧
    ∀ earlier ∈ before, ∀ d', ¬x.Shows check item earlier d'

/-- What a failure means. -/
inductive Means (x : Expectation) (f : StoreFailure) (check : Item → Option String) :
    Diagnosis → Prop
  /-- The store did not refuse the write for its condition. -/
  | refused (hcode : f.code ≠ .conditionFailed) : Means x f check (.store x.entity f)
  /-- The store did not send an item along. -/
  | gone (hcode : f.code = .conditionFailed) (hitem : f.item = none) :
    Means x f check (.notFound x.entity)
  /-- The item shows a cause. -/
  | shown {item : Item} {d : Diagnosis} (hcode : f.code = .conditionFailed)
    (hitem : f.item = some item) (hfirst : x.FirstShown check item d) : Means x f check d
  /-- The item shows no cause. -/
  | unexplained {item : Item} (hcode : f.code = .conditionFailed) (hitem : f.item = some item)
    (hnone : ∀ cause d, ¬x.Shows check item cause d) : Means x f check (.store x.entity f)

/-! ## The tests -/

section Tests

variable {x : Expectation} {check : Item → Option String} {item : Item} {d : Diagnosis}

theorem bind_asString?_eq_some_iff {o : Option Value} {s : String} :
    o.bind Value.asString? = some s ↔ o = some (.string s) := by
  rw [Option.bind_eq_some_iff]
  constructor
  · intro hyp
    obtain ⟨v, rfl, hv⟩ := hyp
    cases v <;> cases hv
    rfl
  · intro h
    exact ⟨_, h, rfl⟩

theorem deletion?_eq_some_iff : x.deletion? item = some d ↔ x.Shows check item .deleted d := by
  have hname : x.entity.deletedStatus = "DELETED" := by
    cases x.entity <;> rfl
  rw [deletion?, Option.ite_none_right_eq_some, statusOf, bind_asString?_eq_some_iff, hname]
  constructor
  · intro hyp
    obtain ⟨hstatus, heq⟩ := hyp
    cases heq
    exact .deleted hstatus
  · intro hyp
    cases hyp with
    | deleted hstatus => exact ⟨hstatus, rfl⟩

theorem blocks_iff {status : String} :
    x.blocks status = true ↔
      status = x.entity.submittedStatus ∨ ∃ b ∈ x.blocked, status = Vocabulary.name b := by
  simp only [blocks, Bool.or_eq_true, decide_eq_true_eq, List.mem_map]
  exact or_congr_right (exists_congr fun b => and_congr_right fun _ => eq_comm)

theorem submission?_eq_some_iff :
    x.submission? item = some d ↔ x.Shows check item .submitted d := by
  rw [submission?, Option.map_eq_some_iff]
  constructor
  · intro hyp
    obtain ⟨status, hfilter, rfl⟩ := hyp
    obtain ⟨hstatus, hblocks⟩ := Option.filter_eq_some_iff.1 hfilter
    exact .submitted (bind_asString?_eq_some_iff.1 hstatus) (blocks_iff.1 hblocks)
  · intro hyp
    cases hyp with
    | submitted hstatus hblocked =>
      refine ⟨_, Option.filter_eq_some_iff.2 ⟨?_, blocks_iff.2 hblocked⟩, rfl⟩
      exact bind_asString?_eq_some_iff.2 hstatus

theorem typeChange?_eq_some_iff :
    x.typeChange? item = some d ↔ x.Shows check item .typeChanged d := by
  unfold typeChange?
  rw [Option.bind_eq_some_iff]
  constructor
  · intro hyp
    obtain ⟨type, htype, h⟩ := hyp
    rw [Option.ite_none_left_eq_some] at h
    obtain ⟨hne, heq⟩ := h
    cases hstored : (item.get? Entity.templateTypeAttr).bind Value.asString? with
    | none =>
      rw [hstored] at heq
      cases heq
      refine .typeMissing htype fun s hs => ?_
      rw [bind_asString?_eq_some_iff.2 hs] at hstored
      cases hstored
    | some stored =>
      rw [hstored] at hne heq
      cases heq
      exact .typeChanged htype (bind_asString?_eq_some_iff.1 hstored)
        fun h => hne (congrArg some h)
  · intro hyp
    cases hyp with
    | typeChanged htype hstored hne =>
      refine ⟨_, htype, ?_⟩
      rw [bind_asString?_eq_some_iff.2 hstored, if_neg fun h => hne (Option.some.inj h)]
      rfl
    | typeMissing htype hstored =>
      have hnone : (item.get? Entity.templateTypeAttr).bind Value.asString? = none := by
        apply Option.eq_none_iff_forall_ne_some.2
        intro s hs
        exact hstored s (bind_asString?_eq_some_iff.1 hs)
      refine ⟨_, htype, ?_⟩
      rw [hnone, if_neg nofun]
      rfl

/-- The lock number of an item is the expected one exactly if the item has a number whose text
denotes it. -/
theorem bind_asUInt64?_eq_some_iff {o : Option Value} {n : UInt64} :
    o.bind Value.asUInt64? = some n.toNat ↔
      ∃ text, o = some (.number text) ∧ Decimal.Denotes text.toList n.toNat := by
  rw [Option.bind_eq_some_iff]
  constructor
  · intro hyp
    obtain ⟨v, rfl, hv⟩ := hyp
    cases v with
    | number text => exact ⟨text, rfl, (Value.asUInt64?_number_eq_some_iff.1 hv).1⟩
    | _ => cases hv
  · intro hyp
    obtain ⟨text, rfl, htext⟩ := hyp
    exact ⟨_, rfl, Value.asUInt64?_number_eq_some_iff.2 ⟨htext, n.toNat_lt⟩⟩

theorem conflict?_eq_some_iff :
    x.conflict? item = some d ↔ x.Shows check item .lockChanged d := by
  rw [conflict?, Option.ite_none_left_eq_some, bind_asUInt64?_eq_some_iff]
  constructor
  · intro hyp
    obtain ⟨hlock, heq⟩ := hyp
    cases heq
    exact .lockChanged fun text hnumber htext => hlock ⟨text, hnumber, htext⟩
  · intro hyp
    cases hyp with
    | lockChanged hlock =>
      refine ⟨?_, rfl⟩
      intro hyp
      obtain ⟨text, hnumber, htext⟩ := hyp
      exact hlock text hnumber htext

end Tests

/-- The test for a cause. -/
def test? (x : Expectation) (check : Item → Option String) (item : Item) :
    Cause → Option Diagnosis
  | .deleted => x.deletion? item
  | .submitted => x.submission? item
  | .typeChanged => x.typeChange? item
  | .lockChanged => x.conflict? item
  | .unsupported => (check item).map .unsupported

variable {x : Expectation} {check : Item → Option String} {item : Item} {d : Diagnosis}

/-- The test for a cause gives the diagnosis that an item shows. -/
theorem test?_eq_some_iff {cause : Cause} :
    x.test? check item cause = some d ↔ x.Shows check item cause d := by
  cases cause with
  | deleted => exact deletion?_eq_some_iff
  | submitted => exact submission?_eq_some_iff
  | typeChanged => exact typeChange?_eq_some_iff
  | lockChanged => exact conflict?_eq_some_iff
  | unsupported =>
    rw [test?, Option.map_eq_some_iff]
    constructor
    · intro hyp
      obtain ⟨text, htext, rfl⟩ := hyp
      exact .unsupported htext
    · intro hyp
      cases hyp with
      | unsupported htext => exact ⟨_, htext, rfl⟩

theorem test?_eq_none_iff {cause : Cause} :
    x.test? check item cause = none ↔ ∀ d, ¬x.Shows check item cause d := by
  rw [Option.eq_none_iff_forall_ne_some]
  exact forall_congr' fun d => not_congr test?_eq_some_iff

/-! ## The first cause -/

/-- The causes are tested in their order, the caller's reason last. -/
theorem findSome?_test? :
    Cause.inOrder.findSome? (x.test? check item) =
      (x.explain item <|> (check item).map .unsupported) := by
  unfold explain
  simp only [Cause.inOrder, List.findSome?_cons, List.findSome?_nil, test?]
  cases x.deletion? item <;> cases x.submission? item <;> cases x.typeChange? item <;>
    cases x.conflict? item <;> cases check item <;> rfl

theorem findSome?_test?_eq_some_iff :
    Cause.inOrder.findSome? (x.test? check item) = some d ↔ x.FirstShown check item d := by
  rw [List.findSome?_eq_some_iff]
  simp only [test?_eq_some_iff, test?_eq_none_iff, FirstShown]

theorem findSome?_test?_eq_none_iff :
    Cause.inOrder.findSome? (x.test? check item) = none ↔
      ∀ cause d, ¬x.Shows check item cause d := by
  have hall : ∀ cause, cause ∈ Cause.inOrder := by
    intro cause
    cases cause <;> decide
  rw [List.findSome?_eq_none_iff]
  constructor
  · intro h cause
    exact test?_eq_none_iff.1 (h cause (hall cause))
  · intro h cause _
    exact test?_eq_none_iff.2 (h cause)

/-! ## Diagnoses -/

variable {f : StoreFailure}

theorem isConditionFailed_iff : f.isConditionFailed = true ↔ f.code = .conditionFailed :=
  decide_eq_true_iff

/-- Where the store has sent the item along, the first cause counts, and without one the failure is
left as it is. -/
theorem diagnoseWith_of_item (hcode : f.code = .conditionFailed) (hitem : f.item = some item) :
    x.diagnoseWith f check =
      (Cause.inOrder.findSome? (x.test? check item)).getD (.store x.entity f) := by
  rw [diagnoseWith, if_pos (isConditionFailed_iff.2 hcode), findSome?_test?]
  simp only [hitem]

/-- A failure has the diagnosis that it means. -/
theorem means_diagnoseWith : x.Means f check (x.diagnoseWith f check) := by
  by_cases hcode : f.code = .conditionFailed
  · cases hitem : f.item with
    | none =>
      rw [diagnoseWith, if_pos (isConditionFailed_iff.2 hcode), hitem]
      exact .gone hcode hitem
    | some item =>
      rw [diagnoseWith_of_item hcode hitem]
      cases hfirst : Cause.inOrder.findSome? (x.test? check item) with
      | none => exact .unexplained hcode hitem (findSome?_test?_eq_none_iff.1 hfirst)
      | some d => exact .shown hcode hitem (findSome?_test?_eq_some_iff.1 hfirst)
  · rw [diagnoseWith, if_neg fun h => hcode (isConditionFailed_iff.1 h)]
    exact .refused hcode

theorem diagnoseWith_eq_iff : x.diagnoseWith f check = d ↔ x.Means f check d := by
  constructor
  · intro h
    rw [← h]
    exact means_diagnoseWith
  · intro hyp
    cases hyp with
    | refused hcode => rw [diagnoseWith, if_neg fun h => hcode (isConditionFailed_iff.1 h)]
    | gone hcode hitem => rw [diagnoseWith, if_pos (isConditionFailed_iff.2 hcode), hitem]
    | shown hcode hitem hfirst =>
      rw [diagnoseWith_of_item hcode hitem, findSome?_test?_eq_some_iff.2 hfirst, Option.getD_some]
    | unexplained hcode hitem hnone =>
      rw [diagnoseWith_of_item hcode hitem, findSome?_test?_eq_none_iff.2 hnone, Option.getD_none]

/-- A state in which the item can not be changed is reported before the type and the lock, and only
after a deletion. -/
theorem means_of_blocked {status : String} (hcode : f.code = .conditionFailed)
    (hitem : f.item = some item)
    (hstatus : item.get? x.entity.statusAttr = some (.string status))
    (hblocked : status = x.entity.submittedStatus ∨
      ∃ b ∈ x.blocked, status = Vocabulary.name b) :
    x.Means f check
      (if status = "DELETED" then .notFound x.entity else .alreadySubmitted x.entity status) := by
  by_cases hdeleted : status = "DELETED"
  · rw [if_pos hdeleted]
    rw [hdeleted] at hstatus
    exact .shown hcode hitem ⟨[], .deleted, _, rfl, .deleted hstatus, nofun⟩
  · rw [if_neg hdeleted]
    refine .shown hcode hitem ⟨[.deleted], .submitted, _, rfl, .submitted hstatus hblocked, ?_⟩
    intro earlier hearlier d' hshows
    rw [List.mem_singleton.1 hearlier] at hshows
    cases hshows with
    | deleted hstatus' =>
      rw [hstatus] at hstatus'
      exact hdeleted (Value.string.inj (Option.some.inj hstatus'))

/-- A failure has exactly the diagnosis that it means: it is left to the store if the condition did
not fail or nothing explains it, the item is not found if there is none, and else the first cause
counts that the item shows. In particular a blocked state that is not the deleted one is reported
whatever the type and the lock of the item are. -/
theorem diagnoseWith_first_cause (x : Expectation) (f : StoreFailure)
    (check : Item → Option String) :
    (∀ d, x.diagnoseWith f check = d ↔ x.Means f check d) ∧
    ∀ item status, f.code = .conditionFailed → f.item = some item →
      item.get? x.entity.statusAttr = some (.string status) →
      (status = x.entity.submittedStatus ∨ ∃ b ∈ x.blocked, status = Vocabulary.name b) →
      x.diagnoseWith f check =
        if status = "DELETED" then .notFound x.entity else .alreadySubmitted x.entity status := by
  refine ⟨fun d => diagnoseWith_eq_iff, ?_⟩
  intro item status hcode hitem hstatus hblocked
  exact diagnoseWith_eq_iff.2 (means_of_blocked hcode hitem hstatus hblocked)

/-- A template that waits for a proof has also lost its type and its lock number: its state is what
is reported. -/
theorem blocked_before_lock :
    let x : Expectation :=
      { entity := .template, lockNumber := 3, blocked := [.waitingForProof],
        templateType := some .letter }
    let item : Item := (∅ : Item).insert "templateStatus" (.string "WAITING_FOR_PROOF")
    x.diagnoseWith (.conditionFailed (some item)) (fun _ => none) =
      .alreadySubmitted .template "WAITING_FOR_PROOF" :=
  ((diagnoseWith_first_cause _ _ _).2 _ "WAITING_FOR_PROOF" rfl rfl (by decide)
    (.inr ⟨.waitingForProof, by decide, rfl⟩)).trans (if_neg (by decide))

end Expectation
end GuardedUpdate
