import GuardedUpdate.Proofs.Failure.Diagnosis

/-!
# Canceled writes go by their own reasons

Writes that belong together are canceled together, and the store gives a reason for each. What one
of them failed for is read off its own reason alone: the reasons of the other writes, and the text
and the item of the failure as a whole, have no part in it. A reason that a condition does not hold
stands for the failure of a single write; only the text may be another one, and no cause is read off
a text (`Expectation.diagnoseWith_withMessage`). A write without a fault of its own is left to the
store with the failure as it came (`Expectation.diagnoseAt_by_own_reason`).
-/

namespace GuardedUpdate

/-- A failure with another text. -/
def StoreFailure.withMessage (f : StoreFailure) (text : String) : StoreFailure :=
  { f with message := text }

/-- A diagnosis with another text in the failure of the store, where it leaves one open. -/
def Diagnosis.withMessage (d : Diagnosis) (text : String) : Diagnosis :=
  match d with
  | .store entity failure => .store entity (failure.withMessage text)
  | d => d

/-! ## Reasons -/

section Reasons

variable {r : Cancellation}

theorem Cancellation.isNone_eq_false_iff : r.isNone = false ↔ r.code ≠ "None" :=
  decide_eq_false_iff_not

theorem Cancellation.isConditionFailed_iff :
    r.isConditionFailed = true ↔ r.code = "ConditionalCheckFailed" :=
  decide_eq_true_iff

namespace StoreFailure

/-- A reason that a condition does not hold stands for the failure of a single write. -/
theorem ofReason_of_condition (h : r.code = "ConditionalCheckFailed") :
    ofReason r = (conditionFailed r.item).withMessage (r.message.getD r.code) := by
  rw [ofReason, if_pos (Cancellation.isConditionFailed_iff.2 h)]
  rfl

/-- Any other reason stands for a failure that is not about a condition. -/
theorem code_ofReason_ne (h : r.code ≠ "ConditionalCheckFailed") :
    (ofReason r).code ≠ .conditionFailed := by
  have hcode : (ofReason r).code = .transactionCanceled :=
    if_neg fun hr => h (Cancellation.isConditionFailed_iff.1 hr)
  rw [hcode]
  decide

variable {f : StoreFailure} {i : Nat}

theorem reducedTo_of_reason (hcode : f.code = .transactionCanceled)
    (hr : f.reasons[i]? = some r) (hne : r.code ≠ "None") : f.reducedTo i = some (ofReason r) := by
  have hfault : (!r.isNone) = true := by
    rw [Cancellation.isNone_eq_false_iff.2 hne]
    rfl
  have hkept : (some r).filter (fun r => !r.isNone) = some r :=
    Option.filter_eq_some_iff.2 ⟨rfl, hfault⟩
  rw [reducedTo, if_pos hcode, hr, hkept, Option.map_some]

theorem reducedTo_of_no_reason (hr : ∀ r, f.reasons[i]? = some r → r.code = "None") :
    f.reducedTo i = none := by
  have hnone : (f.reasons[i]?.filter fun r => !r.isNone) = none := by
    rw [Option.filter_eq_none_iff]
    intro r hmem hfault
    have hno : r.isNone = true := decide_eq_true (hr r hmem)
    rw [hno] at hfault
    cases hfault
  rw [reducedTo, hnone, Option.map_none, ite_self]

end StoreFailure

end Reasons

namespace Expectation

variable {x : Expectation} {check : Item → Option String} {item : Item} {cause : Cause}
  {d : Diagnosis} {f : StoreFailure} {text : String}

/-! ## Texts -/

/-- No cause leaves a failure of the store open. -/
theorem Shows.withMessage_eq (h : x.Shows check item cause d) : d.withMessage text = d := by
  cases h <;> rfl

/-- What a failure means does not depend on its text. -/
theorem Means.withMessage (h : x.Means f check d) :
    x.Means (f.withMessage text) check (d.withMessage text) := by
  cases h with
  | refused hcode => exact .refused hcode
  | gone hcode hitem => exact .gone hcode hitem
  | shown hcode hitem hfirst =>
    have hsame : d.withMessage text = d := by
      obtain ⟨_, _, _, _, hshows, _⟩ := hfirst
      exact hshows.withMessage_eq
    rw [hsame]
    exact .shown hcode hitem hfirst
  | unexplained hcode hitem hnone => exact .unexplained hcode hitem hnone

/-- A failure with another text has the same diagnosis, up to the text of a failure that is left
open. -/
theorem diagnoseWith_withMessage (x : Expectation) (f : StoreFailure)
    (check : Item → Option String) (text : String) :
    x.diagnoseWith (f.withMessage text) check = (x.diagnoseWith f check).withMessage text :=
  diagnoseWith_eq_iff.2 means_diagnoseWith.withMessage

/-! ## One of several writes -/

variable {i : Nat} {r : Cancellation}

theorem diagnoseAt_of_reason (hcode : f.code = .transactionCanceled)
    (hr : f.reasons[i]? = some r) (hne : r.code ≠ "None") :
    x.diagnoseAt f i = x.diagnose (.ofReason r) := by
  rw [diagnoseAt, if_pos hcode, StoreFailure.reducedTo_of_reason hcode hr hne, Option.elim_some]

theorem diagnoseAt_of_no_reason (hcode : f.code = .transactionCanceled)
    (hr : ∀ r, f.reasons[i]? = some r → r.code = "None") :
    x.diagnoseAt f i = .store x.entity f := by
  rw [diagnoseAt, if_pos hcode, StoreFailure.reducedTo_of_no_reason hr, Option.elim_none]

/-- A reason that a condition does not hold is diagnosed like the failure of a single write, and a
failure that is left open has the text of the reason. -/
theorem diagnose_ofReason_of_condition (h : r.code = "ConditionalCheckFailed") :
    x.diagnose (.ofReason r) =
      (x.diagnose (.conditionFailed r.item)).withMessage (r.message.getD r.code) := by
  rw [StoreFailure.ofReason_of_condition h]
  exact diagnoseWith_withMessage x _ _ _

/-- Any other reason is left to the store. -/
theorem diagnose_ofReason_of_ne (h : r.code ≠ "ConditionalCheckFailed") :
    x.diagnose (.ofReason r) = .store x.entity (.ofReason r) :=
  diagnoseWith_eq_iff.2 (.refused (StoreFailure.code_ofReason_ne h))

/-- One of several writes that were canceled together has the diagnosis of its own reason: it is the
same for every other failure, and at every other position, where the write has this reason. If a
condition does not hold, it is the diagnosis of a single write with this item, up to the text of a
failure that is left open; any other fault is left to the store under the text of the reason. A
write without a reason, or with the reason `None`, is left to the store with the failure as it came.
Where nothing was canceled, every position has the diagnosis of the failure itself. -/
theorem diagnoseAt_by_own_reason (x : Expectation) (f : StoreFailure) (i : Nat) :
    (f.code = .transactionCanceled →
      (∀ r, f.reasons[i]? = some r → r.code ≠ "None" →
        (∀ (g : StoreFailure) (j : Nat), g.code = .transactionCanceled →
          g.reasons[j]? = some r → x.diagnoseAt g j = x.diagnoseAt f i) ∧
        (r.code = "ConditionalCheckFailed" →
          x.diagnoseAt f i =
            (x.diagnose (.conditionFailed r.item)).withMessage (r.message.getD r.code)) ∧
        (r.code ≠ "ConditionalCheckFailed" →
          x.diagnoseAt f i = .store x.entity (.ofReason r))) ∧
      ((∀ r, f.reasons[i]? = some r → r.code = "None") →
        x.diagnoseAt f i = .store x.entity f)) ∧
    (f.code ≠ .transactionCanceled → x.diagnoseAt f i = x.diagnose f) := by
  refine ⟨fun hcode => ⟨?_, diagnoseAt_of_no_reason hcode⟩, fun hcode => if_neg hcode⟩
  intro r hr hne
  have hown : x.diagnoseAt f i = x.diagnose (.ofReason r) := diagnoseAt_of_reason hcode hr hne
  refine ⟨?_, ?_, ?_⟩
  · intro g j hg hgr
    rw [hown, diagnoseAt_of_reason hg hgr hne]
  · intro hcondition
    rw [hown, diagnose_ofReason_of_condition hcondition]
  · intro hother
    rw [hown, diagnose_ofReason_of_ne hother]

/-- The second of three writes has been changed since it was read. That the first one is deleted,
and so is the item of the failure as a whole, does not matter; the third has no fault. -/
theorem diagnoseAt_among_others :
    let x : Expectation := { entity := .routingConfig, lockNumber := 3 }
    let deleted : Item := (∅ : Item).insert "status" (.string "DELETED")
    let stale : Item := (∅ : Item).insert "lockNumber" (.number "4")
    let f : StoreFailure :=
      { code := .transactionCanceled
        message := "canceled"
        item := some deleted
        reasons := [{ code := "ConditionalCheckFailed", item := some deleted },
          { code := "ConditionalCheckFailed", message := some "stale", item := some stale },
          { code := "None" }] }
    x.diagnoseAt f 1 = .conflict .routingConfig ∧ x.diagnoseAt f 2 = .store .routingConfig f := by
  intro x deleted stale f
  constructor
  · have hsecond : f.reasons[1]? =
        some { code := "ConditionalCheckFailed", message := some "stale", item := some stale } :=
      rfl
    rw [(((diagnoseAt_by_own_reason x f 1).1 rfl).1 _ hsecond (by decide)).2.1 rfl]
    decide
  · apply ((diagnoseAt_by_own_reason x f 2).1 rfl).2
    intro r hr
    cases hr
    rfl

end Expectation
end GuardedUpdate
