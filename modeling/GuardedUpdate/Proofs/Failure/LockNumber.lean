import GuardedUpdate.Proofs.Failure.Cancellation
import Mathlib.Algebra.Order.Ring.Int

/-!
# Lock numbers are kept as texts

A lock number is stored as its decimal text and compared as a number. The text of an integer is read
back as this integer, whatever machine type it has, and never as another one; a text that denotes a
number of more than 64 bits is not read at all (`Value.asUInt64?_number_eq_some_iff`). So where a
diagnosis comes to the lock number, it is a conflict exactly if the number that was written is not
the expected one (`Expectation.diagnoseWith_eq_conflict_iff`).
-/

namespace GuardedUpdate

/-! ## Integers of machine types -/

/-- The integer types of a machine, with their number of bits. -/
inductive IntegerType where
  /-- Integers with a sign. -/
  | signed (bits : Nat)
  /-- Integers without a sign. -/
  | unsigned (bits : Nat)

namespace IntegerType

/-- The number of bits. -/
def bits : IntegerType → Nat
  | signed bits => bits
  | unsigned bits => bits

/-- An integer belongs to a type. -/
def Holds : IntegerType → Int → Prop
  | signed bits, z => -2 ^ (bits - 1) ≤ z ∧ z < 2 ^ (bits - 1)
  | unsigned bits, z => 0 ≤ z ∧ z < 2 ^ bits

theorem Holds.lt {type : IntegerType} {z : Int} (h : type.Holds z) (hbits : type.bits ≤ 64) :
    z < 2 ^ 64 := by
  cases type with
  | signed bits =>
    have hle : bits - 1 ≤ 64 := le_trans (Nat.sub_le bits 1) hbits
    exact lt_of_lt_of_le h.2 (pow_le_pow_right₀ (by decide) hle)
  | unsigned bits => exact lt_of_lt_of_le h.2 (pow_le_pow_right₀ (by decide) hbits)

end IntegerType

namespace Value

theorem asUInt64?_ofInt_eq_some_iff {z : Int} {n : Nat} :
    (ofInt z).asUInt64? = some n ↔ z = n ∧ n < UInt64.size := by
  rw [ofInt, asUInt64?_number_eq_some_iff, String.toList_ofList, Decimal.denotes_ofInt_iff]

/-- What is written for an integer of 64 bits is read back, unless it is negative. -/
theorem asUInt64?_ofInt {z : Int} (h : z < 2 ^ 64) :
    (ofInt z).asUInt64? = if 0 ≤ z then some z.toNat else none := by
  split_ifs with hsign
  · rw [asUInt64?_ofInt_eq_some_iff]
    unfold UInt64.size
    omega
  · rw [Option.eq_none_iff_forall_ne_some]
    intro n hn
    rw [asUInt64?_ofInt_eq_some_iff] at hn
    omega

end Value

/-! ## Conflicts -/

namespace Expectation

/-- An item shows none of the causes that count before the change of the lock number. -/
def LeavesToLock (x : Expectation) (item : Item) : Prop :=
  ∀ cause ∈ [Cause.deleted, .submitted, .typeChanged], ∀ check d, ¬x.Shows check item cause d

variable {x : Expectation} {check : Item → Option String} {item : Item} {f : StoreFailure}
  {m : UInt64}

theorem leavesToLock_iff :
    x.LeavesToLock item ↔
      x.deletion? item = none ∧ x.submission? item = none ∧ x.typeChange? item = none := by
  have htest : ∀ cause, (∀ check d, ¬x.Shows check item cause d) ↔
      ∀ check, x.test? check item cause = none :=
    fun cause => forall_congr' fun check => test?_eq_none_iff.symm
  unfold LeavesToLock
  simp [htest, test?]

instance : Decidable (x.LeavesToLock item) :=
  decidable_of_iff _ leavesToLock_iff.symm

/-- With a lock number that was written as a number, the item shows its change exactly if it is not
the expected one. -/
theorem shows_lockChanged_iff (check : Item → Option String)
    (hlock : item.get? Entity.lockNumberAttr = some (Value.ofInt m.toNat)) :
    x.Shows check item .lockChanged (.conflict x.entity) ↔ m ≠ x.lockNumber := by
  have hdenotes : Decimal.Denotes (Decimal.ofInt m.toNat) x.lockNumber.toNat ↔
      m = x.lockNumber := by
    rw [Decimal.denotes_ofInt_iff, Int.natCast_inj, UInt64.toNat_inj]
  rw [Value.ofInt] at hlock
  constructor
  · intro hyp
    cases hyp with
    | lockChanged hchanged =>
      have hnot := hchanged _ hlock
      rw [String.toList_ofList] at hnot
      exact fun h => hnot (hdenotes.2 h)
  · intro hne
    apply Shows.lockChanged
    intro text htext
    rw [hlock] at htext
    rw [← Value.number.inj (Option.some.inj htext), String.toList_ofList]
    exact fun h => hne (hdenotes.1 h)

/-- A conflict means that the item shows the change of the lock number. -/
theorem shows_of_means_conflict (hitem : f.item = some item)
    (h : x.Means f check (.conflict x.entity)) :
    x.Shows check item .lockChanged (.conflict x.entity) := by
  cases h with
  | shown _ hitem' hfirst =>
    rw [hitem] at hitem'
    cases hitem'
    obtain ⟨_, _, _, _, hshows, _⟩ := hfirst
    cases hshows with
    | lockChanged hlock => exact .lockChanged hlock

/-- Where a diagnosis comes to the lock number, it is a conflict exactly if the number that was
written is not the expected one. -/
theorem diagnoseWith_eq_conflict_iff (hcode : f.code = .conditionFailed)
    (hitem : f.item = some item) (hleaves : x.LeavesToLock item)
    (hlock : item.get? Entity.lockNumberAttr = some (Value.ofInt m.toNat)) :
    x.diagnoseWith f check = .conflict x.entity ↔ m ≠ x.lockNumber := by
  rw [diagnoseWith_eq_iff, ← shows_lockChanged_iff check hlock]
  constructor
  · exact shows_of_means_conflict hitem
  · intro hshows
    have hearlier : ∀ earlier ∈ [Cause.deleted, .submitted, .typeChanged], ∀ d',
        ¬x.Shows check item earlier d' := by
      intro earlier hmem
      exact hleaves earlier hmem check
    exact .shown hcode hitem ⟨_, .lockChanged, [.unsupported], rfl, hshows, hearlier⟩

/-- The same for one of several writes that were canceled together. -/
theorem diagnoseAt_eq_conflict_iff {r : Cancellation} {i : Nat}
    (hcode : f.code = .transactionCanceled) (hr : f.reasons[i]? = some r)
    (hreason : r.code = "ConditionalCheckFailed") (hitem : r.item = some item)
    (hleaves : x.LeavesToLock item)
    (hlock : item.get? Entity.lockNumberAttr = some (Value.ofInt m.toNat)) :
    x.diagnoseAt f i = .conflict x.entity ↔ m ≠ x.lockNumber := by
  have hne : r.code ≠ "None" := by
    rw [hreason]
    decide
  rw [diagnoseAt_of_reason hcode hr hne, StoreFailure.ofReason_of_condition hreason]
  exact diagnoseWith_eq_conflict_iff rfl hitem hleaves hlock

end Expectation

/-- An integer of a machine type is read back from its text, unless it is negative, and a text is
read exactly if it denotes a number of 64 bits. So for an item that shows no cause before its lock
number, with a lock number that was written as a number, the diagnosis is a conflict exactly if this
number is not the expected one; it does not matter whether the write was alone or one of several. -/
theorem lock_numbers_survive_text :
    (∀ type : IntegerType, type.bits ≤ 64 → ∀ z, type.Holds z →
      (Value.ofInt z).asUInt64? = if 0 ≤ z then some z.toNat else none) ∧
    (∀ text n, (Value.number text).asUInt64? = some n ↔
      Decimal.Denotes text.toList n ∧ n < UInt64.size) ∧
    ∀ (x : Expectation) (item : Item) (m : UInt64), x.LeavesToLock item →
      item.get? Entity.lockNumberAttr = some (Value.ofInt m.toNat) →
      (∀ f check, f.code = .conditionFailed → f.item = some item →
        (x.diagnoseWith f check = .conflict x.entity ↔ m ≠ x.lockNumber)) ∧
      ∀ f i r, f.code = .transactionCanceled → f.reasons[i]? = some r →
        r.code = "ConditionalCheckFailed" → r.item = some item →
        (x.diagnoseAt f i = .conflict x.entity ↔ m ≠ x.lockNumber) := by
  refine ⟨?_, fun text n => Value.asUInt64?_number_eq_some_iff, ?_⟩
  · intro type hbits z hz
    exact Value.asUInt64?_ofInt (hz.lt hbits)
  · intro x item m hleaves hlock
    constructor
    · intro f check hcode hitem
      exact Expectation.diagnoseWith_eq_conflict_iff hcode hitem hleaves hlock
    · intro f i r hcode hr hreason hitem
      exact Expectation.diagnoseAt_eq_conflict_iff hcode hr hreason hitem hleaves hlock

/-- The smallest integer of 64 bits is not read at all, and the largest is not taken for a zero; that
another of the writes had no fault does not matter. -/
theorem lock_numbers_survive_text_at_ends :
    let x : Expectation :=
      { entity := .template, lockNumber := 0, blocked := [.waitingForProof],
        templateType := some .letter }
    let item : Item :=
      ((∅ : Item).insert "templateType" (.string "LETTER")).insert "lockNumber"
        (.number "18446744073709551615")
    let canceled : StoreFailure :=
      { code := .transactionCanceled
        message := "canceled"
        reasons := [{ code := "None" }, { code := "ConditionalCheckFailed", item := some item }] }
    (Value.ofInt (-9223372036854775808)).asUInt64? = none ∧
      x.diagnoseWith (.conditionFailed (some item)) (fun _ => none) = .conflict .template ∧
      x.diagnoseAt canceled 1 = .conflict .template := by
  intro x item canceled
  have hholds : (IntegerType.signed 64).Holds (-9223372036854775808) :=
    ⟨by decide, by decide⟩
  have hleaves : x.LeavesToLock item := by decide
  have hlock : item.get? Entity.lockNumberAttr =
      some (Value.ofInt (18446744073709551615 : UInt64).toNat) := by decide
  have hne : (18446744073709551615 : UInt64) ≠ x.lockNumber := by decide
  obtain ⟨halone, hseveral⟩ := lock_numbers_survive_text.2.2 x item _ hleaves hlock
  refine ⟨lock_numbers_survive_text.1 _ (by decide) _ hholds, ?_, ?_⟩
  · exact (halone _ _ rfl rfl).2 hne
  · exact (hseveral canceled 1 _ rfl rfl rfl rfl).2 hne

end GuardedUpdate
