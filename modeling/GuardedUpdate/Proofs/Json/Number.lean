import GuardedUpdate.Json.Number
import GuardedUpdate.Proofs.Decimal.Natural
import Mathlib.Data.List.TakeWhile

/-!
# Whole numbers in texts

A whole number that fits is read back from its text (`Json.Number.ofText?_text_integer`): the text
is a sign and digits and nothing else, it has no zero that a numeral may not begin with, and minus
zero, which would be a floating-point number, is never written.
-/

namespace GuardedUpdate.Json

open Decimal

namespace Numeral

/-! ## The parts of a whole number -/

/-- Digits up to the end of a text are taken. -/
theorem scanDigits_of_forall {digits : List Char} (hne : digits ≠ [])
    (hall : ∀ c ∈ digits, c.isDigit = true) : scanDigits digits = .ok (digits, []) := by
  have htake : digits.takeWhile Char.isDigit = digits := List.takeWhile_eq_self_iff.2 hall
  have hdrop : digits.dropWhile Char.isDigit = [] := List.dropWhile_eq_nil_iff.2 hall
  rw [scanDigits, htake, hdrop]
  cases digits with
  | nil => exact absurd rfl hne
  | cons c digits => rfl

/-- The numeral of a number is taken as the digits before the point. -/
theorem scanWhole_ofNat (n : Nat) : scanWhole (ofNat n) = .ok (ofNat n, []) := by
  rw [scanWhole, scanDigits_of_forall (ofNat_ne_nil n) fun _ => isDigit_of_mem_ofNat]
  simp only [bind, Except.bind]
  split
  · next c s hzero => exact absurd (eq_nil_of_ofNat_eq_zero_cons hzero) (List.cons_ne_nil c s)
  · rfl

/-- The text of a whole number has a sign if the number is negative, and no fraction and no power
of ten. -/
theorem scan_ofInt (value : Int) :
    scan (ofInt value) = .ok (⟨decide (value < 0), ofNat value.natAbs, [], none⟩, []) := by
  cases value with
  | ofNat n =>
    have hnonneg : decide (Int.ofNat n < 0) = false := decide_eq_false (by simp)
    rw [hnonneg, ofInt, scan, scanWhole_ofNat]
    · rfl
    · exact fun s hsign => ne_sign_of_ofNat_eq_cons hsign rfl
  | negSucc n =>
    have hneg : decide (Int.negSucc n < 0) = true := decide_eq_true (by simp)
    rw [hneg, ofInt, scan, scanWhole_ofNat]
    rfl

/-- The parts of the text of a whole number give this number if it fits, and else a floating-point
number, if there is one. -/
theorem number?_ofInt (value : Int) :
    (⟨decide (value < 0), ofNat value.natAbs, [], none⟩ : Numeral).number? =
      (Number.ofInt? value).or
        (⟨decide (value < 0), ofNat value.natAbs, [], none⟩ : Numeral).float? := by
  have hsigned : (if decide (value < 0) = true then -(value.natAbs : Int) else value.natAbs) =
      value := by
    split
    · next h => have := of_decide_eq_true h; omega
    · next h => have := of_decide_eq_false (eq_false_of_ne_true h); omega
  have hzero : ¬(decide (value < 0) = true ∧ (value.natAbs : Int) = 0) := by
    intro hyp
    have := of_decide_eq_true hyp.1
    omega
  rw [number?, ofDigitChars_ofNat, if_pos ⟨rfl, rfl, hzero⟩]
  simp only [hsigned]
  cases Number.ofInt? value <;> rfl

end Numeral

/-- What is read from the text of a whole number. -/
theorem Number.ofText?_ofInt (value : Int) :
    ofText? (String.ofList (ofInt value)) =
      (ofInt? value).or
        (⟨decide (value < 0), ofNat value.natAbs, [], none⟩ : Numeral).float? := by
  rw [ofText?, String.toList_ofList, Numeral.scan_ofInt, ← Numeral.number?_ofInt]

/-- A whole number is read back from its text. -/
theorem Number.ofText?_text_integer (value : Int) (fits : FitsWord value) :
    ofText? (integer value fits).text = some (.integer value fits) := by
  rw [text, ofText?_ofInt, ofInt?, dif_pos fits, Option.some_or]

end GuardedUpdate.Json
