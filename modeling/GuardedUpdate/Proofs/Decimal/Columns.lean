import GuardedUpdate.Proofs.Decimal.Natural
import Mathlib.Data.List.Forall2
import Mathlib.Data.String.Basic

/-!
# Numbers in columns

A text may be laid out in columns: numbers with zeros in front up to the width of their column, each
with a character behind it. As long as the numbers fit their columns, such texts are ordered as the
rows of numbers in them, the first that differ deciding (`Decimal.layOut_lt_layOut_iff`).
-/

namespace GuardedUpdate.Decimal

/-! ## One column -/

/-- Where the parts in front are of one length, they are compared first. -/
theorem append_lt_append_iff {s t : List Char} (hlen : s.length = t.length) (u v : List Char) :
    s ++ u < t ++ v ↔ s < t ∨ s = t ∧ u < v := by
  induction s generalizing t with
  | nil =>
    obtain rfl : t = [] := List.eq_nil_of_length_eq_zero hlen.symm
    simp
  | cons c s ih =>
    cases t with
    | nil => cases hlen
    | cons d t =>
      have htail := ih (Nat.succ.inj hlen)
      rw [List.cons_append, List.cons_append, List.cons_lt_cons_iff, htail, List.cons_lt_cons_iff,
        List.cons.injEq]
      tauto

/-- A larger start makes a larger number, whatever digits follow. -/
theorem ofDigitChars_lt_of_lt {s t : List Char} (hs : ∀ c ∈ s, c.isDigit = true)
    (hlen : s.length = t.length) {a b : Nat} (h : a < b) :
    Nat.ofDigitChars 10 s a < Nat.ofDigitChars 10 t b := by
  induction s generalizing t a b with
  | nil =>
    obtain rfl : t = [] := List.eq_nil_of_length_eq_zero hlen.symm
    simpa using h
  | cons c s ih =>
    cases t with
    | nil => cases hlen
    | cons d t =>
      obtain ⟨hc, hs⟩ := List.forall_mem_cons.1 hs
      have hrange := (Char.isDigit_iff_toNat.1 hc).2
      have hnine : '9'.toNat = '0'.toNat + 9 := rfl
      rw [Nat.ofDigitChars_cons, Nat.ofDigitChars_cons]
      exact ih hs (Nat.succ.inj hlen) (by omega)

/-- Of two rows of digits of one length the smaller denotes the smaller number. -/
theorem ofDigitChars_lt_of_digits_lt {s t : List Char} (hs : ∀ c ∈ s, c.isDigit = true)
    (ht : ∀ c ∈ t, c.isDigit = true) (hlen : s.length = t.length) (h : s < t) (a : Nat) :
    Nat.ofDigitChars 10 s a < Nat.ofDigitChars 10 t a := by
  induction s generalizing t a with
  | nil =>
    obtain rfl : t = [] := List.eq_nil_of_length_eq_zero hlen.symm
    exact absurd h (List.not_lt_nil _)
  | cons c s ih =>
    cases t with
    | nil => cases hlen
    | cons d t =>
      obtain ⟨hc, hs⟩ := List.forall_mem_cons.1 hs
      have ht' : ∀ c ∈ t, c.isDigit = true := (List.forall_mem_cons.1 ht).2
      have htail : s.length = t.length := Nat.succ.inj hlen
      rw [Nat.ofDigitChars_cons, Nat.ofDigitChars_cons]
      rcases List.cons_lt_cons_iff.1 h with hcd | ⟨rfl, hst⟩
      · have hless : c.toNat < d.toNat := hcd
        have hdigit := (Char.isDigit_iff_toNat.1 hc).1
        exact ofDigitChars_lt_of_lt hs htail (by omega)
      · exact ih hs ht' htail hst _

theorem isDigit_of_mem_padded {width n : Nat} {c : Char} (h : c ∈ padded width n) :
    c.isDigit = true := by
  rcases List.mem_append.1 h with hzero | hdigit
  · rw [List.eq_of_mem_replicate hzero]
    rfl
  · exact isDigit_of_mem_ofNat hdigit

/-- A number that fits its column fills it. -/
theorem length_padded {width n : Nat} (hwidth : 0 < width) (h : n < 10 ^ width) :
    (padded width n).length = width := by
  have hlen : (ofNat n).length ≤ width := (Nat.length_toDigits_le_iff (by decide) hwidth).2 h
  rw [padded, List.length_append, List.length_replicate]
  omega

/-- Zeros in front do not change the number. -/
theorem ofDigitChars_padded (width n : Nat) : Nat.ofDigitChars 10 (padded width n) 0 = n := by
  rw [padded, Nat.ofDigitChars_append, Nat.ofDigitChars_replicate_zero, Nat.mul_zero,
    ofDigitChars_ofNat]

theorem padded_inj {width m n : Nat} : padded width m = padded width n ↔ m = n := by
  constructor
  · intro h
    rw [← ofDigitChars_padded width m, h, ofDigitChars_padded]
  · intro h
    rw [h]

/-- Numbers in one column are ordered as their texts. -/
theorem padded_lt_padded_iff {width m n : Nat} (hwidth : 0 < width) (hm : m < 10 ^ width)
    (hn : n < 10 ^ width) : padded width m < padded width n ↔ m < n := by
  have hlen : (padded width m).length = (padded width n).length :=
    (length_padded hwidth hm).trans (length_padded hwidth hn).symm
  have hlt : ∀ {a b : Nat}, (padded width a).length = (padded width b).length →
      padded width a < padded width b → a < b := by
    intro a b hlen h
    have hvalue := ofDigitChars_lt_of_digits_lt (fun _ => isDigit_of_mem_padded)
      (fun _ => isDigit_of_mem_padded) hlen h 0
    rwa [ofDigitChars_padded, ofDigitChars_padded] at hvalue
  constructor
  · exact hlt hlen
  · intro h
    rcases lt_trichotomy (padded width m) (padded width n) with hless | heq | hgreater
    · exact hless
    · exact absurd (padded_inj.1 heq) h.ne
    · exact absurd (hlt hlen.symm hgreater) h.asymm

/-! ## Rows -/

/-- A row of numbers, each in a column of some width and with a character behind it. -/
def layOut : List (Nat × Char) → List Nat → List Char
  | (width, c) :: columns, n :: ns => padded width n ++ c :: layOut columns ns
  | _, _ => []

/-- A number fits a column. -/
def Fits (column : Nat × Char) (n : Nat) : Prop := 0 < column.1 ∧ n < 10 ^ column.1

/-- Rows that fit their columns are ordered as their texts. -/
theorem layOut_lt_layOut_iff {columns : List (Nat × Char)} {ms ns : List Nat}
    (hm : List.Forall₂ Fits columns ms) (hn : List.Forall₂ Fits columns ns) :
    layOut columns ms < layOut columns ns ↔ ms < ns := by
  induction hm generalizing ns with
  | nil =>
    cases hn
    exact iff_of_false (List.lt_irrefl _) (List.lt_irrefl _)
  | @cons column m columns ms hfit _ ih =>
    cases hn with
    | cons hfit' hn =>
      have hlen := (length_padded hfit.1 hfit.2).trans (length_padded hfit'.1 hfit'.2).symm
      rw [layOut, layOut, append_lt_append_iff hlen, padded_lt_padded_iff hfit.1 hfit.2 hfit'.2,
        padded_inj, List.cons_lt_cons_iff, List.cons_lt_cons_iff, ih hn]
      simp

end GuardedUpdate.Decimal
