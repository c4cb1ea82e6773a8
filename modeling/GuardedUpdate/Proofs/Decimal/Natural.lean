import GuardedUpdate.Decimal.Natural
import Mathlib.Data.List.Induction

/-!
# The texts of whole numbers

What is written for a number has digits only, and no zero in front unless it is zero
(`Decimal.eq_nil_of_ofNat_eq_zero_cons`). What is read as a number may have any number of them
(`Decimal.Denotes`). The canonical literals of integers are told by their form
(`Decimal.IsIntegerLiteral`), and they are what is written for the integers
(`Decimal.isIntegerLiteral_iff`).
-/

namespace GuardedUpdate.Decimal

/-! ## What is written -/

theorem isDigit_of_mem_ofNat {n : Nat} {c : Char} (h : c ∈ ofNat n) : c.isDigit = true :=
  Nat.isDigit_of_mem_toDigits (by decide) (by decide) h

/-- Different numbers have different numerals. -/
theorem ofNat_injective {m n : Nat} (h : ofNat m = ofNat n) : m = n := by
  have hm := toNat?_ofNat m
  rw [h, toNat?_ofNat] at hm
  exact (Option.some.inj hm).symm

theorem ofNat_ne_nil (n : Nat) : ofNat n ≠ [] := Nat.toDigits_ne_nil

theorem ofDigitChars_ofNat (n : Nat) : Nat.ofDigitChars 10 (ofNat n) 0 = n :=
  Nat.ofDigitChars_toDigits (by decide) (by decide)

/-- A numeral that begins with a zero is the zero. -/
theorem eq_nil_of_ofNat_eq_zero_cons {n : Nat} {s : List Char} (h : ofNat n = '0' :: s) :
    s = [] := by
  induction n using Nat.strongRecOn generalizing s with
  | ind n ih =>
    by_cases hn : n < 10
    · rw [ofNat, Nat.toDigits_of_lt_base hn] at h
      exact (List.cons.inj h).2.symm
    · -- All digits but the last are the numeral of a smaller number, which would be the zero.
      have hlast : ofNat n = ofNat (n / 10) ++ [(n % 10).digitChar] :=
        Nat.toDigits_of_base_le (by decide) (by omega)
      obtain ⟨c, t, ht⟩ := List.exists_cons_of_ne_nil (ofNat_ne_nil (n / 10))
      rw [hlast, ht, List.cons_append] at h
      obtain ⟨rfl, -⟩ := List.cons.inj h
      have hnil : t = [] := ih (n / 10) (by omega) ht
      have hzero : n / 10 = 0 := ofNat_injective (ht.trans (by rw [hnil]; rfl))
      omega

/-- A numeral begins with no sign. -/
theorem ne_sign_of_ofNat_eq_cons {n : Nat} {c : Char} {s : List Char} (h : ofNat n = c :: s) :
    c ≠ '-' := by
  intro hsign
  have hdigit : c.isDigit = true := isDigit_of_mem_ofNat (h ▸ List.mem_cons_self)
  rw [hsign] at hdigit
  exact absurd hdigit (by decide)

/-! ## Canonical literals -/

/-- Digits as they are written for a number: a zero in front stands alone. -/
def IsNumeral (s : List Char) : Prop :=
  s ≠ [] ∧ (∀ c ∈ s, c.isDigit = true) ∧ (s.head? = some '0' → s = ['0'])

/-- A canonical integer literal: a numeral, or a minus sign and a numeral other than the zero. -/
def IsIntegerLiteral : List Char → Prop
  | '-' :: digits => IsNumeral digits ∧ digits ≠ ['0']
  | digits => IsNumeral digits

theorem isNumeral_ofNat (n : Nat) : IsNumeral (ofNat n) := by
  refine ⟨ofNat_ne_nil n, fun _ => isDigit_of_mem_ofNat, ?_⟩
  intro hzero
  obtain ⟨s, hs⟩ := List.head?_eq_some_iff.1 hzero
  rw [hs, eq_nil_of_ofNat_eq_zero_cons hs]

/-- A digit is written for its value. -/
theorem ofNat_digit {c : Char} (h : c.isDigit = true) : ofNat (c.toNat - '0'.toNat) = [c] := by
  have hrange := Char.isDigit_iff_toNat.1 h
  have hzero : '0'.toNat = 48 := rfl
  have hnine : '9'.toNat = 57 := rfl
  have hlt : c.toNat - '0'.toNat < 10 := by omega
  have hchar : (c.toNat - '0'.toNat).digitChar = c := by
    rw [← Char.toNat_inj, Nat.toNat_digitChar_of_lt_ten hlt]
    omega
  rw [ofNat, Nat.toDigits_of_lt_base hlt, hchar]

/-- A numeral is what is written for the number of its digits. -/
theorem IsNumeral.ofNat_ofDigitChars {s : List Char} (h : IsNumeral s) :
    ofNat (Nat.ofDigitChars 10 s 0) = s := by
  -- The last digit is taken off, since it is the one that is written last.
  induction s using List.reverseRecOn with
  | nil => exact absurd rfl h.1
  | append_singleton s c ih =>
    obtain ⟨-, hdigits, hzero⟩ := h
    have hc : c.isDigit = true := hdigits c (by simp)
    have hone : ofNat (c.toNat - '0'.toNat) = [c] := ofNat_digit hc
    have hvalue : Nat.ofDigitChars 10 (s ++ [c]) 0 =
        10 * Nat.ofDigitChars 10 s 0 + (c.toNat - '0'.toNat) := by
      rw [Nat.ofDigitChars_append, Nat.ofDigitChars_cons, Nat.ofDigitChars_nil]
    cases s with
    | nil => rw [hvalue, Nat.ofDigitChars_nil, Nat.mul_zero, Nat.zero_add, hone, List.nil_append]
    | cons a t =>
      have hlead : a ≠ '0' := by
        intro ha
        have hshort := hzero (by rw [ha]; rfl)
        simp at hshort
      have hs : IsNumeral (a :: t) := by
        refine ⟨List.cons_ne_nil a t, fun b hb => hdigits b (List.mem_append_left _ hb), ?_⟩
        intro hhead
        exact absurd (Option.some.inj hhead) hlead
      -- The digits before the last are no zero, so they stay in front of it.
      have hpos : 0 < Nat.ofDigitChars 10 (a :: t) 0 := by
        rw [Nat.pos_iff_ne_zero]
        intro hnone
        have hwritten := ih hs
        rw [hnone] at hwritten
        exact hlead (List.cons.inj hwritten).1.symm
      have hrange := Char.isDigit_iff_toNat.1 hc
      have hlt : c.toNat - '0'.toNat < 10 := by
        have hnine : '9'.toNat = '0'.toNat + 9 := rfl
        omega
      rw [hvalue, ofNat, ← Nat.toDigits_append_toDigits (by decide) hpos hlt]
      exact congrArg₂ (· ++ ·) (ih hs) hone

theorem isNumeral_iff {s : List Char} : IsNumeral s ↔ ∃ n, s = ofNat n := by
  constructor
  · intro h
    exact ⟨_, h.ofNat_ofDigitChars.symm⟩
  · intro hyp
    obtain ⟨n, rfl⟩ := hyp
    exact isNumeral_ofNat n

/-- The canonical literals are the texts that are written for integers. -/
theorem isIntegerLiteral_iff {s : List Char} : IsIntegerLiteral s ↔ ∃ z, s = ofInt z := by
  constructor
  · intro h
    unfold IsIntegerLiteral at h
    split at h
    · next digits =>
      obtain ⟨n, rfl⟩ := isNumeral_iff.1 h.1
      cases n with
      | zero => exact absurd rfl h.2
      | succ n => exact ⟨.negSucc n, rfl⟩
    · obtain ⟨n, rfl⟩ := isNumeral_iff.1 h
      exact ⟨.ofNat n, rfl⟩
  · intro hyp
    obtain ⟨z, rfl⟩ := hyp
    cases z with
    | ofNat n =>
      unfold IsIntegerLiteral ofInt
      split
      · next digits heq => exact absurd rfl (ne_sign_of_ofNat_eq_cons heq)
      · exact isNumeral_ofNat n
    | negSucc n =>
      refine ⟨isNumeral_ofNat (n + 1), ?_⟩
      intro hzero
      exact Nat.succ_ne_zero n (ofNat_injective (n := 0) hzero)

/-! ## What is read -/

/-- A text denotes a number: at least one digit, perhaps with a plus sign in front. -/
def Denotes (s : List Char) (n : Nat) : Prop :=
  ∃ digits, (s = digits ∨ s = '+' :: digits) ∧ digits ≠ [] ∧ (∀ c ∈ digits, c.isDigit = true) ∧
    Nat.ofDigitChars 10 digits 0 = n

theorem toNat?_eq_some_iff {s : List Char} {n : Nat} :
    toNat? s = some n ↔
      s ≠ [] ∧ (∀ c ∈ s, c.isDigit = true) ∧ Nat.ofDigitChars 10 s 0 = n := by
  rw [toNat?, Option.ite_none_right_eq_some, List.all_eq_true, Option.some.injEq, and_assoc]

theorem unsigned?_eq_some_iff {s : List Char} {n : Nat} :
    unsigned? s = some n ↔ Denotes s n := by
  have hplus : ('+' : Char).isDigit = false := by decide
  unfold unsigned?
  split
  · next digits =>
    rw [toNat?_eq_some_iff]
    constructor
    · intro h
      exact ⟨digits, .inr rfl, h⟩
    · intro hyp
      obtain ⟨digits', rfl | heq, h⟩ := hyp
      · have hdigit := h.2.1 '+' List.mem_cons_self
        rw [hplus] at hdigit
        cases hdigit
      · rw [(List.cons.inj heq).2]
        exact h
  · next hne =>
    rw [toNat?_eq_some_iff]
    constructor
    · intro h
      exact ⟨s, .inl rfl, h⟩
    · intro hyp
      obtain ⟨digits, rfl | heq, h⟩ := hyp
      · exact h
      · exact absurd heq (hne digits)

/-- A text is read as a number below a bound exactly if it denotes the number. -/
theorem unsignedBelow?_eq_some_iff {bound n : Nat} {s : List Char} :
    unsignedBelow? bound s = some n ↔ Denotes s n ∧ n < bound := by
  rw [unsignedBelow?, Option.filter_eq_some_iff, unsigned?_eq_some_iff, decide_eq_true_eq]

/-- A text denotes one number at most. -/
theorem Denotes.unique {s : List Char} {m n : Nat} (hm : Denotes s m) (hn : Denotes s n) :
    m = n := by
  rw [← unsigned?_eq_some_iff] at hm hn
  exact Option.some.inj (hm.symm.trans hn)

/-- Nothing with a minus sign in front is read without a sign. -/
theorem not_denotes_neg {s : List Char} {n : Nat} : ¬Denotes ('-' :: s) n := by
  intro hyp
  obtain ⟨digits, heq | heq, -, hdigits, -⟩ := hyp
  · have hdigit : ('-' : Char).isDigit = true := hdigits _ (heq ▸ List.mem_cons_self)
    exact absurd hdigit (by decide)
  · exact absurd (List.cons.inj heq).1 (by decide)

/-! ## What is read of what is written -/

theorem denotes_ofNat (n : Nat) : Denotes (ofNat n) n :=
  ⟨ofNat n, .inl rfl, ofNat_ne_nil n, fun _ => isDigit_of_mem_ofNat, ofDigitChars_ofNat n⟩

/-- What is written for an integer denotes that integer, and no other number. -/
theorem denotes_ofInt_iff {z : Int} {n : Nat} : Denotes (ofInt z) n ↔ z = n := by
  cases z with
  | ofNat m =>
    show Denotes (ofNat m) n ↔ (m : Int) = n
    rw [Int.natCast_inj]
    constructor
    · exact (denotes_ofNat m).unique
    · intro h
      rw [← h]
      exact denotes_ofNat m
  | negSucc m =>
    apply iff_of_false not_denotes_neg
    omega

/-- An integer is read from what is written for it. -/
theorem signed?_ofInt (z : Int) : signed? (ofInt z) = some z := by
  cases z with
  | ofNat n =>
    unfold signed? ofInt
    split
    · next digits heq => exact absurd rfl (ne_sign_of_ofNat_eq_cons heq)
    · rw [unsigned?_eq_some_iff.2 (denotes_ofNat n), Option.map_some]
  | negSucc n =>
    rw [ofInt, signed?, toNat?_ofNat]
    rfl

/-- A canonical literal that is read as an integer is what is written for it. -/
theorem IsIntegerLiteral.eq_ofInt {s : List Char} {z : Int} (h : IsIntegerLiteral s)
    (hread : signed? s = some z) : s = ofInt z := by
  obtain ⟨z', rfl⟩ := isIntegerLiteral_iff.1 h
  rw [signed?_ofInt] at hread
  rw [Option.some.inj hread]

end GuardedUpdate.Decimal
