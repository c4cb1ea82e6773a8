import GuardedUpdate.Proofs.Decimal.Rounding
import GuardedUpdate.Proofs.Json.Number

/-!
# Whole numbers that do not fit 64 bits

The text of a whole number that is too long for 64 bits is read as a floating-point number: as many
digits as fit make up the significand, and those that are left move the point
(`Json.Numeral.takeDigits_ofNat`). With more of either the product of significand and power of ten
does not get smaller, so that there is one number from which on nothing is read any more
(`Json.Numeral.float?_ofNat_eq_none_iff`).
-/

namespace GuardedUpdate.Json.Numeral

open Decimal

/-! ## The digits that are taken -/

/-- A digit at the end is taken if none before it was left and the significand still fits. -/
theorem takeDigits_append_singleton (significand : Nat) (digits : List Char) (c : Char) :
    takeDigits significand (digits ++ [c]) =
      if (takeDigits significand digits).2 = 0 ∧
          (takeDigits significand digits).1 * 10 + (c.toNat - '0'.toNat) < UInt64.size then
        ((takeDigits significand digits).1 * 10 + (c.toNat - '0'.toNat), 0)
      else ((takeDigits significand digits).1, (takeDigits significand digits).2 + 1) := by
  induction digits generalizing significand with
  | nil =>
    simp only [List.nil_append, takeDigits, List.length_nil, true_and]
  | cons d digits ih =>
    rw [List.cons_append, takeDigits, takeDigits]
    split_ifs with hnext hlast hlast
    · rw [ih, if_pos hlast]
    · rw [ih, if_neg hlast]
    · simp at hlast
    · rw [List.length_append, List.length_singleton]

/-- A place of a sequence is the first one with a number that fits 64 bits. -/
def FirstFit (front : Nat → Nat) (place : Nat) : Prop :=
  front place < UInt64.size ∧ ∀ k < place, UInt64.size ≤ front k

/-- A number in front that does not fit moves the place on. -/
theorem FirstFit.succ {front : Nat → Nat} {place : Nat} (h : FirstFit (front <| · + 1) place)
    (hzero : UInt64.size ≤ front 0) : FirstFit front (place + 1) := by
  refine ⟨h.1, ?_⟩
  intro k hk
  cases k with
  | zero => exact hzero
  | succ k => exact h.2 k (Nat.lt_of_succ_lt_succ hk)

/-- A number without its last digit, and then without more of them. -/
theorem div_pow_succ (n k : Nat) : n / 10 ^ (k + 1) = n / 10 / 10 ^ k := by
  rw [Nat.pow_succ', Nat.div_div_eq_div_mul]

/-- The digits of a number are taken but for the last ones, of which as few are left as possible. -/
theorem takeDigits_ofNat (n : Nat) :
    ∃ dropped, takeDigits 0 (ofNat n) = (n / 10 ^ dropped, dropped) ∧
      FirstFit (n / 10 ^ ·) dropped := by
  -- The last digit is taken off, as it is written last.
  induction n using Nat.strongRecOn with
  | ind n ih =>
    have hdigit : (n % 10).digitChar.toNat - '0'.toNat = n % 10 :=
      Nat.toNat_digitChar_sub_48_of_lt_ten (Nat.mod_lt _ (by decide))
    have hwhole : n / 10 ^ 0 = n := by rw [Nat.pow_zero, Nat.div_one]
    by_cases hn : n < 10
    · have hsize : n < UInt64.size := hn.trans (by decide)
      refine ⟨0, ?_, by simpa [FirstFit] using hsize⟩
      rw [Nat.mod_eq_of_lt hn] at hdigit
      rw [ofNat, Nat.toDigits_of_lt_base hn, takeDigits, hdigit, hwhole]
      simp only [Nat.zero_mul, Nat.zero_add, if_pos hsize, takeDigits]
    · have hlast : ofNat n = ofNat (n / 10) ++ [(n % 10).digitChar] :=
        Nat.toDigits_of_base_le (by decide) (by omega)
      obtain ⟨dropped, htaken, hfirst⟩ := ih (n / 10) (by omega)
      rw [hlast, takeDigits_append_singleton, htaken, hdigit]
      dsimp only
      split_ifs with hall
      · obtain ⟨rfl, hsize⟩ := hall
        have hdigits : n / 10 / 10 ^ 0 * 10 + n % 10 = n := by omega
        rw [hdigits] at hsize ⊢
        exact ⟨0, by rw [hwhole], by simpa [FirstFit] using hsize⟩
      · refine ⟨dropped + 1, by rw [div_pow_succ], FirstFit.succ ?_ ?_⟩
        · simpa only [div_pow_succ] using hfirst
        · rcases Nat.eq_zero_or_pos dropped with rfl | hpos
          · omega
          · have hrest : UInt64.size ≤ n / 10 / 10 ^ 0 := hfirst.2 0 hpos
            omega

/-! ## The power of ten -/

/-- The product of a significand and a power of ten, each rounded before and the product after, if
it is in range. -/
def product? (significand power : Nat) : Option Magnitude :=
  (binary64.round significand 1).bind (scaleOnce power)

/-- A product is out of range if the product of the rounded numbers is. -/
theorem product?_eq_none_iff {m p : Nat} :
    product? m p = none ↔ ∀ x y, binary64.round m 1 = some x →
      binary64.round (tenTo p) 1 = some y → rangeEnd ≤ x.value * y.value := by
  have hscale : ∀ x, scaleOnce p x = (binary64.round (tenTo p) 1).bind (binary64.mul x) := by
    intro x
    rw [scaleOnce, if_pos (Int.natCast_nonneg p)]
    rfl
  simp only [product?, hscale, Option.bind_eq_none_iff, mul_eq_none_iff]
  constructor
  · intro h x y hx hy
    exact h x hx y hy
  · intro h x hx y hy
    exact h x y hx hy

/-- Where a number is rounded, a smaller one is too, and not to more. -/
theorem exists_round_le {a b : Nat} {y : Magnitude} (hab : a ≤ b)
    (hy : binary64.round b 1 = some y) :
    ∃ x, binary64.round a 1 = some x ∧ x.value ≤ y.value := by
  have hfraction : (a : ℚ) / (1 : Nat) ≤ b / (1 : Nat) := by gcongr
  cases hx : binary64.round a 1 with
  | none =>
    have hnone : binary64.round b 1 = none :=
      (round_eq_none_iff Nat.one_pos).2 (((round_eq_none_iff Nat.one_pos).1 hx).trans hfraction)
    rw [hnone] at hy
    cases hy
  | some x => exact ⟨x, rfl, value_le_value_of_round Nat.one_pos Nat.one_pos hfraction hx hy⟩

/-- With more of either the product does not come back into range. -/
theorem product?_eq_none_of_le {m m' p p' : Nat} (hm : m ≤ m') (hp : p ≤ p')
    (h : product? m p = none) : product? m' p' = none := by
  have hpower : tenTo p ≤ tenTo p' := Nat.pow_le_pow_right (by decide) hp
  rw [product?_eq_none_iff] at h ⊢
  intro x' y' hx' hy'
  obtain ⟨x, hx, hxle⟩ := exists_round_le hm hx'
  obtain ⟨y, hy, hyle⟩ := exists_round_le hpower hy'
  calc rangeEnd ≤ x.value * y.value := h x y hx hy
    _ ≤ x'.value * y'.value := mul_le_mul hxle hyle y.value_nonneg x'.value_nonneg

/-- The least whole number that is out of range: of its digits the first twenty stand, and the others
only count. -/
def integerEnd : Nat := 17976931348623156225 * 10 ^ 289

theorem size_lt_integerEnd : UInt64.size < integerEnd := by decide +kernel

/-- The products on both sides of the end of the range. -/
theorem product?_at_end :
    (product? 18446744073709551615 288 ≠ none ∧ product? 17976931348623156224 289 ≠ none) ∧
      product? 17976931348623156225 289 = none ∧ product? 1844674407370955161 290 = none := by
  decide +kernel

/-- What a number other than zero is rounded to is not zero. -/
theorem significand_ne_zero {m : Nat} {x : Magnitude} (hm : 0 < m)
    (hx : binary64.round m 1 = some x) : x.significand ≠ 0 := by
  intro hzero
  obtain ⟨y, hy, hle⟩ := exists_round_le (Nat.succ_le_of_lt hm) hx
  have hone : binary64.round 1 1 = some ⟨4503599627370496, -52⟩ := by decide +kernel
  rw [hone, Option.some.injEq] at hy
  rw [← hy, Magnitude.value, Magnitude.value, hzero] at hle
  norm_num at hle

/-- A power of ten without a minus sign either is a factor or takes everything out of range. -/
theorem scale_natCast (power : Nat) {m : Nat} {x : Magnitude} (hm : 0 < m)
    (hx : binary64.round m 1 = some x) :
    scale power x = if 308 < power then none else scaleOnce power x := by
  have hsmall : ¬(power : Int) < -308 := by omega
  have hlarge : (308 : Int) < power ↔ 308 < power := by omega
  rw [scale, if_neg hsmall, if_neg (significand_ne_zero hm hx)]
  simp only [hlarge]

/-- Without fraction and power the digits alone make the floating-point number. -/
theorem float?_eq_map {negative : Bool} {whole : List Char} {significand dropped : Nat}
    (h : takeDigits 0 whole = (significand, dropped)) :
    (⟨negative, whole, [], none⟩ : Numeral).float? =
      ((binary64.round significand 1).bind (scale dropped)).map (.float negative) := by
  have hpower : (none : Option Int).getD 0 + dropped - (([] : List Char).length - 0 : Nat) =
      dropped := by simp
  simp only [float?, h, takeDigits, hpower]
  cases binary64.round significand 1 with
  | none => rfl
  | some x => cases hx : scale dropped x <;> simp [hx]

section

-- A number without its last digits, one more of them from step to step.
variable (front : Nat → Nat) (hstep : ∀ k, front (k + 1) = front k / 10)
include hstep

/-- Where digits are left over, those that are taken fill 64 bits. -/
theorem FirstFit.full {dropped : Nat} (h : FirstFit front dropped) (hpos : 0 < dropped) :
    1844674407370955161 ≤ front dropped := by
  obtain ⟨k, rfl⟩ := Nat.exists_eq_add_of_lt hpos
  have hsize : UInt64.size = 18446744073709551616 := rfl
  have hrest := h.2 (0 + k) (Nat.lt_succ_self _)
  rw [hstep]
  omega

/-- The digits that are taken and the number of those left are out of range together exactly from a
certain number of 309 digits on. -/
theorem FirstFit.product?_eq_none_iff {dropped : Nat} (h : FirstFit front dropped) :
    308 < dropped ∨ product? (front dropped) dropped = none ↔
      17976931348623156225 ≤ front 289 := by
  obtain ⟨⟨hin288, hin289⟩, hout289, hout290⟩ := product?_at_end
  have hsize : UInt64.size = 18446744073709551616 := rfl
  have hfits := h.1
  have hanti : Antitone front := antitone_nat_of_succ_le fun k => by
    rw [hstep]
    exact Nat.div_le_self _ _
  constructor
  · intro hout
    by_contra hless
    have hfew : dropped ≤ 289 := by
      by_contra hmany
      have hrest := h.2 289 (by omega)
      omega
    have hnone := hout.resolve_left (by omega)
    rcases hfew.lt_or_eq with hlt | rfl
    · exact hin288 (product?_eq_none_of_le (by omega) (by omega) hnone)
    · exact hin289 (product?_eq_none_of_le (by omega) le_rfl hnone)
  · intro hout
    have hmany : 289 ≤ dropped := by
      by_contra hfew
      have hless : front 289 ≤ front (dropped + 1) := hanti (by omega)
      rw [hstep dropped] at hless
      omega
    right
    rcases hmany.lt_or_eq with hlt | rfl
    · exact product?_eq_none_of_le (h.full front hstep (by omega)) hlt hout290
    · exact product?_eq_none_of_le hout le_rfl hout289

end

/-- A whole number is out of range as a floating-point number exactly from a certain number on. -/
theorem float?_ofNat_eq_none_iff {negative : Bool} {n : Nat} (hn : 0 < n) :
    (⟨negative, ofNat n, [], none⟩ : Numeral).float? = none ↔ integerEnd ≤ n := by
  obtain ⟨dropped, htaken, hfirst⟩ := takeDigits_ofNat n
  have hstep : ∀ k, n / 10 ^ (k + 1) = n / 10 ^ k / 10 := fun k => by
    rw [Nat.pow_succ, Nat.div_div_eq_div_mul]
  have hpos : 0 < n / 10 ^ dropped := by
    rcases Nat.eq_zero_or_pos dropped with rfl | hdropped
    · rwa [Nat.pow_zero, Nat.div_one]
    · exact (by decide : 0 < 1844674407370955161).trans_le (hfirst.full _ hstep hdropped)
  have hproduct : (binary64.round (n / 10 ^ dropped) 1).bind (scale dropped) = none ↔
      308 < dropped ∨ product? (n / 10 ^ dropped) dropped = none := by
    rw [product?]
    cases hx : binary64.round (n / 10 ^ dropped) 1 with
    | none => simp
    | some x => simp [scale_natCast dropped hpos hx, or_iff_not_imp_left]
  have hend : ∀ k, 17976931348623156225 ≤ n / 10 ^ k ↔ 17976931348623156225 * 10 ^ k ≤ n :=
    fun k => Nat.le_div_iff_mul_le (Nat.pow_pos (by decide))
  rw [float?_eq_map htaken, Option.map_eq_none_iff, hproduct,
    hfirst.product?_eq_none_iff _ hstep, integerEnd]
  exact hend 289

/-- Below this number there is a floating-point number. -/
theorem exists_float?_ofNat (negative : Bool) {n : Nat} (hn : 0 < n) (h : n < integerEnd) :
    ∃ x, (⟨negative, ofNat n, [], none⟩ : Numeral).float? = some (.float negative x) := by
  obtain ⟨dropped, htaken, -⟩ := takeDigits_ofNat n
  have hsome : (⟨negative, ofNat n, [], none⟩ : Numeral).float? ≠ none :=
    fun hnone => h.not_ge ((float?_ofNat_eq_none_iff hn).1 hnone)
  obtain ⟨number, hnumber⟩ := Option.ne_none_iff_exists'.1 hsome
  rw [float?_eq_map htaken] at hnumber ⊢
  obtain ⟨x, -, rfl⟩ := Option.map_eq_some_iff.1 hnumber
  exact ⟨x, hnumber⟩

end GuardedUpdate.Json.Numeral
