import GuardedUpdate.Decimal.Binary
import Mathlib.Algebra.Order.Field.Power
import Mathlib.Algebra.Order.Ring.Rat
import Mathlib.Tactic.FieldSimp
import Mathlib.Tactic.Linarith
import Mathlib.Tactic.NormNum
import Mathlib.Tactic.Positivity
import Mathlib.Tactic.Ring

/-!
# Rounding to 64-bit floating point

What `BinaryFormat.round` gives is seen through the values of fractions. Rounding keeps the order of
fractions (`Decimal.value_le_value_of_round`), and it fails exactly from the middle between the
largest number and the next power of two on (`Decimal.round_eq_none_iff`). A product therefore is out
of range exactly if the exact product of the two values is (`Decimal.mul_eq_none_iff`).
-/

namespace GuardedUpdate.Decimal

/-! ## The nearest whole number -/

/-- The nearest whole number of a fraction is one of the two next to it. -/
theorem nearestEven_bounds (num den : Nat) :
    num / den ≤ nearestEven num den ∧ nearestEven num den ≤ num / den + 1 := by
  simp only [nearestEven]
  split
  · omega
  · omega
  · split <;> omega

/-- Which of the two it is depends on what is left over the floor. -/
theorem floor_lt_nearestEven_iff {num den : Nat} :
    num / den < nearestEven num den ↔
      den < 2 * (num % den) ∨ den = 2 * (num % den) ∧ (num / den + 1) % 2 = 0 := by
  rw [nearestEven]
  rcases lt_trichotomy (2 * (num % den)) den with hhalf | hhalf | hhalf
  · rw [Nat.compare_eq_lt.2 hhalf]
    simp only
    omega
  · rw [Nat.compare_eq_eq.2 hhalf]
    simp only
    split <;> omega
  · rw [Nat.compare_eq_gt.2 hhalf]
    simp only
    omega

/-- A whole number is not above the nearest one of a fraction if it is less than a half above the
fraction, or just that and even. -/
theorem le_nearestEven_iff {num den k : Nat} (hden : 0 < den) :
    k ≤ nearestEven num den ↔
      (k : ℚ) < num / den + 1 / 2 ∨ (k : ℚ) = num / den + 1 / 2 ∧ k % 2 = 0 := by
  have hden' : (0 : ℚ) < den := by exact_mod_cast hden
  have hvalue : (num : ℚ) / den = (num / den : Nat) + (num % den : Nat) / den := by
    rw [div_eq_iff hden'.ne', add_mul, div_mul_cancel₀ _ hden'.ne']
    exact_mod_cast (Nat.div_add_mod' num den).symm
  have hrest : (0 : ℚ) ≤ (num % den : Nat) / den ∧ ((num % den : Nat) : ℚ) / den < 1 := by
    refine ⟨by positivity, (div_lt_one hden').2 ?_⟩
    exact_mod_cast Nat.mod_lt num hden
  obtain ⟨hlow, hhigh⟩ := nearestEven_bounds num den
  -- Only for the number next to the floor it depends on the rest.
  rcases lt_trichotomy k (num / den + 1) with hk | rfl | hk
  · have hk' : (k : ℚ) ≤ (num / den : Nat) := by exact_mod_cast Nat.lt_succ_iff.1 hk
    refine iff_of_true (by omega) (.inl ?_)
    linarith
  · have hmore : 1 / 2 < ((num % den : Nat) : ℚ) / den ↔ den < 2 * (num % den) := by
      rw [div_lt_div_iff₀ two_pos hden', one_mul, mul_comm]
      norm_cast
    have hhalf : 1 / 2 = ((num % den : Nat) : ℚ) / den ↔ den = 2 * (num % den) := by
      rw [div_eq_div_iff two_ne_zero hden'.ne', one_mul, mul_comm]
      norm_cast
    rw [Nat.succ_le_iff, floor_lt_nearestEven_iff, ← hmore, ← hhalf, hvalue]
    push_cast
    refine or_congr ?_ (and_congr_left' ?_)
    · constructor <;> intro h <;> linarith
    · constructor <;> intro h <;> linarith
  · have hk' : ((num / den : Nat) : ℚ) + 2 ≤ k := by exact_mod_cast hk
    refine iff_of_false (by omega) ?_
    rintro (h | ⟨h, -⟩) <;> linarith

/-- A larger fraction has no smaller nearest number. -/
theorem nearestEven_le_nearestEven {num den num' den' : Nat} (hden : 0 < den) (hden' : 0 < den')
    (h : (num : ℚ) / den ≤ num' / den') : nearestEven num den ≤ nearestEven num' den' := by
  have hself := (@le_nearestEven_iff num den _ hden).1 le_rfl
  rw [le_nearestEven_iff hden']
  rcases hself with hless | ⟨heq, heven⟩
  · exact .inl (by linarith)
  · rcases h.lt_or_eq with hlt | hsame
    · exact .inl (by linarith)
    · exact .inr ⟨by rw [heq, hsame], heven⟩

/-! ## Units -/

theorem cast_twoTo (k : Nat) : (twoTo k : ℚ) = 2 ^ k := by
  rw [show twoTo k = 2 ^ k from rfl, Nat.cast_pow, Nat.cast_ofNat]

theorem twoTo_pos (k : Nat) : 0 < twoTo k := Nat.pow_pos two_pos

/-- A power of two with a whole exponent as a quotient of two powers. -/
theorem zpow_eq_div (e : Int) : (2 : ℚ) ^ e = 2 ^ e.toNat / 2 ^ (-e).toNat := by
  rcases le_total 0 e with h | h
  · obtain ⟨n, rfl⟩ := Int.eq_ofNat_of_zero_le h
    have hnone : (-(n : Int)).toNat = 0 := by omega
    rw [zpow_natCast, Int.toNat_natCast, hnone, pow_zero, div_one]
  · obtain ⟨n, hn⟩ := Int.eq_ofNat_of_zero_le (Int.neg_nonneg_of_nonpos h)
    have hnone : e.toNat = 0 := by omega
    rw [hn, Int.toNat_natCast, hnone, pow_zero, one_div, ← zpow_natCast, ← zpow_neg, ← hn, neg_neg]

/-- A fraction counted in units of a power of two. -/
theorem scaled_div (num den : Nat) (e : Int) :
    ((num * twoTo (-e).toNat : Nat) : ℚ) / (den * twoTo e.toNat : Nat) = num / den / 2 ^ e := by
  rw [zpow_eq_div, Nat.cast_mul, Nat.cast_mul, cast_twoTo, cast_twoTo]
  field_simp

/-- The binary logarithms of its parts bound a fraction up to a factor of two on either side. -/
theorem log2_bounds {num den : Nat} (hnum : 0 < num) (hden : 0 < den) :
    (2 : ℚ) ^ ((num.log2 : Int) - den.log2 - 1) ≤ num / den ∧
      (num / den : ℚ) < 2 ^ ((num.log2 : Int) - den.log2 + 1) := by
  have hden' : (0 : ℚ) < den := by exact_mod_cast hden
  have hnumLow : (2 : ℚ) ^ num.log2 ≤ num := by exact_mod_cast Nat.log2_self_le hnum.ne'
  have hnumHigh : (num : ℚ) < 2 ^ (num.log2 + 1) := by exact_mod_cast Nat.lt_log2_self
  have hdenLow : (2 : ℚ) ^ den.log2 ≤ den := by exact_mod_cast Nat.log2_self_le hden.ne'
  have hdenHigh : (den : ℚ) < 2 ^ (den.log2 + 1) := by exact_mod_cast Nat.lt_log2_self
  constructor
  · rw [le_div_iff₀ hden']
    calc (2 : ℚ) ^ ((num.log2 : Int) - den.log2 - 1) * den
        ≤ 2 ^ ((num.log2 : Int) - den.log2 - 1) * 2 ^ (den.log2 + 1) := by gcongr
      _ = 2 ^ num.log2 := by
        rw [← zpow_natCast, ← zpow_natCast, ← zpow_add₀ two_ne_zero]
        congr 1
        push_cast
        ring
      _ ≤ num := hnumLow
  · rw [div_lt_iff₀ hden']
    calc (num : ℚ) < 2 ^ (num.log2 + 1) := hnumHigh
      _ = 2 ^ ((num.log2 : Int) - den.log2 + 1) * 2 ^ den.log2 := by
        rw [← zpow_natCast, ← zpow_natCast, ← zpow_add₀ two_ne_zero]
        congr 1
        push_cast
        ring
      _ ≤ 2 ^ ((num.log2 : Int) - den.log2 + 1) * den := by gcongr

/-- A fraction has fewer units than a power of two exactly if it is below that many units. -/
theorem scaled_lt_iff {num den k : Nat} (hden : 0 < den) (e : Int) :
    num * twoTo (-e).toNat < den * twoTo e.toNat * twoTo k ↔
      (num / den : ℚ) < 2 ^ (e + k) := by
  have hunits : (0 : ℚ) < (den * twoTo e.toNat : Nat) := by
    exact_mod_cast Nat.mul_pos hden (twoTo_pos _)
  rw [zpow_add₀ two_ne_zero, zpow_natCast, ← div_lt_iff₀' (by positivity), ← scaled_div,
    div_lt_iff₀ hunits, ← cast_twoTo, ← Nat.cast_mul, Nat.cast_lt, mul_comm (twoTo k)]

/-- The unit of a fraction is the one in which it has 53 bits, or the least one, in which it may have
fewer. -/
theorem unitExponent_bounds {num den : Nat} (hnum : 0 < num) (hden : 0 < den) :
    -1074 ≤ binary64.unitExponent num den ∧
      (num / den : ℚ) < 2 ^ (binary64.unitExponent num den + 53) ∧
      (binary64.unitExponent num den = -1074 ∨
        (2 : ℚ) ^ (binary64.unitExponent num den + 52) ≤ num / den) := by
  obtain ⟨hlow, hhigh⟩ := log2_bounds hnum hden
  have hunit : binary64.unitExponent num den =
      max (-1074) (if (num / den : ℚ) < 2 ^ ((num.log2 : Int) - den.log2) then
        (num.log2 : Int) - den.log2 - 53 else (num.log2 : Int) - den.log2 - 52) := by
    have hfull := @scaled_lt_iff num den 52 hden ((num.log2 : Int) - den.log2 - 52)
    rw [Nat.cast_ofNat, sub_add_cancel] at hfull
    have hhigh : (num.log2 : Int) - den.log2 - (binary64.precision - 1) = num.log2 - den.log2 - 52 :=
      rfl
    have hbits : binary64.precision - 1 = 52 := rfl
    simp only [BinaryFormat.unitExponent, hhigh, hbits, hfull]
    rw [sub_sub]
    rfl
  rw [hunit]
  -- The least unit is taken where the one that would do is smaller.
  have hcandidate : ∀ e : Int, (num / den : ℚ) < 2 ^ (e + 53) → (2 : ℚ) ^ (e + 52) ≤ num / den →
      -1074 ≤ max (-1074) e ∧ (num / den : ℚ) < 2 ^ (max (-1074) e + 53) ∧
        (max (-1074) e = -1074 ∨ (2 : ℚ) ^ (max (-1074) e + 52) ≤ num / den) := by
    intro e he he'
    rcases le_total (-1074) e with hle | hle
    · rw [max_eq_right hle]
      exact ⟨hle, he, .inr he'⟩
    · rw [max_eq_left hle]
      refine ⟨le_rfl, he.trans_le ?_, .inl rfl⟩
      exact zpow_le_zpow_right₀ one_le_two (by omega)
  split_ifs with hfull
  · apply hcandidate
    · rwa [sub_add_cancel]
    · rwa [show (num.log2 : Int) - den.log2 - 53 + 52 = num.log2 - den.log2 - 1 by ring]
  · apply hcandidate
    · rwa [show (num.log2 : Int) - den.log2 - 52 + 53 = num.log2 - den.log2 + 1 by ring]
    · rw [sub_add_cancel]
      exact not_lt.1 hfull

/-! ## Rounded fractions -/

/-- The value of a floating-point number. -/
def Magnitude.value (x : Magnitude) : ℚ := x.significand * 2 ^ x.exponent

theorem Magnitude.value_nonneg (x : Magnitude) : 0 ≤ x.value := by
  unfold value
  positivity

/-- How many units a fraction is rounded to. -/
def unitsOf (num den : Nat) : Nat :=
  nearestEven (num * twoTo (-binary64.unitExponent num den).toNat)
    (den * twoTo (binary64.unitExponent num den).toNat)

theorem le_unitsOf_iff {num den k : Nat} (hden : 0 < den) :
    k ≤ unitsOf num den ↔
      (k : ℚ) < num / den / 2 ^ binary64.unitExponent num den + 1 / 2 ∨
        (k : ℚ) = num / den / 2 ^ binary64.unitExponent num den + 1 / 2 ∧ k % 2 = 0 := by
  rw [unitsOf, le_nearestEven_iff (Nat.mul_pos hden (twoTo_pos _)), scaled_div]

/-- There are never more units than 53 bits hold, and the first number of more bits. -/
theorem unitsOf_le {num den : Nat} (hnum : 0 < num) (hden : 0 < den) :
    unitsOf num den ≤ 2 ^ 53 := by
  obtain ⟨-, hhigh, -⟩ := unitExponent_bounds hnum hden
  have hunits : (num / den : ℚ) / 2 ^ binary64.unitExponent num den < 2 ^ 53 := by
    rw [div_lt_iff₀ (by positivity), ← zpow_natCast, ← zpow_add₀ two_ne_zero, add_comm]
    exact hhigh
  by_contra hmore
  rw [not_le, ← Nat.succ_le_iff, le_unitsOf_iff hden] at hmore
  push_cast at hmore
  rcases hmore with h | ⟨h, -⟩ <;> linarith

/-- Above the least unit all 53 bits are needed. -/
theorem le_unitsOf {num den : Nat} (hnum : 0 < num) (hden : 0 < den)
    (h : binary64.unitExponent num den ≠ -1074) : 2 ^ 52 ≤ unitsOf num den := by
  obtain ⟨-, -, hlow⟩ := unitExponent_bounds hnum hden
  have hunits : (2 : ℚ) ^ 52 ≤ num / den / 2 ^ binary64.unitExponent num den := by
    rw [le_div_iff₀ (by positivity), ← zpow_natCast, ← zpow_add₀ two_ne_zero, add_comm]
    exact hlow.resolve_left h
  rw [le_unitsOf_iff hden]
  push_cast
  exact .inl (by linarith)

/-- Rounding gives the units, unless the power of two that is then needed is too large. -/
theorem round_eq {num den : Nat} (hnum : 0 < num) :
    binary64.round num den =
      if unitsOf num den = 2 ^ 53 then
        if binary64.unitExponent num den + 1 ≤ 971 then
          some ⟨2 ^ 52, binary64.unitExponent num den + 1⟩
        else none
      else if binary64.unitExponent num den ≤ 971 then
        some ⟨unitsOf num den, binary64.unitExponent num den⟩
      else none := by
  have hfirst : twoTo binary64.precision = 2 ^ 53 := rfl
  have hhalf : twoTo (binary64.precision - 1) = 2 ^ 52 := rfl
  have hgreatest : binary64.greatestExponent = 971 := rfl
  simp only [BinaryFormat.round, if_neg hnum.ne', hfirst, hhalf, hgreatest]
  rw [unitsOf]
  generalize nearestEven _ _ = units
  by_cases hfull : units = 2 ^ 53
  · simp only [if_pos hfull]
  · simp only [if_neg hfull]

/-- What rounding gives is worth its units. -/
theorem value_of_round {num den : Nat} {x : Magnitude} (hnum : 0 < num)
    (h : binary64.round num den = some x) :
    x.value = unitsOf num den * 2 ^ binary64.unitExponent num den := by
  rw [round_eq hnum] at h
  split_ifs at h with hfull
  · -- The first number of more bits is half as many of the next unit.
    rw [← Option.some.inj h, Magnitude.value, hfull, zpow_add_one₀ two_ne_zero]
    push_cast
    ring
  · rw [← Option.some.inj h, Magnitude.value]

/-- The least value that is out of range: half a unit above the largest number. -/
def rangeEnd : ℚ := (2 ^ 54 - 1) * 2 ^ (970 : Int)

theorem rangeEnd_pos : 0 < rangeEnd := by
  unfold rangeEnd
  exact mul_pos (by norm_num) (by positivity)

theorem round_zero (den : Nat) : binary64.round 0 den = some ⟨0, -1074⟩ := rfl

/-- In the largest unit a fraction is rounded to one more bit exactly if it is out of range. -/
theorem unitsOf_eq_iff {num den : Nat} (hnum : 0 < num) (hden : 0 < den)
    (h : binary64.unitExponent num den = 971) :
    unitsOf num den = 2 ^ 53 ↔ rangeEnd ≤ num / den := by
  have hunit : (2 : ℚ) ^ (971 : Int) = 2 ^ (970 : Int) * 2 := zpow_add_one₀ two_ne_zero 970
  have hpos : (0 : ℚ) < 2 ^ (970 : Int) := by positivity
  have hscaled : rangeEnd ≤ num / den ↔ (2 ^ 54 - 1) / 2 ≤ (num / den : ℚ) / 2 ^ (971 : Int) := by
    rw [hunit, ← div_div, div_le_div_iff_of_pos_right two_pos, le_div_iff₀ hpos, rangeEnd]
  have hcast : ((2 ^ 53 : Nat) : ℚ) = 2 ^ 53 := by norm_num
  have heq : unitsOf num den = 2 ^ 53 ↔ 2 ^ 53 ≤ unitsOf num den :=
    ⟨fun h => h.ge, fun h => le_antisymm (unitsOf_le hnum hden) h⟩
  rw [heq, le_unitsOf_iff hden, h, hscaled, hcast]
  constructor
  · rintro (h | ⟨h, -⟩) <;> linarith
  · intro h
    rcases h.lt_or_eq with hless | hsame
    · exact .inl (by linarith)
    · exact .inr ⟨by linarith, by decide⟩

/-- Rounding fails exactly out of range. -/
theorem round_eq_none_iff {num den : Nat} (hden : 0 < den) :
    binary64.round num den = none ↔ rangeEnd ≤ num / den := by
  rcases Nat.eq_zero_or_pos num with rfl | hnum
  · rw [round_zero]
    refine iff_of_false nofun (not_le.2 ?_)
    rw [Nat.cast_zero, zero_div]
    exact rangeEnd_pos
  obtain ⟨-, hhigh, hlow⟩ := unitExponent_bounds hnum hden
  have hlargest := unitsOf_eq_iff hnum hden
  rw [round_eq hnum]
  generalize binary64.unitExponent num den = e at *
  rcases lt_trichotomy e 971 with he | rfl | he
  · -- A smaller unit is not enough to get out of range.
    have hbelow : (num / den : ℚ) < rangeEnd := by
      calc (num / den : ℚ) < 2 ^ (e + 53) := hhigh
        _ ≤ 2 ^ ((53 : Int) + 970) := zpow_le_zpow_right₀ one_le_two (by omega)
        _ = 2 ^ 53 * 2 ^ (970 : Int) := zpow_add₀ two_ne_zero 53 970
        _ ≤ rangeEnd := by unfold rangeEnd; gcongr; norm_num
    refine iff_of_false ?_ (not_le.2 hbelow)
    split_ifs with hfull hlarge hlarge
    · nofun
    · omega
    · nofun
    · omega
  · -- With the largest unit it depends on the rounding of the units.
    rw [← hlargest rfl, if_neg (by decide : ¬(971 : Int) + 1 ≤ 971), if_pos (le_refl (971 : Int))]
    split_ifs with hfull
    · exact iff_of_true rfl hfull
    · exact iff_of_false nofun hfull
  · -- A larger unit is only needed out of range.
    have habove : rangeEnd ≤ num / den := by
      calc rangeEnd ≤ 2 ^ 54 * 2 ^ (970 : Int) := by unfold rangeEnd; gcongr; norm_num
        _ = 2 ^ ((54 : Int) + 970) := (zpow_add₀ two_ne_zero 54 970).symm
        _ ≤ 2 ^ (e + 52) := zpow_le_zpow_right₀ one_le_two (by omega)
        _ ≤ num / den := hlow.resolve_left (by omega)
    refine iff_of_true ?_ habove
    split_ifs with hfull hlarge hlarge
    · omega
    · rfl
    · omega
    · rfl

/-- A larger fraction has no smaller unit. -/
theorem unitExponent_le_unitExponent {num den num' den' : Nat} (hnum : 0 < num) (hden : 0 < den)
    (hnum' : 0 < num') (hden' : 0 < den') (h : (num : ℚ) / den ≤ num' / den') :
    binary64.unitExponent num den ≤ binary64.unitExponent num' den' := by
  obtain ⟨-, -, hlow⟩ := unitExponent_bounds hnum hden
  obtain ⟨hleast, hhigh, -⟩ := unitExponent_bounds hnum' hden'
  rcases hlow with heq | hlow
  · rwa [heq]
  · have hpowers := (hlow.trans h).trans_lt hhigh
    have hexponents := (zpow_lt_zpow_iff_right₀ one_lt_two).1 hpowers
    omega

/-- A larger fraction is not rounded to a smaller number. -/
theorem value_le_value_of_round {num den num' den' : Nat} {x y : Magnitude} (hden : 0 < den)
    (hden' : 0 < den') (h : (num : ℚ) / den ≤ num' / den') (hx : binary64.round num den = some x)
    (hy : binary64.round num' den' = some y) : x.value ≤ y.value := by
  rcases Nat.eq_zero_or_pos num with rfl | hnum
  · rw [round_zero] at hx
    rw [← Option.some.inj hx]
    simpa [Magnitude.value] using y.value_nonneg
  have hnum' : 0 < num' := by
    by_contra hzero
    have hpos : 0 < (num : ℚ) / den := by positivity
    rw [Nat.eq_zero_of_not_pos hzero, Nat.cast_zero, zero_div] at h
    linarith
  have hleast := (unitExponent_bounds hnum hden).1
  rw [value_of_round hnum hx, value_of_round hnum' hy]
  rcases (unitExponent_le_unitExponent hnum hden hnum' hden' h).lt_or_eq with hless | hsame
  · -- All of the smaller units are no more than the least number of the larger ones.
    have hmost : (unitsOf num den : ℚ) ≤ 2 ^ 53 := by exact_mod_cast unitsOf_le hnum hden
    have hfew : (2 : ℚ) ^ 52 ≤ unitsOf num' den' := by
      exact_mod_cast le_unitsOf hnum' hden' (by omega)
    calc (unitsOf num den : ℚ) * 2 ^ binary64.unitExponent num den
        ≤ 2 ^ 53 * 2 ^ binary64.unitExponent num den := by gcongr
      _ = 2 ^ 52 * 2 ^ (binary64.unitExponent num den + 1) := by
        rw [zpow_add_one₀ two_ne_zero]
        ring
      _ ≤ 2 ^ 52 * 2 ^ binary64.unitExponent num' den' := by
        gcongr
        · exact one_le_two
        · omega
      _ ≤ unitsOf num' den' * 2 ^ binary64.unitExponent num' den' := by gcongr
  · have hunits : unitsOf num den ≤ unitsOf num' den' := by
      apply nearestEven_le_nearestEven (Nat.mul_pos hden (twoTo_pos _))
        (Nat.mul_pos hden' (twoTo_pos _))
      rw [scaled_div, scaled_div, hsame]
      gcongr
    rw [hsame]
    gcongr

/-- A product is out of range exactly if the product of the values is. -/
theorem mul_eq_none_iff {x y : Magnitude} :
    binary64.mul x y = none ↔ rangeEnd ≤ x.value * y.value := by
  have hvalue : ((x.significand * y.significand * twoTo (x.exponent + y.exponent).toNat : Nat) : ℚ) /
      (twoTo (-(x.exponent + y.exponent)).toNat : Nat) = x.value * y.value := by
    rw [Nat.cast_mul, cast_twoTo, cast_twoTo, mul_div_assoc, ← zpow_eq_div,
      zpow_add₀ two_ne_zero, Magnitude.value, Magnitude.value]
    push_cast
    ring
  rw [BinaryFormat.mul, round_eq_none_iff (twoTo_pos _), hvalue]

end GuardedUpdate.Decimal
