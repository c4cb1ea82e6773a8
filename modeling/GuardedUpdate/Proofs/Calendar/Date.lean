import GuardedUpdate.Calendar.Date
import Mathlib.Algebra.Ring.Nat
import Mathlib.Order.Monotone.Basic

/-!
# The order of dates

The date of a day is found by estimating its year. A year has begun on a day exactly from the first
day of the year on (`Date.le_year_ofDay_iff`), for all years before and after the year 0, and so
later days have later dates (`Date.ofDay_lt_ofDay`): years first, then months, then days.
-/

namespace GuardedUpdate.Date

/-! ## Years of a cycle -/

/-- A year has 365 days or a day more. -/
theorem daysBefore_succ (y : Nat) :
    daysBefore (y + 1) = daysBefore y + 365 ∨ daysBefore (y + 1) = daysBefore y + 366 := by
  have hfourth : (y + 1 + 3) / 4 = (y + 3) / 4 + if 4 ∣ y then 1 else 0 := by split_ifs <;> omega
  have hcentury : (y + 1 + 99) / 100 = (y + 99) / 100 + if 100 ∣ y then 1 else 0 := by
    split_ifs <;> omega
  have hcycle : (y + 1 + 399) / 400 = (y + 399) / 400 + if 400 ∣ y then 1 else 0 := by
    split_ifs <;> omega
  have hless : (y + 99) / 100 ≤ (y + 3) / 4 := by omega
  rw [daysBefore, daysBefore, hfourth, hcentury, hcycle]
  generalize (y + 3) / 4 = a at *
  generalize (y + 99) / 100 = b at *
  -- Every hundredth year is a fourth one, and every four-hundredth is a hundredth.
  have hcentury4 : 100 ∣ y → 4 ∣ y := by omega
  have hcycle100 : 400 ∣ y → 100 ∣ y := by omega
  split_ifs <;> omega

theorem daysBefore_mono : Monotone daysBefore := by
  apply monotone_nat_of_le_succ
  intro y
  rcases daysBefore_succ y with h | h <;> omega

/-- A year of a cycle has begun on the days from its first one on. -/
theorem le_yearOf_iff {y day : Nat} (h : day < cycleDays) : y ≤ yearOf day ↔ daysBefore y ≤ day := by
  constructor
  · intro hle
    exact (daysBefore_mono hle).trans (daysBefore_yearOf_le h)
  · intro hle
    by_contra hlt
    have hover : day < daysBefore (yearOf day + 1) := lt_daysBefore_yearOf_succ day
    have hbegun : daysBefore (yearOf day + 1) ≤ daysBefore y := daysBefore_mono (by omega)
    omega

/-- A cycle has 400 years. -/
theorem yearOf_lt {day : Nat} (h : day < cycleDays) : yearOf day < 400 := by
  by_contra hle
  have hover : daysBefore 400 ≤ day := (le_yearOf_iff h).1 (by omega)
  have hcycle : daysBefore 400 = cycleDays := rfl
  omega

/-! ## All years -/

/-- The first day of a year. -/
def firstDayOf (year : Int) : Int := year / 400 * cycleDays + daysBefore (year % 400).toNat

theorem dayOfCycle_lt (day : Int) : (day % cycleDays).toNat < cycleDays := by
  unfold cycleDays
  omega

theorem year_ofDay (day : Int) :
    (ofDay day).year = day / cycleDays * 400 + yearOf (day % cycleDays).toNat := rfl

/-- A year has begun on the days from its first one on. -/
theorem le_year_ofDay_iff {year day : Int} : year ≤ (ofDay day).year ↔ firstDayOf year ≤ day := by
  have hcycle := dayOfCycle_lt day
  have hyearOf := yearOf_lt hcycle
  have hbegun : (year % 400).toNat ≤ yearOf (day % cycleDays).toNat ↔
      daysBefore (year % 400).toNat ≤ (day % cycleDays).toNat := le_yearOf_iff hcycle
  have hfirst : daysBefore (year % 400).toNat ≤ daysBefore 399 := daysBefore_mono (by omega)
  have hlast : daysBefore 399 = 145732 := rfl
  -- Both sides compare the cycles first, and then what is left in the cycle.
  have hyears : year ≤ day / cycleDays * 400 + yearOf (day % cycleDays).toNat ↔
      year / 400 < day / cycleDays ∨
        year / 400 = day / cycleDays ∧ (year % 400).toNat ≤ yearOf (day % cycleDays).toNat := by
    clear hbegun hfirst hcycle
    omega
  have hdays : firstDayOf year ≤ day ↔
      year / 400 < day / cycleDays ∨
        year / 400 = day / cycleDays ∧ daysBefore (year % 400).toNat ≤ (day % cycleDays).toNat := by
    clear hbegun hyears hyearOf
    unfold firstDayOf cycleDays at *
    omega
  rw [year_ofDay, hyears, hdays, hbegun]

/-- On later days no earlier year can be. -/
theorem year_ofDay_mono {d e : Int} (h : d ≤ e) : (ofDay d).year ≤ (ofDay e).year :=
  le_year_ofDay_iff.2 ((le_year_ofDay_iff.1 le_rfl).trans h)

/-! ## Months -/

/-- A later day of a year falls into a later month, or further into the same one. -/
theorem splitMonths_lt (lengths : List Nat) {d e : Nat} (h : d < e) :
    (splitMonths lengths d).1 < (splitMonths lengths e).1 ∨
      (splitMonths lengths d).1 = (splitMonths lengths e).1 ∧
        (splitMonths lengths d).2 < (splitMonths lengths e).2 := by
  induction lengths generalizing d e with
  | nil => exact .inr ⟨rfl, h⟩
  | cons length lengths ih =>
    rw [splitMonths, splitMonths]
    split_ifs with hd he he
    · exact .inr ⟨rfl, h⟩
    · exact .inl (Nat.succ_pos _)
    · omega
    · rcases ih (show d - length < e - length by omega) with hmonth | ⟨hmonth, hday⟩
      · exact .inl (Nat.succ_lt_succ hmonth)
      · exact .inr ⟨congrArg Nat.succ hmonth, hday⟩

/-- A day before the end of all months falls into one of them. -/
theorem splitMonths_bounds {lengths : List Nat} {d : Nat} (h : d < lengths.sum) :
    (splitMonths lengths d).1 < lengths.length ∧ ∃ n ∈ lengths, (splitMonths lengths d).2 < n := by
  induction lengths generalizing d with
  | nil => exact absurd h (Nat.not_lt_zero _)
  | cons length lengths ih =>
    rw [splitMonths]
    split_ifs with hd
    · exact ⟨Nat.succ_pos _, length, List.mem_cons_self, hd⟩
    · rw [List.sum_cons] at h
      obtain ⟨hmonths, n, hn, hdays⟩ := ih (show d - length < lengths.sum by omega)
      exact ⟨Nat.succ_lt_succ hmonths, n, List.mem_cons_of_mem _ hn, hdays⟩

/-- The months make up the year. -/
theorem lt_sum_monthLengths {day : Nat} (h : day < cycleDays) :
    day - daysBefore (yearOf day) < (monthLengths (isLeap (yearOf day))).sum := by
  have hover : day < daysBefore (yearOf day + 1) := lt_daysBefore_yearOf_succ day
  have hbegun : daysBefore (yearOf day) ≤ day := daysBefore_yearOf_le h
  have hsum : ∀ leap, (monthLengths leap).sum = if leap then 366 else 365 := by decide
  rw [hsum, isLeap]
  rcases daysBefore_succ (yearOf day) with hyear | hyear
  · rw [if_neg (by simp [hyear])]
    omega
  · rw [if_pos (by simp [hyear])]
    omega

/-- There are twelve months, and none is longer than 31 days. -/
theorem ofDay_bounds (day : Int) :
    (1 ≤ (ofDay day).month ∧ (ofDay day).month ≤ 12) ∧
      1 ≤ (ofDay day).day ∧ (ofDay day).day ≤ 31 := by
  obtain ⟨hmonth, n, hn, hday⟩ := splitMonths_bounds (lt_sum_monthLengths (dayOfCycle_lt day))
  have hlength : ∀ leap, (monthLengths leap).length = 12 := fun _ => rfl
  have hlongest : ∀ leap, ∀ n ∈ monthLengths leap, n ≤ 31 := by decide
  have hn' := hlongest _ n hn
  rw [hlength] at hmonth
  simp only [ofDay]
  omega

/-! ## The order -/

/-- Dates are compared by their years, then by their months, then by their days. -/
instance : LT Date where
  lt d e := d.year < e.year ∨
    d.year = e.year ∧ (d.month < e.month ∨ d.month = e.month ∧ d.day < e.day)

/-- Later days have later dates. -/
theorem ofDay_lt_ofDay {d e : Int} (h : d < e) : ofDay d < ofDay e := by
  rcases (year_ofDay_mono h.le).lt_or_eq with hyear | hyear
  · exact .inl hyear
  · refine .inr ⟨hyear, ?_⟩
    have hd := yearOf_lt (dayOfCycle_lt d)
    have he := yearOf_lt (dayOfCycle_lt e)
    rw [year_ofDay, year_ofDay] at hyear
    -- The same year is the same year of the same cycle.
    have hcycle : d / cycleDays = e / cycleDays := by omega
    have hsame : yearOf (d % cycleDays).toNat = yearOf (e % cycleDays).toNat := by omega
    have hbegun := daysBefore_yearOf_le (dayOfCycle_lt d)
    have hless : (d % cycleDays).toNat < (e % cycleDays).toNat := by
      unfold cycleDays at *
      omega
    have hrest : (d % cycleDays).toNat - daysBefore (yearOf (d % cycleDays).toNat) <
        (e % cycleDays).toNat - daysBefore (yearOf (d % cycleDays).toNat) := by omega
    have hsplit := splitMonths_lt (monthLengths (isLeap (yearOf (d % cycleDays).toNat))) hrest
    simp only [ofDay, ← hsame]
    omega

end GuardedUpdate.Date
