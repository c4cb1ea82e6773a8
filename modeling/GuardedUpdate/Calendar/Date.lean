/-!
# Calendar dates

Dates of the Gregorian calendar, extended to all years before and after; the year 0 exists. Days
are numbered from 1 January of the year 0, and the calendar repeats every 400 years.
-/

namespace GuardedUpdate

/-- A date of the calendar. -/
structure Date where
  /-- The year. -/
  year : Int
  /-- The month, 1 for January. -/
  month : Nat
  /-- The day of the month, from 1. -/
  day : Nat
deriving DecidableEq, Repr

namespace Date

/-- The number of days in 400 years. -/
def cycleDays : Nat := 146097

/-- The number of days in the first `y` years of a cycle. A cycle begins with a leap year. -/
def daysBefore (y : Nat) : Nat := 365 * y + (y + 3) / 4 - (y + 99) / 100 + (y + 399) / 400

/-- The year of a cycle that a day of the cycle falls into. -/
def yearOf (day : Nat) : Nat :=
  -- Leap days can only make the quotient one too large.
  if day < daysBefore (day / 365) then day / 365 - 1 else day / 365

/-- The year of a day of a cycle has begun. -/
theorem daysBefore_yearOf_le {day : Nat} (h : day < cycleDays) : daysBefore (yearOf day) ≤ day := by
  have hq : day / 365 * 365 ≤ day := Nat.div_mul_le_self day 365
  unfold yearOf
  unfold cycleDays at h
  split
  · simp only [daysBefore] at *
    omega
  · omega

/-- The year of a day of a cycle is not over. -/
theorem lt_daysBefore_yearOf_succ (day : Nat) : day < daysBefore (yearOf day + 1) := by
  have hq : day < (day / 365 + 1) * 365 := Nat.lt_mul_of_div_lt (Nat.lt_succ_self _) (by decide)
  unfold yearOf
  split
  · next h =>
    -- The quotient is not zero, since no day comes before the first year.
    have hpos : day / 365 ≠ 0 := fun hz => by simp [hz, daysBefore] at h
    rwa [Nat.sub_add_cancel (Nat.pos_of_ne_zero hpos)]
  · simp only [daysBefore]
    omega

/-- Whether a year of a cycle has a leap day. -/
def isLeap (y : Nat) : Bool := daysBefore (y + 1) - daysBefore y = 366

/-- The lengths of the months. -/
def monthLengths (leap : Bool) : List Nat :=
  [31, if leap then 29 else 28, 31, 30, 31, 30, 31, 31, 30, 31, 30, 31]

/-- Finds the month of a day of the year: how many of the months are over, and how many days of
the one that is not. -/
def splitMonths : (lengths : List Nat) → (day : Nat) → Nat × Nat
  | [], day => (0, day)
  | length :: lengths, day =>
    if day < length then (0, day)
    else
      let (months, days) := splitMonths lengths (day - length)
      (months + 1, days)

/-- The date of a day. -/
def ofDay (day : Int) : Date :=
  let dayOfCycle := (day % cycleDays).toNat
  let year := yearOf dayOfCycle
  let (months, days) := splitMonths (monthLengths (isLeap year)) (dayOfCycle - daysBefore year)
  { year := day / cycleDays * 400 + year, month := months + 1, day := days + 1 }

end Date

end GuardedUpdate
