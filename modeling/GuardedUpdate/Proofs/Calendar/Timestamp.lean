import GuardedUpdate.Proofs.Calendar.Instant
import GuardedUpdate.Proofs.Decimal.Columns
import GuardedUpdate.Proofs.Text.ByteOrder

/-!
# The order of timestamps

Between the years 0 and 9999 a timestamp is a row of numbers in columns: date, time of day, and
milliseconds. The row grows with the instant, also through a leap second, which lies between the
second 59 and the next minute; so timestamps are ordered as their instants, cut off to the
millisecond (`Instant.timestamp_lt_iff`), and a store that compares their bytes sorts by time
(`Instant.timestamps_in_order`).
-/

namespace GuardedUpdate.Instant

/-! ## Rows -/

/-- The columns of a timestamp. -/
def columns : List (Nat × Char) :=
  [(4, '-'), (2, '-'), (2, 'T'), (2, ':'), (2, ':'), (2, '.'), (3, 'Z')]

/-- Hours, minutes, seconds and milliseconds of a second of the day and its nanoseconds. -/
def clock (second nanos : Nat) : List Nat :=
  [second / 3600, second / 60 % 60, second % 60 + nanos / 1000000000,
    nanos % 1000000000 / 1000000]

/-- The numbers in a timestamp. -/
def row (t : Instant) : List Nat :=
  t.date.year.toNat :: t.date.month :: t.date.day :: clock t.secondOfDay t.nanos

/-- A timestamp is its row of numbers laid out in columns. -/
theorem toList_timestamp {t : Instant} (h : t.InYears 0 9999) :
    t.timestamp.toList = Decimal.layOut columns t.row := by
  have hyear : yearText t.date.year = Decimal.padded 4 t.date.year.toNat := if_pos h
  simp [timestamp, dateText, hyear, columns, row, clock, Decimal.layOut]

theorem secondOfDay_lt (t : Instant) : t.secondOfDay < 86400 := by
  unfold secondOfDay
  omega

/-- A leap second follows only the last second of a minute. -/
theorem leap_of_day (t : Instant) :
    t.nanos < 1000000000 ∨ t.nanos < 2000000000 ∧ t.secondOfDay % 60 = 59 := by
  have hleap := t.nanosFit
  unfold secondOfDay
  omega

/-- The numbers in a timestamp fit their columns. -/
theorem row_fits {t : Instant} (h : t.InYears 0 9999) : List.Forall₂ Decimal.Fits columns t.row := by
  have hdate := Date.ofDay_bounds t.day
  have hsecond := t.secondOfDay_lt
  have hleap := t.leap_of_day
  have hlow : 0 ≤ t.date.year := h.1
  have hhigh : t.date.year ≤ 9999 := h.2
  simp only [columns, row, clock, date, List.forall₂_cons, List.forall₂_nil_left_iff,
    Decimal.Fits, and_true] at *
  omega

/-! ## The order of rows -/

/-- The clock goes on with the seconds of the day and with the milliseconds of a second, the leap
second included. -/
theorem clock_lt_clock {q q' n n' : Nat} (hleap : n < 1000000000 ∨ n < 2000000000 ∧ q % 60 = 59)
    (h : q < q' ∨ q = q' ∧ n / 1000000 < n' / 1000000) : clock q n < clock q' n' := by
  simp only [clock, List.cons_lt_cons_iff]
  omega

/-- The row of a later instant is larger, if their milliseconds differ. -/
theorem row_lt_row {a b : Instant} (ha : 0 ≤ a.date.year)
    (h : a.seconds < b.seconds ∨ a.seconds = b.seconds ∧ a.nanos / 1000000 < b.nanos / 1000000) :
    a.row < b.row := by
  have hday : a.day < b.day ∨ a.day = b.day ∧
      (a.secondOfDay < b.secondOfDay ∨ a.secondOfDay = b.secondOfDay ∧
        a.nanos / 1000000 < b.nanos / 1000000) := by
    unfold day secondOfDay
    omega
  simp only [row, List.cons_lt_cons_iff]
  rcases hday with hday | ⟨hday, hclock⟩
  · rcases Date.ofDay_lt_ofDay hday with hyear | ⟨hyear, hdate⟩
    · exact .inl ((Int.toNat_lt_toNat (ha.trans_lt hyear)).2 hyear)
    · refine .inr ⟨congrArg Int.toNat hyear, ?_⟩
      rcases hdate with hmonth | ⟨hmonth, hday⟩
      · exact .inl hmonth
      · exact .inr ⟨hmonth, .inl hday⟩
  · have hdate : a.date = b.date := congrArg Date.ofDay hday
    rw [hdate]
    exact .inr ⟨rfl, .inr ⟨rfl, .inr ⟨rfl, clock_lt_clock a.leap_of_day hclock⟩⟩⟩

theorem row_eq_row {a b : Instant} (h : a.truncated = b.truncated) : a.row = b.row := by
  obtain ⟨hseconds, hnanos⟩ := truncated_inj.1 h
  have hday : a.day = b.day := congrArg (· / 86400 + firstDay) hseconds
  have hsecond : a.secondOfDay = b.secondOfDay := congrArg (fun s => (s % 86400).toNat) hseconds
  have hleap : a.nanos / 1000000000 = b.nanos / 1000000000 := by omega
  have hmillis : a.nanos % 1000000000 / 1000000 = b.nanos % 1000000000 / 1000000 := by omega
  rw [row, row, clock, clock, date, date, hday, hsecond, hleap, hmillis]

/-! ## The order of texts -/

section

variable {a b : Instant} (ha : a.InYears 0 9999) (hb : b.InYears 0 9999)
include ha hb

theorem timestamp_lt_of_lt (h : a.truncated < b.truncated) : a.timestamp < b.timestamp := by
  rw [String.lt_iff_toList_lt, toList_timestamp ha, toList_timestamp hb,
    Decimal.layOut_lt_layOut_iff (row_fits ha) (row_fits hb)]
  exact row_lt_row ha.1 (truncated_lt_iff.1 h)

theorem timestamp_eq_of_eq (h : a.truncated = b.truncated) : a.timestamp = b.timestamp := by
  rw [← String.toList_inj, toList_timestamp ha, toList_timestamp hb, row_eq_row h]

end

/-- Timestamps are ordered as their instants, cut off to the millisecond. -/
theorem timestamp_lt_iff {a b : Instant} (ha : a.InYears 0 9999) (hb : b.InYears 0 9999) :
    a.timestamp < b.timestamp ↔ a.truncated < b.truncated := by
  constructor
  · intro h
    rw [truncated_lt_iff]
    by_contra hnot
    have hrest : b.truncated < a.truncated ∨ a.truncated = b.truncated := by
      rw [truncated_lt_iff, truncated_inj]
      omega
    rcases hrest with hgreater | heq
    · exact absurd (timestamp_lt_of_lt hb ha hgreater) h.asymm
    · exact absurd (timestamp_eq_of_eq ha hb heq) h.ne
  · exact timestamp_lt_of_lt ha hb

/-- A store that compares bytes sorts timestamps by time: an earlier instant has no larger one, and
two instants have the same one exactly if they agree up to the millisecond. -/
theorem timestamps_in_order {a b : Instant} (ha : a.InYears 0 9999) (hb : b.InYears 0 9999) :
    (a ≤ b → a.timestamp.toUTF8.toList ≤ b.timestamp.toUTF8.toList) ∧
    (a.timestamp = b.timestamp ↔ a.truncated = b.truncated) := by
  constructor
  · intro hle hlt
    have hless := (timestamp_lt_iff hb ha).1 (Text.toUTF8_toList_lt_iff.1 hlt)
    rw [truncated_lt_iff] at hless
    rw [le_iff] at hle
    omega
  · constructor
    · intro heq
      have hnot : ¬a.truncated < b.truncated ∧ ¬b.truncated < a.truncated := by
        rw [← timestamp_lt_iff ha hb, ← timestamp_lt_iff hb ha, heq]
        exact ⟨lt_irrefl _, lt_irrefl _⟩
      rw [truncated_lt_iff, truncated_lt_iff] at hnot
      rw [truncated_inj]
      omega
    · exact timestamp_eq_of_eq ha hb

/-- The end of the leap second with which the year 2016 ended comes before the first moment of the
next year, and a microsecond before it is not told apart from it. -/
theorem timestamps_in_order_leap :
    let before : Instant := ⟨1483228799, 1999998999, by decide, by decide⟩
    let leap : Instant := ⟨1483228799, 1999999999, by decide, by decide⟩
    let next : Instant := ⟨1483228800, 0, by decide, by decide⟩
    leap.timestamp.toUTF8.toList ≤ next.timestamp.toUTF8.toList ∧
      before.timestamp = leap.timestamp ∧ leap.timestamp ≠ next.timestamp := by
  intro before leap next
  have hbefore : before.InYears 0 9999 := by decide
  have hleap : leap.InYears 0 9999 := by decide
  have hnext : next.InYears 0 9999 := by decide
  refine ⟨(timestamps_in_order hleap hnext).1 (.inl (by decide)),
    (timestamps_in_order hbefore hleap).2.2 (by decide), ?_⟩
  rw [ne_eq, (timestamps_in_order hleap hnext).2]
  decide

end GuardedUpdate.Instant
