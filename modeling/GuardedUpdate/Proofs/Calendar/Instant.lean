import GuardedUpdate.Calendar.Instant
import GuardedUpdate.Proofs.Calendar.Date

/-!
# Instants

Instants in order of time, the years that they fall into, and what is days later. The instants of a
range of years are those from its first second to its last one (`Instant.inYears_iff`), and an
instant has another one so many days later exactly if the last second is not passed
(`Instant.exists_plusDays?_iff`), be it in a leap second or not.
-/

namespace GuardedUpdate.Instant

/-! ## The order of instants -/

/-- Instants are compared by their seconds, then by their nanoseconds. -/
instance : LT Instant where
  lt a b := a.seconds < b.seconds ∨ a.seconds = b.seconds ∧ a.nanos < b.nanos

/-- An instant is not after another. -/
instance : LE Instant where
  le a b := a.seconds < b.seconds ∨ a.seconds = b.seconds ∧ a.nanos ≤ b.nanos

theorem lt_iff {a b : Instant} :
    a < b ↔ a.seconds < b.seconds ∨ a.seconds = b.seconds ∧ a.nanos < b.nanos := Iff.rfl

theorem le_iff {a b : Instant} :
    a ≤ b ↔ a.seconds < b.seconds ∨ a.seconds = b.seconds ∧ a.nanos ≤ b.nanos := Iff.rfl

/-- The instant without what comes after its milliseconds. -/
def truncated (t : Instant) : Instant where
  seconds := t.seconds
  nanos := t.nanos / 1000000 * 1000000
  inRange := t.inRange
  nanosFit := by have := t.nanosFit; omega

theorem truncated_lt_iff {a b : Instant} :
    a.truncated < b.truncated ↔
      a.seconds < b.seconds ∨ a.seconds = b.seconds ∧ a.nanos / 1000000 < b.nanos / 1000000 := by
  rw [lt_iff]
  simp only [truncated]
  omega

theorem truncated_inj {a b : Instant} :
    a.truncated = b.truncated ↔
      a.seconds = b.seconds ∧ a.nanos / 1000000 = b.nanos / 1000000 := by
  simp only [truncated, mk.injEq]
  omega

/-! ## Years -/

/-- The year of an instant is one of some years. -/
def InYears (t : Instant) (first last : Int) : Prop :=
  first ≤ t.date.year ∧ t.date.year ≤ last

instance (t : Instant) (first last : Int) : Decidable (t.InYears first last) :=
  inferInstanceAs (Decidable (_ ∧ _))

/-- The first second of a year. -/
def firstSecondOf (year : Int) : Int := (Date.firstDayOf year - firstDay) * 86400

/-- A year has begun from its first second on. -/
theorem le_year_iff {t : Instant} {year : Int} :
    year ≤ t.date.year ↔ firstSecondOf year ≤ t.seconds := by
  rw [date, Date.le_year_ofDay_iff, day, firstSecondOf]
  omega

theorem inYears_iff {t : Instant} {first last : Int} :
    t.InYears first last ↔
      firstSecondOf first ≤ t.seconds ∧ t.seconds < firstSecondOf (last + 1) := by
  have hlast : t.date.year ≤ last ↔ ¬last + 1 ≤ t.date.year := by omega
  rw [InYears, hlast, le_year_iff, le_year_iff, not_le]

/-! ## Later days -/

/-- An instant has one so many days later, to the second, exactly if that has a date. -/
theorem exists_plusDays?_iff {t : Instant} {days : Nat} :
    (∃ later, t.plusDays? days = some later ∧ later.seconds = t.seconds + 86400 * days) ↔
      t.seconds + 86400 * days ≤ lastSecond := by
  constructor
  · intro hyp
    obtain ⟨later, -, hseconds⟩ := hyp
    rw [← hseconds]
    exact later.inRange.2
  · intro hlast
    have hfirst : firstSecond ≤ t.seconds + 86400 * days := by
      have hbegin := t.inRange.1
      omega
    -- Only without days in between can the instant still be in its leap second.
    have hnanos := t.nanosFit
    have hfit : (if days = 0 then t.nanos else t.nanos % 1000000000) < 1000000000 ∨
        (if days = 0 then t.nanos else t.nanos % 1000000000) < 2000000000 ∧
          (t.seconds + 86400 * days) % 60 = 59 := by
      split_ifs with hdays
      · simpa [hdays] using hnanos
      · exact .inl (Nat.mod_lt _ (by decide))
    exact ⟨_, dif_pos ⟨⟨hfirst, hlast⟩, hfit⟩, rfl⟩

theorem plusDays?_eq_none_iff {t : Instant} {days : Nat} :
    t.plusDays? days = none ↔ lastSecond < t.seconds + 86400 * days := by
  rw [← not_le, ← exists_plusDays?_iff]
  constructor
  · intro hnone hyp
    obtain ⟨later, hsome, -⟩ := hyp
    rw [hnone] at hsome
    cases hsome
  · intro hnone
    rw [plusDays?, ofParts?, dif_neg]
    intro hyp
    exact hnone (exists_plusDays?_iff.2 hyp.1.2)

end GuardedUpdate.Instant
