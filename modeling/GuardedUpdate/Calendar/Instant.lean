import GuardedUpdate.Calendar.Date
import GuardedUpdate.Decimal.Natural

/-!
# Instants

An instant is a number of seconds since 1970 began, in universal time, and a number of
nanoseconds. In the last second of a minute the nanoseconds may go on into a leap second.
`Instant.timestamp` is the text that is stored for an instant.
-/

namespace GuardedUpdate

/-- The first second that has a date. -/
def Instant.firstSecond : Int := -8334601228800

/-- The last second that has a date. -/
def Instant.lastSecond : Int := 8210266876799

/-- A point in time. -/
structure Instant where
  /-- Whole seconds since 1970 began. -/
  seconds : Int
  /-- Nanoseconds since the second began. -/
  nanos : Nat
  /-- The seconds lie in the range of dates. -/
  inRange : Instant.firstSecond ≤ seconds ∧ seconds ≤ Instant.lastSecond
  /-- More than a second of nanoseconds is a leap second. -/
  nanosFit : nanos < 1000000000 ∨ nanos < 2000000000 ∧ seconds % 60 = 59
deriving DecidableEq

namespace Instant

/-- The instant with these seconds and nanoseconds, if there is one. -/
def ofParts? (seconds : Int) (nanos : Nat) : Option Instant :=
  if h : (firstSecond ≤ seconds ∧ seconds ≤ lastSecond) ∧
      (nanos < 1000000000 ∨ nanos < 2000000000 ∧ seconds % 60 = 59) then
    some ⟨seconds, nanos, h.1, h.2⟩
  else none

/-- The number of 1 January 1970 among the days. -/
def firstDay : Int := 719528

/-- The day of an instant. -/
def day (t : Instant) : Int := t.seconds / 86400 + firstDay

/-- The date of an instant. -/
def date (t : Instant) : Date := Date.ofDay t.day

/-- The second of the day; a leap second does not count. -/
def secondOfDay (t : Instant) : Nat := (t.seconds % 86400).toNat

/-- The instant so many days later, if it has a date. Of an instant in a leap second there is only
the second before it on another day. -/
def plusDays? (t : Instant) (days : Nat) : Option Instant :=
  ofParts? (t.seconds + 86400 * days) (if days = 0 then t.nanos else t.nanos % 1000000000)

/-! ## Text -/

/-- The text of a year: four digits, and outside of them a sign in front of at least four. -/
def yearText (year : Int) : List Char :=
  if 0 ≤ year ∧ year ≤ 9999 then Decimal.padded 4 year.toNat
  else (if year < 0 then '-' else '+') :: Decimal.padded 4 year.natAbs

/-- The text of a date. -/
def dateText (d : Date) : List Char :=
  yearText d.year ++ '-' :: Decimal.padded 2 d.month ++ '-' :: Decimal.padded 2 d.day

/-- The text of an instant: date and time of day to the millisecond, the rest of the nanoseconds
cut off. A leap second is the second 60. -/
def timestamp (t : Instant) : String :=
  let leap := t.nanos / 1000000000
  let second := t.secondOfDay % 60 + leap
  let millis := t.nanos % 1000000000 / 1000000
  String.ofList (dateText t.date ++ 'T' :: Decimal.padded 2 (t.secondOfDay / 3600) ++
    ':' :: Decimal.padded 2 (t.secondOfDay / 60 % 60) ++ ':' :: Decimal.padded 2 second ++
    '.' :: Decimal.padded 3 millis ++ ['Z'])

end Instant

end GuardedUpdate
