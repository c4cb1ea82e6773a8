import GuardedUpdate.Proofs.Calendar.Instant
import GuardedUpdate.Proofs.Settings.Lookup

/-!
# When templates expire

A template expires so many days after it is written. The number of days is read from a text, and any
number below 2 ^ 32 is taken (`Settings.exists_ofLookup_iff`), but the calendar ends before so many
days are over. So with settings that were taken the expiry has a date for all instants up to the
year 9999 exactly if the number of days is not beyond `Settings.mostDays`
(`Settings.expiry_of_ofLookup`), and some settings are taken with which it has none
(`Settings.expiry_beyond_calendar`).
-/

namespace GuardedUpdate.Settings

open Decimal

/-! ## The expiry -/

/-- The expiry is as many days after the instant as the settings say, if that has a date. -/
theorem expiry_eq (s : Settings) (now : Instant) :
    s.expiry now =
      if now.seconds + 86400 * s.templateDays.toNat ≤ Instant.lastSecond then
        .ok (now.seconds + 86400 * s.templateDays.toNat)
      else .error .overflow := by
  rw [expiry]
  split_ifs with hlast
  · obtain ⟨later, hlater, hseconds⟩ := Instant.exists_plusDays?_iff.2 hlast
    rw [hlater, ← hseconds]
  · rw [Instant.plusDays?_eq_none_iff.2 (not_le.1 hlast)]

/-- The most days after which every instant up to the year 9999 still has a date. -/
def mostDays : Nat := 92093340

/-- The last second of the year 9999. -/
def lastNow : Instant := ⟨253402300799, 0, by decide, by decide⟩

theorem inYears_lastNow : lastNow.InYears 1970 9999 := by decide

/-- Instants from 1970 to 9999 have a date after so many days as long as the last of them has. -/
theorem seconds_le_of_inYears {now : Instant} (h : now.InYears 1970 9999) {days : Nat}
    (hdays : days ≤ mostDays) : now.seconds + 86400 * days ≤ Instant.lastSecond := by
  have hyear := (Instant.inYears_iff.1 h).2
  have hend : Instant.firstSecondOf (9999 + 1) = 253402300800 := by decide
  unfold mostDays at hdays
  unfold Instant.lastSecond
  omega

/-- After more days the last second of the year 9999 has none. -/
theorem lt_seconds_lastNow {days : Nat} (h : mostDays < days) :
    Instant.lastSecond < lastNow.seconds + 86400 * days := by
  have hnow : lastNow.seconds = 253402300799 := rfl
  unfold mostDays at h
  unfold Instant.lastSecond
  omega

/-- With the settings of a look-up an expiry between 1970 and 9999 is the instant and the days in
seconds, or there is no such date. It is there for all those instants exactly if the look-up has no
text for the number of days, or one that does not denote a number beyond `mostDays` and below
2 ^ 32. -/
theorem expiry_of_ofLookup (lookup : String → Option String) :
    (∀ s, ofLookup lookup = .ok s → ∀ now : Instant, now.InYears 1970 9999 →
      let later := now.seconds + 86400 * s.templateDays.toNat
      (later ≤ Instant.lastSecond → s.expiry now = .ok later) ∧
        (Instant.lastSecond < later → s.expiry now = .error .overflow)) ∧
    ((∀ s, ofLookup lookup = .ok s → ∀ now : Instant, now.InYears 1970 9999 →
        s.expiry now = .ok (now.seconds + 86400 * s.templateDays.toNat)) ↔
      ∀ text ∈ lookup (Vocabulary.name Setting.templateDays), ∀ n,
        Denotes (Text.trim text.toList) n → n ≤ mostDays ∨ UInt32.size ≤ n) := by
  constructor
  · intro s _ now _ later
    rw [expiry_eq]
    exact ⟨fun h => if_pos h, fun h => if_neg (not_le.2 h)⟩
  constructor
  · intro hall text htext n hn
    rw [← not_lt, ← not_lt]
    by_contra hboth
    obtain ⟨hmany, hfits⟩ : mostDays < n ∧ n < UInt32.size := by
      simpa only [not_or, not_not] using hboth
    -- This number of days is taken, and the last instant has no date after it.
    have hword : (UInt32.ofNat n).toNat = n := UInt32.toNat_ofNat_of_lt' hfits
    have hdays : days? text = some (UInt32.ofNat n) := by rwa [days?_eq_some_iff, hword]
    obtain ⟨s, hs, htemplate⟩ := exists_ofLookup_iff.2
      (show (lookup _).elim _ (days? · = some (UInt32.ofNat n)) by rw [htext]; exact hdays)
    have hok := hall s hs lastNow inYears_lastNow
    rw [expiry_eq, htemplate, hword, if_neg (not_le.2 (lt_seconds_lastNow hmany))] at hok
    cases hok
  · intro hfew s hs now hnow
    have htaken := exists_ofLookup_iff.1 ⟨s, hs, rfl⟩
    have hle : s.templateDays.toNat ≤ mostDays := by
      cases htext : lookup (Vocabulary.name Setting.templateDays) with
      | none =>
        rw [htext] at htaken
        rw [show s.templateDays = 90 from htaken]
        decide
      | some text =>
        rw [htext] at htaken
        have hdenotes := days?_eq_some_iff.1 htaken
        exact (hfew text htext _ hdenotes).resolve_right (not_le.2 s.templateDays.toNat_lt)
    rw [expiry_eq, if_pos (seconds_le_of_inYears hnow hle)]

/-- Thirty days after a leap second. -/
theorem expiry_after_leap_second :
    let lookup (name : String) : Option String :=
      if name = "TEMPLATE_TTL_DAYS" then some " +030\n" else none
    let now : Instant := ⟨1483228799, 1500000000, by decide, by decide⟩
    ∃ s, ofLookup lookup = .ok s ∧ s.expiry now = .ok 1485820799 := by
  intro lookup now
  have htaken : ofLookup lookup = .ok { templateDays := 30 } := by decide
  have hyears : now.InYears 1970 9999 := by decide
  exact ⟨_, htaken, ((expiry_of_ofLookup lookup).1 _ htaken now hyears).1 (by decide)⟩

/-- With the largest number of days that is taken a template of 2025 has no expiry. -/
theorem expiry_beyond_calendar :
    ¬∀ lookup s, ofLookup lookup = .ok s → ∀ now : Instant, now.InYears 1970 9999 →
      s.expiry now = .ok (now.seconds + 86400 * s.templateDays.toNat) := by
  intro h
  let lookup (name : String) : Option String :=
    if name = "TEMPLATE_TTL_DAYS" then some "4294967295" else none
  let now : Instant := ⟨1735722000, 0, by decide, by decide⟩
  have htaken : ofLookup lookup = .ok { templateDays := 4294967295 } := by decide
  have hyears : now.InYears 1970 9999 := by decide
  have hnone : expiry { templateDays := 4294967295 } now = .error .overflow := by decide
  have hok := h lookup _ htaken now hyears
  rw [hnone] at hok
  cases hok

end GuardedUpdate.Settings
