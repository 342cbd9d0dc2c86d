import Resourcey.Logic.Gregorian
import Mathlib.Data.Nat.Find

/-!
# Cron schedules

A minute of the wall clock is numbered from the first of January of the year 1, the way a datetime
counts, and there is none after the year 9999. `next_fire` rolls forward a whole unit at a time; no
unit that it skips has a matching minute (`CronSchedule.skip_spec`), and whatever a schedule matches
it matches again within nine years, so its bound on the iterations is never what stops it. It finds
the first matching minute if there is one (`nextFire_eq_ok_iff`), and else it raises.
-/

namespace Resourcey

/-- `CronSchedule`. A set is the list of its members. -/
structure CronSchedule where
  minutes : List ℕ
  hours : List ℕ
  days : List ℕ
  months : List ℕ
  weekdays : List ℕ
  dayRestricted : Bool
  weekdayRestricted : Bool
  deriving DecidableEq, Repr

/-- The first minute after the last year of a datetime. -/
def maxMinute : ℕ := 3652059 * 1440

/-- The minute of an instant, which is given in microseconds. -/
def minuteOf (instant : ℕ) : ℕ := instant / 60000000

/-- The instant at which a minute begins. -/
def instantOf (minute : ℕ) : ℕ := minute * 60000000

/-- Why there is no next fire: the `CronError` of too many iterations, or a date out of range. -/
inductive FireError where
  | cron
  | outOfRange
  deriving DecidableEq

namespace CronSchedule

variable (s : CronSchedule)

/-- `_day_matches`. -/
def dayMatches (t : ℕ) : Bool :=
  if s.dayRestricted && s.weekdayRestricted then
    Gregorian.dayOfMonth (t / 1440) ∈ s.days || Gregorian.weekday (t / 1440) ∈ s.weekdays
  else if s.dayRestricted then Gregorian.dayOfMonth (t / 1440) ∈ s.days
  else if s.weekdayRestricted then Gregorian.weekday (t / 1440) ∈ s.weekdays
  else true

/-- `matches`. -/
def «matches» (t : ℕ) : Bool :=
  if t % 60 ∉ s.minutes then false
  else if t % 1440 / 60 ∉ s.hours then false
  else if Gregorian.month (t / 1440) ∉ s.months then false
  else s.dayMatches t

/-- An iteration of `next_fire`: the next candidate, or nothing where this one matches. -/
def skip (t : ℕ) : Option ℕ :=
  if Gregorian.month (t / 1440) ∉ s.months then some (Gregorian.firstOfNextMonth (t / 1440) * 1440)
  else if !s.dayMatches t then some ((t / 1440 + 1) * 1440)
  else if t % 1440 / 60 ∉ s.hours then some ((t / 60 + 1) * 60)
  else if t % 60 ∉ s.minutes then some (t + 1)
  else none

/-- The iterations of `next_fire`. -/
def search : ℕ → ℕ → Except FireError ℕ
  | 0, _ => .error .cron
  | k + 1, t =>
    match s.skip t with
    | none => .ok t
    | some t' => if t' < maxMinute then search k t' else .error .outOfRange

/-- `_MAX_ITERATIONS`. -/
def maxIterations : ℕ := 200000

/-- `next_fire`. -/
def nextFire (after : ℕ) : Except FireError ℕ :=
  if minuteOf after + 1 < maxMinute then s.search maxIterations (minuteOf after + 1)
  else .error .outOfRange

/-! ## What an iteration skips -/

variable {s} {t u m : ℕ}

/-- The date of a minute matches. -/
def DateMatches (s : CronSchedule) (t : ℕ) : Prop :=
  Gregorian.month (t / 1440) ∈ s.months ∧ s.dayMatches t = true

theorem matches_iff : s.matches t = true ↔
    t % 60 ∈ s.minutes ∧ t % 1440 / 60 ∈ s.hours ∧ s.DateMatches t := by
  unfold «matches» DateMatches
  split
  · next h => exact ⟨fun hfalse => (nomatch hfalse), fun hall => absurd hall.1 h⟩
  split
  · next h => exact ⟨fun hfalse => (nomatch hfalse), fun hall => absurd hall.2.1 h⟩
  split
  · next h => exact ⟨fun hfalse => (nomatch hfalse), fun hall => absurd hall.2.2.1 h⟩
  · next hminute hhour hmonth =>
      exact ⟨fun hday => ⟨not_not.mp hminute, not_not.mp hhour, not_not.mp hmonth, hday⟩,
        fun hall => hall.2.2.2⟩

/-- Whether a date matches depends on the day alone. -/
theorem dayMatches_congr (h : t / 1440 = u / 1440) : s.dayMatches t = s.dayMatches u := by
  rw [dayMatches, dayMatches, h]

theorem DateMatches.congr (h : t / 1440 = u / 1440) : s.DateMatches t ↔ s.DateMatches u := by
  rw [DateMatches, DateMatches, dayMatches_congr h, h]

/-- A date that matches comes again within nine years. -/
theorem DateMatches.later (h : s.DateMatches m) (n : ℕ) :
    ∃ l, n < l ∧ l ≤ n + 3294 ∧ ∀ u, u / 1440 = l → s.DateMatches u := by
  obtain ⟨hmonth, hday⟩ := h
  by_cases hdom : s.dayRestricted = true ∧ Gregorian.dayOfMonth (m / 1440) ∈ s.days
  · obtain ⟨l, hlater, hnear, hm, hd⟩ := Gregorian.exists_date n (m / 1440)
    refine ⟨l, hlater, hnear, fun u hu => ⟨?_, ?_⟩⟩
    · rw [hu, hm]
      exact hmonth
    · rw [dayMatches, hu, hd]
      simp [hdom]
  · obtain ⟨l, hlater, hnear, hm, hw⟩ := Gregorian.exists_weekday n (m / 1440)
    refine ⟨l, hlater, hnear, fun u hu => ⟨?_, ?_⟩⟩
    · rw [hu, hm]
      exact hmonth
    · rw [dayMatches] at hday ⊢
      rw [hu, hw]
      -- The day of the month does not count here, so the weekday does, or neither is restricted.
      cases hdayrule : s.dayRestricted <;> cases hweekrule : s.weekdayRestricted <;> simp_all

theorem skip_eq_none_iff : s.skip t = none ↔ s.matches t = true := by
  rw [matches_iff, DateMatches, skip]
  split
  · next h => simp [h]
  split
  · next h => simp_all
  split
  · next h => simp [h]
  split
  · next h => simp [h]
  · simp_all

/-- **What an iteration skips has no match.** It rolls to another day where the date does not match,
and else within the day or to the start of the next one. -/
theorem skip_spec (h : s.skip t = some u) : t < u ∧ (∀ v, t ≤ v → v < u → s.matches v = false) ∧
    (s.DateMatches t ∨ t / 1440 < u / 1440 ∧ u % 1440 = 0) ∧
      (s.DateMatches t → u / 1440 ≤ t / 1440 + 1 ∧ (t / 1440 < u / 1440 → u % 1440 = 0)) := by
  have hnone {v : ℕ} (hv : ¬ (v % 60 ∈ s.minutes ∧ v % 1440 / 60 ∈ s.hours ∧ s.DateMatches v)) :
      s.matches v = false := Bool.eq_false_iff.mpr fun htrue => hv (matches_iff.mp htrue)
  unfold skip at h
  split at h
  · next hmonth =>
      cases h
      have hlt := Gregorian.lt_firstOfNextMonth (n := t / 1440)
      refine ⟨by omega, fun v hle hv => hnone fun hall => hmonth ?_, .inr (by omega),
        fun hdate => absurd hdate.1 hmonth⟩
      rw [← Gregorian.month_eq_of_lt_firstOfNextMonth (n := t / 1440) (k := v / 1440) (by omega)
        (by omega)]
      exact hall.2.2.1
  split at h
  · next hday =>
      cases h
      refine ⟨by omega, fun v hle hv => hnone fun hall => ?_, .inr (by omega), fun hdate => ?_⟩
      · have hsame : v / 1440 = t / 1440 := by omega
        rw [DateMatches.congr hsame] at hall
        simp [hall.2.2.2] at hday
      · simp [hdate.2] at hday
  next hmonth hday =>
  have hdate : s.DateMatches t := ⟨not_not.mp hmonth, by simpa using hday⟩
  split at h
  · next hhour =>
      cases h
      refine ⟨by omega, fun v hle hv => hnone fun hall => hhour ?_, .inl hdate, fun _ => by omega⟩
      have hsame : v % 1440 / 60 = t % 1440 / 60 := by omega
      rw [← hsame]
      exact hall.2.1
  split at h
  · next hminute =>
      cases h
      refine ⟨by omega, fun v hle hv => hnone fun hall => hminute ?_, .inl hdate, fun _ => by omega⟩
      have hsame : v = t := by omega
      rw [← hsame]
      exact hall.1
  · cases h

/-! ## The search -/

/-- The minute is the first one from `t` on that matches. -/
structure FirstMatch (s : CronSchedule) (t m : ℕ) : Prop where
  le : t ≤ m
  «matches» : s.matches m = true
  first : ∀ v, t ≤ v → v < m → s.matches v = false

theorem FirstMatch.unique {m' : ℕ} (h : s.FirstMatch t m) (h' : s.FirstMatch t m') : m = m' := by
  rcases lt_trichotomy m m' with hlt | heq | hlt
  · exact absurd h.matches (by simp [h'.first m h.le hlt])
  · exact heq
  · exact absurd h'.matches (by simp [h.first m' h'.le hlt])

/-- A match has a first one before it. -/
theorem exists_firstMatch (hle : t ≤ m) (hm : s.matches m = true) :
    ∃ first ≤ m, s.FirstMatch t first := by
  classical
  have hexists : ∃ k, t ≤ k ∧ s.matches k = true := ⟨m, hle, hm⟩
  obtain ⟨hfirst, hmatches⟩ := Nat.find_spec hexists
  refine ⟨Nat.find hexists, Nat.find_min' hexists ⟨hle, hm⟩, hfirst, hmatches, fun v hv hlt => ?_⟩
  have hnot := Nat.find_min hexists hlt
  simpa [hv] using hnot

/-- An iteration keeps the first match. -/
theorem FirstMatch.skip (h : s.FirstMatch t m) (hskip : s.skip t = some u) : s.FirstMatch u m := by
  obtain ⟨hlt, hnone, -, -⟩ := skip_spec hskip
  have hum : u ≤ m := by
    by_contra hmu
    have hfalse := hnone m h.le (by omega)
    rw [h.matches] at hfalse
    cases hfalse
  exact ⟨hum, h.matches, fun v hv => h.first v (by omega)⟩

theorem search_sound {k : ℕ} (h : s.search k t = .ok m) (ht : t < maxMinute) :
    s.FirstMatch t m ∧ m < maxMinute := by
  induction k generalizing t with
  | zero => cases h
  | succ k ih =>
      rw [search] at h
      split at h
      · next hskip =>
          cases h
          exact ⟨⟨le_rfl, skip_eq_none_iff.mp hskip, fun v hv hlt => by omega⟩, ht⟩
      · next u hskip =>
          split at h
          · next hu =>
              obtain ⟨hfirst, hm⟩ := ih h hu
              obtain ⟨hlt, hnone, -, -⟩ := skip_spec hskip
              refine ⟨⟨hlt.le.trans hfirst.le, hfirst.matches, fun v hv hvm => ?_⟩, hm⟩
              rcases Nat.lt_or_ge v u with hvu | hvu
              · exact hnone v hv hvu
              · exact hfirst.first v hvu hvm
          · cases h

instance (s : CronSchedule) (t : ℕ) : Decidable (s.DateMatches t) :=
  inferInstanceAs (Decidable (_ ∧ _))

/-- The minutes of the day from a candidate on, if its date matches. -/
def minutesLeft (s : CronSchedule) (t : ℕ) : ℕ := if s.DateMatches t then 1440 - t % 1440 else 0

/-- How many iterations there may be up to a match: one for every day before its day, and for every
minute left of the day of the candidate, and up to the match of its own day. -/
def rank (s : CronSchedule) (m t : ℕ) : ℕ :=
  m / 1440 - t / 1440 +
    if t / 1440 < m / 1440 then 1440 + s.minutesLeft t else m % 1440 - t % 1440

/-- No date between a candidate and its first match matches. -/
theorem FirstMatch.not_dateMatches (h : s.FirstMatch t m) (hlow : t / 1440 < u / 1440)
    (hhigh : u / 1440 < m / 1440) : ¬ s.DateMatches u := by
  intro hdate
  obtain ⟨hminute, hhour, -⟩ := matches_iff.mp h.matches
  have hsame : (u / 1440 * 1440 + m % 1440) / 1440 = u / 1440 := by omega
  have htrue : s.matches (u / 1440 * 1440 + m % 1440) = true := by
    refine matches_iff.mpr ⟨?_, ?_, (DateMatches.congr hsame).mpr hdate⟩
    · rwa [show (u / 1440 * 1440 + m % 1440) % 60 = m % 60 by omega]
    · rwa [show (u / 1440 * 1440 + m % 1440) % 1440 / 60 = m % 1440 / 60 by omega]
  have hfalse := h.first (u / 1440 * 1440 + m % 1440) (by omega) (by omega)
  rw [htrue] at hfalse
  cases hfalse

/-- Every iteration comes nearer to the first match. -/
theorem FirstMatch.rank_lt (h : s.FirstMatch t m) (hskip : s.skip t = some u) :
    s.rank m u < s.rank m t := by
  obtain ⟨hlt, -, hother, hsame⟩ := skip_spec hskip
  have hum := (h.skip hskip).le
  have hnext : t / 1440 < u / 1440 → u / 1440 < m / 1440 → s.minutesLeft u = 0 :=
    fun hlow hhigh => if_neg (h.not_dateMatches hlow hhigh)
  have hdate := (matches_iff.mp h.matches).2.2
  unfold rank
  by_cases ht : s.DateMatches t
  · obtain ⟨hday, hstart⟩ := hsame ht
    have hleft : s.minutesLeft t = 1440 - t % 1440 := if_pos ht
    rcases Nat.lt_or_ge (t / 1440) (u / 1440) with hd | hd
    · have hzero := hstart hd
      split_ifs <;> omega
    · have heq : u / 1440 = t / 1440 := by omega
      have hleft' : s.minutesLeft u = 1440 - u % 1440 := if_pos ((DateMatches.congr heq).mpr ht)
      split_ifs <;> omega
  · obtain ⟨hd, hzero⟩ := hother.resolve_left ht
    have hne : t / 1440 ≠ m / 1440 := fun heq => ht ((DateMatches.congr heq).mpr hdate)
    split_ifs <;> omega

/-- A first match is within nine years. -/
theorem FirstMatch.near (h : s.FirstMatch t m) : m / 1440 ≤ t / 1440 + 3294 := by
  obtain ⟨hminute, hhour, hdate⟩ := matches_iff.mp h.matches
  obtain ⟨l, hlater, hnear, hl⟩ := hdate.later (t / 1440)
  have htrue : s.matches (l * 1440 + m % 1440) = true := by
    refine matches_iff.mpr ⟨?_, ?_, hl _ (by omega)⟩
    · rwa [show (l * 1440 + m % 1440) % 60 = m % 60 by omega]
    · rwa [show (l * 1440 + m % 1440) % 1440 / 60 = m % 1440 / 60 by omega]
  by_contra hfar
  have hfalse := h.first (l * 1440 + m % 1440) (by omega) (by omega)
  rw [htrue] at hfalse
  cases hfalse

theorem FirstMatch.rank_lt_maxIterations (h : s.FirstMatch t m) : s.rank m t < maxIterations := by
  have hnear := h.near
  have hleft : s.minutesLeft t ≤ 1440 := by
    unfold minutesLeft
    split <;> omega
  unfold rank maxIterations
  split <;> omega

/-- The search finds the first match if it has the iterations for it. -/
theorem search_complete {k : ℕ} (h : s.FirstMatch t m) (hm : m < maxMinute) (hk : s.rank m t < k) :
    s.search k t = .ok m := by
  induction k generalizing t with
  | zero => exact absurd hk (Nat.not_lt_zero _)
  | succ k ih =>
      rw [search]
      split
      · next hskip =>
          have ht : s.FirstMatch t t :=
            ⟨le_rfl, skip_eq_none_iff.mp hskip, fun v hv hlt => by omega⟩
          rw [ht.unique h]
      · next u hskip =>
          have hrank := h.rank_lt hskip
          have hfirst := h.skip hskip
          rw [if_pos (lt_of_le_of_lt hfirst.le hm)]
          exact ih hfirst (by omega)

/-- **`next_fire` is the first matching minute after the one of the instant.** -/
theorem nextFire_eq_ok_iff {after : ℕ} :
    s.nextFire after = .ok m ↔ s.FirstMatch (minuteOf after + 1) m ∧ m < maxMinute := by
  unfold nextFire
  constructor
  · intro h
    split at h
    · next ht => exact search_sound h ht
    · cases h
  · rintro ⟨h, hm⟩
    rw [if_pos (lt_of_le_of_lt h.le hm)]
    exact search_complete h hm h.rank_lt_maxIterations

/-- **`next_fire` answers** exactly if the schedule still has a matching minute. -/
theorem nextFire_isOk_iff {after : ℕ} : (∃ m, s.nextFire after = .ok m) ↔
    ∃ m, minuteOf after < m ∧ m < maxMinute ∧ s.matches m = true := by
  constructor
  · rintro ⟨m, h⟩
    obtain ⟨hfirst, hm⟩ := nextFire_eq_ok_iff.mp h
    exact ⟨m, hfirst.le, hm, hfirst.matches⟩
  · rintro ⟨m, hlater, hm, hmatches⟩
    obtain ⟨first, hle, hfirst⟩ := exists_firstMatch (Nat.succ_le_of_lt hlater) hmatches
    exact ⟨first, nextFire_eq_ok_iff.mpr ⟨hfirst, lt_of_le_of_lt hle hm⟩⟩

/-- Until the end of the year 9000 there are nine years left of the calendar. -/
theorem day_lt_of_year_le {n : ℕ} (h : Gregorian.year n ≤ 9000) : n + 3295 < 3652059 := by
  have hlt := (Gregorian.year_spec n).2.2
  have hle : Gregorian.daysBeforeYear (Gregorian.year n + 1) ≤ Gregorian.daysBeforeYear 9001 :=
    Gregorian.daysBeforeYear_le (by omega) (by omega)
  have hlast : Gregorian.daysBeforeYear 9001 = 3287182 := rfl
  omega

/-- A minute begins after an instant exactly if it is a later one than that of the instant. -/
theorem lt_instantOf_iff {after : ℕ} : after < instantOf t ↔ minuteOf after < t := by
  unfold instantOf minuteOf
  omega

/-- **`next_fire` is the least match.** What it returns is a minute that begins after the instant
and matches, and no minute in between does; and up to the year 9000 it returns wherever a minute
after the instant matches. -/
theorem nextFire_least (s : CronSchedule) {after : ℕ}
    (hyear : Gregorian.year (minuteOf after / 1440) ≤ 9000) :
    (∀ t, s.nextFire after = .ok t → after < instantOf t ∧ s.matches t = true ∧
      ∀ u, after < instantOf u → u < t → s.matches u = false) ∧
    ((∃ u, after < instantOf u ∧ s.matches u = true) → ∃ t, s.nextFire after = .ok t) := by
  constructor
  · intro t h
    obtain ⟨hfirst, -⟩ := nextFire_eq_ok_iff.mp h
    refine ⟨lt_instantOf_iff.mpr hfirst.le, hfirst.matches, ?_⟩
    intro u hu hut
    exact hfirst.first u (lt_instantOf_iff.mp hu) hut
  · rintro ⟨u, hu, hmatches⟩
    obtain ⟨first, -, hfirst⟩ := exists_firstMatch (lt_instantOf_iff.mp hu) hmatches
    refine ⟨first, nextFire_eq_ok_iff.mpr ⟨hfirst, ?_⟩⟩
    have hnear := hfirst.near
    have hday := day_lt_of_year_le hyear
    unfold maxMinute
    omega

/-- From the second of March 2023 the next leap day is found. -/
theorem nextFire_least_leapDay :
    ∃ t, (CronSchedule.mk [0] [0] [29] [2] [0, 1, 2, 3, 4, 5, 6] true false).nextFire
      (instantOf (738580 * 1440)) = .ok t :=
  (nextFire_least _ (by decide)).2 ⟨738944 * 1440, by decide, by decide⟩

end CronSchedule

end Resourcey
