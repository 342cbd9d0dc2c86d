import Resourcey.Core.Service
import Resourcey.Logic.PyText
import Resourcey.Tasks.Cron

/-!
# Parsing cron expressions

`parse_cron` reads five fields, each a list of values, ranges and steps, or a shorthand that stands
for five fields. Every set of a parsed schedule has a member, and only members in range
(`parseCron_wellFormed`). Whether any calendar day has them is not asked: a schedule that restricts
only the day of the month, to days that none of its months has, parses and never matches
(`WellFormed.satisfiable_iff`).
-/

namespace Resourcey

/-- `CronError`, by what its message names. -/
inductive CronError where
  | empty
  | unknownShorthand (text : List Char)
  | fieldCount (expression : List Char)
  | emptyEntry (spec : List Char)
  | malformed (item : List Char)
  | step (item : List Char)
  | rangeOrder (item : List Char)
  | stepOnValue (item : List Char)
  | invalidValue (token : List Char)
  | outOfRange (token : List Char) (lo hi : ℕ)
  deriving DecidableEq

/-- The bounds of a field and the names of its values. -/
structure CronField where
  lo : ℕ
  hi : ℕ
  names : List (String × ℕ) := []
  deriving DecidableEq

/-- `_MONTH_NAMES`. -/
def monthNames : List (String × ℕ) :=
  [("jan", 1), ("feb", 2), ("mar", 3), ("apr", 4), ("may", 5), ("jun", 6), ("jul", 7), ("aug", 8),
    ("sep", 9), ("oct", 10), ("nov", 11), ("dec", 12)]

/-- `_DOW_NAMES`. -/
def dowNames : List (String × ℕ) :=
  [("sun", 0), ("mon", 1), ("tue", 2), ("wed", 3), ("thu", 4), ("fri", 5), ("sat", 6)]

/-- `_SHORTHANDS`. -/
def shorthands : List (String × String) :=
  [("@yearly", "0 0 1 1 *"), ("@annually", "0 0 1 1 *"), ("@monthly", "0 0 1 * *"),
    ("@weekly", "0 0 * * 0"), ("@daily", "0 0 * * *"), ("@midnight", "0 0 * * *"),
    ("@hourly", "0 * * * *")]

/-- A value that is in range. -/
def CronField.inRange (field : CronField) (token : List Char) (v : ℤ) : Except CronError ℕ :=
  if v < field.lo ∨ v > field.hi then .error (.outOfRange token field.lo field.hi) else .ok v.toNat

/-- `_resolve`. Cron accepts 7 as Sunday. -/
def resolveCron (field : CronField) (token : List Char) : Except CronError ℕ :=
  let key := PyText.lower (PyText.strip token)
  match field.names.find? fun entry => entry.1.toList = key with
  | some entry => .ok entry.2
  | none =>
    match PyText.int? key with
    | none => .error (.invalidValue token)
    | some v => field.inRange token (if field.names = dowNames ∧ v = 7 then 0 else v)

/-- `_ITEM_RE`: the base of an item and its step. -/
def cronItem (item : List Char) : Option (List Char × Option ℕ) :=
  match item.splitOn '/' with
  | [base] => if base = [] then none else some (base, none)
  | [base, step] => if base = [] then none else (PyText.digits? step).map fun n => (base, some n)
  | _ => none

/-- The first and the last value of an item. -/
def cronRange (field : CronField) (item base : List Char) (stepText : Option ℕ) :
    Except CronError (ℕ × ℕ) :=
  if base = ['*'] then .ok (field.lo, field.hi)
  else if '-' ∈ base then do
    let start ← resolveCron field (base.takeWhile (· ≠ '-'))
    let stop ← resolveCron field ((base.dropWhile (· ≠ '-')).drop 1)
    if start > stop then .error (.rangeOrder item) else .ok (start, stop)
  else do
    let value ← resolveCron field base
    if stepText.isSome then .error (.stepOnValue item) else .ok (value, value)

/-- The values from the first to the last by a step. -/
def cronValues (start stop step : ℕ) : List ℕ :=
  (List.range' start (stop + 1 - start)).filter fun v => (v - start) % step = 0

/-- The values of an item of a field. -/
def parseItem (field : CronField) (spec item : List Char) : Except CronError (List ℕ) :=
  if item = [] then .error (.emptyEntry spec)
  else match cronItem item with
    | none => .error (.malformed item)
    | some (base, stepText) =>
      if stepText.getD 1 < 1 then .error (.step item)
      else (cronRange field item base stepText).map fun (start, stop) =>
        cronValues start stop (stepText.getD 1)

/-- `_parse_field`. -/
def parseField (field : CronField) (spec : List Char) : Except CronError (List ℕ) := do
  return (← (spec.splitOn ',').mapM (parseItem field spec)).flatten

def minuteField : CronField := { lo := 0, hi := 59 }

def hourField : CronField := { lo := 0, hi := 23 }

def dayField : CronField := { lo := 1, hi := 31 }

def monthField : CronField := { lo := 1, hi := 12, names := monthNames }

def weekdayField : CronField := { lo := 0, hi := 6, names := dowNames }

/-- The fields that an expression stands for. -/
def expandCron (text : List Char) : List Char :=
  let key := PyText.lower text
  match shorthands.find? fun entry => entry.1.toList = key with
  | some (_, fields) => fields.toList
  | none => if text.head? = some '@' then key else text

/-- The schedule of five fields. -/
def cronOfFields (expression : String) : List (List Char) → Except CronError CronSchedule
  | [minute, hour, day, month, weekday] => do
    let minutes ← parseField minuteField minute
    let hours ← parseField hourField hour
    let days ← parseField dayField day
    let months ← parseField monthField month
    let weekdays ← parseField weekdayField weekday
    return ⟨minutes, hours, days, months, weekdays, day ≠ ['*'], weekday ≠ ['*']⟩
  | _ => .error (.fieldCount expression.toList)

/-- `parse_cron`. -/
def parseCron (expression : String) : Except CronError CronSchedule :=
  let text := PyText.strip expression.toList
  if text = [] then .error .empty
  else if (expandCron text).head? = some '@' then .error (.unknownShorthand text)
  else cronOfFields expression (PyText.words (expandCron text))

/-! ## What is parsed is in range -/

/-- A set of values of a field: it has a member, and none out of range. -/
def CronField.Holds (field : CronField) (values : List ℕ) : Prop :=
  values ≠ [] ∧ ∀ v ∈ values, field.lo ≤ v ∧ v ≤ field.hi

/-- A field has values, and its names are of them. -/
def CronField.Sound (field : CronField) : Prop :=
  (∀ entry ∈ field.names, field.lo ≤ entry.2 ∧ entry.2 ≤ field.hi) ∧ field.lo ≤ field.hi

/-- What a traversal gives has what each step gives. -/
theorem forall_of_mapM {ε α β : Type} {f : α → Except ε β} {P : β → Prop}
    (hP : ∀ a b, f a = .ok b → P b) {as : List α} {bs : List β} (h : as.mapM f = .ok bs) :
    (∀ b ∈ bs, P b) ∧ bs.length = as.length := by
  induction as generalizing bs with
  | nil =>
      cases h
      exact ⟨List.forall_mem_nil _, rfl⟩
  | cons a as ih =>
      obtain ⟨b, bs, hb, hbs, rfl⟩ := mapM_cons_eq_ok.mp h
      obtain ⟨hall, hlength⟩ := ih hbs
      exact ⟨List.forall_mem_cons.mpr ⟨hP a b hb, hall⟩, congrArg (· + 1) hlength⟩

section Field

variable {field : CronField} (hfield : field.Sound)

include hfield

omit hfield in
theorem inRange_bounds {token : List Char} {n : ℤ} {v : ℕ} (h : field.inRange token n = .ok v) :
    field.lo ≤ v ∧ v ≤ field.hi := by
  unfold CronField.inRange at h
  split at h
  · cases h
  · cases h
    omega

theorem resolveCron_bounds {token : List Char} {v : ℕ} (h : resolveCron field token = .ok v) :
    field.lo ≤ v ∧ v ≤ field.hi := by
  simp only [resolveCron] at h
  split at h
  · next entry hfind =>
      cases h
      exact hfield.1 entry (List.mem_of_find?_eq_some hfind)
  · split at h
    · cases h
    · exact inRange_bounds h

theorem cronRange_bounds {item base : List Char} {stepText : Option ℕ} {start stop : ℕ}
    (h : cronRange field item base stepText = .ok (start, stop)) :
    field.lo ≤ start ∧ start ≤ stop ∧ stop ≤ field.hi := by
  unfold cronRange at h
  split at h
  · cases h
    exact ⟨le_rfl, hfield.2, le_rfl⟩
  · split at h
    · obtain ⟨first, hfirst, h⟩ := bind_eq_ok.mp h
      obtain ⟨last, hlast, h⟩ := bind_eq_ok.mp h
      split at h
      · cases h
      · next horder =>
          cases h
          exact ⟨(resolveCron_bounds hfield hfirst).1, not_lt.mp horder,
            (resolveCron_bounds hfield hlast).2⟩
    · obtain ⟨value, hvalue, h⟩ := bind_eq_ok.mp h
      split at h
      · cases h
      · cases h
        obtain ⟨hlo, hhi⟩ := resolveCron_bounds hfield hvalue
        exact ⟨hlo, le_rfl, hhi⟩

theorem parseItem_holds {spec item : List Char} {values : List ℕ}
    (h : parseItem field spec item = .ok values) : field.Holds values := by
  unfold parseItem at h
  split at h
  · cases h
  split at h
  · cases h
  split at h
  · cases h
  next base stepText _ _ =>
  cases hrange : cronRange field item base stepText with
  | error e =>
      rw [hrange] at h
      cases h
  | ok range =>
      obtain ⟨start, stop⟩ := range
      obtain ⟨hlo, hle, hhi⟩ := cronRange_bounds hfield hrange
      rw [hrange] at h
      cases h
      have hstart : start ∈ cronValues start stop (stepText.getD 1) :=
        List.mem_filter.mpr ⟨List.mem_range'_1.mpr (by omega), by simp⟩
      refine ⟨List.ne_nil_of_mem hstart, fun v hv => ?_⟩
      have hv := List.mem_range'_1.mp (List.mem_filter.mp hv).1
      omega

theorem parseField_holds {spec : List Char} {values : List ℕ}
    (h : parseField field spec = .ok values) : field.Holds values := by
  obtain ⟨items, hitems, h⟩ := bind_eq_ok.mp h
  cases h
  obtain ⟨hall, hlength⟩ := forall_of_mapM (fun item values => parseItem_holds hfield) hitems
  constructor
  · obtain ⟨first, rest, rfl⟩ := List.exists_cons_of_length_pos (l := items) <| by
      rw [hlength]
      exact List.length_pos_iff.mpr (List.splitOn_ne_nil _ _)
    obtain ⟨v, hv⟩ := List.exists_mem_of_ne_nil _ (hall first (.head _)).1
    exact List.ne_nil_of_mem (List.mem_flatten.mpr ⟨first, .head _, hv⟩)
  · intro v hv
    obtain ⟨values, hvalues, hv⟩ := List.mem_flatten.mp hv
    exact (hall values hvalues).2 v hv

end Field

/-- A schedule whose sets have members, all of them in range. -/
structure CronSchedule.WellFormed (s : CronSchedule) : Prop where
  minutes : minuteField.Holds s.minutes
  hours : hourField.Holds s.hours
  days : dayField.Holds s.days
  months : monthField.Holds s.months
  weekdays : weekdayField.Holds s.weekdays

theorem parseCron_wellFormed {expression : String} {s : CronSchedule}
    (h : parseCron expression = .ok s) : s.WellFormed := by
  simp only [parseCron] at h
  split at h
  · cases h
  split at h
  · cases h
  unfold cronOfFields at h
  split at h
  · obtain ⟨minutes, hminutes, h⟩ := bind_eq_ok.mp h
    obtain ⟨hours, hhours, h⟩ := bind_eq_ok.mp h
    obtain ⟨days, hdays, h⟩ := bind_eq_ok.mp h
    obtain ⟨months, hmonths, h⟩ := bind_eq_ok.mp h
    obtain ⟨weekdays, hweekdays, h⟩ := bind_eq_ok.mp h
    cases h
    exact ⟨parseField_holds ⟨by decide, by decide⟩ hminutes,
      parseField_holds ⟨by decide, by decide⟩ hhours,
      parseField_holds ⟨by decide, by decide⟩ hdays,
      parseField_holds ⟨by decide, by decide⟩ hmonths,
      parseField_holds ⟨by decide, by decide⟩ hweekdays⟩
  · cases h

/-! ## Schedules that never match -/

namespace CronSchedule

variable {s : CronSchedule}

/-- Only the day of the month is restricted, to days that none of the months has in any year. -/
def Impossible (s : CronSchedule) : Prop :=
  s.dayRestricted = true ∧ s.weekdayRestricted = false ∧
    ∀ m ∈ s.months, ∀ d ∈ s.days, Gregorian.daysInMonth true m < d

instance : Decidable s.Impossible :=
  inferInstanceAs (Decidable (_ ∧ _ ∧ ∀ m ∈ s.months, ∀ d ∈ s.days, _))

/-- Every other schedule matches some day within nine years. -/
theorem WellFormed.exists_date (hs : s.WellFormed) (hpossible : ¬ s.Impossible) (n : ℕ) :
    ∃ k, n < k ∧ k ≤ n + 3294 ∧ ∀ t, t / 1440 = k → s.DateMatches t := by
  by_cases hdom : s.dayRestricted = true ∧ s.weekdayRestricted = false
  · have hday : ∃ m ∈ s.months, ∃ d ∈ s.days, d ≤ Gregorian.daysInMonth true m := by
      by_contra hnone
      push Not at hnone
      exact hpossible ⟨hdom.1, hdom.2, hnone⟩
    obtain ⟨m, hm, d, hd, hle⟩ := hday
    have hd' : 1 ≤ d ∧ d ≤ 31 := hs.days.2 d hd
    obtain ⟨first, hfirst⟩ := Gregorian.exists_month_later n (hs.months.2 m hm).1 (hs.months.2 m hm).2
    obtain ⟨hlater, hnear, hmonth, hdate⟩ := hfirst (d - 1) (by omega)
    refine ⟨_, hlater, hnear, fun t ht => ⟨?_, ?_⟩⟩
    · rw [ht, hmonth]
      exact hm
    · rw [dayMatches, ht, hdate, Nat.sub_add_cancel hd'.1]
      simp [hdom, hd]
  · obtain ⟨m, hm⟩ := List.exists_mem_of_ne_nil _ hs.months.1
    obtain ⟨w, hw⟩ := List.exists_mem_of_ne_nil _ hs.weekdays.1
    have hw' : 0 ≤ w ∧ w ≤ 6 := hs.weekdays.2 w hw
    have hlength := (Gregorian.daysInMonth_bounds true m).1
    obtain ⟨first, hfirst⟩ := Gregorian.exists_month_later n (hs.months.2 m hm).1 (hs.months.2 m hm).2
    obtain ⟨hlater, hnear, hmonth, -⟩ := hfirst ((w + 6 * (first + 1)) % 7) (by omega)
    have hweekday : Gregorian.weekday (first + (w + 6 * (first + 1)) % 7) = w := by
      rw [Gregorian.weekday]
      omega
    refine ⟨_, hlater, hnear, fun t ht => ⟨?_, ?_⟩⟩
    · rw [ht, hmonth]
      exact hm
    · rw [dayMatches, ht, hweekday]
      cases hdayrule : s.dayRestricted <;> cases hweekrule : s.weekdayRestricted <;> simp_all

theorem WellFormed.exists_match (hs : s.WellFormed) (hpossible : ¬ s.Impossible) (n : ℕ) :
    ∃ t, n < t / 1440 ∧ t / 1440 ≤ n + 3294 ∧ s.matches t = true := by
  obtain ⟨k, hlater, hnear, hk⟩ := hs.exists_date hpossible n
  obtain ⟨hour, hhour⟩ := List.exists_mem_of_ne_nil _ hs.hours.1
  obtain ⟨minute, hminute⟩ := List.exists_mem_of_ne_nil _ hs.minutes.1
  have hhour' : 0 ≤ hour ∧ hour ≤ 23 := hs.hours.2 hour hhour
  have hminute' : 0 ≤ minute ∧ minute ≤ 59 := hs.minutes.2 minute hminute
  have hday : (k * 1440 + hour * 60 + minute) / 1440 = k := by omega
  refine ⟨k * 1440 + hour * 60 + minute, by omega, by omega, matches_iff.mpr ⟨?_, ?_, hk _ hday⟩⟩
  · rwa [show (k * 1440 + hour * 60 + minute) % 60 = minute by omega]
  · rwa [show (k * 1440 + hour * 60 + minute) % 1440 / 60 = hour by omega]

theorem Impossible.matches_eq_false (h : s.Impossible) (t : ℕ) : s.matches t = false := by
  obtain ⟨hday, hweekday, hnone⟩ := h
  refine Bool.eq_false_iff.mpr fun htrue => ?_
  obtain ⟨-, -, hmonth, hdate⟩ := matches_iff.mp htrue
  rw [dayMatches, hday, hweekday] at hdate
  have hlt := hnone _ hmonth _ (of_decide_eq_true hdate)
  have hlast := (Gregorian.dayOfMonth_spec (t / 1440)).2
  have hleap := Gregorian.daysInMonth_le_leap (Gregorian.isLeap (Gregorian.year (t / 1440)))
    (Gregorian.month (t / 1440))
  omega

/-- **A parsed schedule has a matching minute** exactly if it is not impossible. -/
theorem WellFormed.satisfiable_iff (hs : s.WellFormed) :
    (∃ t, s.matches t = true) ↔ ¬ s.Impossible := by
  constructor
  · rintro ⟨t, ht⟩ himpossible
    rw [himpossible.matches_eq_false t] at ht
    cases ht
  · intro hpossible
    obtain ⟨t, -, -, ht⟩ := hs.exists_match hpossible 0
    exact ⟨t, ht⟩

/-- **`next_fire` answers** for such a schedule until nine years before the end of the calendar. -/
theorem WellFormed.nextFire_isOk_iff (hs : s.WellFormed) {after : ℕ}
    (hafter : minuteOf after / 1440 + 3294 < 3652059) :
    (∃ m, s.nextFire after = .ok m) ↔ ¬ s.Impossible := by
  rw [CronSchedule.nextFire_isOk_iff]
  constructor
  · rintro ⟨m, -, -, hm⟩ himpossible
    rw [himpossible.matches_eq_false m] at hm
    cases hm
  · intro hpossible
    obtain ⟨t, hlater, hnear, ht⟩ := hs.exists_match hpossible (minuteOf after / 1440)
    refine ⟨t, by omega, ?_, ht⟩
    rw [maxMinute]
    omega

end CronSchedule

end Resourcey
