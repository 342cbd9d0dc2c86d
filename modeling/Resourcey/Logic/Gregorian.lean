import Mathlib.Algebra.Order.Ring.Nat
import Mathlib.Data.Nat.Basic
import Mathlib.Tactic.Common

/-!
# The Gregorian calendar

Days are numbered from the first of January of the year 1, which is day 0 and a Monday. A year is
found from its estimate by the mean length of a year, which may be one short (`year_spec`), and
a month by the days before it. `month_eq_of_lt_firstOfNextMonth` says that a month lasts until the
first of the next one, `exists_date` and `exists_weekday` that every date and every weekday in a
month comes again within nine years.
-/

namespace Gregorian

/-- Whether the year has a 29th of February. -/
def isLeap (y : ℕ) : Bool := y % 4 = 0 ∧ (y % 100 ≠ 0 ∨ y % 400 = 0)

/-- The days before the year. -/
def daysBeforeYear (y : ℕ) : ℕ := (y - 1) * 365 + (y - 1) / 4 - (y - 1) / 100 + (y - 1) / 400

/-- The days of a year. -/
def daysInYear (y : ℕ) : ℕ := if isLeap y then 366 else 365

/-- The days of a month. -/
def daysInMonth (leap : Bool) : ℕ → ℕ
  | 2 => if leap then 29 else 28
  | 4 | 6 | 9 | 11 => 30
  | _ => 31

/-- The days of a year before a month. -/
def daysBeforeMonth (leap : Bool) (m : ℕ) : ℕ :=
  ((List.range' 1 (m - 1)).map (daysInMonth leap)).sum

/-- The year of a day. -/
def year (n : ℕ) : ℕ :=
  if n < daysBeforeYear (n * 400 / 146097 + 2) then n * 400 / 146097 + 1
  else n * 400 / 146097 + 2

/-- The day of its year, from 0. -/
def dayOfYear (n : ℕ) : ℕ := n - daysBeforeYear (year n)

/-- The month of a day of a year. -/
def monthOf (leap : Bool) (d : ℕ) : ℕ :=
  ((List.range' 1 12).filter fun m => daysBeforeMonth leap m ≤ d).length

/-- The month of a day. -/
def month (n : ℕ) : ℕ := monthOf (isLeap (year n)) (dayOfYear n)

/-- The day of its month, from 1. -/
def dayOfMonth (n : ℕ) : ℕ := dayOfYear n - daysBeforeMonth (isLeap (year n)) (month n) + 1

/-- The day of its week, Sunday being 0. -/
def weekday (n : ℕ) : ℕ := (n + 1) % 7

/-- The first day of the month after that of a day. -/
def firstOfNextMonth (n : ℕ) : ℕ :=
  if month n = 12 then daysBeforeYear (year n + 1)
  else daysBeforeYear (year n) + daysBeforeMonth (isLeap (year n)) (month n + 1)

/-! ## Years -/

/-- Years in cycles of 400, 100 and 4. -/
theorem exists_cycles (k : ℕ) : ∃ a b c d, b ≤ 3 ∧ c ≤ 24 ∧ d ≤ 3 ∧
    k = 400 * a + 100 * b + 4 * c + d ∧ k / 4 = 100 * a + 25 * b + c ∧ k / 100 = 4 * a + b ∧
      k / 400 = a := by
  have h400 : k / 100 / 4 = k / 400 := Nat.div_div_eq_div_mul k 100 4
  have h100 : k / 4 / 25 = k / 100 := Nat.div_div_eq_div_mul k 4 25
  exact ⟨k / 400, k / 100 % 4, k / 4 % 25, k % 4, by omega, by omega, by omega, by omega, by omega,
    by omega, rfl⟩

theorem isLeap_iff {y : ℕ} : isLeap y = true ↔ y % 4 = 0 ∧ (y % 100 ≠ 0 ∨ y % 400 = 0) :=
  decide_eq_true_iff

/-- The days before a year in cycles. -/
theorem daysBeforeYear_cycles {a b c d : ℕ} (hb : b ≤ 3) (hc : c ≤ 24) (hd : d ≤ 3) :
    daysBeforeYear (400 * a + 100 * b + 4 * c + d + 1)
      = 146097 * a + 36524 * b + 1461 * c + 365 * d := by
  have h4 : (400 * a + 100 * b + 4 * c + d) / 4 = 100 * a + 25 * b + c := by omega
  have h100 : (400 * a + 100 * b + 4 * c + d) / 100 = 4 * a + b := by omega
  have h400 : (400 * a + 100 * b + 4 * c + d) / 400 = a := by omega
  rw [daysBeforeYear, Nat.add_sub_cancel, h4, h100, h400]
  omega

theorem daysBeforeYear_succ {y : ℕ} (hy : 1 ≤ y) :
    daysBeforeYear (y + 1) = daysBeforeYear y + daysInYear y := by
  obtain ⟨k, rfl⟩ := Nat.exists_eq_add_of_le' hy
  obtain ⟨a, b, c, d, hb, hc, hd, rfl, -, -, -⟩ := exists_cycles k
  have hleap : isLeap (400 * a + 100 * b + 4 * c + d + 1) = true ↔ d = 3 ∧ (c ≠ 24 ∨ b = 3) := by
    rw [isLeap_iff]
    omega
  have hnow := daysBeforeYear_cycles (a := a) hb hc hd
  have hnext : daysBeforeYear (400 * a + 100 * b + 4 * c + d + 1 + 1) =
      146097 * a + 36524 * b + 1461 * c + 365 * d + if d = 3 ∧ (c ≠ 24 ∨ b = 3) then 366 else 365 := by
    rcases Nat.lt_or_eq_of_le hd with hd | rfl
    · have := daysBeforeYear_cycles (a := a) hb hc (Nat.succ_le_of_lt hd)
      rw [if_neg (by omega)]
      exact this.trans (by omega)
    rcases Nat.lt_or_eq_of_le hc with hc' | rfl
    · have := daysBeforeYear_cycles (a := a) hb (Nat.succ_le_of_lt hc') (Nat.zero_le 3)
      rw [if_pos ⟨rfl, .inl hc'.ne⟩]
      exact (congrArg daysBeforeYear (by omega)).trans (this.trans (by omega))
    rcases Nat.lt_or_eq_of_le hb with hb' | rfl
    · have := daysBeforeYear_cycles (a := a) (Nat.succ_le_of_lt hb') (Nat.zero_le 24) (Nat.zero_le 3)
      rw [if_neg (by omega)]
      exact (congrArg daysBeforeYear (by omega)).trans (this.trans (by omega))
    · have := daysBeforeYear_cycles (a := a + 1) (Nat.zero_le 3) (Nat.zero_le 24) (Nat.zero_le 3)
      rw [if_pos ⟨rfl, .inr rfl⟩]
      exact (congrArg daysBeforeYear (by omega)).trans (this.trans (by omega))
  rw [hnext, hnow, daysInYear]
  exact congrArg _ (if_congr hleap.symm rfl rfl)

/-- The days before a year by the mean length of a year, 146097 days in 400 years. -/
theorem daysBeforeYear_bounds (k : ℕ) :
    400 * daysBeforeYear (k + 1) ≤ 146097 * k + 288 ∧
      146097 * k ≤ 400 * daysBeforeYear (k + 1) + 591 := by
  obtain ⟨a, b, c, d, hb, hc, hd, rfl, -, -, -⟩ := exists_cycles k
  rw [daysBeforeYear_cycles hb hc hd]
  omega

theorem year_spec (n : ℕ) :
    1 ≤ year n ∧ daysBeforeYear (year n) ≤ n ∧ n < daysBeforeYear (year n + 1) := by
  have hfirst := daysBeforeYear_bounds (n * 400 / 146097)
  have hthird := daysBeforeYear_bounds (n * 400 / 146097 + 2)
  unfold year
  split
  · next h => exact ⟨by omega, by omega, h⟩
  · next h => exact ⟨by omega, by omega, by omega⟩

theorem daysBeforeYear_le {y z : ℕ} (hy : 1 ≤ y) (h : y ≤ z) :
    daysBeforeYear y ≤ daysBeforeYear z := by
  induction z, h using Nat.le_induction with
  | base => exact le_rfl
  | succ z hz ih =>
      rw [daysBeforeYear_succ (hy.trans hz)]
      omega

/-- The year is the one that the day is in. -/
theorem year_eq {n y : ℕ} (hy : 1 ≤ y) (hlow : daysBeforeYear y ≤ n)
    (hhigh : n < daysBeforeYear (y + 1)) : year n = y := by
  obtain ⟨hone, hle, hlt⟩ := year_spec n
  rcases lt_trichotomy (year n) y with h | h | h
  · have := daysBeforeYear_le (by omega) (show year n + 1 ≤ y from h)
    omega
  · exact h
  · have := daysBeforeYear_le (by omega) (show y + 1 ≤ year n from h)
    omega

/-- A leap year comes within eight years. -/
theorem exists_leap (y : ℕ) : ∃ z, y < z ∧ z ≤ y + 8 ∧ isLeap z = true := by
  have hleap : ∀ z, isLeap z = true ↔ z % 4 = 0 ∧ (z % 100 ≠ 0 ∨ z % 400 = 0) :=
    fun z => decide_eq_true_iff
  have hdiv : y / 4 * 4 ≤ y ∧ y < y / 4 * 4 + 4 := by omega
  rcases Nat.eq_zero_or_pos ((y / 4 * 4 + 4) % 100) with h | h
  · exact ⟨y / 4 * 4 + 8, by omega, by omega, (hleap _).mpr ⟨by omega, .inl (by omega)⟩⟩
  · exact ⟨y / 4 * 4 + 4, by omega, by omega, (hleap _).mpr ⟨by omega, .inl (by omega)⟩⟩

/-! ## Months -/

theorem daysBeforeMonth_succ {leap : Bool} {m : ℕ} (hm : 1 ≤ m) :
    daysBeforeMonth leap (m + 1) = daysBeforeMonth leap m + daysInMonth leap m := by
  obtain ⟨k, rfl⟩ := Nat.exists_eq_add_of_le' hm
  simp [daysBeforeMonth, List.range'_concat, Nat.add_comm]

theorem daysInMonth_bounds (leap : Bool) (m : ℕ) :
    28 ≤ daysInMonth leap m ∧ daysInMonth leap m ≤ 31 := by
  unfold daysInMonth
  split
  · cases leap <;> simp
  all_goals omega

theorem daysBeforeMonth_le {leap : Bool} {l m : ℕ} (hl : 1 ≤ l) (h : l ≤ m) :
    daysBeforeMonth leap l ≤ daysBeforeMonth leap m := by
  induction m, h using Nat.le_induction with
  | base => exact le_rfl
  | succ m hm ih =>
      rw [daysBeforeMonth_succ (hl.trans hm)]
      omega

/-- A year is its twelve months. -/
theorem daysBeforeMonth_thirteen (y : ℕ) : daysBeforeMonth (isLeap y) 13 = daysInYear y := by
  rw [daysInYear]
  cases isLeap y <;> rfl

/-- The month of a day of a year is the one that the day is in. -/
theorem monthOf_eq {leap : Bool} {d m : ℕ} (hone : 1 ≤ m) (htwelve : m ≤ 12)
    (hlow : daysBeforeMonth leap m ≤ d) (hhigh : d < daysBeforeMonth leap (m + 1)) :
    monthOf leap d = m := by
  have hiff : ∀ l ∈ List.range' 1 12,
      decide (daysBeforeMonth leap l ≤ d) = decide (l ≤ m) := by
    intro l hl
    obtain ⟨hl, -⟩ := List.mem_range'_1.mp hl
    rw [decide_eq_decide]
    constructor
    · intro hd
      by_contra hlt
      have hnext : daysBeforeMonth leap (m + 1) ≤ daysBeforeMonth leap l :=
        daysBeforeMonth_le (by omega) (by omega)
      omega
    · intro hle
      exact (daysBeforeMonth_le hl hle).trans hlow
  have hlength : ∀ m ≤ 12, ((List.range' 1 12).filter fun l => decide (l ≤ m)).length = m := by
    decide
  rw [monthOf, List.filter_congr hiff]
  exact hlength m htwelve

/-- Every day of a year is in one of the first months that together hold it. -/
theorem exists_month {leap : Bool} {d k : ℕ} (hd : d < daysBeforeMonth leap k) :
    ∃ m, 1 ≤ m ∧ m < k ∧ daysBeforeMonth leap m ≤ d ∧ d < daysBeforeMonth leap (m + 1) := by
  induction k with
  | zero => exact absurd hd (Nat.not_lt_zero d)
  | succ k ih =>
      rcases Nat.lt_or_ge d (daysBeforeMonth leap k) with h | h
      · obtain ⟨m, hone, hlt, hm⟩ := ih h
        exact ⟨m, hone, by omega, hm⟩
      · rcases Nat.eq_zero_or_pos k with rfl | hk
        · exact absurd hd (Nat.not_lt_zero d)
        · exact ⟨k, hk, Nat.lt_succ_self k, h, hd⟩

/-! ## Days -/

variable (n : ℕ)

theorem dayOfYear_lt : dayOfYear n < daysInYear (year n) := by
  obtain ⟨hone, hlow, hhigh⟩ := year_spec n
  rw [daysBeforeYear_succ hone] at hhigh
  rw [dayOfYear]
  omega

theorem month_spec : 1 ≤ month n ∧ month n ≤ 12 ∧
    daysBeforeMonth (isLeap (year n)) (month n) ≤ dayOfYear n ∧
      dayOfYear n < daysBeforeMonth (isLeap (year n)) (month n + 1) := by
  have hd := dayOfYear_lt n
  rw [← daysBeforeMonth_thirteen] at hd
  obtain ⟨m, hone, hlt, hlow, hhigh⟩ := exists_month hd
  have hmonth : month n = m := monthOf_eq hone (by omega) hlow hhigh
  rw [hmonth]
  exact ⟨hone, by omega, hlow, hhigh⟩

theorem dayOfMonth_spec : 1 ≤ dayOfMonth n ∧
    dayOfMonth n ≤ daysInMonth (isLeap (year n)) (month n) := by
  obtain ⟨hone, -, hlow, hhigh⟩ := month_spec n
  rw [daysBeforeMonth_succ hone] at hhigh
  rw [dayOfMonth]
  omega

variable {n}

/-- The day with a date. -/
theorem date_eq {y m d : ℕ} (hy : 1 ≤ y) (hone : 1 ≤ m) (htwelve : m ≤ 12)
    (hn : n = daysBeforeYear y + daysBeforeMonth (isLeap y) m + d)
    (hd : d < daysInMonth (isLeap y) m) : year n = y ∧ month n = m ∧ dayOfMonth n = d + 1 := by
  have hsucc : daysBeforeMonth (isLeap y) (m + 1)
      = daysBeforeMonth (isLeap y) m + daysInMonth (isLeap y) m := daysBeforeMonth_succ hone
  have hend : daysBeforeMonth (isLeap y) (m + 1) ≤ daysInYear y := by
    rw [← daysBeforeMonth_thirteen]
    exact daysBeforeMonth_le (by omega) (by omega)
  have hyear : year n = y := year_eq hy (by omega) (by rw [daysBeforeYear_succ hy]; omega)
  have hday : dayOfYear n = daysBeforeMonth (isLeap y) m + d := by
    rw [dayOfYear, hyear]
    omega
  have hmonth : month n = m := by
    rw [month, hyear, hday]
    exact monthOf_eq hone htwelve (by omega) (by omega)
  refine ⟨hyear, hmonth, ?_⟩
  rw [dayOfMonth, hyear, hmonth, hday]
  omega

theorem firstOfNextMonth_eq : firstOfNextMonth n = daysBeforeYear (year n) +
    daysBeforeMonth (isLeap (year n)) (month n + 1) := by
  unfold firstOfNextMonth
  split
  · next h =>
      rw [h, daysBeforeMonth_thirteen, daysBeforeYear_succ (year_spec n).1]
  · rfl

theorem lt_firstOfNextMonth : n < firstOfNextMonth n := by
  obtain ⟨-, -, -, hhigh⟩ := month_spec n
  rw [firstOfNextMonth_eq]
  rw [dayOfYear] at hhigh
  omega

/-- **A month lasts until the first of the next one.** -/
theorem month_eq_of_lt_firstOfNextMonth {k : ℕ} (hle : n ≤ k) (hlt : k < firstOfNextMonth n) :
    month k = month n := by
  obtain ⟨hone, htwelve, hlow, -⟩ := month_spec n
  obtain ⟨hy, hyear, -⟩ := year_spec n
  rw [firstOfNextMonth_eq, daysBeforeMonth_succ hone] at hlt
  rw [dayOfYear] at hlow
  have hk : k = daysBeforeYear (year n) + daysBeforeMonth (isLeap (year n)) (month n) +
      (k - daysBeforeYear (year n) - daysBeforeMonth (isLeap (year n)) (month n)) := by omega
  exact (date_eq hy hone htwelve hk (by omega)).2.1

theorem daysBeforeYear_add {y : ℕ} (hy : 1 ≤ y) (k : ℕ) :
    daysBeforeYear (y + k) ≤ daysBeforeYear y + 366 * k := by
  induction k with
  | zero => exact le_rfl
  | succ k ih =>
      have hyear : daysInYear (y + k) ≤ 366 := by
        rw [daysInYear]
        split <;> omega
      rw [← Nat.add_assoc, daysBeforeYear_succ (by omega)]
      omega

theorem daysInMonth_le_leap (leap : Bool) (m : ℕ) : daysInMonth leap m ≤ daysInMonth true m := by
  unfold daysInMonth
  split
  · cases leap <;> simp
  all_goals exact le_rfl

/-- A month of a leap year to come: its days are within nine years. -/
theorem exists_month_later (n : ℕ) {m : ℕ} (hone : 1 ≤ m) (htwelve : m ≤ 12) :
    ∃ first, ∀ d < daysInMonth true m, n < first + d ∧ first + d ≤ n + 3294 ∧
      month (first + d) = m ∧ dayOfMonth (first + d) = d + 1 := by
  obtain ⟨z, hlater, hnear, hleap⟩ := exists_leap (year n)
  obtain ⟨hy, hlow, hhigh⟩ := year_spec n
  refine ⟨daysBeforeYear z + daysBeforeMonth true m, fun d hd => ?_⟩
  have hdate := date_eq (y := z) (by omega) hone htwelve rfl (by rwa [hleap])
  rw [hleap] at hdate
  obtain ⟨hyear, hmonth, hday⟩ := hdate
  obtain ⟨-, hbefore, hafter⟩ := year_spec (daysBeforeYear z + daysBeforeMonth true m + d)
  rw [hyear] at hbefore hafter
  have hstart := daysBeforeYear_le (by omega) (show year n + 1 ≤ z from hlater)
  have hend := daysBeforeYear_le (by omega) (show z + 1 ≤ year n + 9 by omega)
  have hspan := daysBeforeYear_add hy 9
  exact ⟨by omega, by omega, hmonth, hday⟩

/-- **A date comes again within nine years.** -/
theorem exists_date (n k : ℕ) : ∃ l, n < l ∧ l ≤ n + 3294 ∧ month l = month k ∧
    dayOfMonth l = dayOfMonth k := by
  obtain ⟨hone, htwelve, -, -⟩ := month_spec k
  obtain ⟨first, hfirst⟩ := exists_month_later n hone htwelve
  obtain ⟨hday, hlast⟩ := dayOfMonth_spec k
  have hleap := daysInMonth_le_leap (isLeap (year k)) (month k)
  obtain ⟨hlater, hnear, hmonth, hdate⟩ := hfirst (dayOfMonth k - 1) (by omega)
  exact ⟨_, hlater, hnear, hmonth, by omega⟩

/-- **A weekday in a month comes again within nine years.** -/
theorem exists_weekday (n k : ℕ) : ∃ l, n < l ∧ l ≤ n + 3294 ∧ month l = month k ∧
    weekday l = weekday k := by
  obtain ⟨hone, htwelve, -, -⟩ := month_spec k
  obtain ⟨first, hfirst⟩ := exists_month_later n hone htwelve
  have hlength := (daysInMonth_bounds true (month k)).1
  obtain ⟨hlater, hnear, hmonth, -⟩ := hfirst ((k + 6 * first) % 7) (by omega)
  refine ⟨_, hlater, hnear, hmonth, ?_⟩
  rw [weekday, weekday]
  omega

end Gregorian
