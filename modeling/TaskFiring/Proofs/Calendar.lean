import Mathlib.Tactic.IntervalCases
import TaskFiring.Time.Calendar

/-!
The calendar and the count of days. A day falls into an era, a year of it that begins in March,
and a month of that; the leap day ends its year, so a year has a 366th day only if it ends in a
leap day. From the date that a count of days gives, the count comes back, and the date is one
that there is.
-/

namespace TaskFiring
namespace Date

/-- The year of the era that a day of it falls into. -/
def yearOfEra (dayOfEra : Int) : Int :=
  (dayOfEra - dayOfEra / 1460 + dayOfEra / 36524 - dayOfEra / 146096) / 365

/-- The day of its year. -/
def dayOfYear (dayOfEra : Int) : Int :=
  dayOfEra - (365 * yearOfEra dayOfEra + yearOfEra dayOfEra / 4 - yearOfEra dayOfEra / 100)

/-- The month, counted from March, that a day of the year falls into. -/
def monthOfYear (dayOfYear : Int) : Int := (5 * dayOfYear + 2) / 153

def dayOfMonth (dayOfYear : Int) : Int := dayOfYear - (153 * monthOfYear dayOfYear + 2) / 5 + 1

section

variable {n : Int}

theorem yearOfEra_range (h : 0 ≤ n) (h' : n < daysPerEra) :
    0 ≤ yearOfEra n ∧ yearOfEra n ≤ 399 := by
  unfold daysPerEra at h'
  unfold yearOfEra
  omega

/-- The last day of an era is the only one past its fourth century. -/
theorem century_eq (h : 0 ≤ n) (h' : n < daysPerEra) :
    yearOfEra n / 100 = n / 36524 - n / 146096 := by
  unfold daysPerEra at h'
  have last : n / 36524 = 4 ∧ n / 146096 = 1 ∨ n / 36524 ≠ 4 ∧ n / 146096 = 0 := by omega
  have centuries : n / 36524 = 0 ∨ n / 36524 = 1 ∨ n / 36524 = 2 ∨ n / 36524 = 3 ∨
      n / 36524 = 4 := by omega
  unfold yearOfEra
  rcases centuries with hc | hc | hc | hc | hc <;> rw [hc] at last ⊢ <;> omega

/-- The leap days of the years before are those of the days before, but for one at most. -/
theorem leapYears_range (h : 0 ≤ n) (h' : n < daysPerEra) :
    yearOfEra n / 4 ≤ n / 1460 ∧ n / 1460 ≤ yearOfEra n / 4 + 1 := by
  unfold daysPerEra at h'
  unfold yearOfEra
  omega

theorem dayOfYear_range (h : 0 ≤ n) (h' : n < daysPerEra) :
    0 ≤ dayOfYear n ∧ dayOfYear n ≤ 365 := by
  have hcentury := century_eq h h'
  have hleap := leapYears_range h h'
  unfold dayOfYear
  unfold yearOfEra at *
  omega

/-- A year of 366 days ends in a leap day. -/
theorem leap_of_dayOfYear (h : 0 ≤ n) (h' : n < daysPerEra) (hday : dayOfYear n = 365) :
    (yearOfEra n + 1) % 4 = 0 ∧
      ((yearOfEra n + 1) % 100 ≠ 0 ∨ (yearOfEra n + 1) % 400 = 0) := by
  have hcentury := century_eq h h'
  have hleap := leapYears_range h h'
  have hyear : yearOfEra n = (n - n / 1460 + n / 36524 - n / 146096) / 365 := rfl
  have hnext : yearOfEra n + 1 = 4 * (n / 1460) := by
    unfold dayOfYear at hday
    omega
  unfold daysPerEra at h'
  unfold dayOfYear at hday
  refine ⟨by omega, ?_⟩
  by_cases hlast : n / 146096 = 1
  · right
    omega
  · left
    omega

theorem monthOfYear_range (h : 0 ≤ n) (h' : n ≤ 365) :
    0 ≤ monthOfYear n ∧ monthOfYear n ≤ 11 := by
  unfold monthOfYear
  omega

theorem dayOfMonth_pos (n : Int) : 1 ≤ dayOfMonth n := by
  unfold dayOfMonth monthOfYear
  omega

end

/-- The day of its era. -/
def dayOfEra (days : Int) : Int :=
  days + daysToEpoch - (days + daysToEpoch) / daysPerEra * daysPerEra

theorem dayOfEra_range (days : Int) : 0 ≤ dayOfEra days ∧ dayOfEra days < daysPerEra := by
  unfold dayOfEra daysPerEra
  omega

/-- The date of a day of a month, the month counted from March and the year within its era. -/
def ofParts (era year month day : Int) : Date :=
  let calendarMonth := if month < 10 then month + 3 else month - 9
  { year := year + era * 400 + (if calendarMonth ≤ 2 then 1 else 0)
    month := calendarMonth.toNat
    day := day.toNat }

theorem ofDays_eq (days : Int) :
    ofDays days = ofParts ((days + daysToEpoch) / daysPerEra) (yearOfEra (dayOfEra days))
      (monthOfYear (dayOfYear (dayOfEra days))) (dayOfMonth (dayOfYear (dayOfEra days))) :=
  rfl

section

variable {era year month day : Int}

/-- From March to December the year is that of the calendar. -/
theorem ofParts_summer (h : month < 10) (h' : 0 ≤ month) :
    ofParts era year month day = ⟨year + era * 400, (month + 3).toNat, day.toNat⟩ := by
  have hmonth : ¬ month + 3 ≤ 2 := by omega
  simp [ofParts, h, hmonth]

/-- January and February belong to the year before. -/
theorem ofParts_winter (h : ¬ month < 10) (h' : month ≤ 11) :
    ofParts era year month day = ⟨year + era * 400 + 1, (month - 9).toNat, day.toNat⟩ := by
  have hmonth : month - 9 ≤ 2 := by omega
  simp [ofParts, h, hmonth]

theorem toDays_ofParts (hyear : 0 ≤ year ∧ year ≤ 399) (hmonth : 0 ≤ month ∧ month ≤ 11)
    (hday : 1 ≤ day) :
    (ofParts era year month day).toDays
      = era * daysPerEra + year * 365 + year / 4 - year / 100
        + ((153 * month + 2) / 5 + day - 1) - daysToEpoch := by
  have hera : (year + era * 400) / 400 = era := by omega
  have hrest : year + era * 400 - era * 400 = year := by omega
  by_cases h : month < 10
  · rw [ofParts_summer h hmonth.1]
    have hcalendar : ¬ (month + 3).toNat ≤ 2 := by omega
    have hback : ((month + 3).toNat : Int) - 3 = month := by omega
    have hdays : (day.toNat : Int) = day := by omega
    simp only [toDays, hcalendar, if_false, hera, hrest, hback, hdays]
  · rw [ofParts_winter h hmonth.2]
    have hcalendar : (month - 9).toNat ≤ 2 := by omega
    have hback : ((month - 9).toNat : Int) + 9 = month := by omega
    have hdays : (day.toNat : Int) = day := by omega
    have hbefore : year + era * 400 + 1 - 1 = year + era * 400 := by omega
    simp only [toDays, hcalendar, if_true, hbefore, hera, hrest, hback, hdays]

end

/-- The count of days comes back from its date. -/
theorem toDays_ofDays (days : Int) : (ofDays days).toDays = days := by
  obtain ⟨h, h'⟩ := dayOfEra_range days
  have hday := dayOfYear_range h h'
  rw [ofDays_eq, toDays_ofParts (yearOfEra_range h h') (monthOfYear_range hday.1 hday.2)
    (dayOfMonth_pos _)]
  have hera : dayOfEra days + (days + daysToEpoch) / daysPerEra * daysPerEra
      = days + daysToEpoch := by
    unfold dayOfEra
    omega
  have hyear : dayOfEra days = 365 * yearOfEra (dayOfEra days) + yearOfEra (dayOfEra days) / 4
      - yearOfEra (dayOfEra days) / 100 + dayOfYear (dayOfEra days) := by
    unfold dayOfYear
    omega
  unfold dayOfMonth
  omega

theorem month_ofDays_range (days : Int) :
    1 ≤ (ofDays days).month ∧ (ofDays days).month ≤ 12 := by
  obtain ⟨h, h'⟩ := dayOfEra_range days
  have hday := dayOfYear_range h h'
  have hmonth := monthOfYear_range hday.1 hday.2
  rw [ofDays_eq]
  by_cases hsummer : monthOfYear (dayOfYear (dayOfEra days)) < 10
  · rw [ofParts_summer hsummer hmonth.1]
    dsimp only
    omega
  · rw [ofParts_winter hsummer hmonth.2]
    dsimp only
    omega

theorem day_ofDays_pos (days : Int) : 1 ≤ (ofDays days).day := by
  have hday := dayOfMonth_pos (dayOfYear (dayOfEra days))
  show 1 ≤ (dayOfMonth (dayOfYear (dayOfEra days))).toNat
  omega

/-- No month from March to December has more days than the calendar says. -/
theorem dayOfMonth_summer {day : Int} (year : Int) (h : 0 ≤ day)
    (hsummer : monthOfYear day < 10) :
    (dayOfMonth day).toNat ≤ daysInMonth year (monthOfYear day + 3).toNat := by
  have hdef : monthOfYear day = (5 * day + 2) / 153 := rfl
  unfold dayOfMonth
  generalize monthOfYear day = month at *
  have hlow : 0 ≤ month := by omega
  interval_cases month <;> simp [daysInMonth] <;> omega

/-- Nor have January and February, the year being one day longer if it ends in a leap day. -/
theorem dayOfMonth_winter {day year : Int} (h' : day ≤ 365)
    (hwinter : ¬ monthOfYear day < 10) (hleap : day = 365 → isLeap year) :
    (dayOfMonth day).toNat ≤ daysInMonth year (monthOfYear day - 9).toNat := by
  have hdef : monthOfYear day = (5 * day + 2) / 153 := rfl
  unfold dayOfMonth
  generalize monthOfYear day = month at *
  have hlow : 10 ≤ month := by omega
  have hhigh : month ≤ 11 := by omega
  interval_cases month
  · simp [daysInMonth]
    omega
  · by_cases hlast : day = 365
    · simp [daysInMonth, hleap hlast]
      omega
    · have hdays : 28 ≤ daysInMonth year 2 := by
        show 28 ≤ if isLeap year then 29 else 28
        split <;> omega
      refine le_trans ?_ hdays
      omega

theorem day_ofDays_le (days : Int) :
    (ofDays days).day ≤ daysInMonth (ofDays days).year (ofDays days).month := by
  obtain ⟨h, h'⟩ := dayOfEra_range days
  have hday := dayOfYear_range h h'
  have hmonth := monthOfYear_range hday.1 hday.2
  rw [ofDays_eq]
  by_cases hsummer : monthOfYear (dayOfYear (dayOfEra days)) < 10
  · rw [ofParts_summer hsummer hmonth.1]
    exact dayOfMonth_summer _ hday.1 hsummer
  · rw [ofParts_winter hsummer hmonth.2]
    refine dayOfMonth_winter hday.2 hsummer ?_
    intro hlast
    have hleap := leap_of_dayOfYear h h' hlast
    simp only [isLeap, Bool.and_eq_true, Bool.or_eq_true, beq_iff_eq, bne_iff_ne]
    omega

theorem daysInMonth_le (year : Int) (month : Nat) : daysInMonth year month ≤ 31 := by
  unfold daysInMonth
  split
  case h_5 => split <;> decide
  all_goals decide

end Date
end TaskFiring
