import Mathlib

/-! The proleptic Gregorian calendar: days and seconds counted from 1970-01-01, and the
fields they are written in. -/
namespace Boostander.Library.Calendar

/-- A day of the proleptic Gregorian calendar. -/
structure Date where
  year : Int
  month : Int
  day : Int
  deriving DecidableEq, Repr

/-- The first of March of `year`, counted in days from 1970-01-01. A year that begins in
March has its leap day at the end. -/
def yearStart (year : Int) : Int := 365 * year + year / 4 - year / 100 + year / 400 - 719468

/-- The first day of a month, counted from the first of March; March is month 0. -/
def monthStart (month : Int) : Int := (153 * month + 2) / 5

/-- The number of a day, where the month may also be outside of the year. -/
def daysFromCivil (date : Date) : Int :=
  let month := date.month + 9
  yearStart (date.year + month / 12 - 1) + monthStart (month % 12) + date.day - 1

/-- The year that begins in March in which day `n` is. Each of the cycles of 400, 100
and 4 years ends with its leap day, which does not begin another part. -/
def marchYear (n : Int) : Int :=
  let era := (n + 719468) / 146097
  let dayOfEra := (n + 719468) % 146097
  let century := min (dayOfEra / 36524) 3
  let dayOfCentury := dayOfEra - 36524 * century
  400 * era + 100 * century + 4 * (dayOfCentury / 1461) + min (dayOfCentury % 1461 / 365) 3

def civilFromDays (n : Int) : Date :=
  let year := marchYear n
  let dayOfYear := n - yearStart year
  let month := (5 * dayOfYear + 2) / 153
  ⟨year + (month + 2) / 12, (month + 2) % 12 + 1, dayOfYear - monthStart month + 1⟩

theorem yearStart_marchYear (n : Int) :
    yearStart (marchYear n) ≤ n ∧ n ≤ yearStart (marchYear n) + 365 := by
  unfold marchYear yearStart
  simp only
  generalize hera : (n + 719468) / 146097 = era
  generalize hday : (n + 719468) % 146097 = dayOfEra
  generalize hcentury : min (dayOfEra / 36524) 3 = century
  generalize hrest : dayOfEra - 36524 * century = dayOfCentury
  generalize hfour : dayOfCentury / 1461 = four
  generalize hyear : min (dayOfCentury % 1461 / 365) 3 = year
  have hcentury' : 0 ≤ century ∧ century ≤ 3 := by omega
  have hrest' : 0 ≤ dayOfCentury ∧ dayOfCentury ≤ 36524 := by omega
  have hfour' : 0 ≤ four ∧ four ≤ 24 := by omega
  have hyear' : 0 ≤ year ∧ year ≤ 3 := by omega
  have h4 : (400 * era + 100 * century + 4 * four + year) / 4 = 100 * era + 25 * century + four := by
    omega
  have h100 : (400 * era + 100 * century + 4 * four + year) / 100 = 4 * era + century := by omega
  have h400 : (400 * era + 100 * century + 4 * four + year) / 400 = era := by omega
  rw [h4, h100, h400]
  omega

theorem daysFromCivil_civilFromDays (n : Int) : daysFromCivil (civilFromDays n) = n := by
  have hyear := yearStart_marchYear n
  unfold civilFromDays daysFromCivil
  simp only
  generalize hday : n - yearStart (marchYear n) = dayOfYear
  generalize hmonth : (5 * dayOfYear + 2) / 153 = month
  have hmonth' : 0 ≤ month ∧ month ≤ 11 := by omega
  have hyears : marchYear n + (month + 2) / 12 + ((month + 2) % 12 + 1 + 9) / 12 - 1 = marchYear n := by
    omega
  have hmonths : ((month + 2) % 12 + 1 + 9) % 12 = month := by omega
  rw [hyears, hmonths]
  omega

theorem month_bounds (n : Int) : 1 ≤ (civilFromDays n).month ∧ (civilFromDays n).month ≤ 12 := by
  unfold civilFromDays
  simp only
  omega

theorem day_bounds (n : Int) : 1 ≤ (civilFromDays n).day ∧ (civilFromDays n).day ≤ 31 := by
  have hyear := yearStart_marchYear n
  unfold civilFromDays monthStart
  simp only
  omega

example : civilFromDays 11016 = ⟨2000, 2, 29⟩ ∧ civilFromDays (-25508) = ⟨1900, 3, 1⟩ ∧
    daysFromCivil ⟨1970, 13, 1⟩ = 365 := by decide

/-- A date with the time of day. -/
structure Civil where
  date : Date
  hour : Int
  minute : Int
  second : Int
  deriving DecidableEq, Repr

def civilFromSeconds (s : Int) : Civil :=
  ⟨civilFromDays (s / 86400), s % 86400 / 3600, s % 3600 / 60, s % 60⟩

def secondsFromCivil (t : Civil) : Int :=
  86400 * daysFromCivil t.date + 3600 * t.hour + 60 * t.minute + t.second

theorem secondsFromCivil_civilFromSeconds (s : Int) : secondsFromCivil (civilFromSeconds s) = s := by
  unfold secondsFromCivil civilFromSeconds
  simp only [daysFromCivil_civilFromDays]
  omega

end Boostander.Library.Calendar
