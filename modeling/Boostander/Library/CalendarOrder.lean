import Boostander.Library.Calendar

/-! The order of the calendar. The days that exist are numbered as they are written,
year before month before day, and so are the seconds. -/
namespace Boostander.Library.Calendar

def isLeap (year : Int) : Bool := year % 4 == 0 && (year % 100 != 0 || year % 400 == 0)

def daysInMonth (year month : Int) : Int :=
  if month = 2 then if isLeap year then 29 else 28
  else if month = 4 ∨ month = 6 ∨ month = 9 ∨ month = 11 then 30
  else 31

/-- The date is in the calendar. -/
structure Date.Valid (date : Date) : Prop where
  month : 1 ≤ date.month ∧ date.month ≤ 12
  day : 1 ≤ date.day ∧ date.day ≤ daysInMonth date.year date.month

/-- One date comes before another: by year, then by month, then by day. -/
def Date.Before (a b : Date) : Prop :=
  a.year < b.year ∨ a.year = b.year ∧ (a.month < b.month ∨ a.month = b.month ∧ a.day < b.day)

instance (date : Date) : Decidable date.Valid :=
  decidable_of_iff
    ((1 ≤ date.month ∧ date.month ≤ 12) ∧ 1 ≤ date.day ∧ date.day ≤ daysInMonth date.year date.month)
    ⟨fun h => ⟨h.1, h.2⟩, fun h => ⟨h.month, h.day⟩⟩

instance (a b : Date) : Decidable (a.Before b) := inferInstanceAs (Decidable (_ ∨ _))

/-- The first day of the month `k`, where the months are counted on through the years. -/
def monthFirst (k : Int) : Int := yearStart ((k + 9) / 12 - 1) + monthStart ((k + 9) % 12)

private theorem daysFromCivil_eq (date : Date) :
    daysFromCivil date = monthFirst (12 * date.year + date.month) + date.day - 1 := by
  have hyear : (12 * date.year + date.month + 9) / 12 - 1 = date.year + (date.month + 9) / 12 - 1 := by
    omega
  have hmonth : (12 * date.year + date.month + 9) % 12 = (date.month + 9) % 12 := by omega
  rw [monthFirst, hyear, hmonth]
  rfl

private theorem isLeap_iff (year : Int) :
    isLeap year = true ↔ year % 4 = 0 ∧ (year % 100 ≠ 0 ∨ year % 400 = 0) := by
  simp [isLeap]

private theorem yearStart_succ (year : Int) :
    yearStart year = yearStart (year - 1) + if isLeap year then 366 else 365 := by
  have hleap := isLeap_iff year
  unfold yearStart
  split
  · have := hleap.mp (by assumption)
    omega
  · have hnot : ¬(year % 4 = 0 ∧ (year % 100 ≠ 0 ∨ year % 400 = 0)) := fun h => by
      have := hleap.mpr h
      contradiction
    omega

private theorem daysInMonth_bounds (year month : Int) :
    28 ≤ daysInMonth year month ∧ daysInMonth year month ≤ 31 := by
  unfold daysInMonth
  split
  · split <;> omega
  · split <;> omega

private theorem monthFirst_eq (year month : Int) (hmonth : 3 ≤ month ∧ month ≤ 14) :
    monthFirst (12 * year + month) = yearStart year + monthStart (month - 3) := by
  have hyear : (12 * year + month + 9) / 12 - 1 = year := by omega
  have hrest : (12 * year + month + 9) % 12 = month - 3 := by omega
  rw [monthFirst, hyear, hrest]

private theorem monthFirst_succ (year month : Int) (hmonth : 1 ≤ month ∧ month ≤ 12) :
    monthFirst (12 * year + month + 1) =
      monthFirst (12 * year + month) + daysInMonth year month := by
  by_cases hmarch : 3 ≤ month
  · have hnext := monthFirst_eq year (month + 1) (by omega)
    rw [← Int.add_assoc] at hnext
    rw [hnext, monthFirst_eq year month (by omega), Int.add_assoc, add_right_inj]
    obtain ⟨-, hhigh⟩ := hmonth
    clear hnext
    interval_cases month <;> rfl
  · have hthis := monthFirst_eq (year - 1) (month + 12) (by omega)
    have hthis' : 12 * (year - 1) + (month + 12) = 12 * year + month := by omega
    rw [hthis'] at hthis
    rw [hthis]
    by_cases hjanuary : month = 1
    · have hnext := monthFirst_eq (year - 1) 14 (by omega)
      have hnext' : 12 * (year - 1) + 14 = 12 * year + month + 1 := by omega
      rw [hnext'] at hnext
      rw [hnext, hjanuary]
      simp only [monthStart, daysInMonth]
      omega
    · obtain rfl : month = 2 := by omega
      have hnext := monthFirst_eq year 3 (by omega)
      have hyear := yearStart_succ year
      rw [show 12 * year + 2 + 1 = 12 * year + 3 by omega, hnext, hyear]
      simp only [monthStart, daysInMonth, if_true]
      split <;> omega

private theorem monthFirst_strictMono : StrictMono monthFirst := by
  apply strictMono_int_of_lt_succ
  intro k
  have hsucc := monthFirst_succ ((k - 1) / 12) ((k - 1) % 12 + 1) (by omega)
  have hk : 12 * ((k - 1) / 12) + ((k - 1) % 12 + 1) = k := by omega
  have hdays := daysInMonth_bounds ((k - 1) / 12) ((k - 1) % 12 + 1)
  rw [hk] at hsucc
  omega

private theorem daysFromCivil_lt {a b : Date} (ha : a.Valid) (hb : b.Valid)
    (hlt : 12 * a.year + a.month < 12 * b.year + b.month) : daysFromCivil a < daysFromCivil b := by
  have hnext := monthFirst_succ a.year a.month ha.month
  have hle : monthFirst (12 * a.year + a.month + 1) ≤ monthFirst (12 * b.year + b.month) :=
    monthFirst_strictMono.monotone hlt
  have hday := ha.day
  have hday' := hb.day
  rw [daysFromCivil_eq, daysFromCivil_eq]
  omega

private theorem daysFromCivil_lt_iff {a b : Date} (ha : a.Valid) (hb : b.Valid) :
    daysFromCivil a < daysFromCivil b ↔ a.Before b := by
  have hmonth := ha.month
  have hmonth' := hb.month
  unfold Date.Before
  rcases Int.lt_trichotomy (12 * a.year + a.month) (12 * b.year + b.month) with hlt | heq | hgt
  · exact iff_of_true (daysFromCivil_lt ha hb hlt) (by omega)
  · obtain ⟨hyear, hmonths⟩ : a.year = b.year ∧ a.month = b.month := by omega
    rw [daysFromCivil_eq, daysFromCivil_eq, heq]
    omega
  · exact iff_of_false (Int.not_lt.mpr (daysFromCivil_lt hb ha hgt).le) (by omega)

private theorem daysFromCivil_inj {a b : Date} (ha : a.Valid) (hb : b.Valid) :
    daysFromCivil a = daysFromCivil b ↔ a = b := by
  constructor
  · intro heq
    have hab := daysFromCivil_lt_iff ha hb
    have hba := daysFromCivil_lt_iff hb ha
    rw [heq] at hab hba
    have hnot : ¬a.Before b := fun h => absurd (hab.mpr h) (Int.lt_irrefl _)
    have hnot' : ¬b.Before a := fun h => absurd (hba.mpr h) (Int.lt_irrefl _)
    obtain ⟨y, m, d⟩ := a
    obtain ⟨y', m', d'⟩ := b
    simp only [Date.Before] at hnot hnot'
    simp only [Date.mk.injEq]
    omega
  · intro heq
    rw [heq]

private theorem lt_yearStart_succ (n : Int) : n < yearStart (marchYear n + 1) := by
  unfold marchYear yearStart
  simp only
  generalize hera : (n + 719468) / 146097 = era
  generalize hday : (n + 719468) % 146097 = dayOfEra
  generalize hcentury : min (dayOfEra / 36524) 3 = century
  generalize hrest : dayOfEra - 36524 * century = dayOfCentury
  generalize hfour : dayOfCentury / 1461 = four
  generalize hyear : min (dayOfCentury % 1461 / 365) 3 = year
  have hcentury' : 0 ≤ century ∧ century ≤ 3 := by omega
  have hrest' : 0 ≤ dayOfCentury ∧ dayOfCentury ≤ 36524 := by omega
  have hfour' : 0 ≤ four ∧ four ≤ 24 := by omega
  have hyear' : 0 ≤ year ∧ year ≤ 3 := by omega
  by_cases hlast : year = 3
  · have h4 : (400 * era + 100 * century + 4 * four + year + 1) / 4 =
        100 * era + 25 * century + four + 1 := by
      omega
    rw [h4]
    by_cases hfull : four = 24
    · have h100 : (400 * era + 100 * century + 4 * four + year + 1) / 100 = 4 * era + century + 1 := by
        omega
      rw [h100]
      by_cases hera' : century = 3
      · have h400 : (400 * era + 100 * century + 4 * four + year + 1) / 400 = era + 1 := by omega
        rw [h400]
        omega
      · have h400 : (400 * era + 100 * century + 4 * four + year + 1) / 400 = era := by omega
        have hshort : dayOfCentury ≤ 36523 := by omega
        rw [h400]
        omega
    · have h100 : (400 * era + 100 * century + 4 * four + year + 1) / 100 = 4 * era + century := by omega
      have h400 : (400 * era + 100 * century + 4 * four + year + 1) / 400 = era := by omega
      rw [h100, h400]
      omega
  · have h4 : (400 * era + 100 * century + 4 * four + year + 1) / 4 = 100 * era + 25 * century + four := by
      omega
    have h100 : (400 * era + 100 * century + 4 * four + year + 1) / 100 = 4 * era + century := by omega
    have h400 : (400 * era + 100 * century + 4 * four + year + 1) / 400 = era := by omega
    rw [h4, h100, h400]
    omega

private theorem valid_civilFromDays (n : Int) : (civilFromDays n).Valid := by
  refine ⟨month_bounds n, (day_bounds n).1, ?_⟩
  have hdays := daysFromCivil_civilFromDays n
  have hnext := monthFirst_succ (civilFromDays n).year (civilFromDays n).month (month_bounds n)
  rw [daysFromCivil_eq] at hdays
  have hend : n < monthFirst (12 * (civilFromDays n).year + (civilFromDays n).month + 1) := by
    have hyear := yearStart_marchYear n
    have hend := lt_yearStart_succ n
    unfold civilFromDays
    simp only
    generalize hday : n - yearStart (marchYear n) = dayOfYear
    generalize hmonth : (5 * dayOfYear + 2) / 153 = month
    have hmonth' : 0 ≤ month ∧ month ≤ 11 := by omega
    have hindex : 12 * (marchYear n + (month + 2) / 12) + ((month + 2) % 12 + 1) + 1 =
        12 * marchYear n + (month + 4) := by omega
    rw [hindex]
    by_cases hlast : month = 11
    · have hfirst := monthFirst_eq (marchYear n + 1) 3 (by omega)
      rw [hlast, show 12 * marchYear n + (11 + 4) = 12 * (marchYear n + 1) + 3 by omega, hfirst]
      simp only [monthStart]
      omega
    · rw [monthFirst_eq (marchYear n) _ (by omega)]
      unfold monthStart
      omega
  omega

private theorem civilFromDays_daysFromCivil {date : Date} (h : date.Valid) :
    civilFromDays (daysFromCivil date) = date := by
  apply (daysFromCivil_inj (valid_civilFromDays _) h).mp
  exact daysFromCivil_civilFromDays _

/-- A date of the calendar with a time of the day. -/
structure Civil.Valid (t : Civil) : Prop where
  date : t.date.Valid
  hour : 0 ≤ t.hour ∧ t.hour ≤ 23
  minute : 0 ≤ t.minute ∧ t.minute ≤ 59
  second : 0 ≤ t.second ∧ t.second ≤ 59

/-- One time comes before another: by date, then by hour, minute and second. -/
def Civil.Before (a b : Civil) : Prop :=
  a.date.Before b.date ∨ a.date = b.date ∧ (a.hour < b.hour ∨ a.hour = b.hour ∧
    (a.minute < b.minute ∨ a.minute = b.minute ∧ a.second < b.second))

instance (t : Civil) : Decidable t.Valid :=
  decidable_of_iff
    (t.date.Valid ∧ (0 ≤ t.hour ∧ t.hour ≤ 23) ∧ (0 ≤ t.minute ∧ t.minute ≤ 59) ∧
      0 ≤ t.second ∧ t.second ≤ 59)
    ⟨fun h => ⟨h.1, h.2.1, h.2.2.1, h.2.2.2⟩, fun h => ⟨h.date, h.hour, h.minute, h.second⟩⟩

instance (a b : Civil) : Decidable (a.Before b) := inferInstanceAs (Decidable (_ ∨ _))

theorem secondsFromCivil_lt_iff {a b : Civil} (ha : a.Valid) (hb : b.Valid) :
    secondsFromCivil a < secondsFromCivil b ↔ a.Before b := by
  obtain ⟨hdate, hhour, hminute, hsecond⟩ := ha
  obtain ⟨hdate', hhour', hminute', hsecond'⟩ := hb
  have hbefore := daysFromCivil_lt_iff hdate hdate'
  have hsame := daysFromCivil_inj hdate hdate'
  rw [Civil.Before, ← hbefore, ← hsame, secondsFromCivil, secondsFromCivil]
  omega

/-- The fields of a time in some years, also of a day that a month does not have, are
between the first second of these years and the end of a last month of 31 days. -/
theorem secondsFromCivil_bounds {t : Civil} {first last : Int}
    (hyear : first ≤ t.date.year ∧ t.date.year ≤ last) (hmonth : 1 ≤ t.date.month ∧ t.date.month ≤ 12)
    (hday : 1 ≤ t.date.day ∧ t.date.day ≤ 31) (hhour : 0 ≤ t.hour ∧ t.hour ≤ 23)
    (hminute : 0 ≤ t.minute ∧ t.minute ≤ 59) (hsecond : 0 ≤ t.second ∧ t.second ≤ 59) :
    86400 * monthFirst (12 * first + 1) ≤ secondsFromCivil t ∧
      secondsFromCivil t < 86400 * (monthFirst (12 * last + 12) + 31) := by
  have hfirst : monthFirst (12 * first + 1) ≤ monthFirst (12 * t.date.year + t.date.month) :=
    monthFirst_strictMono.monotone (by omega)
  have hlast : monthFirst (12 * t.date.year + t.date.month) ≤ monthFirst (12 * last + 12) :=
    monthFirst_strictMono.monotone (by omega)
  rw [secondsFromCivil, daysFromCivil_eq]
  omega

theorem valid_civilFromSeconds (s : Int) : (civilFromSeconds s).Valid := by
  refine ⟨valid_civilFromDays _, ?_, ?_, ?_⟩
  all_goals
    simp only [civilFromSeconds]
    omega

theorem civilFromSeconds_secondsFromCivil {t : Civil} (h : t.Valid) :
    civilFromSeconds (secondsFromCivil t) = t := by
  obtain ⟨hdate, hhour, hminute, hsecond⟩ := h
  have hdays := civilFromDays_daysFromCivil hdate
  obtain ⟨date, hour, minute, second⟩ := t
  simp only at hdate hhour hminute hsecond hdays
  have hday : (86400 * daysFromCivil date + 3600 * hour + 60 * minute + second) / 86400 =
      daysFromCivil date := by omega
  simp only [civilFromSeconds, secondsFromCivil, hday, hdays, Civil.mk.injEq, true_and]
  omega

end Boostander.Library.Calendar
