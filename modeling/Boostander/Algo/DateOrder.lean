import Boostander.Algo.DateText
import Boostander.Library.CalendarOrder

/-! Which time a date text stands for. A text is always read as standard time, so the
texts of the years that the clock can count compare as they are written, and one is
written back as it was read exactly if its day exists and standard time is in force. -/
namespace Boostander.Algo
open Library

/-- The fields as a date and a time of the day. -/
def Tm.civil (tm : Tm) : Calendar.Civil :=
  ⟨⟨tm.year + 1900, tm.mon + 1, tm.mday⟩, tm.hour, tm.min, tm.sec⟩

private theorem timegm_eq (tm : Tm) : timegm tm = Calendar.secondsFromCivil tm.civil := rfl

private theorem civil_gmtime (t : Int) : (gmtime t).civil = Calendar.civilFromSeconds t := by
  simp [Tm.civil, gmtime]

private theorem Tm.eq_of_civil {tm tm' : Tm} (h : tm.civil = tm'.civil) :
    tm = { tm' with isdst := tm.isdst } := by
  obtain ⟨sec, min, hour, mday, mon, year, isdst⟩ := tm
  obtain ⟨sec', min', hour', mday', mon', year', isdst'⟩ := tm'
  simp only [Tm.civil, Calendar.Civil.mk.injEq, Calendar.Date.mk.injEq] at h
  obtain ⟨⟨hyear, hmon, rfl⟩, rfl, rfl, rfl⟩ := h
  obtain rfl : year = year' := by omega
  obtain rfl : mon = mon' := by omega
  rfl

theorem dateTimeFromStr_putTime (zone : Zone) {tm : Tm} (h : tm.Readable) :
    dateTimeFromStr zone (putTime defaultFormat tm) defaultFormat =
      fromTimeT (timegm tm - zone.standard) := by
  rw [dateTimeFromStr, dropWhile_isSpace_putTime h, getTime_putTime h]
  rfl

private theorem fromTimeT_lt_iff {t t' : Int} : fromTimeT t < fromTimeT t' ↔ t < t' := by
  simp only [fromTimeT]
  omega

theorem timegm_lt_iff {tm tm' : Tm} (hvalid : tm.civil.Valid) (hvalid' : tm'.civil.Valid) :
    timegm tm < timegm tm' ↔ tm.civil.Before tm'.civil := by
  rw [timegm_eq, timegm_eq, Calendar.secondsFromCivil_lt_iff hvalid hvalid']

/-- A year that `system_clock` counts to its end in every zone. -/
def Tm.ClockYear (tm : Tm) : Prop := 1678 ≤ tm.year + 1900 ∧ tm.year + 1900 ≤ 2261

instance (tm : Tm) : Decidable tm.ClockYear := inferInstanceAs (Decidable (_ ∧ _))

/-- Standard time is at most a day from UTC. -/
def Zone.WithinDay (zone : Zone) : Prop := -86400 ≤ zone.standard ∧ zone.standard ≤ 86400

instance (zone : Zone) : Decidable zone.WithinDay := inferInstanceAs (Decidable (_ ∧ _))

theorem inClock_fromTimeT {zone : Zone} {tm : Tm} (hzone : zone.WithinDay) (h : tm.Readable)
    (hyear : tm.ClockYear) : InClock (fromTimeT (timegm tm - zone.standard)) := by
  have hmon := h.mon
  have hbounds : 86400 * Calendar.monthFirst (12 * 1678 + 1) ≤ timegm tm ∧
      timegm tm < 86400 * (Calendar.monthFirst (12 * 2261 + 12) + 31) := by
    have hmonth : 1 ≤ tm.civil.date.month ∧ tm.civil.date.month ≤ 12 := by
      simp only [Tm.civil]
      omega
    exact Calendar.secondsFromCivil_bounds (t := tm.civil) hyear hmonth h.mday h.hour h.min h.sec
  have hfirst : Calendar.monthFirst (12 * 1678 + 1) = -106650 := by decide
  have hlast : Calendar.monthFirst (12 * 2261 + 12) = 106620 := by decide
  obtain ⟨hlow, hhigh⟩ := hzone
  rw [hfirst, hlast] at hbounds
  rw [InClock, fromTimeT]
  omega

/-- In a zone of one standard offset, with or without daylight time, the texts of two
times of the calendar in these years are counted without overflow and ordered as their
years, months, days, hours, minutes and seconds. -/
theorem dateTimeFromStr_lt_iff (zone : Zone) {tm tm' : Tm} (hzone : zone.WithinDay)
    (h : tm.Readable) (h' : tm'.Readable) (hyear : tm.ClockYear) (hyear' : tm'.ClockYear)
    (hvalid : tm.civil.Valid) (hvalid' : tm'.civil.Valid) :
    InClock (dateTimeFromStr zone (putTime defaultFormat tm) defaultFormat) ∧
      InClock (dateTimeFromStr zone (putTime defaultFormat tm') defaultFormat) ∧
      (dateTimeFromStr zone (putTime defaultFormat tm) defaultFormat <
          dateTimeFromStr zone (putTime defaultFormat tm') defaultFormat ↔
        tm.civil.Before tm'.civil) := by
  rw [dateTimeFromStr_putTime zone h, dateTimeFromStr_putTime zone h', fromTimeT_lt_iff,
    ← timegm_lt_iff hvalid hvalid']
  refine ⟨inClock_fromTimeT hzone h hyear, inClock_fromTimeT hzone h' hyear', ?_⟩
  omega

/-- The last second of January 2019 and the first one of February. -/
def januaryEnd : Tm := { sec := 59, min := 59, hour := 23, mday := 31, mon := 0, year := 119 }
def februaryStart : Tm := { mday := 1, mon := 1, year := 119 }

theorem readable_januaryEnd : januaryEnd.Readable := by
  constructor <;> decide

theorem readable_februaryStart : februaryStart.Readable := by
  constructor <;> decide

/-- `31.01.2019 23:59:59` is before `01.02.2019 00:00:00`. -/
theorem dateTimeFromStr_lt_iff_january :
    dateTimeFromStr summerZone (putTime defaultFormat januaryEnd) defaultFormat <
      dateTimeFromStr summerZone (putTime defaultFormat februaryStart) defaultFormat := by
  obtain ⟨-, -, hlt⟩ := dateTimeFromStr_lt_iff summerZone (by decide) readable_januaryEnd
    readable_februaryStart (by decide) (by decide) (by decide) (by decide)
  exact hlt.mpr (by decide)

private theorem localtime_eq_iff (zone : Zone) (tm : Tm) (t : Int) :
    localtime zone t = { tm with isdst := (localtime zone t).isdst } ↔
      tm.civil.Valid ∧ t + zone.offset t = timegm tm := by
  have hcivil : (localtime zone t).civil = Calendar.civilFromSeconds (t + zone.offset t) :=
    civil_gmtime _
  constructor
  · intro heq
    have hsame : tm.civil = Calendar.civilFromSeconds (t + zone.offset t) := by
      rw [← hcivil, heq]
      rfl
    rw [timegm_eq, hsame]
    exact ⟨Calendar.valid_civilFromSeconds _, (Calendar.secondsFromCivil_civilFromSeconds _).symm⟩
  · rintro ⟨hvalid, hseconds⟩
    apply Tm.eq_of_civil
    rw [hcivil, hseconds, timegm_eq, Calendar.civilFromSeconds_secondsFromCivil hvalid]

private theorem Zone.offset_eq_standard_iff (zone : Zone) (t : Int) :
    zone.offset t = zone.standard ↔ zone.inForce t = false ∨ zone.daylight = zone.standard := by
  cases hforce : zone.inForce t <;> simp [Zone.offset, hforce]

theorem dateToStr_fromTimeT_iff (zone : Zone) {tm : Tm} (h : tm.Readable) :
    dateToStr zone (fromTimeT (timegm tm - zone.standard)) defaultFormat = putTime defaultFormat tm ↔
      tm.civil.Valid ∧
        (zone.inForce (timegm tm - zone.standard) = false ∨ zone.daylight = zone.standard) := by
  rw [dateToStr, toTimeT_fromTimeT, putTime_eq_iff h readable_localtime, localtime_eq_iff,
    ← zone.offset_eq_standard_iff]
  apply and_congr_right
  intro _
  omega

/-- A text that the default format can write, of one of these years, is counted without
overflow, and is written back unchanged exactly if it names a day that exists and
daylight time is not in force then, or has the offset of standard time. -/
theorem dateTimeFromStr_roundTrip_iff (zone : Zone) {tm : Tm} (hzone : zone.WithinDay)
    (h : tm.Readable) (hyear : tm.ClockYear) :
    InClock (dateTimeFromStr zone (putTime defaultFormat tm) defaultFormat) ∧
      (dateToStr zone (dateTimeFromStr zone (putTime defaultFormat tm) defaultFormat) defaultFormat =
          putTime defaultFormat tm ↔
        tm.civil.Valid ∧
          (zone.inForce (timegm tm - zone.standard) = false ∨ zone.daylight = zone.standard)) := by
  rw [dateTimeFromStr_putTime zone h]
  exact ⟨inClock_fromTimeT hzone h hyear, dateToStr_fromTimeT_iff zone h⟩

theorem dateTimeFromStr_roundTrip_iff_january :
    dateToStr summerZone (dateTimeFromStr summerZone (putTime defaultFormat januaryEnd) defaultFormat)
      defaultFormat = putTime defaultFormat januaryEnd := by
  obtain ⟨-, hback⟩ :=
    dateTimeFromStr_roundTrip_iff summerZone (by decide) readable_januaryEnd (by decide)
  exact hback.mpr ⟨by decide, .inl (by decide)⟩

end Boostander.Algo
