import Boostander.Algo.DateOrder
import Boostander.Net.LatestRow

/-! The analysis of a table of dates. With the conversion of dates that the program
calls, the date it reports is that of the row that is the latest in the calendar. -/
namespace Boostander.Net
open Algo Algo.CSV

/-- The conversions of a program that runs in a zone. -/
def Conversions.inZone {δ : Type} (cv : Conversions δ) (zone : Zone) : Conversions δ :=
  { cv with dateTimeFromStr := fun date => Algo.dateTimeFromStr zone date defaultFormat }

/-- Each row begins with the text of a time of the calendar that the clock can count. -/
structure Dated (rows : List Row) (tm : Row → Tm) : Prop where
  text : ∀ row ∈ rows, row.headD [] = putTime defaultFormat (tm row)
  readable : ∀ row ∈ rows, (tm row).Readable
  valid : ∀ row ∈ rows, (tm row).civil.Valid
  clockYear : ∀ row ∈ rows, (tm row).ClockYear

section
variable {δ : Type}

private theorem maxDate_round (cv : Conversions δ) (a : Analysis δ) (row : Row) :
    (roundOf cv a row).maxDate = max a.maxDate (dateOf cv row) := by
  rw [roundOf]
  split
  · simp only
    omega
  · omega

private theorem maxDate_foldl (cv : Conversions δ) (rows : List Row) (a : Analysis δ) :
    (∀ row ∈ rows, dateOf cv row ≤ (rows.foldl (roundOf cv) a).maxDate) ∧
      a.maxDate ≤ (rows.foldl (roundOf cv) a).maxDate ∧
      ((rows.foldl (roundOf cv) a).maxDate = a.maxDate ∨
        ∃ row ∈ rows, dateOf cv row = (rows.foldl (roundOf cv) a).maxDate) := by
  induction rows generalizing a with
  | nil => exact ⟨fun row hrow => absurd hrow List.not_mem_nil, Int.le_refl _, .inl rfl⟩
  | cons row rows ih =>
    have hround := maxDate_round cv a row
    obtain ⟨hall, hstart, hattained⟩ := ih (roundOf cv a row)
    rw [List.foldl_cons]
    refine ⟨?_, by omega, ?_⟩
    · intro r hr
      rcases List.mem_cons.mp hr with rfl | hr
      · omega
      · exact hall r hr
    · rcases hattained with heq | ⟨r, hr, heq⟩
      · by_cases hgt : a.maxDate < dateOf cv row
        · exact .inr ⟨row, List.mem_cons_self, by omega⟩
        · exact .inl (by omega)
      · exact .inr ⟨r, List.mem_cons_of_mem _ hr, heq⟩

end

section
variable {δ : Type} {rows : List Row} {tm : Row → Tm}

private theorem dateOf_dated (cv : Conversions δ) (zone : Zone) (h : Dated rows tm) {row : Row}
    (hrow : row ∈ rows) :
    dateOf (cv.inZone zone) row = fromTimeT (timegm (tm row) - zone.standard) := by
  have htext : dateOf (cv.inZone zone) row =
      Algo.dateTimeFromStr zone (row.headD []) defaultFormat := rfl
  rw [htext, h.text row hrow, dateTimeFromStr_putTime zone (h.readable row hrow)]

/-- The analysis of numeric rows with dates, one of them after the epoch, counts every
date without overflow and reports the date of a row that no row follows in the calendar;
the text that is logged for it is that of the row exactly if daylight time is not in
force then. -/
theorem analysis_reports_latest (cv : Conversions δ) (zone : Zone) (hzone : zone.WithinDay)
    (h : Dated rows tm) (hnumeric : ∀ row ∈ rows, Numeric cv row)
    (hepoch : ∃ row ∈ rows, zone.standard < timegm (tm row)) :
    (∀ row ∈ rows, InClock (dateOf (cv.inZone zone) row)) ∧
    ∃ a, analize (cv.inZone zone) (ofTable 44 0 rows) = .ok a ∧
      ∃ row ∈ rows, (∀ r ∈ rows, ¬(tm row).civil.Before (tm r).civil) ∧
        (dateToStr zone a.maxDate defaultFormat = row.headD [] ↔
          zone.inForce (timegm (tm row) - zone.standard) = false ∨ zone.daylight = zone.standard) := by
  have hnumeric' : ∀ row ∈ rows, Numeric (cv.inZone zone) row := hnumeric
  refine ⟨?_, _, analize_numeric hnumeric', ?_⟩
  · intro row hrow
    rw [dateOf_dated cv zone h hrow]
    exact inClock_fromTimeT hzone (h.readable row hrow) (h.clockYear row hrow)
  obtain ⟨hall, -, hattained⟩ := maxDate_foldl (cv.inZone zone) rows ⟨0, (cv.inZone zone).zero⟩
  obtain ⟨late, hlate, hafter⟩ := hepoch
  have hpositive : 0 < dateOf (cv.inZone zone) late := by
    rw [dateOf_dated cv zone h hlate, fromTimeT]
    omega
  have hlate' := hall late hlate
  rcases hattained with hzero | ⟨row, hrow, hmax⟩
  · simp only at hzero
    omega
  refine ⟨row, hrow, ?_, ?_⟩
  · intro r hr hbefore
    have hlt := (timegm_lt_iff (h.valid row hrow) (h.valid r hr)).mpr hbefore
    have hle := hall r hr
    rw [← hmax, dateOf_dated cv zone h hrow, dateOf_dated cv zone h hr, fromTimeT, fromTimeT] at hle
    omega
  · rw [← hmax, dateOf_dated cv zone h hrow, h.text row hrow,
      dateToStr_fromTimeT_iff zone (h.readable row hrow), and_iff_right (h.valid row hrow)]

/-- Two rows of the last second of January 2019 and of the first one of February. -/
def turnRows : List Row :=
  [[putTime defaultFormat februaryStart, [56], [50]], [putTime defaultFormat januaryEnd, [57], [51]]]

def turnTime (row : Row) : Tm :=
  if row.headD [] = putTime defaultFormat februaryStart then februaryStart else januaryEnd

private theorem dated_turnRows : Dated turnRows turnTime := by
  have hfebruary : turnTime [putTime defaultFormat februaryStart, [56], [50]] = februaryStart := by rfl
  have hjanuary : turnTime [putTime defaultFormat januaryEnd, [57], [51]] = januaryEnd := by rfl
  constructor
  all_goals
    intro row hrow
    simp only [turnRows, List.mem_cons, List.not_mem_nil, or_false] at hrow
    rcases hrow with rfl | rfl
  · rw [hfebruary]
    rfl
  · rw [hjanuary]
    rfl
  · rw [hfebruary]
    exact readable_februaryStart
  · rw [hjanuary]
    exact readable_januaryEnd
  · rw [hfebruary]
    decide
  · rw [hjanuary]
    decide
  · rw [hfebruary]
    decide
  · rw [hjanuary]
    decide

theorem analysis_reports_latest_turn :
    ∃ a, analize (wholeConversions.inZone summerZone) (ofTable 44 0 turnRows) = .ok a ∧
      ∃ row ∈ turnRows, (∀ r ∈ turnRows, ¬(turnTime row).civil.Before (turnTime r).civil) ∧
        (dateToStr summerZone a.maxDate defaultFormat = row.headD [] ↔
          summerZone.inForce (timegm (turnTime row) - summerZone.standard) = false ∨
            summerZone.daylight = summerZone.standard) := by
  refine (analysis_reports_latest wholeConversions summerZone (by decide) dated_turnRows ?_ ?_).2
  · intro row hrow
    simp only [turnRows, List.mem_cons, List.not_mem_nil, or_false] at hrow
    rcases hrow with rfl | rfl
    · exact ⟨[56], [50], rfl, rfl, rfl, rfl⟩
    · exact ⟨[57], [51], rfl, rfl, rfl, rfl⟩
  · exact ⟨_, List.mem_cons_self, by decide⟩

end
end Boostander.Net
