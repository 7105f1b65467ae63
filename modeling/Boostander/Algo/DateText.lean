import Boostander.Algo.Text
import Boostander.Library.Calendar

/-! The dates of `algo/StringUtils.cpp`, with what they use of the standard library:
the local time of a zone, and `std::put_time` and `std::get_time` in the classic locale. -/
namespace Boostander.Algo
open Library

/-- The fields of `std::tm` that are used. `isdst` says that `tm_isdst` is positive; it
is never negative here. -/
structure Tm where
  sec : Int := 0
  min : Int := 0
  hour : Int := 0
  mday : Int := 0
  mon : Int := 0
  year : Int := 0
  isdst : Bool := false
  deriving DecidableEq, Repr

/-- A time zone that keeps its offsets, in seconds, for all time, and at which times
daylight time is in force. -/
structure Zone where
  standard : Int
  daylight : Int
  inForce : Int → Bool

namespace Zone

def offset (zone : Zone) (t : Int) : Int := if zone.inForce t then zone.daylight else zone.standard

end Zone

/-- The seconds since the epoch that the fields would be in UTC. Fields outside of
their ranges carry over. -/
def timegm (tm : Tm) : Int :=
  Calendar.secondsFromCivil ⟨⟨tm.year + 1900, tm.mon + 1, tm.mday⟩, tm.hour, tm.min, tm.sec⟩

def gmtime (t : Int) : Tm :=
  let civil := Calendar.civilFromSeconds t
  { sec := civil.second, min := civil.minute, hour := civil.hour, mday := civil.date.day,
    mon := civil.date.month - 1, year := civil.date.year - 1900 }

def localtime (zone : Zone) (t : Int) : Tm :=
  { gmtime (t + zone.offset t) with isdst := zone.inForce t }

/-- The fields are taken as standard or as daylight time, as `tm_isdst` says. -/
def mktime (zone : Zone) (tm : Tm) : Int :=
  timegm tm - if tm.isdst then zone.daylight else zone.standard

/-- The parts of a format: `%d`, `%m`, `%Y`, `%H`, `%M`, `%S` and any other character. -/
inductive Directive where
  | day
  | month
  | year
  | hour
  | minute
  | second
  | char (c : Byte)
  deriving DecidableEq, Repr

/-- The default argument `%d.%m.%Y %H:%M:%S`. -/
def defaultFormat : List Directive :=
  [.day, .char 46, .month, .char 46, .year, .char 32, .hour, .char 58, .minute, .char 58, .second]

def digit (n : Nat) : Byte := (48 + n).toUInt8

def isDigit (c : Byte) : Bool := 48 ≤ c && c ≤ 57

def isSpace (c : Byte) : Bool := c == 32 || (9 ≤ c && c ≤ 13)

/-- A number below 100, padded to two digits. -/
def twoDigits (n : Int) : Bytes := [digit (n.toNat / 10), digit (n.toNat % 10)]

/-- A year is not padded. -/
def putYear (year : Int) : Bytes :=
  if year < 0 then 45 :: stdToString (-year).toNat else stdToString year.toNat

def putDirective (tm : Tm) : Directive → Bytes
  | .day => twoDigits tm.mday
  | .month => twoDigits (tm.mon + 1)
  | .year => putYear (tm.year + 1900)
  | .hour => twoDigits tm.hour
  | .minute => twoDigits tm.min
  | .second => twoDigits tm.sec
  | .char c => [c]

def putTime (format : List Directive) (tm : Tm) : Bytes := format.flatMap (putDirective tm)

/-- Read a number of at most `width` digits; it fails without a digit and outside of the range. -/
def getNumber (width lo hi : Nat) (s : Bytes) : Option (Nat × Bytes) :=
  let digits := (s.take width).takeWhile isDigit
  let n := digits.foldl (fun n c => 10 * n + (c.toNat - 48)) 0
  if digits = [] ∨ n < lo ∨ hi < n then none else some (n, s.drop digits.length)

/-- A space of the format stands for any white space, also for none. -/
def getDirective (tm : Tm) (s : Bytes) : Directive → Option (Tm × Bytes)
  | .day => (getNumber 2 1 31 s).map fun r => ({ tm with mday := r.1 }, r.2)
  | .month => (getNumber 2 1 12 s).map fun r => ({ tm with mon := r.1 - 1 }, r.2)
  | .year => (getNumber 4 0 9999 s).map fun r => ({ tm with year := r.1 - 1900 }, r.2)
  | .hour => (getNumber 2 0 23 s).map fun r => ({ tm with hour := r.1 }, r.2)
  | .minute => (getNumber 2 0 59 s).map fun r => ({ tm with min := r.1 }, r.2)
  | .second => (getNumber 2 0 60 s).map fun r => ({ tm with sec := r.1 }, r.2)
  | .char c =>
    if isSpace c then some (tm, s.dropWhile isSpace)
    else if s.head? = some c then some (tm, s.tail) else none

/-- The first part that does not match ends the reading; the fields read stay, and
`tm_isdst` is never set. -/
def getTime : List Directive → Tm → Bytes → Tm
  | [], tm, _ => tm
  | d :: format, tm, s =>
    match getDirective tm s d with
    | none => tm
    | some (tm, rest) => getTime format tm rest

/-- Time points count nanoseconds; the conversion to seconds rounds towards the epoch. -/
def toTimeT (tp : Int) : Int := tp.tdiv (10^9)

/-- The count is taken without a bound; it is that of the program where it is `InClock`. -/
def fromTimeT (t : Int) : Int := t * 10^9

/-- `system_clock` counts in 64 bits. -/
def InClock (tp : Int) : Prop := -2^63 ≤ tp ∧ tp < 2^63

instance (tp : Int) : Decidable (InClock tp) := inferInstanceAs (Decidable (_ ∧ _))

/-- `std::tm tm = {}` also sets `tm_isdst` to zero, and `operator>>` skips white space first. -/
def dateTimeFromStr (zone : Zone) (date : Bytes) (format : List Directive) : Int :=
  fromTimeT (mktime zone (getTime format {} (date.dropWhile isSpace)))

def dateToStr (zone : Zone) (tp : Int) (format : List Directive) : Bytes :=
  putTime format (localtime zone (toTimeT tp))

/-- The fields are in the ranges that the default format can read back. -/
structure Tm.Readable (tm : Tm) : Prop where
  sec : 0 ≤ tm.sec ∧ tm.sec ≤ 59
  min : 0 ≤ tm.min ∧ tm.min ≤ 59
  hour : 0 ≤ tm.hour ∧ tm.hour ≤ 23
  mday : 1 ≤ tm.mday ∧ tm.mday ≤ 31
  mon : 0 ≤ tm.mon ∧ tm.mon ≤ 11
  year : 1000 ≤ tm.year + 1900 ∧ tm.year + 1900 ≤ 9999

private theorem timegm_gmtime (t : Int) : timegm (gmtime t) = t := by
  have hround := Calendar.secondsFromCivil_civilFromSeconds t
  simpa [timegm, gmtime] using hround

private theorem readable_gmtime {t : Int}
    (hyear : 1000 ≤ (gmtime t).year + 1900 ∧ (gmtime t).year + 1900 ≤ 9999) :
    (gmtime t).Readable := by
  have hmonth := Calendar.month_bounds (t / 86400)
  have hday := Calendar.day_bounds (t / 86400)
  constructor
  all_goals simp only [gmtime, Calendar.civilFromSeconds] at hyear ⊢
  all_goals omega

private theorem toNat_digit {n : Nat} (h : n < 10) : (digit n).toNat = 48 + n := by
  rw [digit, Nat.toUInt8, UInt8.toNat_ofNat']
  omega

private theorem isDigit_digit {n : Nat} (h : n < 10) : isDigit (digit n) = true := by
  have hn := toNat_digit h
  simp only [isDigit, Bool.and_eq_true, decide_eq_true_eq, UInt8.le_iff_toNat_le, hn]
  constructor
  · exact Nat.le_add_right 48 n
  · change 48 + n ≤ 57
    omega

private theorem isSpace_of_le {c : Byte} (h : 48 ≤ c.toNat) : isSpace c = false := by
  have hne : c ≠ 32 := by
    intro hc
    rw [hc] at h
    exact absurd h (by decide)
  have hgt : ¬ c ≤ 13 := by
    intro hc
    have hle : c.toNat ≤ 13 := UInt8.le_iff_toNat_le.mp hc
    omega
  simp [isSpace, hne, hgt]

private theorem getNumber_digits {width lo hi n : Nat} (ns : List Nat) (rest : Bytes)
    (hlength : ns.length = width) (hwidth : 0 < width) (hdigits : ∀ d ∈ ns, d < 10)
    (hvalue : ns.foldl (fun n d => 10 * n + d) 0 = n) (hrange : lo ≤ n ∧ n ≤ hi) :
    getNumber width lo hi (ns.map digit ++ rest) = some (n, rest) := by
  have hread : ((ns.map digit ++ rest).take width).takeWhile isDigit = ns.map digit := by
    rw [List.take_left' (by rw [List.length_map, hlength]), List.takeWhile_eq_self_iff]
    intro c hc
    obtain ⟨d, hd, rfl⟩ := List.mem_map.mp hc
    exact isDigit_digit (hdigits d hd)
  have hfold : (ns.map digit).foldl (fun n c => 10 * n + (c.toNat - 48)) 0 = n := by
    rw [List.foldl_map, ← hvalue]
    apply List.foldl_ext
    intro a d hd
    rw [toNat_digit (hdigits d hd), Nat.add_sub_cancel_left]
  have hne : ns.map digit ≠ [] := by
    apply List.ne_nil_of_length_pos
    rw [List.length_map, hlength]
    exact hwidth
  simp only [getNumber, hread, hfold]
  rw [if_neg (by simp only [hne, false_or]; omega), List.drop_left]

private theorem map_getNumber_twoDigits {lo hi : Nat} {n : Int} (f : Int → Tm) (rest : Bytes)
    (hrange : lo ≤ n ∧ n ≤ hi) (hhi : hi < 100) :
    (getNumber 2 lo hi (twoDigits n ++ rest)).map (fun r => (f r.1, r.2)) = some (f n, rest) := by
  have hread : getNumber 2 lo hi (twoDigits n ++ rest) = some (n.toNat, rest) := by
    apply getNumber_digits [n.toNat / 10, n.toNat % 10] rest rfl Nat.two_pos
    · simp only [List.mem_cons, List.not_mem_nil, or_false, forall_eq_or_imp, forall_eq]
      omega
    · simp only [List.foldl_cons, List.foldl_nil]
      omega
    · omega
  rw [hread, Option.map_some, Int.toNat_of_nonneg (by omega)]

private theorem stdToString_four {n : Nat} (h : 1000 ≤ n ∧ n ≤ 9999) :
    stdToString n = [n / 1000, n / 100 % 10, n / 10 % 10, n % 10].map digit := by
  have hchar (d : Nat) (hd : d < 10) : (Nat.digitChar d).toNat.toUInt8 = digit d := by
    rw [Nat.toNat_digitChar_of_lt_ten hd, digit]
  rw [stdToString, Nat.toDigits_of_base_le (by decide) (by omega),
    Nat.toDigits_of_base_le (by decide) (by omega), Nat.toDigits_of_base_le (by decide) (by omega),
    Nat.toDigits_of_lt_base (by omega)]
  simp only [List.map_cons, List.map_nil, List.cons_append, List.nil_append, Nat.div_div_eq_div_mul]
  rw [hchar _ (by omega), hchar _ (by omega), hchar _ (by omega), hchar _ (by omega)]

private theorem putYear_four {year : Int} (h : 1000 ≤ year ∧ year ≤ 9999) :
    putYear year = [year.toNat / 1000, year.toNat / 100 % 10, year.toNat / 10 % 10,
      year.toNat % 10].map digit := by
  rw [putYear, if_neg (by omega), stdToString_four (by omega)]

private theorem getNumber_putYear {year : Int} (rest : Bytes) (h : 1000 ≤ year ∧ year ≤ 9999) :
    getNumber 4 0 9999 (putYear year ++ rest) = some (year.toNat, rest) := by
  rw [putYear_four h]
  apply getNumber_digits [year.toNat / 1000, year.toNat / 100 % 10, year.toNat / 10 % 10,
    year.toNat % 10] rest rfl (Nat.succ_pos 3)
  · simp only [List.mem_cons, List.not_mem_nil, or_false, forall_eq_or_imp, forall_eq]
    omega
  · simp only [List.foldl_cons, List.foldl_nil]
    omega
  · omega

/-- The field a directive reads, taken from `tm`. -/
def copyField (tm acc : Tm) : Directive → Tm
  | .day => { acc with mday := tm.mday }
  | .month => { acc with mon := tm.mon }
  | .year => { acc with year := tm.year }
  | .hour => { acc with hour := tm.hour }
  | .minute => { acc with min := tm.min }
  | .second => { acc with sec := tm.sec }
  | .char _ => acc

/-- The directive reads any white space. -/
def Directive.isBlank : Directive → Bool
  | .char c => isSpace c
  | _ => false

private theorem getDirective_putDirective {tm : Tm} (h : tm.Readable) (acc : Tm) (rest : Bytes)
    {d : Directive}
    (hd : d.isBlank = false) :
    getDirective acc (putDirective tm d ++ rest) d = some (copyField tm acc d, rest) := by
  cases d with
  | day =>
    exact map_getNumber_twoDigits (fun n => { acc with mday := n }) rest h.mday (by decide)
  | month =>
    have hmon := h.mon
    have hread := map_getNumber_twoDigits (fun n => { acc with mon := n - 1 }) rest
      (n := tm.mon + 1) (show ((1 : Nat) : Int) ≤ _ ∧ _ ≤ ((12 : Nat) : Int) by omega) (by decide)
    rw [Int.add_sub_cancel] at hread
    exact hread
  | year =>
    have hyear := h.year
    rw [putDirective, getDirective, getNumber_putYear rest hyear]
    simp only [Option.map_some, copyField, Int.toNat_of_nonneg (show 0 ≤ tm.year + 1900 by omega),
      Int.add_sub_cancel]
  | hour =>
    exact map_getNumber_twoDigits (fun n => { acc with hour := n }) rest h.hour (by decide)
  | minute =>
    exact map_getNumber_twoDigits (fun n => { acc with min := n }) rest h.min (by decide)
  | second =>
    have hsec := h.sec
    exact map_getNumber_twoDigits (fun n => { acc with sec := n }) rest
      (show ((0 : Nat) : Int) ≤ _ ∧ _ ≤ ((60 : Nat) : Int) by omega) (by decide)
  | char c =>
    rw [Directive.isBlank] at hd
    simp [putDirective, getDirective, hd, copyField]

private theorem getDirective_space {tm : Tm} (h : tm.Readable) (acc : Tm) (rest : Bytes) :
    getDirective acc (putDirective tm (.char 32) ++ (putDirective tm .hour ++ rest)) (.char 32) =
      some (acc, putDirective tm .hour ++ rest) := by
  have hhour := h.hour
  have hnext : isSpace (digit (tm.hour.toNat / 10)) = false := by
    have hn := toNat_digit (n := tm.hour.toNat / 10) (by omega)
    exact isSpace_of_le (by omega)
  have hblank : isSpace 32 = true := rfl
  simp [getDirective, putDirective, twoDigits, hnext, hblank]

private theorem getTime_cons {d : Directive} {format : List Directive} {tm tm' : Tm} {s rest : Bytes}
    (h : getDirective tm s d = some (tm', rest)) :
    getTime (d :: format) tm s = getTime format tm' rest := by
  rw [getTime, h]

/-- `get_time` reads back the fields `put_time` wrote and leaves `tm_isdst` as it was. -/
theorem getTime_putTime {tm : Tm} (h : tm.Readable) (acc : Tm) :
    getTime defaultFormat acc (putTime defaultFormat tm) = { tm with isdst := acc.isdst } := by
  have hread := getDirective_putDirective h
  simp only [putTime, defaultFormat, List.flatMap_cons, List.flatMap_nil]
  rw [getTime_cons (hread _ _ rfl), getTime_cons (hread _ _ rfl), getTime_cons (hread _ _ rfl),
    getTime_cons (hread _ _ rfl), getTime_cons (hread _ _ rfl),
    getTime_cons (getDirective_space h _ _), getTime_cons (hread _ _ rfl),
    getTime_cons (hread _ _ rfl), getTime_cons (hread _ _ rfl), getTime_cons (hread _ _ rfl),
    getTime_cons (hread _ _ rfl)]
  rfl

theorem dropWhile_isSpace_putTime {tm : Tm} (h : tm.Readable) :
    (putTime defaultFormat tm).dropWhile isSpace = putTime defaultFormat tm := by
  have hday := h.mday
  have hfirst : isSpace (digit (tm.mday.toNat / 10)) = false := by
    have hn := toNat_digit (n := tm.mday.toNat / 10) (by omega)
    exact isSpace_of_le (by omega)
  simp only [putTime, defaultFormat, List.flatMap_cons, putDirective, twoDigits, List.cons_append]
  exact List.dropWhile_cons_of_neg (by rw [hfirst]; decide)

private theorem putYear_eq_iff {y y' : Int} (h : 1000 ≤ y ∧ y ≤ 9999) :
    putYear y' = putYear y ↔ y' = y := by
  constructor
  · intro heq
    by_cases hneg : y' < 0
    · rw [putYear_four h, putYear, if_pos hneg] at heq
      have hhead := congrArg UInt8.toNat (List.cons.inj heq).1
      rw [toNat_digit (by omega)] at hhead
      change 45 = 48 + _ at hhead
      omega
    · rw [putYear, putYear, if_neg hneg, if_neg (by omega)] at heq
      have hnat := stdToString_injective heq
      omega
  · intro heq
    rw [heq]

private theorem putTime_split (tm : Tm) : ∃ front back : Bytes,
    front.length = 6 ∧ back.length = 9 ∧
      putTime defaultFormat tm = front ++ (putYear (tm.year + 1900) ++ back) :=
  ⟨twoDigits tm.mday ++ [46] ++ twoDigits (tm.mon + 1) ++ [46],
    [32] ++ twoDigits tm.hour ++ [58] ++ twoDigits tm.min ++ [58] ++ twoDigits tm.sec, rfl, rfl,
    by simp [putTime, defaultFormat, putDirective]⟩

/-- The text in the default format determines the fields, if the year of one of the
two has four digits. -/
theorem putTime_eq_iff {tm tm' : Tm} (h : tm.Readable)
    (h' : 1000 ≤ tm'.year + 1900 ∧ tm'.year + 1900 ≤ 9999 → tm'.Readable) :
    putTime defaultFormat tm' = putTime defaultFormat tm ↔ tm' = { tm with isdst := tm'.isdst } := by
  constructor
  · intro heq
    have hyear : tm'.year = tm.year := by
      obtain ⟨front, back, hfront, hback, hput⟩ := putTime_split tm
      obtain ⟨front', back', hfront', hback', hput'⟩ := putTime_split tm'
      rw [hput, hput'] at heq
      have hrest := (List.append_inj heq (hfront'.trans hfront.symm)).2
      have htext := (List.append_inj' hrest (hback'.trans hback.symm)).1
      have hyears := (putYear_eq_iff h.year).mp htext
      omega
    have hread := getTime_putTime (h' (by have := h.year; omega)) tm'
    rw [heq, getTime_putTime h] at hread
    exact hread.symm
  · intro heq
    rw [heq]
    rfl

theorem toTimeT_fromTimeT (t : Int) : toTimeT (fromTimeT t) = t :=
  Int.mul_tdiv_cancel t (by decide)

theorem readable_localtime {zone : Zone} {t : Int}
    (hyear : 1000 ≤ (localtime zone t).year + 1900 ∧ (localtime zone t).year + 1900 ≤ 9999) :
    (localtime zone t).Readable := by
  have hread := readable_gmtime hyear
  exact ⟨hread.sec, hread.min, hread.hour, hread.mday, hread.mon, hread.year⟩

private theorem putTime_localtime_iff {zone : Zone} {t t' : Int}
    (hyear : 1000 ≤ (localtime zone t).year + 1900 ∧ (localtime zone t).year + 1900 ≤ 9999) :
    putTime defaultFormat (localtime zone t') = putTime defaultFormat (localtime zone t) ↔
      t' + zone.offset t' = t + zone.offset t := by
  rw [putTime_eq_iff (readable_localtime hyear) readable_localtime]
  constructor
  · intro heq
    have hseconds := congrArg timegm heq
    change timegm (gmtime (t' + zone.offset t')) = timegm (gmtime (t + zone.offset t)) at hseconds
    rwa [timegm_gmtime, timegm_gmtime] at hseconds
  · intro heq
    rw [localtime, localtime, heq]

private theorem dateTimeFromStr_dateToStr {zone : Zone} {tp : Int}
    (hyear : 1000 ≤ (localtime zone (toTimeT tp)).year + 1900 ∧
      (localtime zone (toTimeT tp)).year + 1900 ≤ 9999) :
    dateTimeFromStr zone (dateToStr zone tp defaultFormat) defaultFormat =
      fromTimeT (toTimeT tp + zone.offset (toTimeT tp) - zone.standard) := by
  have hseconds : timegm { localtime zone (toTimeT tp) with isdst := false } =
      toTimeT tp + zone.offset (toTimeT tp) := timegm_gmtime _
  have hread := readable_localtime hyear
  rw [dateTimeFromStr, dateToStr, dropWhile_isSpace_putTime hread, getTime_putTime hread, mktime,
    hseconds]
  rfl

/-- The text of a time point is read back as that text exactly when daylight time is
not in force then, or has the offset of standard time, or is not in force at the time
later by the difference of the two offsets. -/
theorem dateToStr_roundTrip_iff (zone : Zone) (tp : Int)
    (hyear : 1000 ≤ (localtime zone (toTimeT tp)).year + 1900 ∧
      (localtime zone (toTimeT tp)).year + 1900 ≤ 9999) :
    dateToStr zone (dateTimeFromStr zone (dateToStr zone tp defaultFormat) defaultFormat) defaultFormat =
        dateToStr zone tp defaultFormat ↔
      zone.inForce (toTimeT tp) = false ∨ zone.daylight = zone.standard ∨
        zone.inForce (toTimeT tp + (zone.daylight - zone.standard)) = false := by
  rw [dateTimeFromStr_dateToStr hyear, dateToStr, dateToStr, toTimeT_fromTimeT,
    putTime_localtime_iff hyear]
  cases hforce : zone.inForce (toTimeT tp) with
  | false =>
    have hoffset : zone.offset (toTimeT tp) = zone.standard := by simp [Zone.offset, hforce]
    simp [hoffset]
  | true =>
    have hoffset : zone.offset (toTimeT tp) = zone.daylight := by simp [Zone.offset, hforce]
    rw [hoffset, Int.add_sub_assoc]
    cases hlater : zone.inForce (toTimeT tp + (zone.daylight - zone.standard)) with
    | false =>
      have hoffset' : zone.offset (toTimeT tp + (zone.daylight - zone.standard)) = zone.standard := by
        simp [Zone.offset, hlater]
      rw [hoffset']
      exact iff_of_true (by omega) (.inr (.inr rfl))
    | true =>
      have hoffset' : zone.offset (toTimeT tp + (zone.daylight - zone.standard)) = zone.daylight := by
        simp [Zone.offset, hlater]
      rw [hoffset']
      simp only [Bool.true_eq_false, false_or, or_false]
      constructor
      · intro h
        omega
      · intro h
        omega

/-- An hour of daylight time, in force in 2019 from the 31st of March, 01:00 UTC, to the
27th of October, 01:00 UTC. -/
def summerZone : Zone where
  standard := 3600
  daylight := 7200
  inForce t := 1553994000 ≤ t && t < 1572138000

/-- `28.02.2019 10:18:05` is in standard time. -/
theorem dateToStr_roundTrip_iff_winter :
    dateToStr summerZone (dateTimeFromStr summerZone
      (dateToStr summerZone (1551345485 * 10^9) defaultFormat) defaultFormat) defaultFormat =
        dateToStr summerZone (1551345485 * 10^9) defaultFormat := by
  apply (dateToStr_roundTrip_iff summerZone (1551345485 * 10^9) (by decide)).mpr
  exact .inl (by decide)

/-- `01.07.2019 12:00:00` is read back as `01.07.2019 13:00:00`. -/
theorem dateToStr_roundTrip_summer_fails :
    dateToStr summerZone (dateTimeFromStr summerZone
      (dateToStr summerZone (1561975200 * 10^9) defaultFormat) defaultFormat) defaultFormat ≠
        dateToStr summerZone (1561975200 * 10^9) defaultFormat := by
  decide

end Boostander.Algo
