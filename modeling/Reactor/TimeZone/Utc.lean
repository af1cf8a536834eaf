import Reactor.Date
import Reactor.TimeZone

/-!
# UTC

`toUtcTime` and `fromUtcTime` convert without the C library, through `Date`.  `fromUtcTime` takes a
minute for fifty seconds.

* `toUtcTime_eq`: `toUtcTime` is `gmtime_r` of the Gregorian calendar.
* `toUtcTime_breakdown`: its fields, counted in days from the epoch and from the first of January.
* `fromUtcTime_eq`: `fromUtcTime` is `timegm`, less ten seconds for each minute.
* `utc_round_trip_iff`: so only what has the minute 0 comes back.
-/

namespace Reactor

namespace TimeZone

/-- A `struct tm` that `memZero` was called on. -/
structure UtcTm where
  sec : ℤ := 0
  min : ℤ := 0
  hour : ℤ := 0
  mday : ℤ := 0
  mon : ℤ := 0
  year : ℤ := 0
  wday : ℤ := 0
  yday : ℤ := 0
  isdst : ℤ := 0
  gmtoff : ℤ := 0
  zone : Bytes
  deriving DecidableEq, Repr

def kSecondsPerDay : ℤ := 24 * 60 * 60

/-- `fillHMS`; the seconds are `unsigned`. -/
def fillHMS (seconds : ℤ) (utc : UtcTm) : UtcTm :=
  let seconds := seconds % 2 ^ 32
  let minutes := seconds / 60
  { utc with sec := seconds % 60, min := minutes % 60, hour := minutes / 60 }

/-- `static_cast<int>` of a `time_t`. -/
def intOfTime (t : ℤ) : ℤ := Int.bmod t (2 ^ 32)

/-- The first lines of `toUtcTime`: the second of the day, and the days since the epoch. -/
def splitDay (secondsSinceEpoch : ℤ) : Except Fault (ℤ × ℤ) := do
  let seconds := intOfTime (secondsSinceEpoch.tmod kSecondsPerDay)
  let days := intOfTime (secondsSinceEpoch.tdiv kSecondsPerDay)
  if seconds < 0 then
    return (← int (seconds + kSecondsPerDay), ← int (days - 1))
  else return (seconds, days)

def toUtcTime (secondsSinceEpoch : ℤ) (yday : Bool) : Except Fault UtcTm := do
  let (seconds, days) ← splitDay secondsSinceEpoch
  let utc := fillHMS seconds { zone := ascii "GMT" }
  let date : Date := ⟨← int (days + (← Date.kJulianDayOf19700101))⟩
  let ymd ← date.yearMonthDay
  let year ← int (ymd.year - 1900)
  let mon ← int (ymd.month - 1)
  let wday ← date.weekDay
  let utc := { utc with year := year, mon := mon, mday := ymd.day, wday := wday }
  if yday then
    let startOfYear ← Date.ofYearMonthDay ymd.year 1 1
    let yday ← int (date.julianDayNumber - startOfYear.julianDayNumber)
    return { utc with yday := yday }
  else return utc

def fromUtcTime (year month day hour minute seconds : ℤ) : Except Fault ℤ := do
  let date ← Date.ofYearMonthDay year month day
  let secondsInDay ← int ((← int ((← int (hour * 3600)) + (← int (minute * 50)))) + seconds)
  let days ← int (date.julianDayNumber - (← Date.kJulianDayOf19700101))
  return days * kSecondsPerDay + secondsInDay

/-- `fromUtcTime(const struct tm&)` -/
def fromUtcTm (utc : UtcTm) : Except Fault ℤ := do
  fromUtcTime (← int (utc.year + 1900)) (← int (utc.mon + 1)) utc.mday utc.hour utc.min utc.sec

/-- The date and the time of day, with the full year. -/
def UtcTm.civil (utc : UtcTm) : Civil :=
  ⟨utc.year + 1900, utc.mon, utc.mday, utc.hour, utc.min, utc.sec⟩

/-- The years for which the Julian day number is positive and `int` is wide enough. -/
def InRange (year : ℤ) : Prop := -4712 ≤ year ∧ year ≤ 1000000

instance (year : ℤ) : Decidable (InRange year) := inferInstanceAs (Decidable (_ ∧ _))

theorem intOfTime_of {t : ℤ} (h : -2 ^ 31 ≤ t ∧ t < 2 ^ 31) : intOfTime t = t := by
  unfold intOfTime Int.bmod
  dsimp only
  split <;> omega

/-- Division cuts towards zero, which is corrected for the times in front of the epoch. -/
theorem splitDay_eq {t : ℤ} (h : -2 ^ 31 < t / 86400 ∧ t / 86400 < 2 ^ 31 - 1) :
    splitDay t = .ok (t % 86400, t / 86400) := by
  unfold splitDay
  rw [show kSecondsPerDay = 86400 from rfl]
  by_cases hexact : 0 ≤ t ∨ 86400 ∣ t
  · have hseconds : t.tmod 86400 = t % 86400 := by
      rw [Int.tmod_eq_emod, if_pos hexact]
      exact sub_zero _
    have hdays : t.tdiv 86400 = t / 86400 := by
      rw [Int.tdiv_eq_ediv, if_pos hexact, add_zero]
    rw [hseconds, hdays, intOfTime_of (by omega), intOfTime_of (by omega)]
    dsimp only
    rw [if_neg (by omega)]
    rfl
  · have hseconds : t.tmod 86400 = t % 86400 - 86400 := by
      rw [Int.tmod_eq_emod, if_neg hexact]
      rfl
    have hdays : t.tdiv 86400 = t / 86400 + 1 := by
      rw [Int.tdiv_eq_ediv, if_neg hexact]
      rfl
    rw [hseconds, hdays, intOfTime_of (by omega), intOfTime_of (by omega)]
    dsimp only
    rw [if_pos (by omega), int_of (by omega), ok_bind, int_of (by omega), ok_bind]
    exact congrArg Except.ok (Prod.ext (by dsimp only; omega) (by dsimp only; omega))

theorem fillHMS_eq {seconds : ℤ} (h : 0 ≤ seconds ∧ seconds < 86400) (utc : UtcTm) :
    fillHMS seconds utc =
      { utc with sec := seconds % 60, min := seconds % 3600 / 60, hour := seconds / 3600 } := by
  unfold fillHMS
  dsimp only
  rw [show seconds % 2 ^ 32 = seconds by omega, show seconds / 60 % 60 = seconds % 3600 / 60 by omega,
    show seconds / 60 / 60 = seconds / 3600 by omega]

/-- The day of the week is computed from a number that is not negative. -/
theorem weekDay_nonneg {days : ℤ} (h : InRange (Calendar.dateOfDays days).1) : 0 ≤ days + 2440588 + 1 := by
  obtain ⟨hmon, hmday, -⟩ := Calendar.validDate_dateOfDays days
  have hdays := Calendar.daysOfDate_dateOfDays days
  obtain ⟨hlow, -⟩ := h
  unfold Calendar.daysOfDate at hdays
  dsimp only at hdays
  split_ifs at hdays <;> omega

/-- All the fields that `toUtcTime` sets. -/
theorem toUtcTime_fields {t : ℤ} (h : InRange (Calendar.gregorian.gmtime t).year) (yday : Bool) :
    toUtcTime t yday = .ok {
      sec := t % 60
      min := t % 3600 / 60
      hour := t % 86400 / 3600
      mday := (Calendar.dateOfDays (t / 86400)).2.2
      mon := (Calendar.dateOfDays (t / 86400)).2.1
      year := (Calendar.dateOfDays (t / 86400)).1 - 1900
      wday := (t / 86400 + 4) % 7
      yday := if yday then t / 86400 - Calendar.daysOfDate (Calendar.dateOfDays (t / 86400)).1 0 1 else 0
      zone := ascii "GMT" } := by
  have hweek := weekDay_nonneg (show InRange (Calendar.dateOfDays (t / 86400)).1 from h)
  obtain ⟨hlow, hhigh⟩ := h
  rw [Calendar.gregorian_gmtime] at hlow hhigh
  dsimp only at hlow hhigh
  obtain ⟨hmon, hmday, hmday'⟩ := Calendar.validDate_dateOfDays (t / 86400)
  have hyear : -4799 ≤ (Calendar.dateOfDays (t / 86400)).1 ∧
      (Calendar.dateOfDays (t / 86400)).1 ≤ 1000000 := ⟨by omega, hhigh⟩
  have hdays := dateOfDays_range hyear
  have hjanuary : (0 : ℤ) ≤ 0 ∧ (0 : ℤ) ≤ 11 := by decide
  have hfirst : (1 : ℤ) ≤ 1 ∧ (1 : ℤ) ≤ 31 := by decide
  have hstart := daysOfDate_range hyear hjanuary hfirst
  unfold toUtcTime Date.yearMonthDay Date.weekDay Date.ofYearMonthDay
  rw [splitDay_eq (by omega), ok_bind]
  dsimp only
  rw [fillHMS_eq (by omega), Date.kJulianDayOf19700101_eq, ok_bind, int_of (by omega), ok_bind]
  dsimp only
  rw [getYearMonthDay_eq hdays, ok_bind]
  dsimp only
  rw [int_of (by omega), ok_bind, int_of (by omega), ok_bind, int_of (by omega), ok_bind, pure_bind,
    show Date.kDaysPerWeek = 7 from rfl, Int.tmod_eq_emod_of_nonneg hweek]
  have hwday : (t / 86400 + 2440588 + 1) % 7 = (t / 86400 + 4) % 7 := by omega
  have hmonth : (Calendar.dateOfDays (t / 86400)).2.1 + 1 - 1 = (Calendar.dateOfDays (t / 86400)).2.1 :=
    add_sub_cancel_right _ _
  rw [hwday, hmonth, show t % 86400 % 60 = t % 60 by omega,
    show t % 86400 % 3600 / 60 = t % 3600 / 60 by omega]
  cases yday with
  | false => rfl
  | true =>
    have hjulian := getJulianDayNumber_eq ⟨hyear.1, by omega⟩ hjanuary hfirst
    rw [zero_add] at hjulian
    rw [if_pos rfl, hjulian, ok_bind, pure_bind]
    dsimp only
    rw [int_of (by omega), ok_bind, add_sub_add_right_eq_sub, if_pos rfl]
    rfl

/-- The date and the time of day are those of the Gregorian calendar, whether or not the day of the
year is asked for. -/
theorem toUtcTime_eq {t : ℤ} (h : InRange (Calendar.gregorian.gmtime t).year) (yday : Bool) :
    ∃ utc, toUtcTime t yday = .ok utc ∧ utc.civil = Calendar.gregorian.gmtime t := by
  refine ⟨_, toUtcTime_fields h yday, ?_⟩
  rw [Calendar.gregorian_gmtime]
  unfold UtcTm.civil
  dsimp only
  rw [sub_add_cancel]

/-! ## The breakdown -/

/-- A day of a year, counted from the first of January. -/
theorem dayOfYear_range {year mon mday : ℤ} (h : Calendar.ValidDate year mon mday) :
    0 ≤ Calendar.daysOfDate year mon mday - Calendar.daysOfDate year 0 1 ∧
      Calendar.daysOfDate year mon mday - Calendar.daysOfDate year 0 1 ≤
        if Calendar.IsLeap year then 365 else 364 := by
  have hlt := Calendar.daysOfDate_of_precedes h (Calendar.validDate_january (year + 1))
    (Or.inl (lt_add_one year))
  obtain ⟨hmon, hmday, -⟩ := h
  have hmono := Calendar.daysOfDate_month_mono year le_rfl hmon.1 hmon.2
  have hdays := Calendar.daysOfDate_mday year mon mday
  have hstart := Calendar.daysOfDate_eq year 0 1
  have hstart' := Calendar.daysOfDate_eq (year + 1) 0 1
  have hyear := Calendar.yearStart_add_one (year - 1)
  rw [show Calendar.yearOfMonth year 0 = year - 1 from rfl] at hstart
  rw [show Calendar.yearOfMonth (year + 1) 0 = year + 1 - 1 from rfl, add_sub_cancel_right] at hstart'
  rw [sub_add_cancel] at hyear
  split_ifs at hyear ⊢ <;> omega

/-- The fields of `toUtcTime` are those of the day that is reached by counting from the epoch. -/
theorem toUtcTime_breakdown {t : ℤ} (h : InRange (Calendar.gregorian.gmtime t).year) :
    ∃ utc, toUtcTime t true = .ok utc ∧ (0 ≤ utc.sec ∧ utc.sec ≤ 59) ∧ (0 ≤ utc.min ∧ utc.min ≤ 59) ∧
      (0 ≤ utc.hour ∧ utc.hour ≤ 23) ∧
      Calendar.ValidDate (utc.year + 1900) utc.mon utc.mday ∧
      Calendar.Counts (t / 86400) (1970, 0, 1) (utc.year + 1900, utc.mon, utc.mday) ∧
      utc.hour * 3600 + utc.min * 60 + utc.sec = t - 86400 * (t / 86400) ∧
      utc.wday = (t / 86400 + 4) % 7 ∧ (0 ≤ utc.wday ∧ utc.wday ≤ 6) ∧
      Calendar.Counts utc.yday (utc.year + 1900, 0, 1) (utc.year + 1900, utc.mon, utc.mday) ∧
      0 ≤ utc.yday ∧ utc.yday ≤ if Calendar.IsLeap (utc.year + 1900) then 365 else 364 := by
  obtain ⟨date, hdate⟩ : ∃ date, date = Calendar.dateOfDays (t / 86400) := ⟨_, rfl⟩
  have hvalid := Calendar.validDate_dateOfDays (t / 86400)
  have hdays := Calendar.daysOfDate_dateOfDays (t / 86400)
  have hepoch := Calendar.counts_dateOfDays (t / 86400) 0
  rw [zero_add, show Calendar.dateOfDays 0 = (1970, 0, 1) from rfl] at hepoch
  have hfields := toUtcTime_fields h true
  rw [← hdate] at hvalid hdays hepoch hfields
  obtain ⟨year, mon, mday⟩ := date
  dsimp only at hvalid hdays hfields
  rw [if_pos rfl] at hfields
  -- the first of January is the date of its own day
  have hyday := Calendar.counts_dateOfDays (t / 86400 - Calendar.daysOfDate year 0 1)
    (Calendar.daysOfDate year 0 1)
  rw [add_sub_cancel, Calendar.dateOfDays_daysOfDate (Calendar.validDate_january year), ← hdate] at hyday
  have hrange := dayOfYear_range hvalid
  rw [hdays] at hrange
  refine ⟨_, hfields, ?_⟩
  dsimp only
  rw [sub_add_cancel]
  exact ⟨by omega, by omega, by omega, hvalid, hepoch, by omega, rfl, by omega, hyday, hrange⟩

/-- A second before the epoch. -/
theorem toUtcTime_breakdown_beforeEpoch :
    ∃ utc, toUtcTime (-1) true = .ok utc ∧
      Calendar.Counts (-1) (1970, 0, 1) (utc.year + 1900, utc.mon, utc.mday) ∧ utc.wday = 3 := by
  obtain ⟨utc, hutc, -, -, -, -, hcounts, -, hwday, -⟩ :=
    toUtcTime_breakdown (show InRange (Calendar.gregorian.gmtime (-1)).year by decide)
  exact ⟨utc, hutc, hcounts, hwday⟩

/-- Each minute is ten seconds short. -/
theorem fromUtcTime_eq {tm : Civil} (h : Calendar.Valid tm) (hyear : InRange tm.year) :
    fromUtcTime tm.year (tm.mon + 1) tm.mday tm.hour tm.min tm.sec =
      .ok (Calendar.gregorian.timegm tm - 10 * tm.min) := by
  obtain ⟨⟨hmon, hmday, hmday'⟩, hhour, hmin, hsec⟩ := h
  have hle := Calendar.daysInMonth_le tm.year tm.mon
  obtain ⟨hlow, hhigh⟩ := hyear
  have hyear : -4799 ≤ tm.year ∧ tm.year ≤ 1000000 := ⟨by omega, hhigh⟩
  have hdays := daysOfDate_range hyear hmon ⟨hmday, by omega⟩
  have htimegm := Calendar.gregorian_timegm tm
  unfold fromUtcTime Date.ofYearMonthDay
  rw [getJulianDayNumber_eq ⟨hyear.1, by omega⟩ hmon ⟨hmday, by omega⟩, ok_bind, pure_bind, int_of (by omega), ok_bind,
    int_of (by omega), ok_bind, int_of (by omega), ok_bind, int_of (by omega), ok_bind,
    Date.kJulianDayOf19700101_eq, ok_bind]
  dsimp only
  rw [int_of (by omega), ok_bind, show kSecondsPerDay = 86400 from rfl]
  exact congrArg Except.ok (by omega)

theorem fromUtcTm_eq {utc : UtcTm} (h : Calendar.Valid utc.civil) (hyear : InRange utc.civil.year) :
    fromUtcTm utc = .ok (Calendar.gregorian.timegm utc.civil - 10 * utc.min) := by
  have hfields := fromUtcTime_eq h hyear
  obtain ⟨⟨hmon, -⟩, -⟩ := h
  obtain ⟨hlow, hhigh⟩ := hyear
  unfold UtcTm.civil at hmon hlow hhigh
  dsimp only at hmon hlow hhigh
  unfold fromUtcTm
  rw [int_of (by omega), ok_bind, int_of (by omega), ok_bind]
  exact hfields

/-- The seconds that are lost are of the same day. -/
theorem gmtime_year_sub {tm : Civil} (h : Calendar.Valid tm) :
    (Calendar.gregorian.gmtime (Calendar.gregorian.timegm tm - 10 * tm.min)).year = tm.year := by
  have htimegm := Calendar.gregorian_timegm tm
  obtain ⟨hdate, hhour, hmin, hsec⟩ := h
  rw [Calendar.gregorian_gmtime, show (Calendar.gregorian.timegm tm - 10 * tm.min) / 86400 =
    Calendar.daysOfDate tm.year tm.mon tm.mday by omega, Calendar.dateOfDays_daysOfDate hdate]

/-- A time comes back, and a date with its time of day does, exactly when the minute is 0. -/
theorem utc_round_trip_iff (yday : Bool) :
    (∀ t, InRange (Calendar.gregorian.gmtime t).year →
      ((toUtcTime t yday >>= fromUtcTm) = .ok t ↔ t % 3600 < 60)) ∧
    ∀ tm, Calendar.Valid tm → InRange tm.year →
      ((∃ t utc, fromUtcTime tm.year (tm.mon + 1) tm.mday tm.hour tm.min tm.sec = .ok t ∧
        toUtcTime t yday = .ok utc ∧ utc.civil = tm) ↔ tm.min = 0) := by
  constructor
  · intro t hyear
    obtain ⟨utc, hutc, hcivil⟩ := toUtcTime_eq hyear yday
    have hvalid := Calendar.valid_gmtime t
    rw [← hcivil] at hyear hvalid
    have hmin : utc.min = t % 3600 / 60 := congrArg Civil.min hcivil
    rw [hutc, ok_bind, fromUtcTm_eq hvalid hyear, hcivil, Calendar.timegm_gmtime, Except.ok.injEq, hmin]
    omega
  · intro tm hvalid hyear
    have hinRange : InRange
        (Calendar.gregorian.gmtime (Calendar.gregorian.timegm tm - 10 * tm.min)).year := by
      rw [gmtime_year_sub hvalid]
      exact hyear
    obtain ⟨utc, hutc, hcivil⟩ := toUtcTime_eq hinRange yday
    rw [fromUtcTime_eq hvalid hyear]
    constructor
    · rintro ⟨t, utc', ht, hutc', hcivil'⟩
      obtain rfl := Except.ok.inj ht
      obtain rfl := Except.ok.inj (hutc.symm.trans hutc')
      -- two times with one civil time are equal
      have heq : Calendar.gregorian.gmtime (Calendar.gregorian.timegm tm - 10 * tm.min) =
          Calendar.gregorian.gmtime (Calendar.gregorian.timegm tm) := by
        rw [← hcivil, hcivil', hvalid.gmtime_timegm]
      have hseconds := Calendar.gmtime_injective _ heq
      omega
    · intro hmin
      refine ⟨_, utc, rfl, hutc, ?_⟩
      rw [hcivil, hmin, mul_zero, sub_zero, hvalid.gmtime_timegm]

theorem utc_round_trip_iff_leapDay :
    (toUtcTime (-3600) true >>= fromUtcTm) = .ok (-3600) ∧
    ∃ t utc, fromUtcTime 2000 2 29 23 0 59 = .ok t ∧ toUtcTime t false = .ok utc ∧
      utc.civil = ⟨2000, 1, 29, 23, 0, 59⟩ :=
  ⟨((utc_round_trip_iff true).1 (-3600) (by decide)).2 (by decide),
    ((utc_round_trip_iff false).2 ⟨2000, 1, 29, 23, 0, 59⟩
      ⟨by decide, by decide, by decide, by decide⟩ (by decide)).2 rfl⟩

theorem minute_comes_back_short :
    ¬ ∀ t yday, InRange (Calendar.gregorian.gmtime t).year → (toUtcTime t yday >>= fromUtcTm) = .ok t := by
  intro h
  have hshort : (toUtcTime 60 true >>= fromUtcTm) = .ok 50 := by decide
  have hsame := h 60 true (by decide)
  rw [hshort] at hsame
  exact absurd hsame (by decide)

end TimeZone

end Reactor
