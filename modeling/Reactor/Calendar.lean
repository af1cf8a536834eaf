import Mathlib.Algebra.Order.Ring.Int
import Mathlib.Tactic.SplitIfs

/-!
# gmtime_r and timegm

The two conversions of the C library between seconds since the epoch and civil time.  All that the
time zones rely on is that `timegm` reads back what `gmtime_r` writes.  `Calendar.gregorian` are the
two functions of the Gregorian calendar, which are inverse to each other on the valid civil times.

`nextDate` is the day after a date by the lengths of the months, and `Counts` counts such days.
-/

namespace Reactor

/-- The fields `tm_year` to `tm_sec`; the year is the full one. -/
structure Civil where
  year : ℤ
  mon : ℤ
  mday : ℤ
  hour : ℤ
  min : ℤ
  sec : ℤ
  deriving DecidableEq, Repr

/-- `gmtime_r` and `timegm`. -/
structure Calendar where
  gmtime : ℤ → Civil
  timegm : Civil → ℤ
  timegm_gmtime : ∀ seconds, timegm (gmtime seconds) = seconds

namespace Calendar

theorem gmtime_injective (cal : Calendar) : Function.Injective cal.gmtime :=
  Function.LeftInverse.injective cal.timegm_gmtime

/-- The year that begins in March, and the day in it.  Day 0 is the first of March of the year 0. -/
def marchYear (day : ℤ) : ℤ × ℤ :=
  let century := min (day % 146097 / 36524) 3
  let dayOfCentury := day % 146097 - 36524 * century
  let yearOfFour := min (dayOfCentury % 1461 / 365) 3
  (400 * (day / 146097) + 100 * century + 4 * (dayOfCentury / 1461) + yearOfFour,
    dayOfCentury % 1461 - 365 * yearOfFour)

/-- Year, month from 0 and day of the month of a day since 1970-01-01. -/
def dateOfDays (days : ℤ) : ℤ × ℤ × ℤ :=
  let (year, day) := marchYear (days + 719468)
  let month := (5 * day + 2) / 153
  let mday := day - (153 * month + 2) / 5 + 1
  if month < 10 then (year, month + 2, mday) else (year + 1, month - 10, mday)

def daysOfDate (year mon mday : ℤ) : ℤ :=
  let y := if mon ≤ 1 then year - 1 else year
  let month := if mon ≤ 1 then mon + 10 else mon - 2
  365 * y + y / 4 - y / 100 + y / 400 + (153 * month + 2) / 5 + mday - 1 - 719468

/-! ## The years that begin in March -/

/-- The day on which a year that begins in March begins.  Every fourth year has a day more, every
hundredth has not, every four hundredth has. -/
def yearStart (year : ℤ) : ℤ := 365 * year + year / 4 - year / 100 + year / 400

theorem yearStart_mono {year year' : ℤ} (h : year ≤ year') : yearStart year ≤ yearStart year' := by
  unfold yearStart
  omega

/-- A day is in one year only. -/
theorem year_unique {day year year' : ℤ} (hle : yearStart year ≤ day) (hlt : day < yearStart (year + 1))
    (hle' : yearStart year' ≤ day) (hlt' : day < yearStart (year' + 1)) : year = year' := by
  rcases lt_trichotomy year year' with hless | heq | hmore
  · have h := yearStart_mono (Int.add_one_le_of_lt hless)
    omega
  · exact heq
  · have h := yearStart_mono (Int.add_one_le_of_lt hmore)
    omega

/-- Four hundred years, centuries, four years and years. -/
theorem marchYear_digits (day : ℤ) : ∃ e c q y d, marchYear day = (400 * e + 100 * c + 4 * q + y, d) ∧
    day = 146097 * e + 36524 * c + 1461 * q + 365 * y + d ∧ 0 ≤ c ∧ c ≤ 3 ∧ 0 ≤ q ∧ q ≤ 24 ∧
    0 ≤ y ∧ y ≤ 3 ∧ 0 ≤ d ∧ d ≤ 365 ∧ (d = 365 → y = 3 ∧ (q = 24 → c = 3)) := by
  unfold marchYear
  dsimp only
  obtain ⟨e, he⟩ : ∃ e, e = day / 146097 := ⟨_, rfl⟩
  obtain ⟨d, hd⟩ : ∃ d, d = day % 146097 := ⟨_, rfl⟩
  obtain ⟨c, hc⟩ : ∃ c, c = min (d / 36524) 3 := ⟨_, rfl⟩
  rw [← he, ← hd, ← hc]
  have hday : day = 146097 * e + d ∧ 0 ≤ d ∧ d < 146097 := by omega
  have hcentury : 0 ≤ c ∧ c ≤ 3 ∧ 0 ≤ d - 36524 * c ∧ d - 36524 * c ≤ 36524 ∧
      (d - 36524 * c = 36524 → c = 3) := by omega
  obtain ⟨q, hq⟩ : ∃ q, q = (d - 36524 * c) / 1461 := ⟨_, rfl⟩
  obtain ⟨r, hr⟩ : ∃ r, r = (d - 36524 * c) % 1461 := ⟨_, rfl⟩
  obtain ⟨y, hy⟩ : ∃ y, y = min (r / 365) 3 := ⟨_, rfl⟩
  rw [← hq, ← hr, ← hy]
  have hfour : d - 36524 * c = 1461 * q + r ∧ 0 ≤ r ∧ r < 1461 ∧ 0 ≤ q ∧ q ≤ 24 := by omega
  have hyear : 0 ≤ y ∧ y ≤ 3 ∧ 0 ≤ r - 365 * y ∧ r - 365 * y ≤ 365 ∧ (r - 365 * y = 365 → y = 3) := by
    omega
  clear he hd hc hq hr hy
  exact ⟨e, c, q, y, r - 365 * y, rfl, by omega, by omega, by omega, by omega, by omega, by omega,
    by omega, by omega, by omega, fun h => by omega⟩

theorem marchYear_spec (day : ℤ) :
    day = yearStart (marchYear day).1 + (marchYear day).2 ∧ 0 ≤ (marchYear day).2 ∧
      (marchYear day).2 ≤ 365 := by
  obtain ⟨e, c, q, y, d, hmarch, hday, hc, hc', hq, hq', hy, hy', hd, hd', -⟩ := marchYear_digits day
  rw [hmarch]
  unfold yearStart
  dsimp only
  have h4 : (400 * e + 100 * c + 4 * q + y) / 4 = 100 * e + 25 * c + q := by omega
  have h100 : (400 * e + 100 * c + 4 * q + y) / 100 = 4 * e + c := by omega
  have h400 : (400 * e + 100 * c + 4 * q + y) / 400 = e := by omega
  omega

theorem marchYear_lt (day : ℤ) : day < yearStart ((marchYear day).1 + 1) := by
  obtain ⟨e, c, q, y, d, hmarch, hday, hc, hc', hq, hq', hy, hy', hd, hd', hlast⟩ := marchYear_digits day
  rw [hmarch]
  unfold yearStart
  dsimp only
  have h400 : (400 * e + 100 * c + 4 * q + y + 1) / 400 = e + (100 * c + 4 * q + y + 1) / 400 := by omega
  have h100 : (400 * e + 100 * c + 4 * q + y + 1) / 100 = 4 * e + c + (4 * q + y + 1) / 100 := by omega
  have h4 : (400 * e + 100 * c + 4 * q + y + 1) / 4 = 100 * e + 25 * c + q + (y + 1) / 4 := by omega
  rw [h400, h100, h4]
  omega

/-- The year of a day, from where its year begins. -/
theorem marchYear_eq {day year : ℤ} (hle : yearStart year ≤ day) (hlt : day < yearStart (year + 1)) :
    marchYear day = (year, day - yearStart year) := by
  have hspec := marchYear_spec day
  have hyear := year_unique (by omega) (marchYear_lt day) hle hlt
  refine Prod.ext hyear ?_
  rw [hyear] at hspec
  dsimp only
  omega

theorem daysOfDate_dateOfDays (days : ℤ) :
    daysOfDate (dateOfDays days).1 (dateOfDays days).2.1 (dateOfDays days).2.2 = days := by
  have hspec := marchYear_spec (days + 719468)
  unfold dateOfDays
  generalize marchYear (days + 719468) = p at hspec ⊢
  obtain ⟨y, d⟩ := p
  unfold yearStart at hspec
  dsimp only at hspec ⊢
  have hmonth : 0 ≤ (5 * d + 2) / 153 ∧ (5 * d + 2) / 153 ≤ 11 := by omega
  generalize (5 * d + 2) / 153 = m at hmonth ⊢
  unfold daysOfDate
  by_cases hm : m < 10
  · rw [if_pos hm]
    dsimp only
    rw [if_neg (by omega), if_neg (by omega)]
    omega
  · rw [if_neg hm]
    dsimp only
    rw [if_pos (by omega), if_pos (by omega), show y + 1 - 1 = y by omega]
    omega

/-! ## Dates -/

/-- The leap-year rule of the Gregorian calendar. -/
def IsLeap (year : ℤ) : Prop := year % 4 = 0 ∧ (year % 100 ≠ 0 ∨ year % 400 = 0)

instance (year : ℤ) : Decidable (IsLeap year) := inferInstanceAs (Decidable (_ ∧ _))

def daysInMonth (year mon : ℤ) : ℤ :=
  if mon = 1 then if IsLeap year then 29 else 28
  else if mon = 3 ∨ mon = 5 ∨ mon = 8 ∨ mon = 10 then 30 else 31

theorem daysInMonth_le (year mon : ℤ) : daysInMonth year mon ≤ 31 := by
  unfold daysInMonth
  split_ifs <;> omega

/-- A day of the calendar; the months are counted from 0. -/
def ValidDate (year mon mday : ℤ) : Prop :=
  (0 ≤ mon ∧ mon ≤ 11) ∧ 1 ≤ mday ∧ mday ≤ daysInMonth year mon

instance (year mon mday : ℤ) : Decidable (ValidDate year mon mday) := inferInstanceAs (Decidable (_ ∧ _))

theorem yearStart_add_one (year : ℤ) :
    yearStart (year + 1) = yearStart year + (if IsLeap (year + 1) then 366 else 365) := by
  unfold yearStart IsLeap
  split_ifs <;> omega

/-- The months from March on; January and February are the last of the year. -/
def marchMonth (mon : ℤ) : ℤ := if mon ≤ 1 then mon + 10 else mon - 2

/-- But for February, a month has the days up to where the next one begins. -/
theorem daysInMonth_of_ne {mon : ℤ} (hmon : 0 ≤ mon ∧ mon ≤ 11) (hne : mon ≠ 1) (year : ℤ) :
    daysInMonth year mon = (153 * (marchMonth mon + 1) + 2) / 5 - (153 * marchMonth mon + 2) / 5 := by
  have hcases : mon = 0 ∨ mon = 2 ∨ mon = 3 ∨ mon = 4 ∨ mon = 5 ∨ mon = 6 ∨ mon = 7 ∨ mon = 8 ∨
      mon = 9 ∨ mon = 10 ∨ mon = 11 := by omega
  unfold daysInMonth marchMonth
  rw [if_neg hne]
  rcases hcases with rfl | rfl | rfl | rfl | rfl | rfl | rfl | rfl | rfl | rfl | rfl <;> rfl

/-- The day of a year from March on. -/
theorem month_of_day {year mon mday : ℤ} (h : ValidDate year mon mday) :
    (5 * ((153 * marchMonth mon + 2) / 5 + mday - 1) + 2) / 153 = marchMonth mon := by
  obtain ⟨hmon, hmday, hmday'⟩ := h
  by_cases hfebruary : mon = 1
  · subst hfebruary
    have hle : daysInMonth year 1 ≤ 29 := by
      unfold daysInMonth
      split_ifs <;> omega
    rw [show marchMonth 1 = 11 from rfl]
    omega
  · rw [daysInMonth_of_ne hmon hfebruary] at hmday'
    have hmonth : 0 ≤ marchMonth mon ∧ marchMonth mon ≤ 11 := by
      unfold marchMonth
      split_ifs <;> omega
    omega

/-- The year from March on in which a month of a year is. -/
def yearOfMonth (year mon : ℤ) : ℤ := if mon ≤ 1 then year - 1 else year

theorem daysOfDate_eq (year mon mday : ℤ) : daysOfDate year mon mday + 719468 =
    yearStart (yearOfMonth year mon) + ((153 * marchMonth mon + 2) / 5 + mday - 1) := by
  unfold daysOfDate yearStart marchMonth yearOfMonth
  dsimp only
  omega

/-- A date is in front of the next first of March. -/
theorem daysOfDate_lt {year mon mday : ℤ} (h : ValidDate year mon mday) :
    daysOfDate year mon mday + 719468 < yearStart (yearOfMonth year mon + 1) := by
  obtain ⟨hmon, hmday, hmday'⟩ := h
  rw [daysOfDate_eq, yearStart_add_one]
  by_cases hfebruary : mon = 1
  · subst hfebruary
    rw [show marchMonth 1 = 11 from rfl, show yearOfMonth year 1 + 1 = year by unfold yearOfMonth; simp]
    unfold daysInMonth at hmday'
    split_ifs at hmday' ⊢ <;> omega
  · rw [daysInMonth_of_ne hmon hfebruary] at hmday'
    have hmonth : 0 ≤ marchMonth mon ∧ marchMonth mon ≤ 10 := by
      unfold marchMonth
      split_ifs <;> omega
    split_ifs <;> omega

theorem dateOfDays_daysOfDate {year mon mday : ℤ} (h : ValidDate year mon mday) :
    dateOfDays (daysOfDate year mon mday) = (year, mon, mday) := by
  have hmonth := month_of_day h
  have hdays := daysOfDate_eq year mon mday
  have hlt := daysOfDate_lt h
  obtain ⟨⟨hmon, hmon'⟩, hmday, -⟩ := h
  have hday : 0 ≤ (153 * marchMonth mon + 2) / 5 + mday - 1 := by
    unfold marchMonth
    split_ifs <;> omega
  unfold dateOfDays
  rw [marchYear_eq (by omega) hlt, hdays, add_sub_cancel_left]
  dsimp only
  rw [hmonth]
  unfold marchMonth yearOfMonth
  by_cases hlate : mon ≤ 1
  · rw [if_pos hlate, if_pos hlate, if_neg (by omega)]
    refine Prod.ext (by dsimp only; omega) (Prod.ext (by dsimp only; omega) ?_)
    dsimp only
    omega
  · rw [if_neg hlate, if_neg hlate, if_pos (by omega)]
    refine Prod.ext rfl (Prod.ext (by dsimp only; omega) ?_)
    dsimp only
    omega

/-- Every day has a date of the calendar. -/
theorem validDate_dateOfDays (days : ℤ) :
    ValidDate (dateOfDays days).1 (dateOfDays days).2.1 (dateOfDays days).2.2 := by
  have hspec := marchYear_spec (days + 719468)
  have hlt := marchYear_lt (days + 719468)
  unfold dateOfDays
  generalize marchYear (days + 719468) = p at hspec hlt ⊢
  obtain ⟨y, d⟩ := p
  rw [yearStart_add_one] at hlt
  dsimp only at hspec hlt ⊢
  obtain ⟨m, hm⟩ : ∃ m, m = (5 * d + 2) / 153 := ⟨_, rfl⟩
  rw [← hm]
  by_cases hspring : m < 10
  · rw [if_pos hspring]
    have hmon : 0 ≤ m + 2 ∧ m + 2 ≤ 11 := by omega
    refine ⟨hmon, by dsimp only; omega, ?_⟩
    dsimp only
    rw [daysInMonth_of_ne hmon (by omega), show marchMonth (m + 2) = m by unfold marchMonth; omega]
    omega
  · rw [if_neg hspring]
    have hmon : 0 ≤ m - 10 ∧ m - 10 ≤ 11 := by omega
    refine ⟨hmon, by dsimp only; omega, ?_⟩
    dsimp only
    by_cases hfebruary : m - 10 = 1
    · unfold daysInMonth
      rw [if_pos hfebruary]
      split_ifs at hlt ⊢ <;> omega
    · rw [daysInMonth_of_ne hmon hfebruary, show marchMonth (m - 10) = m by unfold marchMonth; omega]
      omega

/-! ## Counting days -/

/-- The day after a date. -/
def nextDate : ℤ × ℤ × ℤ → ℤ × ℤ × ℤ
  | (year, mon, mday) =>
    if mday < daysInMonth year mon then (year, mon, mday + 1)
    else if mon < 11 then (year, mon + 1, 1)
    else (year + 1, 0, 1)

/-- Counting `n` days from a date leads to another, backwards where `n` is negative. -/
def Counts (n : ℤ) (date date' : ℤ × ℤ × ℤ) : Prop :=
  nextDate^[n.toNat] date = nextDate^[(-n).toNat] date'

/-- A month has its days up to the first of the next one. -/
theorem daysOfDate_next_month {mon : ℤ} (hmon : 0 ≤ mon ∧ mon < 11) (year : ℤ) :
    daysOfDate year (mon + 1) 1 = daysOfDate year mon 1 + daysInMonth year mon := by
  have hdays := daysOfDate_eq year mon 1
  have hdays' := daysOfDate_eq year (mon + 1) 1
  by_cases hfebruary : mon = 1
  · subst hfebruary
    have hyear := yearStart_add_one (year - 1)
    rw [show marchMonth 1 = 11 from rfl, show yearOfMonth year 1 = year - 1 from rfl] at hdays
    rw [show marchMonth (1 + 1) = 0 from rfl, show yearOfMonth year (1 + 1) = year from rfl] at hdays'
    rw [sub_add_cancel] at hyear
    unfold daysInMonth
    split_ifs at hyear ⊢ <;> omega
  · have hmonth : marchMonth (mon + 1) = marchMonth mon + 1 := by
      unfold marchMonth
      split_ifs <;> omega
    have hyear : yearOfMonth year (mon + 1) = yearOfMonth year mon := by
      unfold yearOfMonth
      split_ifs <;> omega
    rw [hmonth, hyear] at hdays'
    rw [daysInMonth_of_ne (by omega) hfebruary]
    omega

theorem daysOfDate_next_year (year : ℤ) : daysOfDate (year + 1) 0 1 = daysOfDate year 11 1 + 31 := by
  unfold daysOfDate
  dsimp only
  rw [if_pos (by decide), if_pos (by decide), if_neg (by decide), if_neg (by decide), add_sub_cancel_right]
  omega

theorem daysOfDate_mday (year mon mday : ℤ) :
    daysOfDate year mon mday = daysOfDate year mon 1 + mday - 1 := by
  unfold daysOfDate
  dsimp only
  omega

theorem daysInMonth_december (year : ℤ) : daysInMonth year 11 = 31 := rfl

theorem validDate_january (year : ℤ) : ValidDate year 0 1 :=
  ⟨by decide, le_rfl, show (1 : ℤ) ≤ 31 by decide⟩

theorem validDate_nextDate {year mon mday : ℤ} (h : ValidDate year mon mday) :
    ValidDate (nextDate (year, mon, mday)).1 (nextDate (year, mon, mday)).2.1
      (nextDate (year, mon, mday)).2.2 := by
  obtain ⟨hmon, hmday, hmday'⟩ := h
  have hpos : ∀ year mon, 1 ≤ daysInMonth year mon := by
    intro year mon
    unfold daysInMonth
    split_ifs <;> decide
  unfold nextDate
  dsimp only
  split_ifs with hinside hmonth
  · exact ⟨hmon, by dsimp only; omega, by dsimp only; omega⟩
  · exact ⟨by dsimp only; omega, le_rfl, hpos _ _⟩
  · exact ⟨by dsimp only; omega, le_rfl, hpos _ _⟩

/-- The count goes up by one. -/
theorem daysOfDate_nextDate {year mon mday : ℤ} (h : ValidDate year mon mday) :
    daysOfDate (nextDate (year, mon, mday)).1 (nextDate (year, mon, mday)).2.1
      (nextDate (year, mon, mday)).2.2 = daysOfDate year mon mday + 1 := by
  obtain ⟨hmon, hmday, hmday'⟩ := h
  have hthis := daysOfDate_mday year mon mday
  unfold nextDate
  dsimp only
  split_ifs with hinside hmonth
  · have hnext := daysOfDate_mday year mon (mday + 1)
    dsimp only
    omega
  · have hnext := daysOfDate_next_month (show 0 ≤ mon ∧ mon < 11 by omega) year
    dsimp only
    omega
  · obtain rfl : mon = 11 := by omega
    have hnext := daysOfDate_next_year year
    rw [daysInMonth_december] at hinside hmday'
    dsimp only
    omega

theorem nextDate_dateOfDays (days : ℤ) : nextDate (dateOfDays days) = dateOfDays (days + 1) := by
  have hvalid := validDate_dateOfDays days
  have hnext := daysOfDate_nextDate hvalid
  rw [daysOfDate_dateOfDays] at hnext
  rw [← hnext, dateOfDays_daysOfDate (validDate_nextDate hvalid)]

theorem iterate_nextDate (days : ℤ) (n : ℕ) : nextDate^[n] (dateOfDays days) = dateOfDays (days + n) := by
  induction n generalizing days with
  | zero => rw [Function.iterate_zero, id, Nat.cast_zero, add_zero]
  | succ n ih =>
    rw [Function.iterate_succ_apply, nextDate_dateOfDays, ih, Nat.cast_succ, add_assoc, add_comm 1 (n : ℤ)]

theorem counts_dateOfDays (n days : ℤ) : Counts n (dateOfDays days) (dateOfDays (days + n)) := by
  unfold Counts
  rw [iterate_nextDate, iterate_nextDate]
  congr 1
  omega

/-! ## The order of the dates -/

/-- One date is in front of another. -/
def Precedes (date date' : ℤ × ℤ × ℤ) : Prop :=
  date.1 < date'.1 ∨ date.1 = date'.1 ∧
    (date.2.1 < date'.2.1 ∨ date.2.1 = date'.2.1 ∧ date.2.2 < date'.2.2)

/-- The first of a month and the months of its year. -/
theorem daysOfDate_month_mono (year : ℤ) {mon mon' : ℤ} (hmon : 0 ≤ mon) (hle : mon ≤ mon')
    (hmon' : mon' ≤ 11) :
    daysOfDate year mon 1 ≤ daysOfDate year mon' 1 := by
  have hdays := daysOfDate_eq year mon 1
  have hdays' := daysOfDate_eq year mon' 1
  have hyear := yearStart_add_one (year - 1)
  rw [sub_add_cancel] at hyear
  unfold marchMonth yearOfMonth at hdays hdays'
  split_ifs at hyear hdays hdays' <;> omega

theorem daysOfDate_of_precedes {year mon mday year' mon' mday' : ℤ} (h : ValidDate year mon mday)
    (h' : ValidDate year' mon' mday') (hlt : Precedes (year, mon, mday) (year', mon', mday')) :
    daysOfDate year mon mday < daysOfDate year' mon' mday' := by
  obtain ⟨hmon, hmday, hmday₁⟩ := h
  obtain ⟨hmon', hmday', -⟩ := h'
  have hdays := daysOfDate_mday year mon mday
  have hdays' := daysOfDate_mday year' mon' mday'
  unfold Precedes at hlt
  dsimp only at hlt
  rcases hlt with hyear | ⟨rfl, hmonth | ⟨rfl, hday⟩⟩
  · have hend : daysOfDate year mon 1 + daysInMonth year mon ≤ daysOfDate (year + 1) 0 1 := by
      rw [daysOfDate_next_year]
      by_cases hdecember : mon = 11
      · rw [hdecember, daysInMonth_december]
      · rw [← daysOfDate_next_month (by omega)]
        exact le_add_of_le_of_nonneg (daysOfDate_month_mono year (by omega) (by omega) le_rfl) (by decide)
    have hstart : daysOfDate (year + 1) 0 1 ≤ daysOfDate year' 0 1 := by
      have hfirst := daysOfDate_eq (year + 1) 0 1
      have hfirst' := daysOfDate_eq year' 0 1
      have hmono := yearStart_mono (show year + 1 - 1 ≤ year' - 1 by omega)
      unfold yearOfMonth at hfirst hfirst'
      rw [if_pos (by decide)] at hfirst hfirst'
      omega
    have hmono := daysOfDate_month_mono year' (le_refl 0) hmon'.1 hmon'.2
    omega
  · have hnext := daysOfDate_next_month (show 0 ≤ mon ∧ mon < 11 by omega) year
    have hmono := daysOfDate_month_mono year (show 0 ≤ mon + 1 by omega) (show mon + 1 ≤ mon' by omega)
      hmon'.2
    omega
  · omega

/-- The days of two dates are in the order of the dates. -/
theorem daysOfDate_lt_iff {year mon mday year' mon' mday' : ℤ} (h : ValidDate year mon mday)
    (h' : ValidDate year' mon' mday') :
    daysOfDate year mon mday < daysOfDate year' mon' mday' ↔
      Precedes (year, mon, mday) (year', mon', mday') := by
  refine ⟨fun hlt => ?_, daysOfDate_of_precedes h h'⟩
  by_contra hnot
  by_cases hback : Precedes (year', mon', mday') (year, mon, mday)
  · exact lt_asymm hlt (daysOfDate_of_precedes h' h hback)
  · have heq : year = year' ∧ mon = mon' ∧ mday = mday' := by
      unfold Precedes at hnot hback
      dsimp only at hnot hback
      omega
    obtain ⟨rfl, rfl, rfl⟩ := heq
    exact lt_irrefl _ hlt

def gregorian : Calendar where
  gmtime := fun seconds =>
    let (year, mon, mday) := dateOfDays (seconds / 86400)
    ⟨year, mon, mday, seconds % 86400 / 3600, seconds % 3600 / 60, seconds % 60⟩
  timegm := fun tm =>
    86400 * daysOfDate tm.year tm.mon tm.mday + 3600 * tm.hour + 60 * tm.min + tm.sec
  timegm_gmtime := by
    intro seconds
    have hdays := daysOfDate_dateOfDays (seconds / 86400)
    dsimp only
    rw [hdays]
    omega

theorem gregorian_gmtime (seconds : ℤ) : gregorian.gmtime seconds =
    ⟨(dateOfDays (seconds / 86400)).1, (dateOfDays (seconds / 86400)).2.1,
      (dateOfDays (seconds / 86400)).2.2, seconds % 86400 / 3600, seconds % 3600 / 60, seconds % 60⟩ := rfl

theorem gregorian_timegm (tm : Civil) : gregorian.timegm tm =
    86400 * daysOfDate tm.year tm.mon tm.mday + 3600 * tm.hour + 60 * tm.min + tm.sec := rfl

/-- A day of the calendar and a time of the day. -/
structure Valid (tm : Civil) : Prop where
  date : ValidDate tm.year tm.mon tm.mday
  hour : 0 ≤ tm.hour ∧ tm.hour < 24
  min : 0 ≤ tm.min ∧ tm.min < 60
  sec : 0 ≤ tm.sec ∧ tm.sec < 60

theorem Valid.gmtime_timegm {tm : Civil} (h : Valid tm) : gregorian.gmtime (gregorian.timegm tm) = tm := by
  obtain ⟨hdate, hhour, hmin, hsec⟩ := h
  have hseconds := gregorian_timegm tm
  have hdays : gregorian.timegm tm / 86400 = daysOfDate tm.year tm.mon tm.mday := by omega
  rw [gregorian_gmtime, hdays, dateOfDays_daysOfDate hdate]
  dsimp only
  rw [show gregorian.timegm tm % 86400 / 3600 = tm.hour by omega,
    show gregorian.timegm tm % 3600 / 60 = tm.min by omega,
    show gregorian.timegm tm % 60 = tm.sec by omega]

theorem valid_gmtime (seconds : ℤ) : Valid (gregorian.gmtime seconds) := by
  rw [gregorian_gmtime]
  exact ⟨validDate_dateOfDays _, by dsimp only; omega, by dsimp only; omega, by dsimp only; omega⟩

example : gregorian.gmtime 951782400 = ⟨2000, 1, 29, 0, 0, 0⟩ := by decide

end Calendar

end Reactor
