import Reactor.Base
import Reactor.Calendar

/-!
# Date

A date is its Julian day number.  The two conversions are closed formulas in `int` arithmetic whose
divisions cut towards zero; from the year -4799 on all that they divide is not negative.

* `getJulianDayNumber_eq` and `getYearMonthDay_eq`: there they count the days as the Gregorian
  calendar does, and no operation overflows up to the year 1000000.
* `julian_days_are_gregorian`: so they are inverse to each other, in order, and the next day has the
  next number.
-/

namespace Reactor

/-- `Date::YearMonthDay` -/
structure YearMonthDay where
  year : ℤ
  month : ℤ
  day : ℤ
  deriving DecidableEq, Repr

def getJulianDayNumber (year month day : ℤ) : Except Fault ℤ := do
  let a := (← int (14 - month)).tdiv 12
  let y ← int ((← int (year + 4800)) - a)
  let m ← int ((← int (month + (← int (12 * a)))) - 3)
  -- `day + (153 * m + 2) / 5 + y * 365 + y / 4 - y / 100 + y / 400 - 32045`
  let sum ← int (day + (← int ((← int (153 * m)) + 2)).tdiv 5)
  let sum ← int (sum + (← int (y * 365)))
  let sum ← int (sum + y.tdiv 4)
  let sum ← int (sum - y.tdiv 100)
  let sum ← int (sum + y.tdiv 400)
  int (sum - 32045)

def getYearMonthDay (julianDayNumber : ℤ) : Except Fault YearMonthDay := do
  let a ← int (julianDayNumber + 32044)
  let b := (← int ((← int (4 * a)) + 3)).tdiv 146097
  let c ← int (a - (← int (b * 146097)).tdiv 4)
  let d := (← int ((← int (4 * c)) + 3)).tdiv 1461
  let e ← int (c - (← int (1461 * d)).tdiv 4)
  let m := (← int ((← int (5 * e)) + 2)).tdiv 153
  let day ← int ((← int (e - (← int ((← int (153 * m)) + 2)).tdiv 5)) + 1)
  let month ← int ((← int (m + 3)) - (← int (12 * m.tdiv 10)))
  -- `b * 100 + d - 4800 + (m / 10)`
  let year ← int ((← int ((← int ((← int (b * 100)) + d)) - 4800)) + m.tdiv 10)
  return ⟨year, month, day⟩

structure Date where
  julianDayNumber : ℤ
  deriving DecidableEq, Repr

namespace Date

def kDaysPerWeek : ℤ := 7

def kJulianDayOf19700101 : Except Fault ℤ := getJulianDayNumber 1970 1 1

/-- `Date(int y, int m, int d)` -/
def ofYearMonthDay (y m d : ℤ) : Except Fault Date := return ⟨← getJulianDayNumber y m d⟩

def yearMonthDay (date : Date) : Except Fault YearMonthDay := getYearMonthDay date.julianDayNumber

def weekDay (date : Date) : Except Fault ℤ :=
  return (← int (date.julianDayNumber + 1)).tmod kDaysPerWeek

theorem kJulianDayOf19700101_eq : kJulianDayOf19700101 = .ok 2440588 := by decide

end Date

/-! ## The formulas -/

theorem getJulianDayNumber_eq {year mon mday : ℤ} (hyear : -4799 ≤ year ∧ year ≤ 1000001)
    (hmon : 0 ≤ mon ∧ mon ≤ 11) (hmday : 1 ≤ mday ∧ mday ≤ 31) :
    getJulianDayNumber year (mon + 1) mday = .ok (Calendar.daysOfDate year mon mday + 2440588) := by
  obtain ⟨a, ha⟩ : ∃ a, a = (14 - (mon + 1)) / 12 := ⟨_, rfl⟩
  have hrange : 0 ≤ a ∧ a ≤ 1 := by omega
  have hmarch : Calendar.marchMonth mon = mon + 1 + 12 * a - 3 := by
    unfold Calendar.marchMonth
    omega
  have hstart : Calendar.yearOfMonth year mon + 4800 = year + 4800 - a := by
    unfold Calendar.yearOfMonth
    omega
  have hmonth : 0 ≤ mon + 1 + 12 * a - 3 ∧ mon + 1 + 12 * a - 3 ≤ 11 := by omega
  unfold getJulianDayNumber
  rw [int_of (by omega), ok_bind, Int.tdiv_eq_ediv_of_nonneg (by omega), ← ha]
  obtain ⟨y, hy⟩ : ∃ y, y = year + 4800 - a := ⟨_, rfl⟩
  obtain ⟨m, hm⟩ : ∃ m, m = mon + 1 + 12 * a - 3 := ⟨_, rfl⟩
  simp (disch := omega) only [int_of, ok_bind, Int.tdiv_eq_ediv_of_nonneg, ← hy, ← hm]
  have hdays := Calendar.daysOfDate_eq year mon mday
  rw [hmarch] at hdays
  unfold Calendar.yearStart at hdays
  congr 1
  omega

/-- The last year of a group of four is a leap year, unless it ends a century that is not the last of
four. -/
theorem isLeap_of_digits {b d : ℤ} (hlow : 0 ≤ d) (hhigh : d ≤ 99) (hfour : d % 4 = 3)
    (hcentury : d = 99 → b % 4 = 3) : Calendar.IsLeap (100 * b + d + 1) := by
  refine ⟨by omega, ?_⟩
  by_cases hlast : d = 99
  · have hb := hcentury hlast
    right
    omega
  · left
    omega

/-- Centuries, years and days of the count that `getYearMonthDay` starts from, the first of March of
the year -4800. -/
theorem getYearMonthDay_digits {a b c d e : ℤ} (ha : 0 ≤ a) (hb : b = (4 * a + 3) / 146097)
    (hc : c = a - b * 146097 / 4) (hd : d = (4 * c + 3) / 1461) (he : e = c - 1461 * d / 4) :
    Calendar.marchYear a = (100 * b + d, e) ∧ 0 ≤ b ∧ 0 ≤ c ∧ c ≤ 36524 ∧ 0 ≤ d ∧ d ≤ 99 ∧ 0 ≤ e ∧
      e ≤ 365 := by
  have hc' : c = a - (36524 * b + b / 4) := by omega
  have hcentury : 0 ≤ b ∧ 0 ≤ c ∧ c ≤ 36524 ∧ (c = 36524 → b % 4 = 3) := by omega
  have he' : e = c - (365 * d + d / 4) := by omega
  have hyear : 0 ≤ d ∧ d ≤ 99 ∧ 0 ≤ e ∧ e ≤ 365 ∧ (e = 365 → d % 4 = 3 ∧ (d = 99 → b % 4 = 3)) := by omega
  clear hb hc hd he
  have hday : a = Calendar.yearStart (100 * b + d) + e := by
    unfold Calendar.yearStart
    have h100 : (100 * b + d) / 100 = b := by omega
    have h400 : (100 * b + d) / 400 = b / 4 := by omega
    omega
  have hlt : a < Calendar.yearStart (100 * b + d + 1) := by
    rw [Calendar.yearStart_add_one, hday]
    by_cases hlast : e = 365
    · obtain ⟨hfour, hend⟩ := hyear.2.2.2.2 hlast
      rw [if_pos (isLeap_of_digits hyear.1 hyear.2.1 hfour hend)]
      omega
    · split_ifs <;> omega
  refine ⟨?_, by omega⟩
  rw [Calendar.marchYear_eq (by omega) hlt]
  exact Prod.ext rfl (by dsimp only; omega)

theorem marchYear_sub (day : ℤ) : Calendar.marchYear (day - 1753164) =
    ((Calendar.marchYear day).1 - 4800, (Calendar.marchYear day).2) := by
  unfold Calendar.marchYear
  dsimp only
  rw [show (day - 1753164) % 146097 = day % 146097 by omega]
  exact Prod.ext (by dsimp only; omega) rfl

theorem getYearMonthDay_eq {days : ℤ} (hdays : -2472632 ≤ days ∧ days ≤ 2 ^ 29 - 2 ^ 22) :
    getYearMonthDay (days + 2440588) = .ok ⟨(Calendar.dateOfDays days).1,
      (Calendar.dateOfDays days).2.1 + 1, (Calendar.dateOfDays days).2.2⟩ := by
  obtain ⟨a, ha⟩ : ∃ a, a = days + 2440588 + 32044 := ⟨_, rfl⟩
  obtain ⟨b, hb⟩ : ∃ b, b = (4 * a + 3) / 146097 := ⟨_, rfl⟩
  obtain ⟨c, hc⟩ : ∃ c, c = a - b * 146097 / 4 := ⟨_, rfl⟩
  obtain ⟨d, hd⟩ : ∃ d, d = (4 * c + 3) / 1461 := ⟨_, rfl⟩
  obtain ⟨e, he⟩ : ∃ e, e = c - 1461 * d / 4 := ⟨_, rfl⟩
  obtain ⟨m, hm⟩ : ∃ m, m = (5 * e + 2) / 153 := ⟨_, rfl⟩
  have ha' : 0 ≤ a ∧ a ≤ 2 ^ 29 - 2 ^ 20 := by omega
  obtain ⟨hmarch, hb', hc', hc'', hd', hd'', he', he''⟩ := getYearMonthDay_digits ha'.1 hb hc hd he
  have hb'' : 146097 * b ≤ 2 ^ 31 - 1 := by omega
  have hm' : 0 ≤ m ∧ m ≤ 11 := by omega
  unfold getYearMonthDay
  rw [int_of (by omega), ok_bind, ← ha, int_of (by omega), ok_bind, int_of (by omega), ok_bind,
    Int.tdiv_eq_ediv_of_nonneg (by omega), ← hb]
  clear hb
  dsimp only
  rw [int_of (by omega), ok_bind, Int.tdiv_eq_ediv_of_nonneg (by omega), ← hc]
  clear hc
  rw [int_of (by omega), ok_bind, int_of (by omega), ok_bind, int_of (by omega), ok_bind,
    Int.tdiv_eq_ediv_of_nonneg (by omega), ← hd]
  clear hd
  rw [int_of (by omega), ok_bind, Int.tdiv_eq_ediv_of_nonneg (by omega), ← he]
  clear he
  rw [int_of (by omega), ok_bind, int_of (by omega), ok_bind, int_of (by omega), ok_bind,
    Int.tdiv_eq_ediv_of_nonneg (by omega), ← hm]
  simp (disch := omega) only [int_of, ok_bind, Int.tdiv_eq_ediv_of_nonneg]
  unfold Calendar.dateOfDays
  rw [show days + 719468 = a - 1753164 by omega, marchYear_sub, hmarch]
  dsimp only
  rw [← hm]
  by_cases hspring : m < 10
  · rw [if_pos hspring, show m / 10 = 0 by omega]
    refine congrArg Except.ok ?_
    rw [YearMonthDay.mk.injEq]
    dsimp only
    omega
  · rw [if_neg hspring, show m / 10 = 1 by omega]
    refine congrArg Except.ok ?_
    rw [YearMonthDay.mk.injEq]
    dsimp only
    omega

/-- The days of the years that `int` arithmetic reaches. -/
theorem daysOfDate_range {year mon mday : ℤ} (hyear : -4799 ≤ year ∧ year ≤ 1000000)
    (hmon : 0 ≤ mon ∧ mon ≤ 11) (hmday : 1 ≤ mday ∧ mday ≤ 31) :
    -2472632 ≤ Calendar.daysOfDate year mon mday ∧
      Calendar.daysOfDate year mon mday ≤ 2 ^ 29 - 2 ^ 22 := by
  unfold Calendar.daysOfDate
  dsimp only
  split_ifs <;> omega

theorem dateOfDays_range {days : ℤ}
    (hyear : -4799 ≤ (Calendar.dateOfDays days).1 ∧ (Calendar.dateOfDays days).1 ≤ 1000000) :
    -2472632 ≤ days ∧ days ≤ 2 ^ 29 - 2 ^ 22 := by
  obtain ⟨hmon, hmday, hmday'⟩ := Calendar.validDate_dateOfDays days
  have hle := Calendar.daysInMonth_le (Calendar.dateOfDays days).1 (Calendar.dateOfDays days).2.1
  have hrange := daysOfDate_range hyear hmon ⟨hmday, by omega⟩
  rwa [Calendar.daysOfDate_dateOfDays] at hrange

/-! ## The two conversions -/

namespace YearMonthDay

/-- A day of the Gregorian calendar, of the years from -4799 to 1000000. -/
structure Civil (d : YearMonthDay) : Prop where
  year : -4799 ≤ d.year ∧ d.year ≤ 1000000
  date : Calendar.ValidDate d.year (d.month - 1) d.day

def next (d : YearMonthDay) : YearMonthDay :=
  let (year, mon, mday) := Calendar.nextDate (d.year, d.month - 1, d.day)
  ⟨year, mon + 1, mday⟩

/-- One day is in front of another. -/
def Before (d d' : YearMonthDay) : Prop :=
  d.year < d'.year ∨ d.year = d'.year ∧ (d.month < d'.month ∨ d.month = d'.month ∧ d.day < d'.day)

theorem before_iff (d d' : YearMonthDay) : d.Before d' ↔
    Calendar.Precedes (d.year, d.month - 1, d.day) (d'.year, d'.month - 1, d'.day) := by
  unfold Before Calendar.Precedes
  dsimp only
  omega

/-- The Julian day number of a day. -/
def julianDay (d : YearMonthDay) : ℤ := Calendar.daysOfDate d.year (d.month - 1) d.day + 2440588

theorem julianDay_lt_iff {d d' : YearMonthDay} (h : d.Civil) (h' : d'.Civil) :
    d.julianDay < d'.julianDay ↔ d.Before d' := by
  rw [before_iff, ← Calendar.daysOfDate_lt_iff h.date h'.date, julianDay, julianDay]
  omega

/-- The formula on a valid date, the first day behind the range included. -/
theorem getJulianDayNumber_eq_julianDay {d : YearMonthDay} (hyear : -4799 ≤ d.year ∧ d.year ≤ 1000001)
    (hdate : Calendar.ValidDate d.year (d.month - 1) d.day) :
    getJulianDayNumber d.year d.month d.day = .ok d.julianDay := by
  obtain ⟨hmon, hmday, hmday'⟩ := hdate
  have hle := Calendar.daysInMonth_le d.year (d.month - 1)
  have hjulian := getJulianDayNumber_eq hyear hmon ⟨hmday, by omega⟩
  rwa [sub_add_cancel] at hjulian

theorem Civil.getYearMonthDay {d : YearMonthDay} (h : d.Civil) :
    getYearMonthDay d.julianDay = .ok d := by
  obtain ⟨hmon, hmday, hmday'⟩ := h.date
  have hle := Calendar.daysInMonth_le d.year (d.month - 1)
  rw [julianDay, getYearMonthDay_eq (daysOfDate_range h.year hmon ⟨hmday, by omega⟩),
    Calendar.dateOfDays_daysOfDate h.date]
  dsimp only
  rw [sub_add_cancel]

theorem Civil.getJulianDayNumber_next {d : YearMonthDay} (h : d.Civil) :
    getJulianDayNumber d.next.year d.next.month d.next.day = .ok (d.julianDay + 1) := by
  have hvalid := Calendar.validDate_nextDate h.date
  have hdays := Calendar.daysOfDate_nextDate h.date
  have hyear : -4799 ≤ d.next.year ∧ d.next.year ≤ 1000001 := by
    have hrange := h.year
    unfold next Calendar.nextDate
    dsimp only
    split_ifs <;> (dsimp only; omega)
  have hmon : d.next.month - 1 = (Calendar.nextDate (d.year, d.month - 1, d.day)).2.1 :=
    add_sub_cancel_right _ _
  rw [getJulianDayNumber_eq_julianDay hyear (by rw [hmon]; exact hvalid), julianDay, hmon, julianDay]
  refine congrArg Except.ok ?_
  show Calendar.daysOfDate (Calendar.nextDate (d.year, d.month - 1, d.day)).1
    (Calendar.nextDate (d.year, d.month - 1, d.day)).2.1
    (Calendar.nextDate (d.year, d.month - 1, d.day)).2.2 + 2440588 = _
  omega

/-- The first and the last day of the range. -/
def first : YearMonthDay := ⟨-4799, 1, 1⟩
def last : YearMonthDay := ⟨1000000, 12, 31⟩

theorem civil_first : first.Civil := ⟨by decide, by decide⟩
theorem civil_last : last.Civil := ⟨by decide, by decide⟩

/-- The days between the first and the last are those of the years between. -/
theorem exists_civil {j : ℤ} (hfirst : first.julianDay ≤ j) (hlast : j ≤ last.julianDay) :
    ∃ d : YearMonthDay, d.Civil ∧ d.julianDay = j := by
  have hvalid := Calendar.validDate_dateOfDays (j - 2440588)
  have hdays := Calendar.daysOfDate_dateOfDays (j - 2440588)
  generalize Calendar.dateOfDays (j - 2440588) = p at hvalid hdays
  obtain ⟨year, mon, mday⟩ := p
  dsimp only at hvalid hdays
  obtain ⟨hmon, hmday, hmday'⟩ := hvalid
  have hj : (⟨year, mon + 1, mday⟩ : YearMonthDay).julianDay = j := by
    show Calendar.daysOfDate year (mon + 1 - 1) mday + 2440588 = j
    rw [add_sub_cancel_right]
    omega
  have hdate : Calendar.ValidDate year mon mday := ⟨hmon, hmday, hmday'⟩
  have hlow : -4799 ≤ year := by
    by_contra hless
    have hlt := Calendar.daysOfDate_of_precedes hdate civil_first.date (Or.inl (by exact not_le.1 hless))
    unfold julianDay at hfirst
    omega
  have hhigh : year ≤ 1000000 := by
    by_contra hmore
    have hlt := Calendar.daysOfDate_of_precedes civil_last.date hdate (Or.inl (by exact not_le.1 hmore))
    unfold julianDay at hlast
    omega
  refine ⟨⟨year, mon + 1, mday⟩, ⟨⟨hlow, hhigh⟩, ?_⟩, hj⟩
  rw [add_sub_cancel_right]
  exact hdate

theorem julianDay_le_iff {d d' : YearMonthDay} (h : d.Civil) (h' : d'.Civil) :
    d.julianDay ≤ d'.julianDay ↔ ¬ d'.Before d := by
  rw [← julianDay_lt_iff h' h, not_lt]

theorem Civil.range {d : YearMonthDay} (h : d.Civil) :
    first.julianDay ≤ d.julianDay ∧ d.julianDay ≤ last.julianDay := by
  obtain ⟨hyear, hmon, hmday, hmday'⟩ := h
  have hle := Calendar.daysInMonth_le d.year (d.month - 1)
  rw [julianDay_le_iff civil_first ⟨hyear, hmon, hmday, hmday'⟩,
    julianDay_le_iff ⟨hyear, hmon, hmday, hmday'⟩ civil_last]
  unfold Before first last
  dsimp only
  omega

end YearMonthDay

/-- The two functions are inverse to each other between the days of the calendar and their numbers, keep
the order, and the next day has the next number. -/
theorem julian_days_are_gregorian {d d' : YearMonthDay} (h : d.Civil) (h' : d'.Civil) :
    (∃ j j', getJulianDayNumber d.year d.month d.day = .ok j ∧ getYearMonthDay j = .ok d ∧
      getJulianDayNumber d.next.year d.next.month d.next.day = .ok (j + 1) ∧
      -31738 ≤ j ∧ j ≤ 366963925 ∧
      getJulianDayNumber d'.year d'.month d'.day = .ok j' ∧ (j < j' ↔ d.Before d')) ∧
    getJulianDayNumber (-4799) 1 1 = .ok (-31738) ∧ getJulianDayNumber 1000000 12 31 = .ok 366963925 ∧
    ∀ j, -31738 ≤ j → j ≤ 366963925 → ∃ e : YearMonthDay, e.Civil ∧ getYearMonthDay j = .ok e ∧
      getJulianDayNumber e.year e.month e.day = .ok j := by
  have hnumber : ∀ {e : YearMonthDay}, e.Civil →
      getJulianDayNumber e.year e.month e.day = .ok e.julianDay := fun he =>
    YearMonthDay.getJulianDayNumber_eq_julianDay ⟨he.year.1, by have := he.year.2; omega⟩ he.date
  refine ⟨⟨d.julianDay, d'.julianDay, hnumber h, h.getYearMonthDay, h.getJulianDayNumber_next,
    h.range.1, h.range.2, hnumber h', YearMonthDay.julianDay_lt_iff h h'⟩, by decide, by decide, ?_⟩
  intro j hfirst hlast
  obtain ⟨e, he, rfl⟩ := YearMonthDay.exists_civil hfirst hlast
  exact ⟨e, he, he.getYearMonthDay, hnumber he⟩

theorem julian_days_are_gregorian_leapDay :
    getJulianDayNumber 2000 2 29 = .ok 2451604 ∧ getYearMonthDay 2451604 = .ok ⟨2000, 2, 29⟩ ∧
      getJulianDayNumber 2000 3 1 = .ok 2451605 := by
  have hcivil : YearMonthDay.Civil ⟨2000, 2, 29⟩ := ⟨by decide, by decide⟩
  have hnumber : getJulianDayNumber 2000 2 29 = .ok 2451604 := by decide
  obtain ⟨⟨j, -, hj, hback, hnext, -⟩, -⟩ := julian_days_are_gregorian hcivil hcivil
  obtain rfl : 2451604 = j := Except.ok.inj (hnumber.symm.trans hj)
  exact ⟨hnumber, hback, hnext⟩

end Reactor
