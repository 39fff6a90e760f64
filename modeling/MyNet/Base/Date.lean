import MyNet.Lib.CInt
import MyNet.Lib.Gregorian

/-!
# `Date`

The conversions between a civil date and its Julian day number are computed in `int`, and
compared with the calendar: `julianDay` is the number of a date as the calendar counts
days, without a bound.
-/
namespace MyNet.Base

open Lib Lib.Gregorian

namespace DateOp

def getJulianDayNum (year month day : CInt) : CInt :=
  let a := (14 - month) / 12
  let y := year + 4800 - a
  let m := month + 12 * a - 3
  day + (153 * m + 2) / 5 + y * 365 + y / 4 - y / 100 + y / 400 - 32045

structure YearMonthDay where
  year : CInt
  month : CInt
  day : CInt
  deriving DecidableEq

def getYearMonthDay (julianDayNumber : CInt) : YearMonthDay :=
  let a := julianDayNumber + 32044
  let b := (4 * a + 3) / 146097
  let c := a - ((b * 146097) / 4)
  let d := (4 * c + 3) / 1461
  let e := c - ((1461 * d) / 4)
  let m := (5 * e + 2) / 153
  { day := e - ((153 * m + 2) / 5) + 1
    month := m + 3 - 12 * (m / 10)
    year := b * 100 + d - 4800 + (m / 10) }

end DateOp

open DateOp

structure Date where
  m_nJulianDayNum : CInt

namespace Date

def NumDaysPerWeek : CInt := 7

def ofYearMonthDay (iyear imonth iday : CInt) : Date := ⟨getJulianDayNum iyear imonth iday⟩

def toYearMonthDay (d : Date) : YearMonthDay := getYearMonthDay d.m_nJulianDayNum

def julianDayNumber (d : Date) : CInt := d.m_nJulianDayNum

def valid (d : Date) : Bool := 0 < d.m_nJulianDayNum.value

def weekDay (d : Date) : CInt := (d.julianDayNumber + 1) % NumDaysPerWeek

/-- `operator <` -/
def lt (a b : Date) : Bool := a.julianDayNumber.value < b.julianDayNumber.value

/-- `operator ==` -/
def eq (a b : Date) : Bool := a.julianDayNumber.value = b.julianDayNumber.value

end Date

example : getJulianDayNum 1970 1 1 = 2440588 := by decide
example : getYearMonthDay 2440588 = ⟨1970, 1, 1⟩ := by decide

/-! ## The calendar -/

/-- The Julian day number of a date. -/
def julianDay (d : CalendarDate) : Int := d.dayNumber + 1721120

/-- -4800-03-01, the first date the formulas are meant for. -/
def firstDate : CalendarDate := ⟨-4800, 3, 1, by decide, by decide⟩

/-- The number the program computes for a date. -/
def numberOf (d : CalendarDate) : CInt := getJulianDayNum (.of d.year) (.of d.month) (.of d.day)

/-- The fields of a date as the program holds them. -/
def civil (d : CalendarDate) : YearMonthDay := ⟨.of d.year, .of d.month, .of d.day⟩

/-- The years from March since -4800 are not negative from the first date on. -/
theorem marchYear_ge {d : CalendarDate} (h : -32044 ≤ julianDay d) : -4800 ≤ d.marchYear := by
  by_contra hlt
  have hr := d.dayOfYear_range
  have hmono := yearStart_mono (show d.marchYear + 1 ≤ -4800 by omega)
  have hfirst : yearStart (-4800) = -1753164 := by decide
  unfold julianDay CalendarDate.dayNumber at h
  omega

theorem first_le {d : CalendarDate} (h : ¬ d.Before firstDate) : -32044 ≤ julianDay d := by
  have hle := Int.not_lt.mp (fun hlt => h (CalendarDate.dayNumber_lt_iff.mp hlt))
  have hfirst : firstDate.dayNumber = -1753164 := by decide
  unfold julianDay
  omega

/-- The number of a date by its year from March since -4800. -/
theorem julianDay_eq (d : CalendarDate) :
    julianDay d = yearStart (d.marchYear + 4800) + d.dayOfYear - 32044 := by
  unfold julianDay CalendarDate.dayNumber yearStart
  omega

/-- The year from March of a date whose number is an `int`. -/
theorem marchYear_le {d : CalendarDate} (h : julianDay d ≤ 2147483647) :
    d.marchYear + 4800 ≤ 5879699 := by
  have hr := d.dayOfYear_range
  have heq := julianDay_eq d
  unfold yearStart at heq
  omega

open CInt

/-- One for January and February, which belong to the year that began before them. -/
theorem janFeb_eq (d : CalendarDate) :
    (14 - of d.month) / 12 = of (if d.month ≤ 2 then 1 else 0) := by
  have hm := d.month_range
  rw [lit, lit, sub_exact (by omega) (by omega), div_exact (by omega) (by omega)]
  congr 1
  split <;> omega

theorem marchMonth_eq (d : CalendarDate) :
    of d.month + 12 * of (if d.month ≤ 2 then 1 else 0) - 3 = of d.marchMonth := by
  have hm := d.month_range
  unfold CalendarDate.marchMonth
  rw [lit, lit]
  split
  · rw [mul_exact (by omega) (by omega), add_exact (by omega) (by omega),
      sub_exact (by omega) (by omega)]
    congr 1
    omega
  · rw [mul_exact (by omega) (by omega), add_exact (by omega) (by omega),
      sub_exact (by omega) (by omega)]
    congr 1
    omega

/-- What `getJulianDayNum` adds up, all but the last sums being exact: the days from
1 March of the year, the years from March since -4800, and the leap days. -/
theorem numberOf_eq {d : CalendarDate} (hlow : -32044 ≤ julianDay d)
    (hup : julianDay d ≤ 2147483647) :
    numberOf d =
      of (d.dayOfYear + 1 + (d.marchYear + 4800) * 365) + of ((d.marchYear + 4800) / 4) -
        of ((d.marchYear + 4800) / 100) + of ((d.marchYear + 4800) / 400) - of 32045 := by
  have hy0 := marchYear_ge hlow
  have hy1 := marchYear_le hup
  have hM := d.marchMonth_range
  have hd : 1 ≤ d.day ∧ d.day ≤ 31 := by
    have hday := d.day_range
    have hlen := monthLength_le d.year d.month
    omega
  have ha := janFeb_eq d
  have hy : of d.year + 4800 - of (if d.month ≤ 2 then 1 else 0) = of (d.marchYear + 4800) := by
    unfold CalendarDate.marchYear at *
    rw [lit]
    split
    · next h =>
      rw [if_pos h] at hy0 hy1
      rw [add_exact (by omega) (by omega), sub_exact (by omega) (by omega)]
      congr 1
      omega
    · next h =>
      rw [if_neg h] at hy0 hy1
      rw [add_exact (by omega) (by omega), sub_exact (by omega) (by omega)]
      congr 1
      omega
  have hmonth := marchMonth_eq d
  have hsum : of d.day + (153 * of d.marchMonth + 2) / 5 + of (d.marchYear + 4800) * 365 =
      of (d.dayOfYear + 1 + (d.marchYear + 4800) * 365) := by
    simp only [lit]
    rw [mul_exact (by omega) (by omega), add_exact (by omega) (by omega),
      div_exact (by omega) (by omega), add_exact (by omega) (by omega),
      mul_exact (by omega) (by omega), add_exact (by omega) (by omega)]
    congr 1
    unfold CalendarDate.dayOfYear monthStart
    omega
  simp only [numberOf, getJulianDayNum, ha, hy, hmonth, hsum]
  simp only [lit]
  rw [div_exact (by omega) (by omega), div_exact (by omega) (by omega),
    div_exact (by omega) (by omega)]

/-- The number the program computes is that of the calendar; partial sums may leave the
range of `int` and come back. -/
theorem numberOf_value {d : CalendarDate} (hlow : -32044 ≤ julianDay d)
    (hup : julianDay d ≤ 2147483647) : (numberOf d).value = julianDay d := by
  have hr := d.dayOfYear_range
  have hd := d.dayOfYear_le
  have heq := julianDay_eq d
  unfold yearStart at heq
  rw [numberOf_eq hlow hup, sub_value, add_value, sub_value, add_value, of_value (by omega),
    of_value (by omega), of_value (by omega), of_value (by omega), of_value (by omega)]
  unfold wrap
  omega

/-- Well before the end of the range no partial sum leaves it. -/
theorem numberOf_exact {d : CalendarDate} (hlow : -32044 ≤ julianDay d)
    (hup : julianDay d ≤ 2147000000) : numberOf d = of (julianDay d) := by
  have hy0 := marchYear_ge hlow
  have hr := d.dayOfYear_range
  have heq := julianDay_eq d
  unfold yearStart at heq
  rw [numberOf_eq hlow (by omega)]
  rw [add_exact (by omega) (by omega), sub_exact (by omega) (by omega),
    add_exact (by omega) (by omega), sub_exact (by omega) (by omega)]
  congr 1
  omega

/-- The month, counted from March, of a day of the year. -/
theorem month_read (d : CalendarDate) : (5 * of d.dayOfYear + 2) / 153 = of d.marchMonth := by
  have hday := d.day_range
  have hmonth := month_of_day hday.1 d.monthStart_add_day_le
  have hr := d.dayOfYear_range
  have hn := d.dayOfYear_le
  have hdef : d.dayOfYear = monthStart d.marchMonth + d.day - 1 := rfl
  simp only [lit]
  rw [mul_exact (by omega) (by omega), add_exact (by omega) (by omega),
    div_exact (by omega) (by omega), hdef, hmonth]

theorem day_read (d : CalendarDate) :
    of d.dayOfYear - (153 * of d.marchMonth + 2) / 5 + 1 = of d.day := by
  have hM := d.marchMonth_range
  have hr := d.dayOfYear_range
  have hn := d.dayOfYear_le
  have hdef : d.dayOfYear = monthStart d.marchMonth + d.day - 1 := rfl
  simp only [lit]
  rw [mul_exact (by omega) (by omega), add_exact (by omega) (by omega),
    div_exact (by omega) (by omega), sub_exact (by omega) (by omega),
    add_exact (by omega) (by omega)]
  congr 1
  unfold monthStart at hdef
  omega

/-- The month counted from January. -/
theorem month_turned (d : CalendarDate) :
    of d.marchMonth + 3 - 12 * of (d.marchMonth / 10) = of d.month := by
  have hM := d.marchMonth_range
  have hm := d.month_range
  simp only [lit]
  rw [mul_exact (by omega) (by omega), add_exact (by omega) (by omega),
    sub_exact (by omega) (by omega)]
  congr 1
  unfold CalendarDate.marchMonth
  split <;> omega

/-- A day of the year, counted from 1 March of -4800 on. -/
theorem dayOfYear_in_year (d : CalendarDate) :
    0 ≤ d.dayOfYear ∧ d.dayOfYear <
      yearStart (d.marchYear + 4800 + 1) - yearStart (d.marchYear + 4800) := by
  have hyear := yearStart_add d.marchYear 12
  have hnext := yearStart_add (d.marchYear + 1) 12
  have hin := d.dayOfYear_range
  rw [show d.marchYear + 4800 + 1 = d.marchYear + 1 + 400 * 12 by omega, hnext,
    show d.marchYear + 4800 = d.marchYear + 400 * 12 by omega, hyear]
  omega

section Read

variable {year day : Int}

theorem century_read (h0 : 0 ≤ yearStart year) (hday : 0 ≤ day)
    (hlt : day < yearStart (year + 1) - yearStart year) (hup : yearStart year + day ≤ 536870911) :
    (4 * of (yearStart year + day) + 3) / 146097 = of (year / 100) := by
  simp only [lit]
  rw [mul_exact (by omega) (by omega), add_exact (by omega) (by omega),
    div_exact (by omega) (by omega), century_of hday hlt]

/-- The days of the centuries before are taken off. -/
theorem centuries_off (hyear : 0 ≤ year ∧ year < 1470000) (h0 : 0 ≤ yearStart year)
    (hday : 0 ≤ day) (hup : yearStart year + day ≤ 536870911) :
    of (yearStart year + day) - of (year / 100) * 146097 / 4 =
      of (yearStart year + day - year / 100 * 146097 / 4) := by
  simp only [lit]
  rw [mul_exact (by omega) (by omega), div_exact (by omega) (by omega),
    sub_exact (by omega) (by omega)]

theorem year_in_century_read (hday : 0 ≤ day)
    (hlt : day < yearStart (year + 1) - yearStart year) :
    (4 * of (yearStart year + day - year / 100 * 146097 / 4) + 3) / 1461 = of (year % 100) := by
  have hread := year_of_century hday hlt
  simp only [lit]
  rw [mul_exact (by omega) (by omega), add_exact (by omega) (by omega),
    div_exact (by omega) (by omega), hread]

/-- The years of the century are taken off too. -/
theorem years_off (hday : 0 ≤ day) (hup : day < 366) :
    of (yearStart year + day - year / 100 * 146097 / 4) - 1461 * of (year % 100) / 4 =
      of day := by
  have hrest := day_of_year year day
  simp only [lit]
  rw [mul_exact (by omega) (by omega), div_exact (by omega) (by omega),
    sub_exact (by omega) (by omega), hrest]

end Read

/-- The year, turned back to one that begins in January. -/
theorem year_turned {d : CalendarDate} (hlow : -4800 ≤ d.marchYear) (hup : d.marchYear < 1470000) :
    of ((d.marchYear + 4800) / 100) * 100 + of ((d.marchYear + 4800) % 100) - 4800 +
      of (d.marchMonth / 10) = of d.year := by
  have hM := d.marchMonth_range
  have hm := d.month_range
  simp only [lit]
  rw [mul_exact (by omega) (by omega), add_exact (by omega) (by omega),
    sub_exact (by omega) (by omega), add_exact (by omega) (by omega)]
  congr 1
  unfold CalendarDate.marchYear
  unfold CalendarDate.marchMonth
  split <;> omega

/-- The date is read back from its number, and nothing overflows on the way. -/
theorem getYearMonthDay_julianDay {d : CalendarDate} (hlow : -32044 ≤ julianDay d)
    (hup : julianDay d ≤ 536838867) : getYearMonthDay (of (julianDay d)) = civil d := by
  have hM := d.marchMonth_range
  have heq := julianDay_eq d
  have hle := d.dayOfYear_le
  have hshort : d.dayOfYear < 366 := by omega
  obtain ⟨hday, hlt⟩ := dayOfYear_in_year d
  have hyear : 0 ≤ d.marchYear + 4800 ∧ d.marchYear + 4800 < 1470000 := by
    have hfirst := marchYear_ge hlow
    unfold yearStart at heq
    omega
  have hstart : 0 ≤ yearStart (d.marchYear + 4800) := by
    have hmono := yearStart_mono hyear.1
    have hzero : yearStart 0 = 0 := by decide
    omega
  have hcount : of (julianDay d) + 32044 = of (yearStart (d.marchYear + 4800) + d.dayOfYear) := by
    rw [lit, add_exact (by omega) (by omega), heq, Int.sub_add_cancel]
  have hlate : of d.marchMonth / 10 = of (d.marchMonth / 10) := by
    rw [lit, div_exact (by omega) (by omega)]
  simp only [getYearMonthDay, hcount, century_read hstart hday hlt (by omega),
    centuries_off hyear hstart hday (by omega), year_in_century_read hday hlt,
    years_off hday hshort, month_read, hlate, day_read, month_turned,
    year_turned (d := d) (by omega) (by omega), civil]

/-! ## The round trip and the order of days -/

/-- The date of the last number for which `4 * a + 3` is an `int`. -/
def lastDate : CalendarDate := ⟨1465102, 10, 18, by decide, by decide⟩

/-- The program's date is the calendar's, and nothing overflowed on the way to it. -/
def DateOp.YearMonthDay.Is (t : YearMonthDay) (d : CalendarDate) : Prop :=
  t.year.Is d.year ∧ t.month.Is d.month ∧ t.day.Is d.day

theorem civil_is {d : CalendarDate} (hlow : -32044 ≤ julianDay d)
    (hup : julianDay d ≤ 2147483647) : (civil d).Is d := by
  have hy0 := marchYear_ge hlow
  have hy1 := marchYear_le hup
  have hm := d.month_range
  have hday := d.day_range
  have hlen := monthLength_le d.year d.month
  have hyear : d.marchYear ≤ d.year ∧ d.year ≤ d.marchYear + 1 := by
    unfold CalendarDate.marchYear
    split <;> omega
  exact ⟨of_is (by omega), of_is (by omega), of_is (by omega)⟩

/-- From -4800-03-01 to the date numbered 536838867, the program reads each date back from
the number it computed; and each number in that range is read as a valid date, whose
number it is. No `int` operation overflows in either direction. -/
theorem calendar_round_trip :
    (numberOf lastDate).Is 536838867 ∧
    (∀ d : CalendarDate, ¬ d.Before firstDate → ¬ lastDate.Before d →
      (numberOf d).overflowed = false ∧ (getYearMonthDay (numberOf d)).Is d) ∧
    ∀ j : Int, -32044 ≤ j → j ≤ 536838867 →
      ∃ d : CalendarDate, (getYearMonthDay (.of j)).Is d ∧
        (getJulianDayNum (getYearMonthDay (.of j)).year (getYearMonthDay (.of j)).month
          (getYearMonthDay (.of j)).day).Is j := by
  refine ⟨by decide, fun d hfirst hlast => ?_, fun j hlow hup => ?_⟩
  · have hlow := first_le hfirst
    have hup : julianDay d ≤ 536838867 := by
      have hle := Int.not_lt.mp fun hlt => hlast (CalendarDate.dayNumber_lt_iff.mp hlt)
      have hnum : lastDate.dayNumber = 535117747 := by decide
      unfold julianDay
      omega
    rw [numberOf_exact hlow (by omega), getYearMonthDay_julianDay hlow hup]
    exact ⟨of_overflowed (by omega), civil_is hlow (by omega)⟩
  · obtain ⟨d, hd⟩ := CalendarDate.exists_dayNumber firstDate (j + 32044).toNat
    have hfirst : firstDate.dayNumber = -1753164 := by decide
    obtain rfl : julianDay d = j := by
      unfold julianDay
      omega
    refine ⟨d, ?_, ?_⟩
    · rw [getYearMonthDay_julianDay hlow hup]
      exact civil_is hlow (by omega)
    · rw [getYearMonthDay_julianDay hlow hup]
      show (numberOf d).Is (julianDay d)
      rw [numberOf_exact hlow (by omega)]
      exact of_is (by omega)

/-- 29 February 1600 and its number. -/
theorem calendar_round_trip_leapDay :
    (getYearMonthDay (numberOf ⟨1600, 2, 29, by decide, by decide⟩)).Is
      ⟨1600, 2, 29, by decide, by decide⟩ ∧
    ∃ d : CalendarDate, (getYearMonthDay (.of 2305507)).Is d :=
  ⟨(calendar_round_trip.2.1 _ (by decide) (by decide)).2,
    (calendar_round_trip.2.2 2305507 (by decide) (by decide)).imp fun _ h => h.1⟩

theorem julianDay_next (d : CalendarDate) : julianDay d.next = julianDay d + 1 := by
  unfold julianDay
  rw [CalendarDate.dayNumber_next]
  omega

/-- `Date(year, month, day)` -/
def Date.ofCivil (d : CalendarDate) : Date :=
  Date.ofYearMonthDay (.of d.year) (.of d.month) (.of d.day)

theorem julianDay_lt_iff {d e : CalendarDate} : julianDay d < julianDay e ↔ d.Before e := by
  rw [← CalendarDate.dayNumber_lt_iff]
  unfold julianDay
  omega

theorem julianDay_inj {d e : CalendarDate} : julianDay d = julianDay e ↔ d = e := by
  rw [← CalendarDate.dayNumber_inj]
  unfold julianDay
  omega

theorem weekDay_value {x : Date} (hv : x.valid = true)
    (hup : x.m_nJulianDayNum.value < 2147483647) :
    x.weekDay.value = (x.m_nJulianDayNum.value + 1) % 7 := by
  have hpos : 0 < x.m_nJulianDayNum.value := of_decide_eq_true hv
  have hnext : wrap (x.m_nJulianDayNum.value + 1) = x.m_nJulianDayNum.value + 1 :=
    wrap_of_fits (by omega)
  have hmod : (x.m_nJulianDayNum.value + 1).tmod 7 = (x.m_nJulianDayNum.value + 1) % 7 :=
    Int.tmod_eq_emod_of_nonneg (by omega)
  show wrap ((wrap (x.m_nJulianDayNum.value + 1)).tmod 7) = _
  rw [hnext, hmod]
  exact wrap_of_fits (by omega)

/-- The week day of a valid date of the calendar. -/
theorem weekDay_civil {d : CalendarDate} (hlow : 0 < julianDay d)
    (hup : julianDay d < 2147483647) :
    (Date.ofCivil d).weekDay.value = (julianDay d + 1) % 7 := by
  have hnum : (Date.ofCivil d).m_nJulianDayNum.value = julianDay d :=
    numberOf_value (by omega) (by omega)
  have hvalid : (Date.ofCivil d).valid = true := by
    rw [Date.valid, hnum]
    exact decide_eq_true hlow
  rw [weekDay_value hvalid (by omega), hnum]

/-- From -4800-03-01 on, as long as the numbers fit an `int`: the following day has the
following number; `<` on dates is the lexicographic order and `==` is equality; and for
valid dates `weekDay` lies in 0..6, goes up by one modulo 7 from day to day and is the
same after 7 days. Up to number 2147000000 no partial sum leaves `int` on the way. -/
theorem day_numbers_count_days :
    (∀ d : CalendarDate, ¬ d.Before firstDate → julianDay d.next ≤ 2147483647 →
      (numberOf d.next).value = (numberOf d).value + 1) ∧
    (∀ d e : CalendarDate, ¬ d.Before firstDate → ¬ e.Before firstDate →
      julianDay d ≤ 2147483647 → julianDay e ≤ 2147483647 →
      ((Date.ofCivil d).lt (Date.ofCivil e) = true ↔ d.Before e) ∧
      ((Date.ofCivil d).eq (Date.ofCivil e) = true ↔ d = e)) ∧
    (∀ d : CalendarDate, ¬ d.Before firstDate → (Date.ofCivil d).valid = true →
      (julianDay d < 2147483647 →
        0 ≤ (Date.ofCivil d).weekDay.value ∧ (Date.ofCivil d).weekDay.value ≤ 6) ∧
      (julianDay d.next < 2147483647 →
        (Date.ofCivil d.next).weekDay.value = ((Date.ofCivil d).weekDay.value + 1) % 7) ∧
      (julianDay (CalendarDate.next^[7] d) < 2147483647 →
        (Date.ofCivil (CalendarDate.next^[7] d)).weekDay.value =
          (Date.ofCivil d).weekDay.value)) ∧
    (∀ d : CalendarDate, ¬ d.Before firstDate → julianDay d ≤ 2147000000 →
      (numberOf d).overflowed = false) := by
  refine ⟨fun d hfirst hup => ?_, fun d e hd he hdup heup => ?_, fun d hfirst hvalid => ?_,
    fun d hfirst hup => ?_⟩
  · have hlow := first_le hfirst
    have hnext := julianDay_next d
    rw [numberOf_value (by omega) hup, numberOf_value hlow (by omega), hnext]
  · have hdnum : (numberOf d).value = julianDay d := numberOf_value (first_le hd) hdup
    have henum : (numberOf e).value = julianDay e := numberOf_value (first_le he) heup
    constructor
    · show decide ((numberOf d).value < (numberOf e).value) = true ↔ _
      rw [hdnum, henum, decide_eq_true_iff]
      exact julianDay_lt_iff
    · show decide ((numberOf d).value = (numberOf e).value) = true ↔ _
      rw [hdnum, henum, decide_eq_true_iff]
      exact julianDay_inj
  · have hlow := first_le hfirst
    have hpos : julianDay d < 2147483647 → 0 < julianDay d := fun hup => by
      have hnum : (numberOf d).value = julianDay d := numberOf_value hlow (by omega)
      exact hnum ▸ of_decide_eq_true hvalid
    have hnext := julianDay_next d
    refine ⟨fun hup => ?_, fun hup => ?_, fun hup => ?_⟩
    · rw [weekDay_civil (hpos hup) hup]
      omega
    · have hp := hpos (by omega)
      rw [weekDay_civil (by omega) hup, weekDay_civil hp (by omega), hnext]
      omega
    · have hseven : julianDay (CalendarDate.next^[7] d) = julianDay d + 7 := by
        simp only [Function.iterate_succ, Function.comp_apply, Function.iterate_zero, id_eq,
          julianDay_next]
        omega
      have hp := hpos (by omega)
      rw [weekDay_civil (by omega) hup, weekDay_civil hp (by omega), hseven]
      omega
  · have hlow := first_le hfirst
    rw [numberOf_exact hlow hup]
    exact of_overflowed (by omega)

/-- The last day of February 1900 and the first of March. -/
theorem day_numbers_count_days_century :
    (numberOf ⟨1900, 3, 1, by decide, by decide⟩).value =
        (numberOf ⟨1900, 2, 28, by decide, by decide⟩).value + 1 ∧
      (Date.ofCivil ⟨1900, 2, 28, by decide, by decide⟩).lt
        (Date.ofCivil ⟨1900, 3, 1, by decide, by decide⟩) = true :=
  ⟨day_numbers_count_days.1 ⟨1900, 2, 28, by decide, by decide⟩ (by decide) (by decide),
    (day_numbers_count_days.2.1 _ _ (by decide) (by decide) (by decide) (by decide)).1.mpr
      (by decide)⟩

end MyNet.Base
