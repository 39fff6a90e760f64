import Mathlib.Algebra.Order.Ring.Int
import Mathlib.Tactic.IntervalCases

/-!
# The proleptic Gregorian calendar

Dates with the 4/100/400 rule for leap years, in every year, and the day that follows a
date. `dayNumber` counts the days since 1 March of the year 0. In a year that starts in
March the leap day is the last one, and the months before month `m` of it have
`(153 * m + 2) / 5` days.
-/
namespace Lib.Gregorian

def IsLeap (year : Int) : Prop := year % 4 = 0 ∧ (year % 100 ≠ 0 ∨ year % 400 = 0)

instance (year : Int) : Decidable (IsLeap year) := inferInstanceAs (Decidable (_ ∧ _))

def monthLength (year month : Int) : Int :=
  if month = 2 then (if IsLeap year then 29 else 28)
  else if month = 4 ∨ month = 6 ∨ month = 9 ∨ month = 11 then 30
  else 31

theorem monthLength_pos (year month : Int) : 1 ≤ monthLength year month := by
  unfold monthLength
  split
  · split <;> omega
  · split <;> omega

theorem monthLength_le (year month : Int) : monthLength year month ≤ 31 := by
  unfold monthLength
  split
  · split <;> omega
  · split <;> omega

structure CalendarDate where
  year : Int
  month : Int
  day : Int
  month_range : 1 ≤ month ∧ month ≤ 12
  day_range : 1 ≤ day ∧ day ≤ monthLength year month
  deriving DecidableEq

namespace CalendarDate

/-- The following day: of the month, or of the next month, or of the next year. -/
def next (d : CalendarDate) : CalendarDate :=
  if hd : d.day < monthLength d.year d.month then
    { d with day := d.day + 1, day_range := by have := d.day_range; omega }
  else if hm : d.month < 12 then
    { d with
      month := d.month + 1
      day := 1
      month_range := by have := d.month_range; omega
      day_range := ⟨Int.le_refl 1, monthLength_pos _ _⟩ }
  else
    { year := d.year + 1
      month := 1
      day := 1
      month_range := by decide
      day_range := ⟨Int.le_refl 1, monthLength_pos _ _⟩ }

/-- The lexicographic order on year, month and day. -/
def Before (a b : CalendarDate) : Prop :=
  a.year < b.year ∨
    a.year = b.year ∧ (a.month < b.month ∨ a.month = b.month ∧ a.day < b.day)

instance (a b : CalendarDate) : Decidable (a.Before b) := inferInstanceAs (Decidable (_ ∨ _))

theorem before_trichotomy (a b : CalendarDate) : a.Before b ∨ a = b ∨ b.Before a := by
  by_cases hb : a.Before b
  · exact Or.inl hb
  · by_cases ha : b.Before a
    · exact Or.inr (Or.inr ha)
    · refine Or.inr (Or.inl ?_)
      unfold Before at hb ha
      obtain ⟨y, m, d, hm, hd⟩ := a
      obtain ⟨y', m', d', hm', hd'⟩ := b
      obtain ⟨rfl, rfl, rfl⟩ : y = y' ∧ m = m' ∧ d = d' := by
        dsimp only at hb ha
        omega
      rfl

/-- The year and the month counted from March. -/
def marchYear (d : CalendarDate) : Int := if d.month ≤ 2 then d.year - 1 else d.year
def marchMonth (d : CalendarDate) : Int := if d.month ≤ 2 then d.month + 9 else d.month - 3

end CalendarDate

/-- The days before 1 March of a year. -/
def yearStart (year : Int) : Int := 365 * year + year / 4 - year / 100 + year / 400

/-- The days of a year before a month, both counted from March. -/
def monthStart (month : Int) : Int := (153 * month + 2) / 5

theorem yearStart_succ (year : Int) :
    yearStart (year + 1) = yearStart year + (if IsLeap (year + 1) then 366 else 365) := by
  by_cases h : IsLeap (year + 1)
  · rw [if_pos h]
    unfold IsLeap at h
    unfold yearStart
    omega
  · rw [if_neg h]
    unfold IsLeap at h
    unfold yearStart
    omega

/-- Every 400 years have the same number of days. -/
theorem yearStart_add (year : Int) (k : Int) :
    yearStart (year + 400 * k) = yearStart year + 146097 * k := by
  unfold yearStart
  omega

theorem yearStart_mono {y y' : Int} (h : y ≤ y') : yearStart y ≤ yearStart y' := by
  unfold yearStart
  omega

namespace CalendarDate

/-- The days of the year from March that are over before this day. -/
def dayOfYear (d : CalendarDate) : Int := monthStart d.marchMonth + d.day - 1

def dayNumber (d : CalendarDate) : Int := yearStart d.marchYear + d.dayOfYear

theorem marchMonth_range (d : CalendarDate) : 0 ≤ d.marchMonth ∧ d.marchMonth ≤ 11 := by
  have hm := d.month_range
  unfold marchMonth
  split <;> omega

theorem march_early {d : CalendarDate} (h : d.month ≤ 2) :
    d.marchYear = d.year - 1 ∧ d.marchMonth = d.month + 9 := ⟨if_pos h, if_pos h⟩

theorem march_late {d : CalendarDate} (h : 2 < d.month) :
    d.marchYear = d.year ∧ d.marchMonth = d.month - 3 :=
  ⟨if_neg (by omega), if_neg (by omega)⟩

/-- A month ends where the next one starts. -/
theorem month_ends {d : CalendarDate} (h : d.month ≠ 2) :
    monthStart d.marchMonth + monthLength d.year d.month = monthStart (d.marchMonth + 1) := by
  obtain ⟨y, m, day, ⟨h1, h12⟩, hd⟩ := d
  simp only [marchMonth, monthStart, monthLength] at h ⊢
  interval_cases m <;> simp at h ⊢

/-- February ends with the year. -/
theorem february_ends {d : CalendarDate} (h : d.month = 2) :
    monthStart d.marchMonth + monthLength d.year d.month =
      yearStart (d.marchYear + 1) - yearStart d.marchYear := by
  obtain ⟨hy, hm⟩ := march_early (Int.le_of_eq h)
  rw [yearStart_succ, hy, hm, h, Int.sub_add_cancel, monthLength, if_pos rfl, monthStart]
  by_cases hl : IsLeap d.year
  · rw [if_pos hl, if_pos hl]
    omega
  · rw [if_neg hl, if_neg hl]
    omega

theorem monthStart_mono {m m' : Int} (h : m ≤ m') : monthStart m ≤ monthStart m' := by
  unfold monthStart
  omega

/-- A day of the year from March lies in that year. -/
theorem dayOfYear_range (d : CalendarDate) :
    0 ≤ d.dayOfYear ∧ d.dayOfYear < yearStart (d.marchYear + 1) - yearStart d.marchYear := by
  have hm := d.marchMonth_range
  have hd := d.day_range
  have hzero : monthStart 0 = 0 := by decide
  have hlow := monthStart_mono hm.1
  unfold dayOfYear
  by_cases hfeb : d.month = 2
  · have hends := february_ends hfeb
    omega
  · have hends := month_ends hfeb
    have hlate : d.marchMonth + 1 ≤ 11 := by
      have hr := d.month_range
      unfold marchMonth
      split <;> omega
    have hup := monthStart_mono hlate
    have heleven : monthStart 11 = 337 := by decide
    have hleast : 365 ≤ yearStart (d.marchYear + 1) - yearStart d.marchYear := by
      rw [yearStart_succ]
      split <;> omega
    omega

theorem dayOfYear_le (d : CalendarDate) : d.dayOfYear ≤ 365 := by
  have hr := d.dayOfYear_range
  rw [yearStart_succ] at hr
  split at hr <;> omega

/-- No month is longer than the days to the start of the next one in the formula. -/
theorem monthStart_add_day_le (d : CalendarDate) :
    monthStart d.marchMonth + d.day ≤ monthStart (d.marchMonth + 1) := by
  have hday := d.day_range
  by_cases hfeb : d.month = 2
  · have hends := february_ends hfeb
    have hM : d.marchMonth = 11 := by
      rw [(march_early (Int.le_of_eq hfeb)).2, hfeb]
      rfl
    have htwelve : monthStart 12 = 367 := by decide
    rw [yearStart_succ, hM] at hends
    rw [hM]
    show monthStart 11 + d.day ≤ monthStart 12
    split at hends <;> omega
  · have hends := month_ends hfeb
    omega

/-- The following day is in the month, or opens the next month, or opens the next year. -/
theorem next_cases (d : CalendarDate) :
    (d.next.year = d.year ∧ d.next.month = d.month ∧ d.next.day = d.day + 1) ∨
    (d.day = monthLength d.year d.month ∧ d.month < 12 ∧
      d.next.year = d.year ∧ d.next.month = d.month + 1 ∧ d.next.day = 1) ∨
    (d.day = monthLength d.year d.month ∧ d.month = 12 ∧
      d.next.year = d.year + 1 ∧ d.next.month = 1 ∧ d.next.day = 1) := by
  have hd := d.day_range
  have hm := d.month_range
  unfold next
  split
  · exact Or.inl ⟨rfl, rfl, rfl⟩
  · split
    · exact Or.inr (Or.inl ⟨by omega, by omega, rfl, rfl, rfl⟩)
    · exact Or.inr (Or.inr ⟨by omega, by omega, rfl, rfl, rfl⟩)

/-- The following day has the following number, at every end of a month and of a year. -/
theorem dayNumber_next (d : CalendarDate) : d.next.dayNumber = d.dayNumber + 1 := by
  have hr := d.month_range
  unfold dayNumber dayOfYear
  rcases d.next_cases with ⟨hy, hm, hd⟩ | ⟨hlast, hlt, hy, hm, hd⟩ | ⟨hlast, hdec, hy, hm, hd⟩
  · have hyear : d.next.marchYear = d.marchYear := by rw [marchYear, marchYear, hy, hm]
    have hmonth : d.next.marchMonth = d.marchMonth := by rw [marchMonth, marchMonth, hm]
    rw [hyear, hmonth, hd]
    omega
  · by_cases hfeb : d.month = 2
    · -- 1 March opens a year of the count
      have hends := february_ends hfeb
      obtain ⟨hY, hM⟩ := march_early (d := d) (by omega)
      obtain ⟨hY', hM'⟩ := march_late (d := d.next) (by omega)
      have hyear : d.next.marchYear = d.marchYear + 1 := by omega
      have hmonth : d.next.marchMonth = 0 := by omega
      have hzero : monthStart 0 = 0 := by decide
      rw [hyear, hmonth, hd, hzero, hlast]
      omega
    · have hends := month_ends hfeb
      have hsame : d.next.marchYear = d.marchYear ∧ d.next.marchMonth = d.marchMonth + 1 := by
        by_cases hjan : d.month = 1
        · obtain ⟨hY, hM⟩ := march_early (d := d) (by omega)
          obtain ⟨hY', hM'⟩ := march_early (d := d.next) (by omega)
          omega
        · obtain ⟨hY, hM⟩ := march_late (d := d) (by omega)
          obtain ⟨hY', hM'⟩ := march_late (d := d.next) (by omega)
          omega
      rw [hsame.1, hsame.2, hd, hlast]
      omega
  · have hends := month_ends (d := d) (by omega)
    obtain ⟨hY, hM⟩ := march_late (d := d) (by omega)
    obtain ⟨hY', hM'⟩ := march_early (d := d.next) (by omega)
    have hyear : d.next.marchYear = d.marchYear := by omega
    have hmonth : d.next.marchMonth = d.marchMonth + 1 := by omega
    rw [hyear, hmonth, hd, hlast]
    omega

/-- An earlier date has a smaller number. -/
theorem dayNumber_lt {a b : CalendarDate} (h : a.Before b) : a.dayNumber < b.dayNumber := by
  have ha := a.dayOfYear_range
  have hb := b.dayOfYear_range
  have hma := a.month_range
  have hmb := b.month_range
  by_cases hyear : a.marchYear < b.marchYear
  · -- the years from March do not overlap
    have hmono := yearStart_mono (show a.marchYear + 1 ≤ b.marchYear by omega)
    unfold dayNumber
    omega
  · have hsame : a.marchYear = b.marchYear ∧ (a.marchMonth < b.marchMonth ∨
        a.month = b.month ∧ a.marchMonth = b.marchMonth ∧ a.day < b.day) := by
      unfold Before at h
      unfold marchYear marchMonth at *
      split at hyear <;> split at hyear <;> omega
    obtain ⟨hy, hmonth | ⟨-, hm, hday⟩⟩ := hsame
    · have hnext := monthStart_mono (show a.marchMonth + 1 ≤ b.marchMonth by omega)
      have hnotFeb : a.month ≠ 2 := by
        intro hfeb
        have hbr := b.marchMonth_range
        have := (march_early (Int.le_of_eq hfeb)).2
        omega
      have hends := month_ends hnotFeb
      have hda := a.day_range
      have hdb := b.day_range
      unfold dayNumber dayOfYear
      rw [hy]
      omega
    · unfold dayNumber dayOfYear
      rw [hy, hm]
      omega

theorem dayNumber_lt_iff {a b : CalendarDate} : a.dayNumber < b.dayNumber ↔ a.Before b := by
  refine ⟨fun h => ?_, dayNumber_lt⟩
  rcases a.before_trichotomy b with hab | rfl | hba
  · exact hab
  · exact absurd h (Int.lt_irrefl _)
  · exact absurd (dayNumber_lt hba) (Int.lt_asymm h)

theorem dayNumber_inj {a b : CalendarDate} : a.dayNumber = b.dayNumber ↔ a = b := by
  refine ⟨fun h => ?_, congrArg dayNumber⟩
  rcases a.before_trichotomy b with hab | rfl | hba
  · exact absurd h (Int.ne_of_lt (dayNumber_lt hab))
  · rfl
  · exact absurd h.symm (Int.ne_of_lt (dayNumber_lt hba))

/-- Every number from that of a date on is the number of a date. -/
theorem exists_dayNumber (d : CalendarDate) (k : Nat) :
    ∃ e : CalendarDate, e.dayNumber = d.dayNumber + k := by
  induction k with
  | zero => exact ⟨d, (Int.add_zero _).symm⟩
  | succ k ih =>
    obtain ⟨e, he⟩ := ih
    refine ⟨e.next, ?_⟩
    rw [dayNumber_next, he]
    push_cast
    omega

end CalendarDate

/-! ## Reading a day number back -/

/-- The start of a year by its century and the year in it. -/
theorem yearStart_split (year : Int) :
    yearStart year =
      36524 * (year / 100) + year / 100 / 4 + 365 * (year % 100) + year % 100 / 4 := by
  unfold yearStart
  omega

/-- Only the last day of a leap year is day 365. -/
theorem day_le {year day : Int} (h : day < yearStart (year + 1) - yearStart year) :
    day ≤ 364 ∨ day = 365 ∧ year % 100 % 4 = 3 ∧ (year % 100 = 99 → year / 100 % 4 = 3) := by
  rw [yearStart_succ] at h
  by_cases hl : IsLeap (year + 1)
  · rw [if_pos hl] at h
    unfold IsLeap at hl
    omega
  · rw [if_neg hl] at h
    omega

/-- The century of a day: a century has 36524 days, and every fourth one more. -/
theorem century_of {year day : Int} (h0 : 0 ≤ day)
    (h : day < yearStart (year + 1) - yearStart year) :
    (4 * (yearStart year + day) + 3) / 146097 = year / 100 := by
  have hd := day_le h
  rw [yearStart_split]
  omega

/-- The year of the century, once the days of the centuries before are taken off. -/
theorem year_of_century {year day : Int} (h0 : 0 ≤ day)
    (h : day < yearStart (year + 1) - yearStart year) :
    (4 * (yearStart year + day - year / 100 * 146097 / 4) + 3) / 1461 = year % 100 := by
  have hd := day_le h
  rw [yearStart_split]
  omega

/-- What is left when the years of the century are taken off too. -/
theorem day_of_year (year day : Int) :
    yearStart year + day - year / 100 * 146097 / 4 - 1461 * (year % 100) / 4 = day := by
  have hcentury : year / 100 * 146097 / 4 = 36524 * (year / 100) + year / 100 / 4 := by omega
  have hyear : 1461 * (year % 100) / 4 = 365 * (year % 100) + year % 100 / 4 := by omega
  rw [yearStart_split, hcentury, hyear]
  omega

/-- The month of a day of the year. -/
theorem month_of_day {month day : Int} (h1 : 1 ≤ day)
    (h : monthStart month + day ≤ monthStart (month + 1)) :
    (5 * (monthStart month + day - 1) + 2) / 153 = month := by
  unfold monthStart at *
  omega

/-- The days of the centuries before, then the day of the century. -/
theorem day_of_era {year day d : Int} (hd : d = 365 * year + year / 4 - year / 100 + day) :
    d = 36524 * (year / 100) + (365 * (year % 100) + year % 100 / 4 + day) := by
  omega

/-- The days that are taken off: one in every four years, and one more at the end of the fourth. -/
theorem leaps_of_era {year day d : Int} (hd : d = 365 * year + year / 4 - year / 100 + day) :
    d / 1460 = year / 4 + (365 * (year % 4) + year / 4 - year / 100 + day) / 1460 := by
  omega

/-- The year of a day of the 400 years from 1 March of the year 0: a day less in every four
years, one more in a century and one less in four centuries make all years 365 days long. -/
theorem year_of_era {year day d : Int} (hy : 0 ≤ year ∧ year < 400) (h0 : 0 ≤ day)
    (h : day < yearStart (year + 1) - yearStart year) (hd : d = yearStart year + day) :
    (d - d / 1460 + d / 36524 - d / 146096) / 365 = year := by
  have hday := day_le h
  have hstart : yearStart year = 365 * year + year / 4 - year / 100 := by
    unfold yearStart
    omega
  rw [hstart] at hd
  by_cases hlast : year = 399 ∧ day = 365
  · obtain ⟨rfl, rfl⟩ := hlast
    obtain rfl : d = 146096 := by omega
    rfl
  · have hrest : 365 * (year % 100) + year % 100 / 4 + day < 36524 := by omega
    have hsplit := day_of_era hd
    have hcentury : d / 36524 = year / 100 := by omega
    have hera : d / 146096 = 0 := by omega
    rw [hera, hcentury, leaps_of_era hd]
    omega

end Lib.Gregorian
