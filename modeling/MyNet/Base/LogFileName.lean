import MyNet.Base.LogFile
import MyNet.Base.TimeText
import MyNet.Lib.Gregorian

/-!
# The names of log files

`gmtime_r` shows the date of the Gregorian calendar, so two seconds never show the same
time; and `strftime` prints every field with its digits, so two seconds of the years 1970
to 9999 never make the same name.
-/
namespace MyNet.Base

open Lib.Gregorian Lib.Numeral

/-! ## The date that `gmtime` shows -/

/-- The fields are those of the day's date. -/
theorem gmtime_date {t : Int} {d : CalendarDate} (h : t / 86400 + epochShift = d.dayNumber) :
    (gmtime t).year = d.year ∧ (gmtime t).month = d.month ∧ (gmtime t).day = d.day := by
  obtain ⟨h0, hlen⟩ := d.dayOfYear_range
  have hyear : 0 ≤ d.marchYear % 400 ∧ d.marchYear % 400 < 400 := by omega
  -- the year is taken apart into its era and the year of the era
  have hstart := yearStart_add (d.marchYear % 400) (d.marchYear / 400)
  have hnext := yearStart_add (d.marchYear % 400 + 1) (d.marchYear / 400)
  rw [show d.marchYear % 400 + 400 * (d.marchYear / 400) = d.marchYear by omega] at hstart
  rw [show d.marchYear % 400 + 1 + 400 * (d.marchYear / 400) = d.marchYear + 1 by omega] at hnext
  have hlow := yearStart_mono hyear.1
  have hup := yearStart_mono (show d.marchYear % 400 + 1 ≤ 400 by omega)
  have hzero : yearStart 0 = 0 := by decide
  have hfull : yearStart 400 = 146097 := by decide
  have hnumber : d.dayNumber = yearStart d.marchYear + d.dayOfYear := rfl
  have hera : d.dayNumber / 146097 = d.marchYear / 400 := by omega
  have hdayOfEra : d.dayNumber % 146097 = yearStart (d.marchYear % 400) + d.dayOfYear := by omega
  have hyearOfEra := year_of_era hyear h0 (show d.dayOfYear <
    yearStart (d.marchYear % 400 + 1) - yearStart (d.marchYear % 400) by omega) hdayOfEra
  have hdayOfYear : d.dayNumber % 146097 - (365 * (d.marchYear % 400) + d.marchYear % 400 / 4 -
      d.marchYear % 400 / 100) = d.dayOfYear := by
    have hwhole : yearStart (d.marchYear % 400) = 365 * (d.marchYear % 400) +
        d.marchYear % 400 / 4 - d.marchYear % 400 / 100 := by
      unfold yearStart
      omega
    omega
  have hmonth : (5 * d.dayOfYear + 2) / 153 = d.marchMonth :=
    month_of_day d.day_range.1 d.monthStart_add_day_le
  have hmonthStart : (153 * d.marchMonth + 2) / 5 = monthStart d.marchMonth := rfl
  have hdef : d.dayOfYear = monthStart d.marchMonth + d.day - 1 := rfl
  simp only [gmtime, h, hera, hyearOfEra, hdayOfYear, hmonth, hmonthStart]
  have hrange := d.month_range
  by_cases hm : d.month ≤ 2
  · have hturn := CalendarDate.march_early hm
    rw [if_neg (show ¬d.marchMonth < 10 by omega), if_pos (show d.marchMonth - 9 ≤ 2 by omega)]
    omega
  · have hturn := CalendarDate.march_late (show 2 < d.month by omega)
    rw [if_pos (show d.marchMonth < 10 by omega), if_neg (show ¬d.marchMonth + 3 ≤ 2 by omega)]
    omega

theorem january_range : (1 : Int) ≤ 1 ∧ (1 : Int) ≤ 12 := by decide

theorem first_range : (1 : Int) ≤ 1 ∧ 1 ≤ monthLength 1970 1 := by decide

def epochDate : CalendarDate := ⟨1970, 1, 1, january_range, first_range⟩

/-- From 1970 on every second has a date. -/
theorem exists_date {t : Int} (h : 0 ≤ t) :
    ∃ d : CalendarDate, t / 86400 + epochShift = d.dayNumber := by
  obtain ⟨d, hd⟩ := epochDate.exists_dayNumber (t / 86400).toNat
  refine ⟨d, ?_⟩
  have hepoch : epochDate.dayNumber = epochShift := by decide
  rw [hd, hepoch]
  omega

theorem gmtime_inj {t u : Int} (ht : 0 ≤ t) (hu : 0 ≤ u) (h : gmtime t = gmtime u) : t = u := by
  obtain ⟨d, hd⟩ := exists_date ht
  obtain ⟨e, he⟩ := exists_date hu
  obtain ⟨dyear, dmonth, dday⟩ := gmtime_date hd
  obtain ⟨eyear, emonth, eday⟩ := gmtime_date he
  have hsame : d = e := by
    rw [CalendarDate.mk.injEq, ← dyear, ← dmonth, ← dday, ← eyear, ← emonth, ← eday, h]
    exact ⟨rfl, rfl, rfl⟩
  have hclock := (gmtime_clock t).1
  have hclock' := (gmtime_clock u).1
  rw [hsame, ← he] at hd
  rw [h, hclock'] at hclock
  omega

/-! ## What `strftime` prints of it -/

/-- The decimal digits of the core library are those of `decimal`. -/
theorem map_toDigits (n : Nat) :
    (Nat.toDigits 10 n).map (fun c => UInt8.ofNat c.toNat) = (numeral 10 n).map digitChar := by
  have hdigit : ∀ d < 10, UInt8.ofNat (Nat.digitChar d).toNat = digitChar d := by decide
  induction n using Nat.strong_induction_on with
  | _ n ih =>
    by_cases hn : n < 10
    · rw [Nat.toDigits_of_lt_base hn, numeral_of_lt hn, List.map_singleton, List.map_singleton,
        hdigit n hn]
    · have hle : 10 ≤ n := Nat.le_of_not_lt hn
      rw [Nat.toDigits_of_base_le (by decide) hle, numeral_of_le (by decide) hle, List.map_append,
        List.map_append, ih (n / 10) (Nat.div_lt_self (by omega) (by decide)), List.map_singleton,
        List.map_singleton, hdigit _ (Nat.mod_lt _ (by decide))]

theorem ascii_toString {i : Int} (h : 0 ≤ i) : ascii (toString i) = decimal i := by
  obtain ⟨n, rfl⟩ := Int.eq_ofNat_of_zero_le h
  rw [decimal_of_nonneg (by omega), Int.natAbs_natCast, ← map_toDigits, ← Nat.toList_repr]
  rfl

theorem ascii_toString_inj {i j : Int} (hi : 0 ≤ i) (hj : 0 ≤ j)
    (h : ascii (toString i) = ascii (toString j)) : i = j := by
  rw [ascii_toString hi, ascii_toString hj] at h
  exact decimal_inj h

theorem length_digit {i : Int} (h : 0 ≤ i ∧ i < 10) : (ascii (toString i)).length = 1 := by
  rw [ascii_toString h.1, decimal_of_nonneg (by omega), numeral_of_lt (by omega)]
  rfl

theorem length_twoDigits {i : Int} (h : 0 ≤ i ∧ i < 100) : (twoDigits i).length = 2 := by
  rw [twoDigits, List.length_append, length_digit (by omega), length_digit (by omega)]

theorem twoDigits_inj {i j : Int} (hi : 0 ≤ i ∧ i < 100) (hj : 0 ≤ j ∧ j < 100)
    (h : twoDigits i = twoDigits j) : i = j := by
  obtain ⟨htens, hones⟩ := List.append_inj' h
    ((length_digit (by omega)).trans (length_digit (by omega)).symm)
  have ht := ascii_toString_inj (by omega) (by omega) htens
  have ho := ascii_toString_inj (by omega) (by omega) hones
  omega

/-- The fields have one or two digits, and the year is not negative. -/
structure Tm.InFormat (tm : Tm) : Prop where
  year : 0 ≤ tm.year
  month : 0 ≤ tm.month ∧ tm.month < 100
  day : 0 ≤ tm.day ∧ tm.day < 100
  hour : 0 ≤ tm.hour ∧ tm.hour < 100
  minute : 0 ≤ tm.minute ∧ tm.minute < 100
  second : 0 ≤ tm.second ∧ tm.second < 100

theorem gmtime_inFormat {t : Int} (h : 0 ≤ t) : (gmtime t).InFormat := by
  obtain ⟨d, hd⟩ := exists_date h
  obtain ⟨hyear, hmonth, hday⟩ := gmtime_date hd
  obtain ⟨-, hhour⟩ := gmtime_clock t
  have hrange := d.month_range
  have hdays := d.day_range
  have hlength := monthLength_le d.year d.month
  have hearly : 1970 ≤ d.year := by
    by_contra hbefore
    have hlt := CalendarDate.dayNumber_lt (a := d) (b := epochDate)
      (Or.inl (show d.year < 1970 by omega))
    have hepoch : epochDate.dayNumber = epochShift := by decide
    omega
  exact ⟨by omega, by omega, by omega, by omega, by omega, by omega⟩

theorem strftime_inj {a b : Tm} (ha : a.InFormat) (hb : b.InFormat)
    (h : strftime a = strftime b) : a = b := by
  have htwo {i j : Int} (hi : 0 ≤ i ∧ i < 100) (hj : 0 ≤ j ∧ j < 100) :
      (twoDigits i).length = (twoDigits j).length :=
    (length_twoDigits hi).trans (length_twoDigits hj).symm
  obtain ⟨h, -⟩ := List.append_inj' h rfl
  obtain ⟨h, second⟩ := List.append_inj' h (htwo ha.second hb.second)
  obtain ⟨h, minute⟩ := List.append_inj' h (htwo ha.minute hb.minute)
  obtain ⟨h, hour⟩ := List.append_inj' h (htwo ha.hour hb.hour)
  obtain ⟨h, -⟩ := List.append_inj' h rfl
  obtain ⟨h, day⟩ := List.append_inj' h (htwo ha.day hb.day)
  obtain ⟨h, month⟩ := List.append_inj' h (htwo ha.month hb.month)
  have year := List.append_cancel_left h
  rw [Tm.mk.injEq]
  exact ⟨ascii_toString_inj ha.year hb.year year, twoDigits_inj ha.month hb.month month,
    twoDigits_inj ha.day hb.day day, twoDigits_inj ha.hour hb.hour hour,
    twoDigits_inj ha.minute hb.minute minute, twoDigits_inj ha.second hb.second second⟩

/-! ## The file names -/

namespace LogFile

theorem getLogFileName_inj {host : Host} {basename : List Byte} {t u : Int} (ht : 0 ≤ t)
    (hu : 0 ≤ u) (h : getLogFileName host basename t = getLogFileName host basename u) : t = u := by
  simp only [getLogFileName, List.append_cancel_right_eq, List.append_cancel_left_eq] at h
  exact gmtime_inj ht hu (strftime_inj (gmtime_inFormat ht) (gmtime_inFormat hu) h)

/-- A rolled file has a longer name than the base name. -/
theorem getLogFileName_ne (host : Host) (basename : List Byte) (t : Int) :
    getLogFileName host basename t ≠ basename := by
  intro h
  have hlength := congrArg List.length h
  have hdot : (ascii ".").length = 1 := rfl
  simp only [getLogFileName, List.length_append, hdot] at hlength
  omega

end LogFile
end MyNet.Base
