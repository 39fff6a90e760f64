import MyNet.Base.Date
import MyNet.Base.FieldOrder

/-!
# A `Date` and a time of day

The library has two calendars, `gmtime_r` and the Julian day numbers of `Date`. A day number
and the seconds left over give the very fields `gmtime_r` shows, and the texts of `toString`
are in the order of the days.
-/
namespace MyNet.Base

open Lib Lib.Gregorian Lib.TextOrder DateOp

namespace Date

def JulianDayOf1970_01_01 : CInt := getJulianDayNum 1970 1 1

/-- `Date(const struct tm&)` -/
def ofTm (t : Tm) : Date := ofYearMonthDay (.of t.year) (.of t.month) (.of t.day)

def toString (d : Date) : List Byte :=
  let ymd := d.toYearMonthDay
  printed 32 (blankPadded 4 ymd.year.value ++ ascii "-" ++ zeroPadded 2 ymd.month.value ++
    ascii "-" ++ zeroPadded 2 ymd.day.value)

end Date

/-- Fills in the time of day; the other fields stay. -/
def fillHMS (seconds : UInt32) (utc : Tm) : Tm :=
  let minutes := seconds / 60
  { utc with
    second := (seconds % 60).toNat
    minute := (minutes % 60).toNat
    hour := (minutes / 60).toNat }

/-! ## The fields of a second -/

/-- Every second `Date` has a number for has a date. -/
theorem exists_date_of_day {days : Int} (h : -2472632 ≤ days) :
    ∃ d : CalendarDate, days + epochShift = d.dayNumber ∧ julianDay d = days + 2440588 := by
  obtain ⟨d, hd⟩ := CalendarDate.exists_dayNumber firstDate (days + 2472632).toNat
  have hfirst : firstDate.dayNumber = -1753164 := by decide
  have hshift : epochShift = 719468 := rfl
  refine ⟨d, ?_, ?_⟩
  · omega
  · unfold julianDay
    omega

theorem number_of_day {days : Int} (hlow : -2472632 ≤ days) (hup : days ≤ 534398279) :
    Date.JulianDayOf1970_01_01 + CInt.of days = .of (days + 2440588) := by
  have hepoch : Date.JulianDayOf1970_01_01 = .of 2440588 := by decide
  rw [hepoch, CInt.add_exact (by decide) (by omega), Int.add_comm]

/-- The clock of `fillHMS` is that of `gmtime_r`. -/
theorem fillHMS_clock (t : Int) (utc : Tm) :
    fillHMS (.ofNat (t % 86400).toNat) utc =
      { utc with
        hour := (gmtime t).hour
        minute := (gmtime t).minute
        second := (gmtime t).second } := by
  obtain ⟨hclock, hhour, hhour', hminute, hminute', hsecond, hsecond'⟩ := gmtime_clock t
  have hnat : (UInt32.ofNat (t % 86400).toNat).toNat = (t % 86400).toNat :=
    UInt32.toNat_ofNat_of_lt (by show _ < 4294967296; omega)
  have hsixty : (60 : UInt32).toNat = 60 := rfl
  simp only [fillHMS, UInt32.toNat_mod, UInt32.toNat_div, hnat, hsixty]
  rw [Tm.mk.injEq]
  exact ⟨rfl, rfl, rfl, by omega, by omega, by omega⟩

/-- **Two calendars, one date.** For every second from -4800-03-01 to the last date the number
of a day can be read back for: the `Date` of the fields that `gmtime_r` shows has the number of
1970-01-01 and the whole days since then, and nothing overflows on the way; read back, with the
clock of `fillHMS`, that number gives the fields of `gmtime_r`; and the week days go by sevens
from the Thursday that 1970 began with. -/
theorem calendars_agree {t : Int} (h : -2472632 ≤ t / 86400 ∧ t / 86400 ≤ 534398279) (utc : Tm) :
    (Date.ofTm (gmtime t)).m_nJulianDayNum = Date.JulianDayOf1970_01_01 + .of (t / 86400) ∧
      (Date.ofTm (gmtime t)).m_nJulianDayNum.overflowed = false ∧
      (fillHMS (.ofNat (t % 86400).toNat)
        { utc with
          year := (Date.ofTm (gmtime t)).toYearMonthDay.year.value
          month := (Date.ofTm (gmtime t)).toYearMonthDay.month.value
          day := (Date.ofTm (gmtime t)).toYearMonthDay.day.value }) = gmtime t ∧
      ((Date.ofTm (gmtime t)).valid = true →
        (Date.ofTm (gmtime t)).weekDay.value = (t / 86400 + 4) % 7) := by
  obtain ⟨hlow, hup⟩ := h
  obtain ⟨d, hnumber, hjulian⟩ := exists_date_of_day hlow
  obtain ⟨hyear, hmonth, hday⟩ := gmtime_date hnumber
  have hcivil : Date.ofTm (gmtime t) = Date.ofCivil d := by
    rw [Date.ofTm, hyear, hmonth, hday]
    rfl
  have hnum : (Date.ofCivil d).m_nJulianDayNum = .of (julianDay d) :=
    numberOf_exact (by omega) (by omega)
  have hread : (Date.ofCivil d).toYearMonthDay = civil d := by
    rw [Date.toYearMonthDay, hnum]
    exact getYearMonthDay_julianDay (by omega) (by omega)
  obtain ⟨⟨y, -⟩, ⟨m, -⟩, ⟨dd, -⟩⟩ := civil_is (d := d) (by omega) (by omega)
  refine ⟨?_, ?_, ?_, fun hvalid => ?_⟩
  · rw [hcivil, hnum, number_of_day hlow hup, hjulian]
  · rw [hcivil, hnum]
    exact CInt.of_overflowed (by omega)
  · rw [hcivil, hread, fillHMS_clock, y, m, dd, ← hyear, ← hmonth, ← hday]
  · rw [hcivil] at hvalid ⊢
    have hpos : 0 < (Date.ofCivil d).m_nJulianDayNum.value := of_decide_eq_true hvalid
    rw [hnum, CInt.of_value (by omega)] at hpos
    rw [weekDay_civil hpos (by omega), hjulian]
    omega

/-- A second before noon on 29 February 2016, a Monday. -/
theorem calendars_agree_leapDay :
    (Date.ofTm (gmtime 1456747199)).m_nJulianDayNum =
        Date.JulianDayOf1970_01_01 + .of (1456747199 / 86400) ∧
      (Date.ofTm (gmtime 1456747199)).weekDay.value = 1 :=
  have h := calendars_agree (t := 1456747199) (by decide) (gmtime 0)
  ⟨h.1, h.2.2.2 (by decide)⟩

/-! ## The order of `toString` -/

/-- The numbers of the dates from 0000-01-01 to 9999-12-31. -/
def InFourDigits (j : Int) : Prop := 1721060 ≤ j ∧ j ≤ 5373484

instance (j : Int) : Decidable (InFourDigits j) := inferInstanceAs (Decidable (_ ∧ _))

/-- The fields as `toString` prints them. -/
def dateTexts (d : CalendarDate) : List (List Byte) :=
  blankPadded 4 d.year :: [d.month, d.day].map (zeroPadded 2)

theorem exists_fourDigits {j : Int} (h : InFourDigits j) :
    ∃ d : CalendarDate, julianDay d = j ∧ Keeps 4 d.year := by
  obtain ⟨hlow, hup⟩ := h
  have hfrom : -2472632 ≤ j - 2440588 := by omega
  obtain ⟨d, -, hd⟩ := exists_date_of_day hfrom
  refine ⟨d, by omega, ?_⟩
  have hfirst : julianDay ⟨0, 1, 1, by decide, by decide⟩ = 1721060 := by decide
  have hlast : julianDay ⟨9999, 12, 31, by decide, by decide⟩ = 5373484 := by decide
  constructor
  · by_contra hneg
    have hbefore := julianDay_lt_iff (d := d) (e := ⟨0, 1, 1, by decide, by decide⟩) |>.mpr
      (.inl (show d.year < 0 by omega))
    omega
  · by_contra hlong
    norm_num at hlong
    have hafter := julianDay_lt_iff (d := ⟨9999, 12, 31, by decide, by decide⟩) (e := d) |>.mpr
      (.inl (show 9999 < d.year by omega))
    omega

theorem keeps_month_day (d : CalendarDate) : ∀ v ∈ [d.month, d.day], Keeps 2 v := by
  have hmonth := d.month_range
  have hday := d.day_range
  have hlength := monthLength_le d.year d.month
  simp only [List.forall_mem_cons, Keeps]
  norm_num
  omega

theorem length_dateTexts {d : CalendarDate} (h : Keeps 4 d.year) :
    (dateTexts d).map List.length = [4, 2, 2] := by
  have htwo : ([d.month, d.day].map (zeroPadded 2)).map List.length =
      [d.month, d.day].map fun _ => 2 := by
    rw [List.map_map]
    exact List.map_congr_left fun v hv => (keeps_month_day d v hv).length_zeroPadded (by decide)
  rw [dateTexts, List.map_cons, h.length_blankPadded (by decide), htwo]
  rfl

theorem dateTexts_lt {d e : CalendarDate} (hd : Keeps 4 d.year) (he : Keeps 4 e.year)
    (h : d.Before e) : dateTexts d < dateTexts e := by
  obtain ⟨hyear, hyear'⟩ := blankPadded_lt_iff (by decide) hd he
  have htwo {v w : Int} (hv : v ∈ [d.month, d.day]) (hw : w ∈ [e.month, e.day]) :=
    zeroPadded_lt_iff (by decide) (keeps_month_day d v hv) (keeps_month_day e w hw)
  rw [dateTexts, dateTexts, List.cons_lt_cons_iff, hyear, hyear',
    map_lt_map_iff (fun v hv w hw => (htwo hv hw).1) fun v hv w hw => (htwo hv hw).2]
  simp only [List.cons_lt_cons_iff, List.lt_irrefl, and_false, or_false]
  exact h

namespace Date

/-- `snprintf` leaves out nothing. -/
theorem toString_civil {d : CalendarDate} (h : InFourDigits (julianDay d))
    (hyear : Keeps 4 d.year) :
    toString ⟨.of (julianDay d)⟩ = marked [[], ascii "-", ascii "-"] (dateTexts d) ∧
      (toString ⟨.of (julianDay d)⟩).length = 10 := by
  obtain ⟨hlow, hup⟩ := h
  have hread : (Date.mk (.of (julianDay d))).toYearMonthDay = civil d :=
    getYearMonthDay_julianDay (by omega) (by omega)
  obtain ⟨⟨y, -⟩, ⟨m, -⟩, ⟨dd, -⟩⟩ := civil_is (d := d) (by omega) (by omega)
  have hlengths := length_dateTexts hyear
  simp only [dateTexts, List.map_cons, List.map_nil, List.cons.injEq, and_true] at hlengths
  obtain ⟨hfour, hmonth, hday⟩ := hlengths
  have htext : blankPadded 4 d.year ++ ascii "-" ++ zeroPadded 2 d.month ++ ascii "-" ++
      zeroPadded 2 d.day = marked [[], ascii "-", ascii "-"] (dateTexts d) := by
    simp only [marked, dateTexts, List.map_cons, List.map_nil, List.zipWith_cons_cons,
      List.zipWith_nil_right, List.flatten_cons, List.flatten_nil, List.append_nil,
      List.nil_append, List.append_assoc]
  have hten : (marked [[], ascii "-", ascii "-"] (dateTexts d)).length = 10 := by
    rw [← htext]
    simp only [List.length_append, hfour, hmonth, hday]
    rfl
  have hwhole : toString ⟨.of (julianDay d)⟩ = marked [[], ascii "-", ascii "-"] (dateTexts d) := by
    rw [toString, hread, printed, y, m, dd, htext, List.take_of_length_le (by omega)]
  exact ⟨hwhole, hwhole ▸ hten⟩

theorem toString_mono (j k : Int) (hj : InFourDigits j) (hk : InFourDigits k) (h : j < k) :
    toString ⟨.of j⟩ < toString ⟨.of k⟩ := by
  obtain ⟨d, rfl, hd⟩ := exists_fourDigits hj
  obtain ⟨e, rfl, he⟩ := exists_fourDigits hk
  rw [(toString_civil hj hd).1, (toString_civil hk he).1]
  refine (marked_lt_marked_iff ((length_dateTexts hd).trans (length_dateTexts he).symm)
    (by exact Nat.le_refl 3)).mpr ?_
  exact dateTexts_lt hd he (julianDay_lt_iff.mp h)

/-- **The texts of dates are in the order of the days.** In the years 0 to 9999 every text has
ten characters, and the texts of two day numbers compare as the dates do. -/
theorem toString_in_order {j k : Int} (hj : InFourDigits j) (hk : InFourDigits k) :
    (toString ⟨.of j⟩).length = 10 ∧
      (toString ⟨.of j⟩ < toString ⟨.of k⟩ ↔ lt ⟨.of j⟩ ⟨.of k⟩ = true) ∧
      (toString ⟨.of j⟩ = toString ⟨.of k⟩ ↔ eq ⟨.of j⟩ ⟨.of k⟩ = true) := by
  obtain ⟨d, hd, hyear⟩ := exists_fourDigits hj
  obtain ⟨htext, htext'⟩ :=
    lt_iff_and_eq_iff (f := fun j => toString ⟨.of j⟩) toString_mono hj hk
  have hvalue {i : Int} (hi : InFourDigits i) : (CInt.of i).value = i :=
    CInt.of_value ⟨by have := hi.1; omega, by have := hi.2; omega⟩
  have hlt : lt ⟨.of j⟩ ⟨.of k⟩ = true ↔ j < k := by
    rw [lt, julianDayNumber, julianDayNumber, hvalue hj, hvalue hk, decide_eq_true_iff]
  have heq : eq ⟨.of j⟩ ⟨.of k⟩ = true ↔ j = k := by
    rw [eq, julianDayNumber, julianDayNumber, hvalue hj, hvalue hk, decide_eq_true_iff]
  refine ⟨?_, htext.trans hlt.symm, htext'.trans heq.symm⟩
  subst hd
  exact (toString_civil hj hyear).2

/-- The first days of the years 999 and 1000, the one printed with a blank in front. -/
theorem toString_in_order_thousand :
    toString ⟨.of 2085938⟩ < toString ⟨.of 2086303⟩ :=
  (toString_in_order (by decide) (by decide)).2.1.mpr (by decide)

end Date
end MyNet.Base
