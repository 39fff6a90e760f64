import MyNet.Base.LogFileRoll
import MyNet.Lib.TextOrder

/-!
# The order of printed fields

A number printed with a width, in zeros or in blanks, comes before another one exactly when it is
the smaller one, as long as both keep the width. So the texts made of such fields, from the year
down, are in the order of time.
-/
namespace MyNet.Base

open Lib.Gregorian Lib.Numeral Lib.TextOrder

/-- The string that `snprintf` leaves in an array of this size. -/
def printed (size : Nat) (text : List Byte) : List Byte := text.take (size - 1)

/-- Not negative and at most `width` digits. -/
def Keeps (width : Nat) (value : Int) : Prop := 0 ≤ value ∧ value < 10 ^ width

theorem digitChar_lt_iff {d e : Nat} (hd : d < 10) (he : e < 10) :
    (digitChar d < digitChar e ↔ d < e) ∧ (digitChar d = digitChar e ↔ d = e) := by
  have hall : ∀ d < 10, ∀ e < 10, (digitChar d < digitChar e ↔ d < e) ∧
      (digitChar d = digitChar e ↔ d = e) := by decide
  exact hall d hd e he

/-- Digit characters of one number are compared as the number. -/
theorem map_digitChar_lt {ds es : List Nat} (hds : ∀ d ∈ ds, d < 10) (hes : ∀ e ∈ es, e < 10)
    (hlength : ds.length = es.length) :
    ds.map digitChar < es.map digitChar ↔ value 10 ds < value 10 es := by
  rw [← lt_iff_value_lt (by decide) hds hes hlength]
  exact map_lt_map_iff (fun d hd e he => (digitChar_lt_iff (hds d hd) (hes e he)).1)
    fun d hd e he => (digitChar_lt_iff (hds d hd) (hes e he)).2

theorem value_zeroed (k n : Nat) : value 10 (List.replicate k 0 ++ numeral 10 n) = n := by
  rw [value_eq_ofDigits, ofDigits_numeral]

variable {width : Nat} {v w : Int}

theorem Keeps.length_decimal (h : Keeps width v) (hwidth : 0 < width) :
    (decimal v).length ≤ width := by
  have hpow : ((10 ^ width : Nat) : Int) = 10 ^ width := by norm_cast
  have hup := h.2
  have hlow := h.1
  rw [decimal_of_nonneg (by omega), List.length_map, length_numeral_le (by decide) hwidth]
  omega

theorem Keeps.length_zeroPadded (h : Keeps width v) (hwidth : 0 < width) :
    (zeroPadded width v).length = width := by
  rw [MyNet.Base.length_zeroPadded]
  exact max_eq_left (h.length_decimal hwidth)

theorem Keeps.length_blankPadded (h : Keeps width v) (hwidth : 0 < width) :
    (blankPadded width v).length = width := by
  rw [MyNet.Base.length_blankPadded]
  exact max_eq_left (h.length_decimal hwidth)

theorem zeroPadded_digits (h : 0 ≤ v) (width : Nat) :
    ∃ k, zeroPadded width v = (List.replicate k 0 ++ numeral 10 v.natAbs).map digitChar := by
  obtain ⟨k, hk⟩ := zeroPadded_signed width v
  refine ⟨k, ?_⟩
  rw [hk, signed, if_neg (by omega), List.nil_append]
  rfl

theorem zeroPadded_lt_iff (hwidth : 0 < width) (hv : Keeps width v) (hw : Keeps width w) :
    (zeroPadded width v < zeroPadded width w ↔ v < w) ∧
      (zeroPadded width v = zeroPadded width w ↔ v = w) := by
  have hlength := (hv.length_zeroPadded hwidth).trans (hw.length_zeroPadded hwidth).symm
  have hvpos := hv.1
  have hwpos := hw.1
  refine ⟨?_, fun heq => zeroPadded_inj heq, fun heq => heq ▸ rfl⟩
  obtain ⟨j, hj⟩ := zeroPadded_digits hv.1 width
  obtain ⟨k, hk⟩ := zeroPadded_digits hw.1 width
  rw [hj, hk, List.length_map, List.length_map] at hlength
  rw [hj, hk, map_digitChar_lt (fun d => digit_lt) (fun d => digit_lt) hlength, value_zeroed,
    value_zeroed]
  omega

/-- Fewer digits leave a blank where the longer number has a digit. -/
theorem blankPadded_mono (hwidth : 0 < width) (v w : Int) (hv : Keeps width v) (hw : Keeps width w)
    (h : v < w) : blankPadded width v < blankPadded width w := by
  have hvpos := hv.1
  have hwpos := hw.1
  have hvlen := hv.length_decimal hwidth
  have hwlen := hw.length_decimal hwidth
  have hvdigits : decimal v = (numeral 10 v.natAbs).map digitChar := decimal_of_nonneg (by omega)
  have hwdigits : decimal w = (numeral 10 w.natAbs).map digitChar := decimal_of_nonneg (by omega)
  have hpos : 0 < (numeral 10 w.natAbs).length :=
    List.length_pos_iff.mpr (numeral_canonical (by decide) _).nonempty
  have hshorter : (decimal v).length ≤ (decimal w).length := by
    rw [hvdigits, hwdigits, List.length_map, List.length_map, length_numeral_le (by decide) hpos]
    refine Nat.lt_of_le_of_lt (show v.natAbs ≤ w.natAbs by omega) ?_
    exact (length_numeral_le (by decide) hpos).mp (Nat.le_refl _)
  rw [blankPadded, blankPadded]
  rcases Nat.lt_or_eq_of_le hshorter with hlt | heq
  · obtain ⟨k, hk⟩ : ∃ k, width - (decimal v).length = width - (decimal w).length + (k + 1) :=
      ⟨(decimal w).length - (decimal v).length - 1, by omega⟩
    rw [hk, List.replicate_add, List.append_assoc]
    refine List.append_left_lt ?_
    rw [List.replicate_succ, List.cons_append]
    cases hnumeral : numeral 10 w.natAbs with
    | nil => exact absurd hnumeral (numeral_canonical (by decide) _).nonempty
    | cons d ds =>
      have hd : d < 10 := mem_numeral_lt (by decide) (hnumeral ▸ List.mem_cons_self)
      have hblank : ∀ d < 10, ' '.toUInt8 < digitChar d := by decide
      rw [hwdigits, hnumeral, List.map_cons, List.cons_lt_cons_iff]
      exact .inl (hblank d hd)
  · rw [heq]
    refine List.append_left_lt ?_
    rw [hvdigits, hwdigits, List.length_map, List.length_map] at heq
    rw [hvdigits, hwdigits, map_digitChar_lt (fun d => mem_numeral_lt (by decide))
      (fun d => mem_numeral_lt (by decide)) heq, value_numeral, value_numeral]
    omega

theorem blankPadded_lt_iff (hwidth : 0 < width) (hv : Keeps width v) (hw : Keeps width w) :
    (blankPadded width v < blankPadded width w ↔ v < w) ∧
      (blankPadded width v = blankPadded width w ↔ v = w) :=
  lt_iff_and_eq_iff (blankPadded_mono hwidth) hv hw

theorem twoDigits_eq (h : Keeps 2 v) : twoDigits v = zeroPadded 2 v := by
  obtain ⟨hlow, hup⟩ := h
  norm_num at hup
  have hall : ∀ n < 100, twoDigits (n : Nat) = zeroPadded 2 (n : Nat) := by decide
  have hcast := hall v.natAbs (by omega)
  rwa [Int.natAbs_of_nonneg hlow] at hcast

/-! ## The fields of a time -/

namespace Tm

/-- The fields behind the year, of two digits each. -/
def behindYear (tm : Tm) : List Int := [tm.month, tm.day, tm.hour, tm.minute, tm.second]

def fields (tm : Tm) : List Int := tm.year :: tm.behindYear

/-- The fields as the formats print them. -/
def texts (tm : Tm) : List (List Byte) :=
  blankPadded 4 tm.year :: tm.behindYear.map (zeroPadded 2)

/-- No field is wider than the formats have room for. -/
structure InWidths (tm : Tm) : Prop where
  year : Keeps 4 tm.year
  behindYear : ∀ v ∈ tm.behindYear, Keeps 2 v

theorem InWidths.length_texts {tm : Tm} (h : tm.InWidths) :
    tm.texts.map List.length = [4, 2, 2, 2, 2, 2] := by
  have htwo :
      (tm.behindYear.map (zeroPadded 2)).map List.length = tm.behindYear.map fun _ => 2 := by
    rw [List.map_map]
    exact List.map_congr_left fun v hv => (h.behindYear v hv).length_zeroPadded (by decide)
  rw [texts, List.map_cons, h.year.length_blankPadded (by decide), htwo]
  rfl

theorem texts_lt_iff {a b : Tm} (ha : a.InWidths) (hb : b.InWidths) :
    a.texts < b.texts ↔ a.fields < b.fields := by
  obtain ⟨hlt, heq⟩ := blankPadded_lt_iff (by decide) ha.year hb.year
  have htwo {v w : Int} (hv : v ∈ a.behindYear) (hw : w ∈ b.behindYear) :=
    zeroPadded_lt_iff (by decide) (ha.behindYear v hv) (hb.behindYear w hw)
  rw [texts, texts, fields, fields, List.cons_lt_cons_iff, List.cons_lt_cons_iff, hlt, heq,
    map_lt_map_iff (fun v hv w hw => (htwo hv hw).1) fun v hv w hw => (htwo hv hw).2]

end Tm

theorem gmtime_fields_mono (t u : Int) (ht : 0 ≤ t) (hu : 0 ≤ u) (h : t < u) :
    (gmtime t).fields < (gmtime u).fields := by
  obtain ⟨d, hd⟩ := exists_date ht
  obtain ⟨e, he⟩ := exists_date hu
  obtain ⟨dyear, dmonth, dday⟩ := gmtime_date hd
  obtain ⟨eyear, emonth, eday⟩ := gmtime_date he
  have hclock := gmtime_clock t
  have hclock' := gmtime_clock u
  simp only [Tm.fields, Tm.behindYear, List.cons_lt_cons_iff, List.lt_irrefl, dyear, dmonth, dday,
    eyear, emonth, eday]
  rcases Int.lt_or_eq_of_le (show t / 86400 ≤ u / 86400 by omega) with hbefore | hsame
  · have hdates : d.Before e := CalendarDate.dayNumber_lt_iff.mp (by omega)
    unfold CalendarDate.Before at hdates
    omega
  · obtain rfl : d = e := CalendarDate.dayNumber_inj.mp (by omega)
    omega

theorem gmtime_year {t : Int} (h : Years t) : 1970 ≤ (gmtime t).year ∧ (gmtime t).year ≤ 9999 := by
  obtain ⟨hlow, hup⟩ := h
  obtain ⟨d, hd⟩ := exists_date hlow
  rw [(gmtime_date hd).1]
  have hepoch : epochDate.dayNumber = epochShift := by decide
  have hshift : epochShift = 719468 := rfl
  constructor
  · by_contra hbefore
    have hlt := CalendarDate.dayNumber_lt (a := d) (b := epochDate)
      (.inl (show d.year < 1970 by omega))
    omega
  · by_contra hafter
    have hend : CalendarDate.dayNumber ⟨9999, 12, 31, by decide, by decide⟩ = 3652364 := by decide
    have hlt := CalendarDate.dayNumber_lt (a := ⟨9999, 12, 31, by decide, by decide⟩) (b := d)
      (.inl (show 9999 < d.year by omega))
    omega

theorem gmtime_inWidths {t : Int} (h : Years t) : (gmtime t).InWidths := by
  obtain ⟨hyear, hlast⟩ := gmtime_year h
  obtain ⟨-, hmonth, hday, hhour, hminute, hsecond⟩ := gmtime_inFormat h.1
  refine ⟨⟨by omega, by omega⟩, ?_⟩
  simp only [Tm.behindYear, List.forall_mem_cons, Keeps]
  norm_num
  omega

theorem gmtime_fits {t : Int} (h : Years t) : (gmtime t).Fits := by
  obtain ⟨hyear, hlast⟩ := gmtime_year h
  obtain ⟨-, hmonth, hday, hhour, hminute, hsecond⟩ := gmtime_inFormat h.1
  exact ⟨by omega, by omega, by omega, by omega, by omega, by omega⟩

/-- The texts of two seconds, as `%4d%02d%02d %02d:%02d:%02d` prints them. -/
theorem timeText_mono (t u : Int) (ht : Years t) (hu : Years u) (h : t < u) :
    timeText (gmtime t) < timeText (gmtime u) := by
  have hmarked (tm : Tm) : timeText tm =
      marked [[], [], [], ascii " ", ascii ":", ascii ":"] tm.texts := by
    simp only [timeText, marked, Tm.texts, Tm.behindYear, List.map_cons, List.map_nil,
      List.zipWith_cons_cons, List.zipWith_nil_right, List.flatten_cons, List.flatten_nil,
      List.append_nil, List.nil_append, List.append_assoc]
  have hwidths := gmtime_inWidths ht
  have hwidths' := gmtime_inWidths hu
  rw [hmarked, hmarked]
  refine (marked_lt_marked_iff (hwidths.length_texts.trans hwidths'.length_texts.symm)
    (by exact Nat.le_refl 6)).mpr ?_
  rw [Tm.texts_lt_iff hwidths hwidths']
  exact gmtime_fields_mono t u ht.1 hu.1 h

theorem timeText_lt_iff {t u : Int} (ht : Years t) (hu : Years u) :
    (timeText (gmtime t) < timeText (gmtime u) ↔ t < u) ∧
      (timeText (gmtime t) = timeText (gmtime u) ↔ t = u) :=
  lt_iff_and_eq_iff (f := fun t => timeText (gmtime t)) timeText_mono ht hu

end MyNet.Base
