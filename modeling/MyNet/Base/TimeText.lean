import MyNet.Base.Logging
import Mathlib.Data.List.TakeWhile

/-!
# Padded numbers and the time text

A number printed with a width can be read back, so two times with one text are the same
time; and the text has its seventeen characters exactly when every field keeps its width.
-/
namespace MyNet.Base

open Lib.Numeral

/-! ## Numbers with a width -/

theorem digitChar_plain {d : Nat} (hd : d < 10) :
    digitChar d ≠ 0 ∧ digitChar d ≠ ' '.toUInt8 ∧ digitChar d ≠ '-'.toUInt8 := by
  have hall : ∀ d < 10, digitChar d ≠ 0 ∧ digitChar d ≠ ' '.toUInt8 ∧
      digitChar d ≠ '-'.toUInt8 := by decide
  exact hall d hd

/-- The digits of a number behind `k` zeros. -/
def zeroed (k n : Nat) : List Byte := (List.replicate k 0 ++ numeral 10 n).map digitChar

theorem digit_lt {k n d : Nat} (h : d ∈ List.replicate k 0 ++ numeral 10 n) : d < 10 := by
  rcases List.mem_append.mp h with hzero | hdigit
  · rw [(List.mem_replicate.mp hzero).2]
    decide
  · exact mem_numeral_lt (by decide) hdigit

theorem zeroed_plain {k n : Nat} {c : Byte} (h : c ∈ zeroed k n) :
    c ≠ 0 ∧ c ≠ ' '.toUInt8 ∧ c ≠ '-'.toUInt8 := by
  obtain ⟨d, hd, rfl⟩ := List.mem_map.mp h
  exact digitChar_plain (digit_lt hd)

theorem map_toNat_zeroed (k n : Nat) :
    (zeroed k n).map (fun c => c.toNat - 48) = List.replicate k 0 ++ numeral 10 n := by
  have hdigit : ∀ d < 10, (digitChar d).toNat - 48 = d := by decide
  rw [zeroed, List.map_map]
  refine (List.map_congr_left fun d hd => ?_).trans (List.map_id _)
  exact hdigit d (digit_lt hd)

theorem zeroed_inj {j k m n : Nat} (h : zeroed j m = zeroed k n) : m = n := by
  have hdigits := congrArg (List.map fun c : Byte => c.toNat - 48) h
  rw [map_toNat_zeroed, map_toNat_zeroed] at hdigits
  have hread := congrArg (fun ds : List Nat => Nat.ofDigits 10 ds.reverse) hdigits
  simpa only [ofDigits_numeral] using hread

/-- A sign and digits, as every padding prints them. -/
def signed (k : Nat) (value : Int) : List Byte :=
  (if value < 0 then ['-'.toUInt8] else []) ++ zeroed k value.natAbs

theorem signed_plain {k : Nat} {value : Int} {c : Byte} (h : c ∈ signed k value) :
    c ≠ 0 ∧ c ≠ ' '.toUInt8 := by
  rcases List.mem_append.mp h with hsign | hdigit
  · split at hsign
    · rw [List.mem_singleton.mp hsign]
      decide
    · cases hsign
  · exact ⟨(zeroed_plain hdigit).1, (zeroed_plain hdigit).2.1⟩

theorem signed_inj {j k : Nat} {v w : Int} (h : signed j v = signed k w) : v = w := by
  have hminus (i n : Nat) (text : List Byte) : zeroed i n ≠ '-'.toUInt8 :: text := by
    intro he
    have hmem : '-'.toUInt8 ∈ zeroed i n := by
      rw [he]
      exact List.mem_cons_self
    exact (zeroed_plain hmem).2.2 rfl
  unfold signed at h
  by_cases hv : v < 0 <;> by_cases hw : w < 0
  · rw [if_pos hv, if_pos hw] at h
    have habs := zeroed_inj (List.append_cancel_left h)
    omega
  · rw [if_pos hv, if_neg hw] at h
    exact absurd h.symm (hminus _ _ _)
  · rw [if_neg hv, if_pos hw] at h
    exact absurd h (hminus _ _ _)
  · rw [if_neg hv, if_neg hw] at h
    have habs := zeroed_inj (List.append_cancel_left h)
    omega

theorem decimal_inj {v w : Int} (h : decimal v = decimal w) : v = w := signed_inj (j := 0) (k := 0) h

theorem zeroPadded_signed (width : Nat) (value : Int) :
    ∃ k, zeroPadded width value = signed k value := by
  refine ⟨width - (if value < 0 then ['-'.toUInt8] else []).length -
    (decimal value.natAbs).length, ?_⟩
  have habs : decimal (value.natAbs : Int) = (numeral 10 value.natAbs).map digitChar := by
    rw [decimal_of_nonneg (by omega), Int.natAbs_natCast]
  rw [zeroPadded, signed, zeroed, List.map_append, List.map_replicate, List.append_assoc, habs]
  rfl

theorem zeroPadded_inj {width : Nat} {v w : Int} (h : zeroPadded width v = zeroPadded width w) :
    v = w := by
  obtain ⟨j, hv⟩ := zeroPadded_signed width v
  obtain ⟨k, hw⟩ := zeroPadded_signed width w
  rw [hv, hw] at h
  exact signed_inj h

/-- The blanks end where the number begins. -/
theorem dropWhile_blankPadded (width : Nat) (value : Int) :
    (blankPadded width value).dropWhile (· == ' '.toUInt8) = decimal value := by
  have hblanks : ∀ c ∈ List.replicate (width - (decimal value).length) ' '.toUInt8,
      (c == ' '.toUInt8) = true := by
    intro c hc
    rw [(List.mem_replicate.mp hc).2]
    rfl
  rw [blankPadded, List.dropWhile_append_of_pos hblanks]
  refine List.dropWhile_eq_self_iff.mpr fun hpos => ?_
  have hmem : (decimal value)[0] ∈ signed 0 value := List.getElem_mem hpos
  exact fun hblank => (signed_plain hmem).2 (beq_iff_eq.mp hblank)

theorem blankPadded_inj {width : Nat} {v w : Int} (h : blankPadded width v = blankPadded width w) :
    v = w := by
  have hdecimal := congrArg (List.dropWhile (· == ' '.toUInt8)) h
  rw [dropWhile_blankPadded, dropWhile_blankPadded] at hdecimal
  exact decimal_inj hdecimal

/-! ## Their lengths -/

theorem length_decimal_le (w : Nat) (value : Int) :
    (decimal value).length ≤ w + 2 ↔ -(10 ^ (w + 1)) < value ∧ value < 10 ^ (w + 2) := by
  have hsmall : ((10 ^ (w + 1) : Nat) : Int) = 10 ^ (w + 1) := by norm_cast
  have hlarge : ((10 ^ (w + 2) : Nat) : Int) = 10 ^ (w + 2) := by norm_cast
  have hlow : 0 < 10 ^ (w + 1) := Nat.pow_pos (by decide)
  have hup : 0 < 10 ^ (w + 2) := Nat.pow_pos (by decide)
  rw [← hsmall, ← hlarge]
  by_cases hv : value < 0
  · have hdigits := length_numeral_le (n := value.natAbs) (k := w + 1) (by decide : 1 < 10) (by omega)
    rw [decimal_of_neg hv, List.length_cons, List.length_map]
    omega
  · have hdigits := length_numeral_le (n := value.natAbs) (k := w + 2) (by decide : 1 < 10) (by omega)
    rw [decimal_of_nonneg hv, List.length_map]
    omega

theorem length_blankPadded (width : Nat) (value : Int) :
    (blankPadded width value).length = max width (decimal value).length := by
  rw [blankPadded, List.length_append, List.length_replicate]
  omega

theorem length_zeroPadded (width : Nat) (value : Int) :
    (zeroPadded width value).length = max width (decimal value).length := by
  have habs : decimal (value.natAbs : Int) = (numeral 10 value.natAbs).map digitChar := by
    rw [decimal_of_nonneg (by omega), Int.natAbs_natCast]
  have hlength : (decimal value).length =
      (if value < 0 then ['-'.toUInt8] else []).length + (decimal (value.natAbs : Int)).length := by
    rw [habs, decimal, List.length_append]
  rw [zeroPadded, hlength]
  simp only [List.length_append, List.length_replicate]
  omega

/-- A field keeps its width of two. -/
theorem length_twoWide (value : Int) :
    2 ≤ (zeroPadded 2 value).length ∧
      ((zeroPadded 2 value).length = 2 ↔ -10 < value ∧ value < 100) := by
  have hfits := length_decimal_le 0 value
  rw [length_zeroPadded]
  simp only [Nat.zero_add, pow_one] at hfits
  omega

theorem length_fourWide (value : Int) :
    4 ≤ (blankPadded 4 value).length ∧
      ((blankPadded 4 value).length = 4 ↔ -1000 < value ∧ value < 10000) := by
  have hfits := length_decimal_le 2 value
  rw [length_blankPadded]
  norm_num at hfits
  omega

/-! ## The text of a time -/

/-- Every field is printed in its width. -/
structure Tm.Fits (tm : Tm) : Prop where
  year : -1000 < tm.year ∧ tm.year < 10000
  month : -10 < tm.month ∧ tm.month < 100
  day : -10 < tm.day ∧ tm.day < 100
  hour : -10 < tm.hour ∧ tm.hour < 100
  minute : -10 < tm.minute ∧ tm.minute < 100
  second : -10 < tm.second ∧ tm.second < 100

theorem length_timeText (tm : Tm) : (timeText tm).length = 17 ↔ tm.Fits := by
  have hlength : (timeText tm).length = (blankPadded 4 tm.year).length +
      (zeroPadded 2 tm.month).length + (zeroPadded 2 tm.day).length + 1 +
      (zeroPadded 2 tm.hour).length + 1 + (zeroPadded 2 tm.minute).length + 1 +
      (zeroPadded 2 tm.second).length := by
    simp only [timeText, List.length_append]
    rfl
  obtain ⟨hyear, year⟩ := length_fourWide tm.year
  obtain ⟨hmonth, month⟩ := length_twoWide tm.month
  obtain ⟨hday, day⟩ := length_twoWide tm.day
  obtain ⟨hhour, hour⟩ := length_twoWide tm.hour
  obtain ⟨hminute, minute⟩ := length_twoWide tm.minute
  obtain ⟨hsecond, second⟩ := length_twoWide tm.second
  constructor
  · intro h
    exact ⟨year.mp (by omega), month.mp (by omega), day.mp (by omega), hour.mp (by omega),
      minute.mp (by omega), second.mp (by omega)⟩
  · intro h
    have y := year.mpr h.year
    have mo := month.mpr h.month
    have d := day.mpr h.day
    have ho := hour.mpr h.hour
    have mi := minute.mpr h.minute
    have s := second.mpr h.second
    omega

/-- Two times that fit and have one text are the same time. -/
theorem timeText_inj {a b : Tm} (ha : a.Fits) (hb : b.Fits) (h : timeText a = timeText b) :
    a = b := by
  have htwo {v w : Int} (hv : -10 < v ∧ v < 100) (hw : -10 < w ∧ w < 100) :
      (zeroPadded 2 v).length = (zeroPadded 2 w).length :=
    ((length_twoWide v).2.mpr hv).trans ((length_twoWide w).2.mpr hw).symm
  obtain ⟨h, second⟩ := List.append_inj' h (htwo ha.second hb.second)
  obtain ⟨h, -⟩ := List.append_inj' h rfl
  obtain ⟨h, minute⟩ := List.append_inj' h (htwo ha.minute hb.minute)
  obtain ⟨h, -⟩ := List.append_inj' h rfl
  obtain ⟨h, hour⟩ := List.append_inj' h (htwo ha.hour hb.hour)
  obtain ⟨h, -⟩ := List.append_inj' h rfl
  obtain ⟨h, day⟩ := List.append_inj' h (htwo ha.day hb.day)
  obtain ⟨year, month⟩ := List.append_inj' h (htwo ha.month hb.month)
  rw [Tm.mk.injEq]
  exact ⟨blankPadded_inj year, zeroPadded_inj month, zeroPadded_inj day, zeroPadded_inj hour,
    zeroPadded_inj minute, zeroPadded_inj second⟩

theorem timeText_ne_zero {tm : Tm} {c : Byte} (h : c ∈ timeText tm) : c ≠ 0 := by
  have hzero {v : Int} {w : Nat} (hc : c ∈ zeroPadded w v) : c ≠ 0 := by
    obtain ⟨k, hk⟩ := zeroPadded_signed w v
    rw [hk] at hc
    exact (signed_plain hc).1
  have hblank {v : Int} (hc : c ∈ blankPadded 4 v) : c ≠ 0 := by
    rcases List.mem_append.mp hc with hpad | hnumber
    · rw [(List.mem_replicate.mp hpad).2]
      decide
    · exact (signed_plain (k := 0) hnumber).1
  have hmark {mark : Byte} (hne : mark ≠ 0) (hc : c ∈ [mark]) : c ≠ 0 := by
    rwa [List.mem_singleton.mp hc]
  simp only [timeText, List.mem_append] at h
  rcases h with (((((((hc | hc) | hc) | hc) | hc) | hc) | hc) | hc) | hc
  · exact hblank hc
  · exact hzero hc
  · exact hzero hc
  · exact hmark (by decide) hc
  · exact hzero hc
  · exact hmark (by decide) hc
  · exact hzero hc
  · exact hmark (by decide) hc
  · exact hzero hc

end MyNet.Base
