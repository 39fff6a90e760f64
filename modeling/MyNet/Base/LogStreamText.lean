import MyNet.Base.LogStream

/-!
# What `LogStream` writes

The text of a value, and the proof that an inserter puts all of it behind the content or
nothing. `convert` and `convertHex` write the digits backwards, so the numeral appears only
when they are turned round.
-/
namespace MyNet.Base

open Lib.FaultState Lib.ListStore Lib.Numeral Lib.SizeT
open LogBuffer (store memcpy)

/-! ## The text of a number -/

def digitChar (d : Nat) : Byte := UInt8.ofNat (if d < 10 then 48 + d else 55 + d)

def decimal (value : Int) : List Byte :=
  (if value < 0 then ['-'.toUInt8] else []) ++ (numeral 10 value.natAbs).map digitChar

def hexadecimal (value : Nat) : List Byte := (numeral 16 value).map digitChar

theorem decimal_of_neg {value : Int} (h : value < 0) :
    decimal value = '-'.toUInt8 :: (numeral 10 value.natAbs).map digitChar := by
  rw [decimal, if_pos h]
  rfl

theorem decimal_of_nonneg {value : Int} (h : ¬value < 0) :
    decimal value = (numeral 10 value.natAbs).map digitChar := by
  rw [decimal, if_neg h]
  rfl

example : decimal (-120) = ascii "-120" := by decide
example : hexadecimal 0x1a0 = ascii "1A0" := by decide

/-- The digit `zero[lsd]` of a value with this sign. -/
def Radix.Shows (r : Radix) (sign : Int) : Prop :=
  ∀ d < r.base, r.table[(r.zero + sign * d).toNat]? = some (digitChar d)

theorem digits_shows {sign : Int} (h : sign = 1 ∨ sign = -1) : digits.Shows sign := by
  rcases h with rfl | rfl <;> unfold Radix.Shows <;> decide

theorem digitsHex_shows : digitsHex.Shows 1 := by
  unfold Radix.Shows
  decide

/-! ## Stores in the array -/

theorem store_ok {p : Nat} {c : Byte} {s : LogBuffer} (h : p < s.m_buff.length) :
    store p c s = .ok () { s with m_buff := overwrite s.m_buff p [c] } := by
  simp only [store, bind_apply, get_apply, if_apply, if_pos h, set_apply, overwrite_singleton h]

theorem memcpy_ok {p : Nat} {line : List Byte} {s : LogBuffer}
    (h : p + line.length ≤ s.m_buff.length) :
    memcpy p line s = .ok () { s with m_buff := overwrite s.m_buff p line } := by
  simp only [memcpy, bind_apply, get_apply, if_apply, if_pos h, set_apply]

theorem digit_ok {r : Radix} {sign : Int} (hr : r.Shows sign) {d : Nat} (hd : d < r.base)
    (s : LogBuffer) : r.digit (sign * d) s = .ok (digitChar d) s := by
  rw [Radix.digit, hr d hd]
  rfl

/-- Division rounds towards zero, so the sign is carried through. -/
theorem tmod_sign {sign : Int} (h : sign = 1 ∨ sign = -1) (n b : Nat) :
    (sign * n).tmod b = sign * (n % b : Nat) := by
  rcases h with rfl | rfl
  · rw [Int.one_mul, Int.one_mul, Int.ofNat_tmod]
  · rw [Int.neg_mul, Int.neg_mul, Int.one_mul, Int.one_mul, Int.neg_tmod, Int.ofNat_tmod]

theorem tdiv_sign {sign : Int} (h : sign = 1 ∨ sign = -1) (n b : Nat) :
    (sign * n).tdiv b = sign * (n / b : Nat) := by
  rcases h with rfl | rfl
  · rw [Int.one_mul, Int.one_mul, Int.ofNat_tdiv]
  · rw [Int.neg_mul, Int.neg_mul, Int.one_mul, Int.one_mul, Int.neg_tdiv, Int.ofNat_tdiv]

/-- The loop writes the numeral backwards, whatever the sign. -/
theorem writeDigits_spec {r : Radix} {sign : Int} (hr : r.Shows sign)
    (hsign : sign = 1 ∨ sign = -1) (n : Nat) :
    ∀ (p : Nat) (s : LogBuffer), p + (numeral r.base n).length ≤ s.m_buff.length →
      writeDigits r p (sign * n) s =
        .ok (p + (numeral r.base n).length)
          { s with m_buff :=
              overwrite s.m_buff p ((numeral r.base n).map digitChar).reverse } := by
  induction n using Nat.strong_induction_on with
  | _ n ih =>
    intro p s h
    have hlt : n % r.base < r.base := Nat.mod_lt _ (by have := r.one_lt; omega)
    rw [writeDigits]
    simp only [tmod_sign hsign, tdiv_sign hsign, bind_apply, digit_ok hr hlt]
    by_cases hn : n < r.base
    · rw [numeral_of_lt hn] at h ⊢
      have hzero : ¬sign * ((n / r.base : Nat) : Int) ≠ 0 := by
        rw [Nat.div_eq_of_lt hn]
        simp
      rw [store_ok (by simpa using h), Nat.mod_eq_of_lt hn]
      simp only [if_apply, if_neg hzero, pure_apply]
      rfl
    · have hle : r.base ≤ n := Nat.le_of_not_lt hn
      have hnext : sign * ((n / r.base : Nat) : Int) ≠ 0 := by
        have hpos : 0 < n / r.base := Nat.div_pos hle (by omega)
        rcases hsign with rfl | rfl <;> omega
      rw [numeral_of_le r.one_lt hle, List.length_append, List.length_singleton] at h ⊢
      rw [store_ok (by omega)]
      have hwindow : p + [digitChar (n % r.base)].length ≤ s.m_buff.length := by
        rw [List.length_singleton]
        omega
      have hrest := ih (n / r.base) (Nat.div_lt_self (by omega) r.one_lt) (p + 1)
        { s with m_buff := overwrite s.m_buff p [digitChar (n % r.base)] }
        (by rw [length_overwrite hwindow]; omega)
      have hwrites := overwrite_append hwindow ((numeral r.base (n / r.base)).map digitChar).reverse
      simp only [if_apply, if_pos hnext, hrest, List.map_append, List.map_singleton,
        List.reverse_append, List.reverse_singleton, hwrites, List.length_singleton]
      congr 1
      omega

/-- The digits are turned round in front of their NUL. -/
theorem terminate_spec {buf : Nat} {written text xs : List Byte} (cur : Nat)
    (htext : written.reverse = text) (h : buf + text.length < xs.length) :
    terminate buf (buf + text.length) ⟨overwrite xs buf written, cur⟩ =
      .ok text.length ⟨overwrite xs buf (text ++ [0]), cur⟩ := by
  have hlength : text.length = written.length := by rw [← htext, List.length_reverse]
  rw [hlength] at h ⊢
  have hwindow : buf + written.length ≤ xs.length := Nat.le_of_lt h
  have hboth : buf + (written ++ [0]).length ≤ xs.length := by
    rw [List.length_append, List.length_singleton]
    omega
  have hstore : store (buf + written.length) 0 ⟨overwrite xs buf written, cur⟩ =
      .ok () ⟨overwrite (overwrite xs buf written) (buf + written.length) [0], cur⟩ :=
    store_ok (by rwa [length_overwrite hwindow])
  have hnul : overwrite (overwrite xs buf written) (buf + written.length) [0] =
      overwrite xs buf (written ++ [0]) := (overwrite_append hwindow [0]).symm
  have hslice : slice (overwrite xs buf (written ++ [0])) buf (buf + written.length) = written :=
    slice_overwrite (by omega) written [0]
  have hcopy : memcpy buf text ⟨overwrite xs buf (written ++ [0]), cur⟩ =
      .ok () ⟨overwrite (overwrite xs buf (written ++ [0])) buf text, cur⟩ :=
    memcpy_ok (by rw [length_overwrite hboth]; omega)
  have hfront : overwrite (overwrite xs buf (written ++ [0])) buf text =
      overwrite xs buf (text ++ [0]) := overwrite_front (by omega) hlength [0]
  simp only [terminate, LogBuffer.reverse, bind_apply, get_apply, pure_apply, hstore, hnul, hslice,
    htext, hcopy, hfront, Nat.add_sub_cancel_left]

theorem convertHex_spec {buf value : Nat} {s : LogBuffer}
    (h : buf + (hexadecimal value).length < s.m_buff.length) :
    convertHex buf value s = .ok (hexadecimal value).length
      { s with m_buff := overwrite s.m_buff buf (hexadecimal value ++ [0]) } := by
  have hlength : (numeral digitsHex.base value).length = (hexadecimal value).length :=
    (List.length_map _).symm
  have hdigits := writeDigits_spec digitsHex_shows (.inl rfl) value buf s
    (by rw [hlength]; exact Nat.le_of_lt h)
  rw [hlength, Int.one_mul] at hdigits
  simp only [convertHex, bind_apply, hdigits]
  exact terminate_spec _ (List.reverse_reverse _) h

theorem convert_spec {buf : Nat} {value : Int} {s : LogBuffer}
    (h : buf + (decimal value).length < s.m_buff.length) :
    convert buf value s = .ok (decimal value).length
      { s with m_buff := overwrite s.m_buff buf (decimal value ++ [0]) } := by
  by_cases hneg : value < 0
  · have hvalue : -1 * (value.natAbs : Int) = value := by omega
    have hlength : (numeral digits.base value.natAbs).length + 1 = (decimal value).length := by
      rw [decimal_of_neg hneg, List.length_cons, List.length_map]
      rfl
    have hwindow : buf + ((numeral digits.base value.natAbs).map digitChar).reverse.length ≤
        s.m_buff.length := by
      rw [List.length_reverse, List.length_map]
      omega
    have hdigits := writeDigits_spec (digits_shows (.inr rfl)) (.inr rfl) value.natAbs buf s
      (by omega)
    rw [hvalue] at hdigits
    have hsign := overwrite_append hwindow ['-'.toUInt8]
    rw [List.length_reverse, List.length_map] at hsign
    simp only [convert, bind_apply, hdigits, if_pos hneg]
    rw [store_ok (by rw [length_overwrite hwindow]; omega), ← hsign]
    have hturned : (((numeral digits.base value.natAbs).map digitChar).reverse ++
        ['-'.toUInt8]).reverse = decimal value := by
      rw [decimal_of_neg hneg, List.reverse_append, List.reverse_reverse]
      rfl
    have hend := terminate_spec s.m_cur hturned h
    rw [← hlength, ← Nat.add_assoc] at hend
    rw [hlength] at hend
    exact hend
  · have hvalue : 1 * (value.natAbs : Int) = value := by omega
    have htext : decimal value = (numeral digits.base value.natAbs).map digitChar :=
      decimal_of_nonneg hneg
    have hlength : (numeral digits.base value.natAbs).length = (decimal value).length := by
      rw [htext, List.length_map]
    have hdigits := writeDigits_spec (digits_shows (.inl rfl)) (.inl rfl) value.natAbs buf s
      (by omega)
    rw [hvalue, hlength, ← htext] at hdigits
    simp only [convert, bind_apply, hdigits, if_neg hneg]
    exact terminate_spec _ (List.reverse_reverse _) h

/-- A 64-bit integer, signed or not, has at most twenty characters. -/
theorem length_decimal {value : Int} (hlow : -9223372036854775808 ≤ value)
    (hup : value < 18446744073709551616) : (decimal value).length ≤ 20 := by
  by_cases hneg : value < 0
  · have h : (numeral 10 value.natAbs).length ≤ 19 :=
      (length_numeral_le (by decide) (by decide)).mpr (by omega)
    rw [decimal_of_neg hneg, List.length_cons, List.length_map]
    omega
  · rw [decimal_of_nonneg hneg, List.length_map]
    exact (length_numeral_le (by decide) (by decide)).mpr (by omega)

theorem length_hexadecimal {value : Nat} (h : value < 18446744073709551616) :
    (hexadecimal value).length ≤ 16 := by
  rw [hexadecimal, List.length_map]
  exact (length_numeral_le (by decide) (by decide)).mpr (by omega)

end MyNet.Base
