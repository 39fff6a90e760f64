import Mathlib.Data.Nat.Digits.Lemmas

/-!
# Numerals

The digits of a number in the order they are written, most significant first. Zero is
written as one digit.
-/
namespace Lib.Numeral

def numeral (b n : Nat) : List Nat := if n = 0 then [0] else (b.digits n).reverse

variable {b n k : Nat}

theorem numeral_of_lt (h : n < b) : numeral b n = [n] := by
  by_cases hn : n = 0
  · rw [numeral, if_pos hn, hn]
  · rw [numeral, if_neg hn, Nat.digits_of_lt b n hn h, List.reverse_singleton]

/-- The last digit follows the numeral of the others. -/
theorem numeral_of_le (hb : 1 < b) (h : b ≤ n) : numeral b n = numeral b (n / b) ++ [n % b] := by
  have hn : n ≠ 0 := by omega
  have hdiv : n / b ≠ 0 := Nat.ne_of_gt (Nat.div_pos h (by omega))
  rw [numeral, if_neg hn, Nat.digits_def' hb (Nat.pos_of_ne_zero hn), List.reverse_cons, numeral,
    if_neg hdiv]

theorem length_numeral_le (hb : 1 < b) (hk : 0 < k) :
    (numeral b n).length ≤ k ↔ n < b ^ k := by
  by_cases hn : n = 0
  · subst hn
    simp only [numeral, if_pos, List.length_singleton]
    exact ⟨fun _ => Nat.pow_pos (by omega), fun _ => hk⟩
  · rw [numeral, if_neg hn, List.length_reverse]
    exact Nat.digits_length_le_iff hb n

theorem mem_numeral_lt {d : Nat} (hb : 1 < b) (h : d ∈ numeral b n) : d < b := by
  by_cases hn : n = 0
  · rw [numeral, if_pos hn, List.mem_singleton] at h
    omega
  · rw [numeral, if_neg hn, List.mem_reverse] at h
    exact Nat.digits_lt_base hb h

/-- A numeral behind zeros is read back. -/
theorem ofDigits_numeral (b n k : Nat) :
    Nat.ofDigits b (List.replicate k 0 ++ numeral b n).reverse = n := by
  rw [List.reverse_append, List.reverse_replicate, Nat.ofDigits_append_replicate_zero, numeral]
  by_cases hn : n = 0
  · rw [if_pos hn, hn]
    rfl
  · rw [if_neg hn, List.reverse_reverse, Nat.ofDigits_digits]

/-- Digits of the base, at least one, and no zero in front of another digit. -/
structure Canonical (b : Nat) (ds : List Nat) : Prop where
  digit : ∀ d ∈ ds, d < b
  nonempty : ds ≠ []
  front : ds.head? = some 0 → ds = [0]

/-- The number that digits spell, read from the left. -/
def value (b : Nat) (ds : List Nat) : Nat := ds.foldl (fun n d => d + b * n) 0

theorem value_eq_ofDigits (b : Nat) (ds : List Nat) : value b ds = Nat.ofDigits b ds.reverse := by
  rw [value, Nat.ofDigits_eq_foldr, List.foldr_reverse]
  rfl

theorem value_numeral (b n : Nat) : value b (numeral b n) = n := by
  rw [value_eq_ofDigits]
  exact ofDigits_numeral b n 0

theorem numeral_canonical (hb : 1 < b) (n : Nat) : Canonical b (numeral b n) := by
  refine ⟨fun d hd => mem_numeral_lt hb hd, ?_, ?_⟩ <;> by_cases hn : n = 0
  · simp [numeral, hn]
  · simpa [numeral, hn] using Nat.digits_ne_nil_iff_ne_zero.mpr hn
  · simp [numeral, hn]
  · have hlast := Nat.getLast_digit_ne_zero b hn
    intro hfront
    rw [numeral, if_neg hn, List.head?_reverse,
      List.getLast?_eq_some_getLast (Nat.digits_ne_nil_iff_ne_zero.mpr hn)] at hfront
    exact absurd (Option.some.inj hfront) hlast

/-- A number has one canonical spelling, its numeral. -/
theorem Canonical.eq_numeral {ds : List Nat} (h : Canonical b ds) (hb : 1 < b) :
    ds = numeral b (value b ds) := by
  by_cases hzero : ds = [0]
  · subst hzero
    rfl
  have hlast : ∀ hne : ds.reverse ≠ [], ds.reverse.getLast hne ≠ 0 := by
    intro hne hlast
    apply hzero
    apply h.front
    rw [← List.getLast?_reverse, List.getLast?_eq_some_getLast hne, hlast]
  have hdigits : b.digits (value b ds) = ds.reverse := by
    rw [value_eq_ofDigits]
    apply Nat.digits_ofDigits b hb
    · intro d hd
      exact h.digit d (List.mem_reverse.mp hd)
    · exact hlast
  have hvalue : value b ds ≠ 0 := by
    intro hvalue
    rw [hvalue, Nat.digits_zero] at hdigits
    exact h.nonempty (List.reverse_eq_nil_iff.mp hdigits.symm)
  rw [numeral, if_neg hvalue, hdigits, List.reverse_reverse]

end Lib.Numeral
