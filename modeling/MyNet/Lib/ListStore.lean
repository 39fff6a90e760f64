import Mathlib.Data.List.Basic

/-!
# Lists as flat stores

A contiguous store is a list; `slice` reads the cells of a half-open window,
`overwrite` copies foreign cells over it, and `copyWithin` is the cell-by-cell
forward copy of one window onto another of the same store. The windows of the
last one may overlap: copying towards the front never reads a cell already written.
-/
namespace Lib.ListStore

universe u

variable {α : Type u}

/-- The cells of `[i, j)`. -/
def slice (xs : List α) (i j : Nat) : List α := (xs.drop i).take (j - i)

/-- `ys` copied over the cells from `i` on. -/
def overwrite (xs : List α) (i : Nat) (ys : List α) : List α :=
  xs.take i ++ ys ++ xs.drop (i + ys.length)

/-- Forward copy of `n` cells from `src` on to `dst` on, one cell at a time. -/
def copyWithin (xs : List α) (src dst : Nat) : Nat → List α
  | 0 => xs
  | n + 1 =>
    match xs[src]? with
    | some x => copyWithin (xs.set dst x) (src + 1) (dst + 1) n
    | none => xs

theorem getElem?_slice (xs : List α) (i j k : Nat) :
    (slice xs i j)[k]? = if k < j - i then xs[i + k]? else none := by
  rw [slice, List.getElem?_take, List.getElem?_drop]

theorem length_slice {xs : List α} {i j : Nat} (hj : j ≤ xs.length) :
    (slice xs i j).length = j - i := by
  rw [slice, List.length_take, List.length_drop]
  omega

@[simp] theorem slice_self (xs : List α) (i : Nat) : slice xs i i = [] := by
  rw [slice, Nat.sub_self, List.take_zero]

/-- Cells behind the window do not matter. -/
theorem slice_append {xs : List α} {i j : Nat} (hj : j ≤ xs.length) (ys : List α) :
    slice (xs ++ ys) i j = slice xs i j := by
  apply List.ext_getElem?
  intro k
  rw [getElem?_slice, getElem?_slice]
  by_cases hk : k < j - i
  · rw [if_pos hk, if_pos hk, List.getElem?_append_left (by omega)]
  · rw [if_neg hk, if_neg hk]

theorem slice_drop (xs : List α) (i j n : Nat) :
    slice xs (i + n) j = (slice xs i j).drop n := by
  rw [slice, slice, List.drop_take, List.drop_drop, Nat.sub_add_eq]

theorem slice_take (xs : List α) {i j n : Nat} (hn : i + n ≤ j) :
    slice xs i (i + n) = (slice xs i j).take n := by
  rw [slice, slice, List.take_take, Nat.add_sub_cancel_left, Nat.min_eq_left (by omega)]

/-- A word lies in front of a window exactly if it fits into it and its cells are there. -/
theorem prefix_slice_iff {xs word : List α} {i j : Nat} (hword : word ≠ [])
    (hj : j ≤ xs.length) :
    word <+: slice xs i j ↔ i + word.length ≤ j ∧ slice xs i (i + word.length) = word := by
  constructor
  · intro hprefix
    have hlength := hprefix.length_le
    have hpos := List.length_pos_iff.mpr hword
    rw [length_slice hj] at hlength
    have hfit : i + word.length ≤ j := by omega
    refine ⟨hfit, ?_⟩
    rw [slice_take xs hfit]
    exact (List.prefix_iff_eq_take.mp hprefix).symm
  · rintro ⟨hfit, hcells⟩
    rw [List.prefix_iff_eq_take, ← slice_take xs hfit, hcells]

theorem length_overwrite {xs ys : List α} {i : Nat} (h : i + ys.length ≤ xs.length) :
    (overwrite xs i ys).length = xs.length := by
  simp only [overwrite, List.length_append, List.length_take, List.length_drop]
  omega

theorem getElem?_overwrite {xs ys : List α} {i : Nat} (h : i + ys.length ≤ xs.length) (k : Nat) :
    (overwrite xs i ys)[k]? =
      if i ≤ k ∧ k < i + ys.length then ys[k - i]? else xs[k]? := by
  have hi : (xs.take i).length = i := by rw [List.length_take]; omega
  by_cases hlow : k < i
  · rw [if_neg (by omega), overwrite, List.append_assoc, List.getElem?_append_left (by omega),
      List.getElem?_take_of_lt hlow]
  · by_cases hmid : k < i + ys.length
    · rw [if_pos (by omega), overwrite, List.append_assoc, List.getElem?_append_right (by omega),
        hi, List.getElem?_append_left (by omega)]
    · rw [if_neg (by omega), overwrite, List.getElem?_append_right
        (by rw [List.length_append, hi]; omega), List.length_append, hi, List.getElem?_drop]
      congr 1
      omega

/-- Writing right behind a window extends it. -/
theorem slice_overwrite_back {xs ys : List α} {i a : Nat} (ha : a ≤ i)
    (h : i + ys.length ≤ xs.length) :
    slice (overwrite xs i ys) a (i + ys.length) = slice xs a i ++ ys := by
  have hl : (slice xs a i).length = i - a := length_slice (by omega)
  apply List.ext_getElem?
  intro k
  rw [getElem?_slice, getElem?_overwrite h]
  by_cases hk : k < i - a
  · rw [if_pos (by omega), if_neg (by omega), List.getElem?_append_left (by omega),
      getElem?_slice, if_pos hk]
  · rw [List.getElem?_append_right (by omega), hl]
    by_cases hy : k < i + ys.length - a
    · rw [if_pos hy, if_pos (by omega)]
      congr 1
      omega
    · rw [if_neg hy, List.getElem?_eq_none (by omega)]

/-- Writing right in front of a window extends it at the front. -/
theorem slice_overwrite_front {xs ys : List α} {i j : Nat} (hj : i + ys.length ≤ j)
    (hl : j ≤ xs.length) :
    slice (overwrite xs i ys) i j = ys ++ slice xs (i + ys.length) j := by
  have h : i + ys.length ≤ xs.length := Nat.le_trans hj hl
  apply List.ext_getElem?
  intro k
  rw [getElem?_slice, getElem?_overwrite h]
  by_cases hk : k < ys.length
  · rw [if_pos (by omega), if_pos (by omega), List.getElem?_append_left hk,
      Nat.add_sub_cancel_left]
  · rw [List.getElem?_append_right (by omega), getElem?_slice]
    by_cases hw : k < j - i
    · rw [if_pos hw, if_neg (by omega), if_pos (by omega)]
      congr 1
      omega
    · rw [if_neg hw, if_neg (by omega)]

theorem overwrite_singleton {xs : List α} {i : Nat} (h : i < xs.length) (y : α) :
    overwrite xs i [y] = xs.set i y := by
  rw [overwrite, List.set_eq_take_append_cons_drop, if_pos h, List.append_assoc]
  rfl

/-- Two writes one behind the other are one write. -/
theorem overwrite_append {xs ys : List α} {i : Nat} (h : i + ys.length ≤ xs.length)
    (zs : List α) :
    overwrite xs i (ys ++ zs) = overwrite (overwrite xs i ys) (i + ys.length) zs := by
  have hfront : (xs.take i ++ ys).length = i + ys.length := by
    rw [List.length_append, List.length_take]
    omega
  have hback : (overwrite xs i ys).drop (i + ys.length + zs.length) =
      xs.drop (i + ys.length + zs.length) := by
    rw [← List.drop_drop, overwrite, List.drop_left' hfront, List.drop_drop]
  rw [overwrite.eq_def (overwrite xs i ys), hback, overwrite.eq_def xs i ys,
    List.take_left' hfront, overwrite, List.length_append, ← Nat.add_assoc, List.append_assoc,
    List.append_assoc, List.append_assoc, List.append_assoc]

/-- What was just written is the window. -/
theorem slice_overwrite {xs : List α} {i : Nat} (hi : i ≤ xs.length) (ys zs : List α) :
    slice (overwrite xs i (ys ++ zs)) i (i + ys.length) = ys := by
  have htake : (xs.take i).length = i := by
    rw [List.length_take]
    omega
  rw [slice, Nat.add_sub_cancel_left, overwrite, List.append_assoc, List.drop_left' htake,
    List.append_assoc, List.take_left' rfl]

/-- Rewriting the front of what was just written. -/
theorem overwrite_front {xs ys zs : List α} {i : Nat} (hi : i ≤ xs.length)
    (hlength : zs.length = ys.length) (ws : List α) :
    overwrite (overwrite xs i (ys ++ ws)) i zs = overwrite xs i (zs ++ ws) := by
  have htake : (xs.take i).length = i := by
    rw [List.length_take]
    omega
  have hback : (overwrite xs i (ys ++ ws)).drop (i + zs.length) =
      ws ++ xs.drop (i + (ys ++ ws).length) := by
    have hfront : (xs.take i ++ ys).length = i + zs.length := by
      rw [List.length_append, htake, hlength]
    rw [overwrite, ← List.append_assoc, List.append_assoc, List.drop_left' hfront]
  rw [overwrite.eq_def (overwrite xs i (ys ++ ws)), hback, overwrite.eq_def xs i (ys ++ ws),
    List.append_assoc (xs.take i), List.take_left' htake, overwrite, List.length_append,
    List.length_append, hlength]
  simp only [List.append_assoc]

theorem length_copyWithin (xs : List α) (src dst n : Nat) :
    (copyWithin xs src dst n).length = xs.length := by
  induction n generalizing xs src dst with
  | zero => rfl
  | succ n ih =>
    rw [copyWithin]
    split
    · rw [ih, List.length_set]
    · rfl

/-- The copy towards the front reads every cell before it is overwritten. -/
theorem getElem?_copyWithin {src dst n : Nat} (hd : dst ≤ src) :
    ∀ {xs : List α}, src + n ≤ xs.length → ∀ k,
      (copyWithin xs src dst n)[k]? =
        if dst ≤ k ∧ k < dst + n then xs[src + (k - dst)]? else xs[k]? := by
  induction n generalizing src dst with
  | zero =>
    intro xs _ k
    rw [copyWithin, if_neg (by omega)]
  | succ n ih =>
    intro xs hs k
    have hsrc : src < xs.length := by omega
    rw [copyWithin, List.getElem?_eq_getElem hsrc]
    dsimp only
    rw [ih (by omega) (by rw [List.length_set]; omega) k]
    by_cases hk : k = dst
    · subst k
      rw [if_neg (by omega), if_pos (by omega), List.getElem?_set_self (by omega), Nat.sub_self,
        Nat.add_zero, List.getElem?_eq_getElem hsrc]
    · by_cases hin : dst + 1 ≤ k ∧ k < dst + 1 + n
      · rw [if_pos hin, if_pos (by omega), List.getElem?_set_ne (by omega)]
        congr 1
        omega
      · rw [if_neg hin, if_neg (by omega), List.getElem?_set_ne (by omega)]

/-- The window copied arrives unchanged, whether or not the two windows overlap. -/
theorem slice_copyWithin {xs : List α} {src dst n : Nat} (hd : dst ≤ src)
    (hs : src + n ≤ xs.length) :
    slice (copyWithin xs src dst n) dst (dst + n) = slice xs src (src + n) := by
  apply List.ext_getElem?
  intro k
  rw [getElem?_slice, getElem?_slice, getElem?_copyWithin hd hs]
  by_cases hk : k < n
  · rw [if_pos (by omega), if_pos (by omega), if_pos (by omega), Nat.add_sub_cancel_left]
  · rw [if_neg (by omega), if_neg (by omega)]

end Lib.ListStore
