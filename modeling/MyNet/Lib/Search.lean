import Mathlib.Data.List.Basic
import Mathlib.Data.List.Infix
import Mathlib.Data.List.TakeWhile

/-!
# Searching a list

`search` is the search for the first occurrence of a word: it gives an offset, and the length
where the word does not occur. What a caller relies on is `IsFirst`, the least position with a
property. A text is cut at the first occurrence, and the piece before it is free of the word.
-/
namespace Lib.Search

universe u

/-- `r` is the least position from `start` on that satisfies `p`, `none` if no position does. -/
def IsFirst (p : Nat → Prop) (start : Nat) : Option Nat → Prop
  | some i => start ≤ i ∧ p i ∧ ∀ j, start ≤ j → j < i → ¬ p j
  | none => ∀ j, start ≤ j → ¬ p j

/-- Positions counted from `start`. -/
theorem IsFirst.shift {p q : Nat → Prop} {start : Nat} {r : Option Nat}
    (h : IsFirst q 0 r) (hiff : ∀ i, q i ↔ p (start + i)) :
    IsFirst p start (r.map (start + ·)) := by
  cases r with
  | none =>
    intro j hj hp
    apply h (j - start) (Nat.zero_le _)
    rw [hiff, Nat.add_sub_cancel' hj]
    exact hp
  | some i =>
    obtain ⟨-, hi, hleast⟩ := h
    refine ⟨Nat.le_add_right _ _, (hiff i).mp hi, ?_⟩
    intro j hj (hlt : j < start + i) hp
    have hback : start + (j - start) = j := Nat.add_sub_cancel' hj
    apply hleast (j - start) (Nat.zero_le _) (by omega)
    rw [hiff, hback]
    exact hp

variable {α : Type u}

/-- A word that is not empty begins at no position behind the last element. -/
theorem lt_length_of_prefix_drop {word xs : List α} (hword : word ≠ []) {i : Nat}
    (h : word <+: xs.drop i) : i + word.length ≤ xs.length := by
  have hlength := h.length_le
  have hpos := List.length_pos_iff.mpr hword
  rw [List.length_drop] at hlength
  omega

/-- Cut at the last occurrence. -/
theorem exists_last_of_mem {x : α} {xs : List α} (h : x ∈ xs) :
    ∃ before after, xs = before ++ x :: after ∧ x ∉ after := by
  obtain ⟨front, back, hreverse, hfree⟩ := List.eq_append_cons_of_mem (List.mem_reverse.mpr h)
  refine ⟨back.reverse, front.reverse, ?_, mt List.mem_reverse.mp hfree⟩
  rw [← List.reverse_reverse xs, hreverse, List.reverse_append, List.reverse_cons,
    List.append_assoc, List.singleton_append]

variable [DecidableEq α]

def search (word : List α) : List α → Nat
  | [] => 0
  | x :: xs => if word <+: x :: xs then 0 else search word xs + 1

theorem search_le (word xs : List α) : search word xs ≤ xs.length := by
  induction xs with
  | nil => exact Nat.le_refl 0
  | cons x xs ih =>
    rw [search, List.length_cons]
    split
    · exact Nat.zero_le _
    · exact Nat.succ_le_succ ih

theorem search_least {word xs : List α} {i : Nat} (h : i < search word xs) :
    ¬ word <+: xs.drop i := by
  induction xs generalizing i with
  | nil => exact absurd h (Nat.not_lt_zero i)
  | cons x xs ih =>
    rw [search] at h
    by_cases hhead : word <+: x :: xs
    · rw [if_pos hhead] at h
      exact absurd h (Nat.not_lt_zero i)
    · rw [if_neg hhead] at h
      cases i with
      | zero => exact hhead
      | succ i => exact ih (Nat.lt_of_succ_lt_succ h)

theorem search_found {word xs : List α} (h : search word xs < xs.length) :
    word <+: xs.drop (search word xs) := by
  induction xs with
  | nil => exact absurd h (Nat.not_lt_zero _)
  | cons x xs ih =>
    rw [search] at h ⊢
    by_cases hhead : word <+: x :: xs
    · rw [if_pos hhead]
      exact hhead
    · rw [if_neg hhead] at h ⊢
      exact ih (Nat.lt_of_succ_lt_succ h)

theorem search_isFirst {word : List α} (hword : word ≠ []) (xs : List α) :
    IsFirst (fun i => word <+: xs.drop i) 0
      (if search word xs = xs.length then none else some (search word xs)) := by
  have hle := search_le word xs
  split
  · rename_i hend
    intro i _ hprefix
    have hi := lt_length_of_prefix_drop hword hprefix
    have hpos := List.length_pos_iff.mpr hword
    exact search_least (by omega) hprefix
  · exact ⟨Nat.zero_le _, search_found (by omega), fun i _ => search_least⟩

theorem search_eq_length_iff {word : List α} (hword : word ≠ []) (xs : List α) :
    search word xs = xs.length ↔ ¬ word <:+: xs := by
  constructor
  · rintro hend ⟨s, t, rfl⟩
    have hpos := List.length_pos_iff.mpr hword
    have hs : s.length < search word (s ++ word ++ t) := by
      rw [hend, List.length_append, List.length_append]
      omega
    apply search_least hs
    rw [List.append_assoc, List.drop_left]
    exact List.prefix_append word t
  · intro hfree
    by_contra hne
    have hfound := search_found (Nat.lt_of_le_of_ne (search_le word xs) hne)
    exact hfree (hfound.isInfix.trans (List.drop_suffix _ xs).isInfix)

/-- The piece before the first occurrence, the word, the rest. -/
theorem search_cut {word xs : List α} (h : search word xs < xs.length) :
    xs.take (search word xs) ++ word ++ xs.drop (search word xs + word.length) = xs := by
  have hword := List.prefix_iff_eq_append.mp (search_found h)
  rw [List.drop_drop] at hword
  rw [List.append_assoc, hword, List.take_append_drop]

theorem search_take_free {word : List α} (hword : word ≠ []) (xs : List α) :
    ¬ word <:+: xs.take (search word xs) := by
  rintro ⟨s, t, hcut⟩
  have hpos := List.length_pos_iff.mpr hword
  have hlength := congrArg List.length hcut
  rw [List.length_append, List.length_append, List.length_take] at hlength
  have hs : s.length < search word xs := by omega
  apply search_least hs
  have hxs := List.take_append_drop (search word xs) xs
  rw [← hcut, List.append_assoc, List.append_assoc] at hxs
  rw [← hxs, List.drop_left]
  exact List.prefix_append _ _

theorem idxOf?_isFirst (x : α) (xs : List α) :
    IsFirst (fun i => [x] <+: xs.drop i) 0 (xs.idxOf? x) := by
  have hat : ∀ i, [x] <+: xs.drop i ↔ xs[i]? = some x := fun i => by
    rw [List.singleton_prefix_iff_head?_eq_some, List.head?_drop]
  simp only [hat]
  cases hidx : xs.idxOf? x with
  | none =>
    intro i _ hi
    exact List.idxOf?_eq_none_iff.mp hidx (List.mem_of_getElem? hi)
  | some i =>
    obtain ⟨hi, hx, hleast⟩ := List.idxOf?_eq_some_iff.mp hidx
    refine ⟨Nat.zero_le _, List.getElem?_eq_some_iff.mpr ⟨hi, hx⟩, ?_⟩
    intro j _ hj hjx
    obtain ⟨_, hjx⟩ := List.getElem?_eq_some_iff.mp hjx
    exact hleast j hj hjx

/-! ## One element -/

def lastIdxOf? (x : α) (xs : List α) : Option Nat :=
  (xs.reverse.idxOf? x).map (xs.length - 1 - ·)

variable {x : α} {before after : List α}

theorem takeWhile_ne_append_cons (h : x ∉ before) :
    (before ++ x :: after).takeWhile (· != x) = before := by
  have hall : ∀ y ∈ before, (y != x) = true := by
    intro y hy
    rw [bne_iff_ne]
    exact ne_of_mem_of_not_mem hy h
  rw [List.takeWhile_append_of_pos hall, List.takeWhile_cons_of_neg (by simp), List.append_nil]

theorem takeWhile_ne_of_notMem {xs : List α} (h : x ∉ xs) : xs.takeWhile (· != x) = xs := by
  apply List.takeWhile_eq_self_iff.mpr
  intro y hy
  rw [bne_iff_ne]
  exact ne_of_mem_of_not_mem hy h

theorem idxOf?_append_cons (h : x ∉ before) :
    (before ++ x :: after).idxOf? x = some before.length := by
  induction before with
  | nil => simp [List.idxOf?_cons]
  | cons y before ih =>
    rw [List.mem_cons, not_or] at h
    simp [List.idxOf?_cons, Ne.symm h.1, ih h.2]

theorem lastIdxOf?_append_cons (h : x ∉ after) :
    lastIdxOf? x (before ++ x :: after) = some before.length := by
  have hback : (before ++ x :: after).reverse = after.reverse ++ x :: before.reverse := by
    rw [List.reverse_append, List.reverse_cons, List.append_assoc, List.singleton_append]
  rw [lastIdxOf?, hback, idxOf?_append_cons (mt List.mem_reverse.mp h), Option.map_some,
    List.length_append, List.length_cons, List.length_reverse]
  congr 1
  omega

theorem lastIdxOf?_of_notMem {xs : List α} (h : x ∉ xs) : lastIdxOf? x xs = none := by
  rw [lastIdxOf?, List.idxOf?_eq_none_iff.mpr (mt List.mem_reverse.mp h), Option.map_none]

end Lib.Search
