import Mathlib.Data.List.Basic
import Mathlib.Data.List.Induction
import Mathlib.Data.List.Perm.Basic
import Mathlib.Data.List.Count
import Mathlib.Data.List.Flatten

/-!
# Histories

A history is the list of what happened, oldest first. `lastOf p` is the latest entry
of a kind. A history tagged with the actor of each entry is determined, up to the
interleaving of different actors, by what each actor did. Entries that are lists are
read off one after the other.
-/
namespace Lib.History

universe u v

variable {α : Type u} {ι : Type v}

/-- The latest entry of kind `p`. -/
def lastOf (p : α → Bool) (xs : List α) : Option α := (xs.filter p).getLast?

theorem lastOf_concat (p : α → Bool) (xs : List α) (x : α) :
    lastOf p (xs ++ [x]) = if p x then some x else lastOf p xs := by
  unfold lastOf
  rw [List.filter_append]
  by_cases hp : p x = true
  · rw [List.filter_cons_of_pos hp, if_pos hp, List.filter_nil, List.getLast?_concat]
  · rw [List.filter_cons_of_neg hp, if_neg hp, List.filter_nil, List.append_nil]

/-- The first `k` of the entries `zs`, put together, are the contents of some of the entries
with all of the earlier ones `ys` among them exactly if nothing of `ys` is left after `k`. -/
theorem flatten_covers_iff {ys zs : List (List α)} (h : ys <+: zs) (k : Nat) :
    (∃ ls, ys.Sublist ls ∧ ls.Sublist zs ∧ (zs.take k).flatten = ls.flatten) ↔
      (ys.drop k).flatten = [] := by
  obtain ⟨rs, rfl⟩ := h
  have hsplit : ys.flatten = (ys.take k).flatten ++ (ys.drop k).flatten := by
    rw [← List.flatten_append, List.take_append_drop]
  by_cases hk : k ≤ ys.length
  · rw [List.take_append_of_le_length hk]
    constructor
    · rintro ⟨ls, hls, -, he⟩
      have hlen := hls.flatten.length_le
      rw [← he, hsplit, List.length_append] at hlen
      exact List.length_eq_zero_iff.mp (by omega)
    · intro hd
      refine ⟨ys, List.Sublist.refl ys, List.sublist_append_left ys rs, ?_⟩
      rw [hsplit, hd, List.append_nil]
  · have hle : ys.length ≤ k := Nat.le_of_not_le hk
    refine iff_of_true ⟨(ys ++ rs).take k, ?_, List.take_sublist k _, rfl⟩ ?_
    · rw [List.take_append, List.take_of_length_le hle]
      exact List.sublist_append_left ys _
    · rw [List.drop_eq_nil_of_le hle, List.flatten_nil]

/-- Entries made out of `xs` and put together in groups are made out of groups of `xs`. -/
theorem exists_regroup {β : Type u} {f : α → β} {xs : List α} {gs : List (List β)}
    (h : xs.map f = gs.flatten) :
    ∃ hs : List (List α), hs.flatten = xs ∧ hs.map (·.map f) = gs := by
  induction gs generalizing xs with
  | nil => exact ⟨[], (List.map_eq_nil_iff.mp h).symm, rfl⟩
  | cons g gs ih =>
    obtain ⟨ys, zs, rfl, rfl, hzs⟩ := List.map_eq_append_iff.mp h
    obtain ⟨hs, rfl, rfl⟩ := ih hzs
    exact ⟨ys :: hs, rfl, rfl⟩

variable [DecidableEq ι]

/-- What actor `i` did, in order. -/
def doneBy (i : ι) (xs : List (ι × α)) : List α := (xs.filter (·.1 = i)).map Prod.snd

theorem doneBy_concat (i : ι) (xs : List (ι × α)) (x : ι × α) :
    doneBy i (xs ++ [x]) = if x.1 = i then doneBy i xs ++ [x.2] else doneBy i xs := by
  unfold doneBy
  rw [List.filter_append, List.map_append]
  by_cases hx : x.1 = i
  · rw [if_pos hx, List.filter_cons_of_pos (by simpa using hx)]
    rfl
  · rw [if_neg hx, List.filter_cons_of_neg (by simpa using hx)]
    exact List.append_nil _

theorem doneBy_append (i : ι) (xs ys : List (ι × α)) :
    doneBy i (xs ++ ys) = doneBy i xs ++ doneBy i ys := by
  rw [doneBy, List.filter_append, List.map_append]
  rfl

theorem count_doneBy [DecidableEq α] (xs : List (ι × α)) (x : ι × α) :
    (doneBy x.1 xs).count x.2 = xs.count x := by
  induction xs with
  | nil => rfl
  | cons y ys ih =>
    unfold doneBy at ih ⊢
    by_cases hy : y.1 = x.1
    · rw [List.filter_cons_of_pos (by simpa using hy), List.map_cons, List.count_cons,
        List.count_cons, ih]
      congr 1
      simp [Prod.ext_iff, hy]
    · rw [List.filter_cons_of_neg (by simpa using hy), ih, List.count_cons_of_ne]
      intro h
      exact hy (congrArg Prod.fst h)

/-- Histories in which every actor did the same differ only in the interleaving. -/
theorem perm_of_doneBy {xs ys : List (ι × α)} (h : ∀ i, doneBy i xs = doneBy i ys) : xs.Perm ys := by
  classical
  rw [List.perm_iff_count]
  intro x
  rw [← count_doneBy, ← count_doneBy, h]

theorem doneBy_absent {i : ι} {xs : List (ι × α)} (h : ∀ x ∈ xs, x.1 ≠ i) : doneBy i xs = [] := by
  rw [doneBy, List.filter_eq_nil_iff.mpr fun x hx => by simpa using h x hx]
  rfl

/-- When the actors come in order, their histories one after the other are the whole. -/
theorem flatten_doneBy {xs : List (Nat × α)} (hsorted : (xs.map Prod.fst).Pairwise (· ≤ ·))
    {n : Nat} (hlt : ∀ x ∈ xs, x.1 < n) :
    ((List.range n).map (doneBy · xs)).flatten = xs.map Prod.snd := by
  induction xs using List.reverseRecOn with
  | nil =>
    rw [List.map_nil, List.flatten_eq_nil_iff]
    intro ys hys
    obtain ⟨k, -, rfl⟩ := List.mem_map.mp hys
    rfl
  | append_singleton xs x ih =>
    rw [List.map_append, List.pairwise_append] at hsorted
    obtain ⟨hfront, -, hle⟩ := hsorted
    replace ih := ih hfront fun y hy => hlt y (List.mem_append_left _ hy)
    -- behind the last actor there is nothing, with or without the new entry
    obtain ⟨j, rfl⟩ := Nat.exists_eq_add_of_lt (hlt x (List.mem_append_right _ List.mem_cons_self))
    have hx (y : Nat × α) (hy : y ∈ xs) : y.1 ≤ x.1 :=
      hle y.1 (List.mem_map_of_mem hy) x.1 List.mem_cons_self
    have hlater (k : Nat) : doneBy (x.1 + 1 + k) xs = [] :=
      doneBy_absent fun y hy => by have := hx y hy; omega
    have hothers (k : Nat) (hk : k ≠ x.1) : doneBy k (xs ++ [x]) = doneBy k xs := by
      rw [doneBy_concat, if_neg (Ne.symm hk)]
    have hsplit (ys : List (Nat × α)) (h : ∀ k, doneBy (x.1 + 1 + k) ys = []) :
        ((List.range (x.1 + j + 1)).map (doneBy · ys)).flatten =
          ((List.range x.1).map (doneBy · ys)).flatten ++ doneBy x.1 ys := by
      have hrest : ((List.range j).map ((doneBy · ys) ∘ (x.1 + 1 + ·))).flatten = [] := by
        rw [List.flatten_eq_nil_iff]
        intro zs hzs
        obtain ⟨k, -, rfl⟩ := List.mem_map.mp hzs
        exact h k
      rw [show x.1 + j + 1 = x.1 + 1 + j by omega, List.range_add, List.map_append, List.map_map,
        List.flatten_append, hrest, List.append_nil, List.range_succ, List.map_append,
        List.flatten_append, List.map_singleton, List.flatten_singleton]
    rw [hsplit xs hlater] at ih
    rw [hsplit _ fun k => (hothers _ (by omega)).trans (hlater k), doneBy_concat, if_pos rfl,
      ← List.append_assoc, List.map_append, List.map_singleton, ← ih]
    congr 3
    refine List.map_congr_left fun k hk => hothers k ?_
    have := List.mem_range.mp hk
    omega

/-! ## Keeping the entries that carry a value -/

section Retag

variable {κ : Type v} [DecidableEq κ] (f : ι → κ)

/-- The entries with a value, filed under another name of the actor. -/
def retag (xs : List (ι × Option α)) : List (κ × α) :=
  xs.filterMap fun x => x.2.map fun a => (f x.1, a)

omit [DecidableEq ι] [DecidableEq κ] in
theorem map_snd_retag (xs : List (ι × Option α)) :
    (retag f xs).map Prod.snd = xs.filterMap Prod.snd := by
  rw [retag, List.map_filterMap]
  congr 1
  funext x
  rw [Option.map_map]
  exact Option.map_id_apply

theorem doneBy_retag {f : ι → κ} (hf : Function.Injective f) (i : ι) (xs : List (ι × Option α)) :
    doneBy (f i) (retag f xs) = (doneBy i xs).filterMap id := by
  induction xs using List.reverseRecOn with
  | nil => rfl
  | append_singleton xs x ih =>
    rw [doneBy_concat]
    obtain ⟨j, o⟩ := x
    cases o with
    | none =>
      have hskip : retag f (xs ++ [(j, none)]) = retag f xs := by
        rw [retag, List.filterMap_append]
        exact List.append_nil _
      rw [hskip, ih]
      split
      · rw [List.filterMap_append]
        exact (List.append_nil _).symm
      · rfl
    | some a =>
      have hkeep : retag f (xs ++ [(j, some a)]) = retag f xs ++ [(f j, a)] := by
        rw [retag, List.filterMap_append]
        rfl
      rw [hkeep, doneBy_concat]
      by_cases hj : j = i
      · rw [if_pos (congrArg f hj), if_pos hj, ih, List.filterMap_append]
        rfl
      · rw [if_neg (fun h => hj (hf h)), if_neg hj, ih]

omit [DecidableEq ι] in
theorem doneBy_retag_other {f : ι → κ} {k : κ} (hk : ∀ i, f i ≠ k) (xs : List (ι × Option α)) :
    doneBy k (retag f xs) = [] := by
  rw [doneBy, List.filter_eq_nil_iff.mpr]
  · rfl
  · intro y hy
    obtain ⟨x, -, hx⟩ := List.mem_filterMap.mp hy
    obtain ⟨a, -, rfl⟩ := Option.map_eq_some_iff.mp hx
    simpa using hk x.1

end Retag

/-- An entry of a history is an earlier one or the last. -/
theorem getElem?_concat_cases {xs : List α} {x y : α} {k : Nat}
    (h : (xs ++ [x])[k]? = some y) : xs[k]? = some y ∨ (k = xs.length ∧ y = x) := by
  rcases Nat.lt_trichotomy k xs.length with hlt | rfl | hgt
  · rw [List.getElem?_append_left hlt] at h
    exact .inl h
  · rw [List.getElem?_concat_length] at h
    exact .inr ⟨rfl, (Option.some.inj h).symm⟩
  · rw [List.getElem?_eq_none (by rw [List.length_append, List.length_singleton]; omega)] at h
    cases h

end Lib.History
