import MyNet.Lib.Search

/-!
# Text cut at a delimiter

`Cut word xs pieces rest` says that the text `xs` is the pieces, each with the delimiter behind
it, and then the rest, and that no piece holds the delimiter, nor does the rest. Every text can
be cut, and in one way only when no end of the delimiter is a beginning of it.
-/
namespace Lib.Delimited

open Lib.Search

universe u

variable {α : Type u} {word xs ys rest rest' : List α} {pieces more : List (List α)}

structure Cut (word xs : List α) (pieces : List (List α)) (rest : List α) : Prop where
  join : pieces.flatMap (· ++ word) ++ rest = xs
  piece_free : ∀ p ∈ pieces, ¬ word <:+: p
  rest_free : ¬ word <:+: rest

/-- No end of the word, other than the whole and nothing, is a beginning of it. -/
def Unbordered (word : List α) : Prop :=
  ∀ d, 0 < d → d < word.length → ¬ word.drop d <+: word

theorem Cut.nil (h : ¬ word <:+: xs) : Cut word xs [] xs where
  join := rfl
  piece_free := List.forall_mem_nil _
  rest_free := h

theorem Cut.cons {p : List α} (hp : ¬ word <:+: p) (h : Cut word xs pieces rest) :
    Cut word (p ++ word ++ xs) (p :: pieces) rest where
  join := by rw [List.flatMap_cons, List.append_assoc, h.join]
  piece_free := List.forall_mem_cons.mpr ⟨hp, h.piece_free⟩
  rest_free := h.rest_free

/-- The delimiter is not found before the end of a piece. -/
theorem not_prefix_before (hword : Unbordered word) {p : List α} (hp : ¬ word <:+: p) {i : Nat}
    (hi : i < p.length) (xs : List α) : ¬ word <+: (p ++ word ++ xs).drop i := by
  intro hprefix
  rw [List.append_assoc, List.drop_append_of_le_length (Nat.le_of_lt hi)] at hprefix
  have hlength : (p.drop i).length = p.length - i := List.length_drop
  by_cases hfit : word.length ≤ p.length - i
  · -- it would lie inside the piece
    have hinside : word <+: p.drop i :=
      List.prefix_of_prefix_length_le hprefix (List.prefix_append _ _) (by omega)
    exact hp (hinside.isInfix.trans (List.drop_suffix i p).isInfix)
  · -- it would reach into the delimiter behind the piece
    have hsplit : word = p.drop i ++ word.drop (p.length - i) := by
      have hbegin : p.drop i <+: word :=
        List.prefix_of_prefix_length_le (List.prefix_append _ _) hprefix (by omega)
      obtain ⟨later, hlater⟩ := hbegin
      rw [← hlater, ← hlength, List.drop_left]
    have hoverlap : word.drop (p.length - i) <+: word ++ xs := by
      rw [hsplit] at hprefix
      have hcancel := (List.prefix_append_right_inj (p.drop i)).mp hprefix
      rwa [← hsplit] at hcancel
    refine hword (p.length - i) (by omega) (by omega) ?_
    refine List.prefix_of_prefix_length_le hoverlap (List.prefix_append _ _) ?_
    rw [List.length_drop]
    omega

/-- The first piece of a text is determined. -/
theorem piece_unique (hword : Unbordered word) {p q : List α} (hp : ¬ word <:+: p)
    (hq : ¬ word <:+: q) (h : p ++ word ++ xs = q ++ word ++ ys) : p = q ∧ xs = ys := by
  have hle {p q xs ys : List α} (hp : ¬ word <:+: p) (h : p ++ word ++ xs = q ++ word ++ ys) :
      p.length ≤ q.length := by
    by_contra hlt
    refine not_prefix_before hword hp (Nat.lt_of_not_le hlt) xs ?_
    rw [h, List.append_assoc, List.drop_left]
    exact List.prefix_append _ _
  have hlength := Nat.le_antisymm (hle hp h) (hle hq h.symm)
  rw [List.append_assoc, List.append_assoc] at h
  obtain ⟨rfl, htail⟩ := List.append_inj h hlength
  exact ⟨rfl, List.append_cancel_left htail⟩

/-- Pieces taken off a text are the first of its pieces, and what is left holds the others. -/
theorem Cut.taken (hword : Unbordered word) {taken : List (List α)} {left : List α}
    (htaken : ∀ p ∈ taken, ¬ word <:+: p) (hjoin : taken.flatMap (· ++ word) ++ left = xs)
    (h : Cut word xs pieces rest) : ∃ more, pieces = taken ++ more ∧ Cut word left more rest := by
  induction taken generalizing xs pieces with
  | nil =>
    obtain rfl : left = xs := hjoin
    exact ⟨pieces, rfl, h⟩
  | cons p taken ih =>
    obtain ⟨hp, hothers⟩ := List.forall_mem_cons.mp htaken
    rw [List.flatMap_cons, List.append_assoc] at hjoin
    have hjoined := h.join
    cases pieces with
    | nil =>
      rw [List.flatMap_nil, List.nil_append, ← hjoin] at hjoined
      refine absurd ?_ h.rest_free
      rw [hjoined]
      exact ⟨p, _, rfl⟩
    | cons q pieces =>
      obtain ⟨hq, hfree⟩ := List.forall_mem_cons.mp h.piece_free
      rw [List.flatMap_cons, List.append_assoc, ← hjoin] at hjoined
      obtain ⟨rfl, htail⟩ := piece_unique hword hq hp hjoined
      obtain ⟨more, rfl, hleft⟩ := ih hothers rfl ⟨htail, hfree, h.rest_free⟩
      exact ⟨more, rfl, hleft⟩

theorem Cut.eq_nil (hxs : ¬ word <:+: xs)
    (h : Cut word xs pieces rest) : pieces = [] ∧ rest = xs := by
  cases pieces with
  | nil => exact ⟨rfl, h.join⟩
  | cons p pieces =>
    refine absurd ?_ hxs
    rw [← h.join, List.flatMap_cons, List.append_assoc, List.append_assoc]
    exact ⟨p, _, List.append_assoc p word _⟩

theorem Cut.pieces_eq_nil_iff (h : Cut word xs pieces rest) : pieces = [] ↔ ¬ word <:+: xs := by
  constructor
  · rintro rfl
    have hjoin : rest = xs := h.join
    exact hjoin ▸ h.rest_free
  · exact fun hxs => (h.eq_nil hxs).1

/-- A text can be cut in one way only. -/
theorem Cut.unique (hword : Unbordered word) {pieces' : List (List α)}
    (h : Cut word xs pieces rest) (h' : Cut word xs pieces' rest') :
    pieces = pieces' ∧ rest = rest' := by
  obtain ⟨more, rfl, hleft⟩ := h'.taken hword h.piece_free h.join
  obtain ⟨rfl, rfl⟩ := hleft.eq_nil h.rest_free
  exact ⟨(List.append_nil pieces).symm, rfl⟩

theorem exists_cut [DecidableEq α] (hword : word ≠ []) (xs : List α) :
    ∃ pieces rest, Cut word xs pieces rest := by
  induction hsize : xs.length using Nat.strong_induction_on generalizing xs with
  | _ n ih =>
    by_cases hfound : search word xs < xs.length
    · have hcut := search_cut hfound
      have hshort : (xs.drop (search word xs + word.length)).length < n := by
        have hpos := List.length_pos_iff.mpr hword
        rw [List.length_drop]
        omega
      obtain ⟨pieces, rest, h⟩ := ih _ hshort _ rfl
      refine ⟨xs.take (search word xs) :: pieces, rest, ?_⟩
      rw [← hcut]
      have hcons := h.cons (search_take_free hword xs)
      rwa [hcut] at hcons ⊢
    · have hend := Nat.le_antisymm (search_le word xs) (Nat.le_of_not_lt hfound)
      exact ⟨[], xs, .nil ((search_eq_length_iff hword xs).mp hend)⟩

end Lib.Delimited
