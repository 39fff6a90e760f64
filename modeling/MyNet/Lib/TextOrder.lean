import MyNet.Lib.Numeral

/-!
# The order of texts

Lists are compared element by element, as directory listings compare names. Texts made of pieces
of fixed widths are ordered by their pieces, and digits of one width by the numbers they spell.
-/
namespace Lib.TextOrder

open Lib.Numeral

universe u v

variable {α : Type u} {β : Type v}

section Pieces

variable [LT α]

theorem append_lt_append_iff {a b x y : List α} (h : a.length = b.length) :
    a ++ x < b ++ y ↔ a < b ∨ a = b ∧ x < y := by
  induction a generalizing b with
  | nil =>
    obtain rfl := List.length_eq_zero_iff.mp h.symm
    exact ⟨fun hlt => .inr ⟨rfl, hlt⟩, fun hlt => hlt.elim (absurd · (List.not_lt_nil _)) And.right⟩
  | cons c a ih =>
    cases b with
    | nil => cases h
    | cons d b =>
      rw [List.cons_append, List.cons_append, List.cons_lt_cons_iff, List.cons_lt_cons_iff,
        ih (Nat.succ.inj h), List.cons.injEq]
      tauto

/-- Every piece behind its mark, as a format prints them. -/
def marked (marks xs : List (List α)) : List α := (List.zipWith (· ++ ·) marks xs).flatten

/-- The marks of a format do not count. -/
theorem marked_lt_marked_iff [Std.Irrefl (fun x y : α => x < y)] {marks xs ys : List (List α)}
    (h : xs.map List.length = ys.map List.length) (hmarks : xs.length ≤ marks.length) :
    marked marks xs < marked marks ys ↔ xs < ys := by
  induction xs generalizing ys marks with
  | nil =>
    obtain rfl := List.map_eq_nil_iff.mp h.symm
    exact iff_of_false (List.lt_irrefl _) (List.lt_irrefl _)
  | cons x xs ih =>
    cases ys with
    | nil => cases h
    | cons y ys =>
      cases marks with
      | nil => cases hmarks
      | cons mark marks =>
        obtain ⟨hlength, hothers⟩ := List.cons.inj h
        have hpiece : (mark ++ x).length = (mark ++ y).length := by
          rw [List.length_append, List.length_append, hlength]
        have hrest := ih hothers (Nat.le_of_succ_le_succ hmarks)
        rw [marked, marked, List.zipWith_cons_cons, List.zipWith_cons_cons, List.flatten_cons,
          List.flatten_cons, append_lt_append_iff hpiece, append_lt_append_iff rfl,
          List.append_cancel_left_eq, List.cons_lt_cons_iff]
        rw [marked, marked] at hrest
        rw [hrest]
        have hmark : ¬mark < mark := List.lt_irrefl mark
        tauto

theorem map_lt_map_iff [LT β] {f : α → β} {xs ys : List α}
    (hlt : ∀ x ∈ xs, ∀ y ∈ ys, f x < f y ↔ x < y) (heq : ∀ x ∈ xs, ∀ y ∈ ys, f x = f y ↔ x = y) :
    xs.map f < ys.map f ↔ xs < ys := by
  induction xs generalizing ys with
  | nil =>
    cases ys with
    | nil => exact iff_of_false (List.not_lt_nil _) (List.not_lt_nil _)
    | cons y ys => exact iff_of_true (List.nil_lt_cons _ _) (List.nil_lt_cons _ _)
  | cons x xs ih =>
    cases ys with
    | nil => exact iff_of_false (List.not_lt_nil _) (List.not_lt_nil _)
    | cons y ys =>
      have hx : x ∈ x :: xs := List.mem_cons_self
      have hy : y ∈ y :: ys := List.mem_cons_self
      rw [List.map_cons, List.map_cons, List.cons_lt_cons_iff, List.cons_lt_cons_iff, hlt x hx y hy,
        heq x hx y hy, ih (fun a ha b hb => hlt a (.tail x ha) b (.tail y hb))
          (fun a ha b hb => heq a (.tail x ha) b (.tail y hb))]

/-- Texts of a linear order that come in its order are told apart and compared as their values. -/
theorem lt_iff_and_eq_iff [Std.Asymm (fun x y : α => x < y)] {γ : Type v} [LinearOrder γ]
    {p : γ → Prop} {f : γ → List α} (hmono : ∀ x y, p x → p y → x < y → f x < f y) {x y : γ}
    (hx : p x) (hy : p y) : (f x < f y ↔ x < y) ∧ (f x = f y ↔ x = y) := by
  rcases lt_trichotomy x y with hlt | rfl | hgt
  · have htext := hmono x y hx hy hlt
    refine ⟨iff_of_true htext hlt, iff_of_false (fun heq => ?_) (ne_of_lt hlt)⟩
    rw [heq] at htext
    exact List.lt_irrefl _ htext
  · exact ⟨iff_of_false (List.lt_irrefl _) (lt_irrefl x), iff_of_true rfl rfl⟩
  · have htext := hmono y x hy hx hgt
    refine ⟨iff_of_false (List.lt_asymm htext) (lt_asymm hgt),
      iff_of_false (fun heq => ?_) (ne_of_gt hgt)⟩
    rw [heq] at htext
    exact List.lt_irrefl _ htext

end Pieces

/-! ## Digits -/

variable {b : Nat} {ds es : List Nat}

theorem value_cons (b d : Nat) (ds : List Nat) :
    value b (d :: ds) = d * b ^ ds.length + value b ds := by
  rw [value_eq_ofDigits, value_eq_ofDigits, List.reverse_cons, Nat.ofDigits_append,
    List.length_reverse, Nat.ofDigits_singleton]
  ring

theorem value_lt_pow (hb : 1 < b) (h : ∀ d ∈ ds, d < b) : value b ds < b ^ ds.length := by
  have hlt := Nat.ofDigits_lt_base_pow_length hb
    (fun d (hd : d ∈ ds.reverse) => h d (List.mem_reverse.mp hd))
  rwa [List.length_reverse, ← value_eq_ofDigits] at hlt

/-- As many digits spell the smaller number when they come first. -/
theorem lt_iff_value_lt (hb : 1 < b) (hds : ∀ d ∈ ds, d < b) (hes : ∀ e ∈ es, e < b)
    (h : ds.length = es.length) : ds < es ↔ value b ds < value b es := by
  induction ds generalizing es with
  | nil =>
    obtain rfl := List.length_eq_zero_iff.mp h.symm
    exact iff_of_false (List.not_lt_nil _) (Nat.lt_irrefl _)
  | cons d ds ih =>
    cases es with
    | nil => cases h
    | cons e es =>
      obtain ⟨-, hds⟩ := List.forall_mem_cons.mp hds
      obtain ⟨-, hes⟩ := List.forall_mem_cons.mp hes
      have hlength : ds.length = es.length := Nat.succ.inj h
      have hlow := value_lt_pow hb hds
      have hup := value_lt_pow hb hes
      rw [List.cons_lt_cons_iff, ih hds hes hlength, value_cons, value_cons]
      rw [hlength] at hlow ⊢
      rcases Nat.lt_trichotomy d e with hlt | rfl | hgt
      · have hstep := Nat.mul_le_mul_right (b ^ es.length) (Nat.succ_le_of_lt hlt)
        rw [Nat.succ_mul] at hstep
        exact iff_of_true (.inl hlt) (by omega)
      · omega
      · have hstep := Nat.mul_le_mul_right (b ^ es.length) (Nat.succ_le_of_lt hgt)
        rw [Nat.succ_mul] at hstep
        refine iff_of_false ?_ (by omega)
        rintro (hlt | ⟨rfl, -⟩)
        · omega
        · omega

end Lib.TextOrder
