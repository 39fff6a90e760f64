import Mathlib.Data.List.Basic

/-!
# Halving

A predicate that holds at the front of a list up to some place and nowhere behind it. A search
that halves keeps a window around that place, and a window that has closed cuts the list where
a scan of all elements would.
-/
namespace Lib.Bisect

universe u

variable {α : Type u} {p : α → Bool} {xs : List α} {first len : Nat}

/-- An element that satisfies `p` has only such elements in front of it. -/
def Downward (p : α → Bool) (xs : List α) : Prop :=
  xs.Pairwise fun a b => p b = true → p a = true

/-- The elements before `first` satisfy `p`, and those from `first + len` on do not. -/
structure Window (p : α → Bool) (xs : List α) (first len : Nat) : Prop where
  within : first + len ≤ xs.length
  before : ∀ i (h : i < xs.length), i < first → p xs[i] = true
  behind : ∀ i (h : i < xs.length), first + len ≤ i → p xs[i] = false

theorem Window.whole (p : α → Bool) (xs : List α) : Window p xs 0 xs.length where
  within := Nat.le_of_eq (Nat.zero_add _)
  before := fun _ _ hlt => absurd hlt (Nat.not_lt_zero _)
  behind := fun i h hle => absurd h (by omega)

theorem Downward.of_le (hp : Downward p xs) {i j : Nat} (hi : i < xs.length) (hj : j < xs.length)
    (hij : i ≤ j) (h : p xs[j] = true) : p xs[i] = true := by
  rcases Nat.eq_or_lt_of_le hij with rfl | hlt
  · exact h
  · exact List.pairwise_iff_getElem.mp hp i j hi hj hlt h

/-- The middle satisfies `p`, and the window moves behind it. -/
theorem Window.right (h : Window p xs first len) (hp : Downward p xs) {half : Nat}
    (hhalf : half < len) (hlt : first + half < xs.length) (hmiddle : p xs[first + half] = true) :
    Window p xs (first + half + 1) (len - half - 1) where
  within := by have := h.within; omega
  before := by
    intro i hi hbefore
    exact hp.of_le hi hlt (by omega) hmiddle
  behind := by
    intro i hi hbehind
    exact h.behind i hi (by omega)

/-- The middle does not satisfy `p`, and the window ends at it. -/
theorem Window.left (h : Window p xs first len) (hp : Downward p xs) {half : Nat}
    (hlt : first + half < xs.length) (hmiddle : p xs[first + half] = false) :
    Window p xs first half where
  within := Nat.le_of_lt hlt
  before := h.before
  behind := by
    intro i hi hbehind
    by_contra hne
    have hthere := hp.of_le hlt hi hbehind (Bool.not_eq_false _ ▸ hne)
    rw [hmiddle] at hthere
    cases hthere

/-- A closed window is where the elements that satisfy `p` end. -/
theorem Window.filter (h : Window p xs first 0) : xs.filter p = xs.take first := by
  have hfront : (xs.take first).filter p = xs.take first := by
    rw [List.filter_eq_self]
    intro x hx
    obtain ⟨i, hi, rfl⟩ := List.mem_take_iff_getElem.mp hx
    exact h.before i (by omega) (by omega)
  have hback : (xs.drop first).filter p = [] := by
    rw [List.filter_eq_nil_iff]
    intro x hx
    obtain ⟨i, hi, rfl⟩ := List.mem_drop_iff_getElem.mp hx
    rw [h.behind _ _ (by omega)]
    exact Bool.false_ne_true
  calc xs.filter p = (xs.take first ++ xs.drop first).filter p := by rw [List.take_append_drop]
    _ = xs.take first := by rw [List.filter_append, hfront, hback, List.append_nil]

/-- The last element that satisfies `p` is in front of a closed window. -/
theorem Window.getLast?_filter (h : Window p xs (first + 1) 0) :
    (xs.filter p).getLast? = xs[first]? := by
  have hwithin := h.within
  rw [h.filter, List.getLast?_take, if_neg (Nat.succ_ne_zero first), Nat.add_sub_cancel,
    List.getElem?_eq_getElem (by omega), Option.some_or]

end Lib.Bisect
