import Mathlib.Logic.Function.Basic

/-!
# A mutex and the threads inside

Each thread is at a place `φ` of its code, and `inside` says which places are behind the
mutex. `Held` says that the thread which has the mutex is the one inside. `Shows` is about a
field beside the mutex that the threads inside sign and clear.
-/
namespace Lib.Mutex

variable {ι φ : Type}

def Held (inside : φ → Bool) (mutex : Option ι) (threads : ι → φ) : Prop :=
  ∀ i, inside (threads i) = true ↔ mutex = some i

variable {inside : φ → Bool} {mutex : Option ι} {threads : ι → φ} {i j : ι} {p : φ}

/-- Two threads inside are one. -/
theorem Held.unique (h : Held inside mutex threads) (hi : inside (threads i) = true)
    (hj : inside (threads j) = true) : i = j :=
  Option.some.inj (((h i).mp hi).symm.trans ((h j).mp hj))

/-! ## A field that shows who is inside -/

variable {α : Type} {signed : φ → Bool} {mark : ι → α} {blank field : α}

/-- The field is the mark of the thread with the mutex while it is at a signed place, and blank
otherwise. -/
def Shows (signed : φ → Bool) (mark : ι → α) (blank : α) (mutex : Option ι) (threads : ι → φ)
    (field : α) : Prop :=
  field = mutex.elim blank fun i => if signed (threads i) then mark i else blank

theorem Shows.free (h : Shows signed mark blank none threads field) : field = blank := h

theorem Shows.marked (h : Shows signed mark blank (some i) threads field)
    (hi : signed (threads i) = true) : field = mark i := h.trans (if_pos hi)

theorem Shows.unmarked (h : Shows signed mark blank (some i) threads field)
    (hi : signed (threads i) = false) : field = blank :=
  h.trans (if_neg (Bool.eq_false_iff.mp hi))

theorem Shows.blank_or (h : Shows signed mark blank mutex threads field) :
    field = blank ∨ ∃ i, mutex = some i ∧ field = mark i := by
  cases mutex with
  | none => exact .inl h.free
  | some i =>
    cases hi : signed (threads i) with
    | true => exact .inr ⟨i, rfl, h.marked hi⟩
    | false => exact .inl (h.unmarked hi)

/-- Whoever leaves has cleared the field. -/
theorem Shows.exit (h : Shows signed mark blank (some i) threads field)
    (hi : signed (threads i) = false) (threads' : ι → φ) :
    Shows signed mark blank none threads' field := h.unmarked hi

/-! ## A thread moves -/

variable [DecidableEq ι]

theorem Held.stay (h : Held inside mutex threads) (hp : inside p = inside (threads i)) :
    Held inside mutex (Function.update threads i p) := by
  intro j
  by_cases hj : j = i
  · subst j
    rw [Function.update_self, hp]
    exact h i
  · rw [Function.update_of_ne hj]
    exact h j

theorem Held.enter (h : Held inside none threads) (hp : inside p = true) :
    Held inside (some i) (Function.update threads i p) := by
  intro j
  by_cases hj : j = i
  · subst j
    rw [Function.update_self]
    exact iff_of_true hp rfl
  · rw [Function.update_of_ne hj]
    exact iff_of_false (fun hin => nomatch (h j).mp hin) fun he => hj (Option.some.inj he).symm

theorem Held.exit (h : Held inside mutex threads) (hi : inside (threads i) = true)
    (hp : inside p = false) : Held inside none (Function.update threads i p) := by
  intro j
  by_cases hj : j = i
  · subst j
    rw [Function.update_self, hp]
    exact iff_of_false Bool.false_ne_true nofun
  · rw [Function.update_of_ne hj]
    exact iff_of_false (fun hin => hj (h.unique hin hi)) nofun

theorem Shows.stay (h : Shows signed mark blank mutex threads field)
    (hp : signed p = signed (threads i)) :
    Shows signed mark blank mutex (Function.update threads i p) field := by
  have hsame : ∀ j, signed (Function.update threads i p j) = signed (threads j) := by
    intro j
    by_cases hj : j = i
    · subst j
      rw [Function.update_self, hp]
    · rw [Function.update_of_ne hj]
  simp only [Shows, hsame]
  exact h

theorem Shows.enter (h : Shows signed mark blank none threads field) (hp : signed p = false) :
    Shows signed mark blank (some i) (Function.update threads i p) field := by
  rw [Shows, Option.elim_some, Function.update_self, hp]
  exact h

theorem shows_sign (hp : signed p = true) :
    Shows signed mark blank (some i) (Function.update threads i p) (mark i) := by
  rw [Shows, Option.elim_some, Function.update_self, if_pos hp]

theorem shows_clear (hp : signed p = false) :
    Shows signed mark blank (some i) (Function.update threads i p) blank := by
  rw [Shows, Option.elim_some, Function.update_self, hp]
  rfl

end Lib.Mutex
