import Mathlib.Logic.Basic

/-!
# Running state programs that may fault

Equations for applying an `EStateM` program to a state. Under this simp set a
`do` block becomes the tests and record updates it performs; a fault keeps the
state it was raised in.
-/
namespace Lib.FaultState

universe u

variable {ε σ α β : Type u}

@[simp] theorem bind_apply (x : EStateM ε σ α) (f : α → EStateM ε σ β) (s : σ) :
    (x >>= f) s = match x s with
      | .ok a t => f a t
      | .error e t => .error e t := rfl

/-- A sequence that returns has a first part that returned. -/
theorem bind_ok {x : EStateM ε σ α} {f : α → EStateM ε σ β} {s t : σ} {b : β}
    (h : (x >>= f) s = .ok b t) : ∃ a s', x s = .ok a s' ∧ f a s' = .ok b t := by
  rw [bind_apply] at h
  split at h
  · exact ⟨_, _, by assumption, h⟩
  · cases h

/-- A sequence that faults has a part that faults. -/
theorem bind_error {x : EStateM ε σ α} {f : α → EStateM ε σ β} {s t : σ} {e : ε}
    (h : (x >>= f) s = .error e t) :
    x s = .error e t ∨ ∃ a s', x s = .ok a s' ∧ f a s' = .error e t := by
  rw [bind_apply] at h
  split at h
  · exact Or.inr ⟨_, _, by assumption, h⟩
  · cases h
    exact Or.inl (by assumption)

@[simp] theorem pure_apply (a : α) (s : σ) : (pure a : EStateM ε σ α) s = .ok a s := rfl

@[simp] theorem get_apply (s : σ) : (get : EStateM ε σ σ) s = .ok s s := rfl

theorem get_bind_apply (f : σ → EStateM ε σ β) (s : σ) : (get >>= f) s = f s s := rfl

@[simp] theorem set_apply (t s : σ) : (set t : EStateM ε σ PUnit) s = .ok ⟨⟩ t := rfl

@[simp] theorem modify_apply (f : σ → σ) (s : σ) :
    (modify f : EStateM ε σ PUnit) s = .ok ⟨⟩ (f s) := rfl

theorem modify_bind_apply (g : σ → σ) (f : PUnit → EStateM ε σ β) (s : σ) :
    (modify g >>= f) s = f ⟨⟩ (g s) := rfl

@[simp] theorem throw_apply (e : ε) (s : σ) : (throw e : EStateM ε σ α) s = .error e s := rfl

@[simp] theorem if_apply (p : Prop) [Decidable p] (x y : EStateM ε σ α) (s : σ) :
    (if p then x else y) s = if p then x s else y s := by
  split <;> rfl

/-! ## Which faults a program may end in -/

/-- Every fault of `x` is one of `P`. -/
def FaultsIn (P : ε → Prop) (x : EStateM ε σ α) : Prop := ∀ s e t, x s = .error e t → P e

section FaultsIn

variable {P : ε → Prop}

theorem FaultsIn.bind {x : EStateM ε σ α} {f : α → EStateM ε σ β} (hx : FaultsIn P x)
    (hf : ∀ a, FaultsIn P (f a)) : FaultsIn P (x >>= f) := by
  intro s e t h
  rcases bind_error h with hfirst | ⟨a, s', -, hrest⟩
  · exact hx s e t hfirst
  · exact hf a s' e t hrest

theorem FaultsIn.ite {p : Prop} [Decidable p] {x y : EStateM ε σ α} (hx : FaultsIn P x)
    (hy : FaultsIn P y) : FaultsIn P (if p then x else y) := by
  split
  · exact hx
  · exact hy

theorem FaultsIn.pure (a : α) : FaultsIn P (pure a : EStateM ε σ α) := fun _ _ _ h => nomatch h

theorem FaultsIn.get : FaultsIn P (get : EStateM ε σ σ) := fun _ _ _ h => nomatch h

theorem FaultsIn.set (t : σ) : FaultsIn P (set t : EStateM ε σ PUnit) := fun _ _ _ h => nomatch h

theorem FaultsIn.modify (f : σ → σ) : FaultsIn P (modify f : EStateM ε σ PUnit) :=
  fun _ _ _ h => nomatch h

theorem FaultsIn.throw {e : ε} (he : P e) : FaultsIn P (throw e : EStateM ε σ α) := by
  rintro s _ t h
  cases h
  exact he

end FaultsIn

end Lib.FaultState
