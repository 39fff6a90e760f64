import Mathlib.Logic.Basic
import Mathlib.Data.List.Basic

/-!
# Machines and their runs

A machine has initial states and one labelled step. Whatever the environment
chooses (the thread that moves, the waiter a signal wakes, the result of a system
call) is part of the label, so a step is a function and a run on fixed labels can
be evaluated. `ReachIf C` keeps only the runs whose every step meets `C`, a
condition on the label and on the state before the step.
-/
namespace Lib

universe u v w

structure Machine (σ : Type u) (ε : Type v) where
  init : σ → Prop
  step : σ → ε → Option σ

namespace Machine

variable {σ : Type u} {ε : Type v} {τ : Type w} (M : Machine σ ε)

/-- The states reached by a run whose steps all meet `C`. -/
inductive ReachIf (C : σ → ε → Prop) : σ → Prop
  | init {s : σ} (h : M.init s) : ReachIf C s
  | step {s t : σ} (e : ε) (hs : ReachIf C s) (hc : C s e) (h : M.step s e = some t) :
      ReachIf C t

theorem ReachIf.mono {M : Machine σ ε} {C D : σ → ε → Prop} (hcd : ∀ s e, C s e → D s e) {s : σ}
    (h : M.ReachIf C s) : M.ReachIf D s := by
  induction h with
  | init hi => exact .init hi
  | step e _ hc he ih => exact .step e ih (hcd _ _ hc) he

/-- The states reached by any run. -/
def Reach (s : σ) : Prop := M.ReachIf (fun _ _ => True) s

/-- `I` holds initially and every step that meets `C` keeps it. -/
structure Inductive (C : σ → ε → Prop) (I : σ → Prop) : Prop where
  init : ∀ s, M.init s → I s
  step : ∀ s e t, I s → C s e → M.step s e = some t → I t

variable {M}

theorem Inductive.reach {C : σ → ε → Prop} {I : σ → Prop} (h : M.Inductive C I) {s : σ}
    (hs : M.ReachIf C s) : I s := by
  induction hs with
  | init hi => exact h.init _ hi
  | step e _ hc he ih => exact h.step _ e _ ih hc he

/-- A second invariant may use the first one in its step. -/
theorem Inductive.and {C : σ → ε → Prop} {I J : σ → Prop} (h : M.Inductive C I)
    (hi : ∀ s, M.init s → J s)
    (hs : ∀ s e t, I s → J s → C s e → M.step s e = some t → J t) :
    M.Inductive C (fun s => I s ∧ J s) where
  init s h0 := ⟨h.init s h0, hi s h0⟩
  step s e t hij hc he := ⟨h.step s e t hij.1 hc he, hs s e t hij.1 hij.2 hc he⟩

variable (M)

/-- The run on a list of labels, as long as each step is enabled and meets `C`. -/
def runIf (C : σ → ε → Prop) [∀ s e, Decidable (C s e)] : σ → List ε → Option σ
  | s, [] => some s
  | s, e :: es => if C s e then (M.step s e).bind (runIf C · es) else none

/-- The run on a list of labels. -/
abbrev run : σ → List ε → Option σ := M.runIf fun _ _ => True

variable {M}

theorem run_cons {s t : σ} {e : ε} (h : M.step s e = some t) (es : List ε) :
    M.run s (e :: es) = M.run t es := by
  rw [run, runIf, if_pos trivial, h]
  rfl

theorem run_of_runIf {C : σ → ε → Prop} [∀ s e, Decidable (C s e)] {s t : σ} {es : List ε}
    (h : M.runIf C s es = some t) : M.run s es = some t := by
  induction es generalizing s with
  | nil => exact h
  | cons e es ih =>
    by_cases hc : C s e
    · rw [runIf, if_pos hc] at h
      obtain ⟨u, hu, hrest⟩ := Option.bind_eq_some_iff.mp h
      rw [run_cons hu]
      exact ih hrest
    · rw [runIf, if_neg hc] at h
      cases h

theorem runIf_append {C : σ → ε → Prop} [∀ s e, Decidable (C s e)] (s : σ) (es fs : List ε) :
    M.runIf C s (es ++ fs) = (M.runIf C s es).bind (M.runIf C · fs) := by
  induction es generalizing s with
  | nil => rfl
  | cons e es ih =>
    rw [List.cons_append, runIf, runIf]
    by_cases hc : C s e
    · rw [if_pos hc, if_pos hc, Option.bind_assoc]
      congr 1
      exact funext ih
    · rw [if_neg hc, if_neg hc]
      rfl

theorem run_append {s t : σ} {es : List ε} (h : M.run s es = some t) (fs : List ε) :
    M.run s (es ++ fs) = M.run t fs := by
  rw [run] at h
  rw [run, runIf_append, h]
  rfl

/-- A run ends with its last step. -/
theorem runIf_concat {C : σ → ε → Prop} [∀ s e, Decidable (C s e)] {s t : σ} {es : List ε}
    {e : ε} :
    M.runIf C s (es ++ [e]) = some t ↔
      ∃ u, M.runIf C s es = some u ∧ C u e ∧ M.step u e = some t := by
  rw [runIf_append, Option.bind_eq_some_iff]
  refine exists_congr fun u => and_congr_right fun _ => ?_
  rw [runIf]
  by_cases hc : C u e
  · rw [if_pos hc, show (M.runIf C · []) = some from rfl, Option.bind_fun_some]
    exact (and_iff_right hc).symm
  · rw [if_neg hc]
    exact iff_of_false nofun fun h => hc h.1

theorem runIf_prefix {C : σ → ε → Prop} [∀ s e, Decidable (C s e)] {s t : σ} {es fs : List ε}
    (hp : es <+: fs) (h : M.runIf C s fs = some t) : ∃ u, M.runIf C s es = some u := by
  obtain ⟨gs, rfl⟩ := hp
  rw [runIf_append] at h
  obtain ⟨u, hu, -⟩ := Option.bind_eq_some_iff.mp h
  exact ⟨u, hu⟩

/-- What every step keeps, every run from a state that has it keeps. -/
theorem runIf_keeps {C : σ → ε → Prop} [∀ s e, Decidable (C s e)] {I : σ → Prop}
    (hstep : ∀ s e t, I s → C s e → M.step s e = some t → I t) {es : List ε} :
    ∀ {s t : σ}, I s → M.runIf C s es = some t → I t := by
  induction es with
  | nil =>
    intro s t hs h
    obtain rfl := Option.some.inj h
    exact hs
  | cons e es ih =>
    intro s t hs h
    by_cases hc : C s e
    · rw [runIf, if_pos hc] at h
      obtain ⟨u, hu, ht⟩ := Option.bind_eq_some_iff.mp h
      exact ih (hstep _ _ _ hs hc hu) ht
    · rw [runIf, if_neg hc] at h
      cases h

theorem reachIf_of_runIf {C : σ → ε → Prop} [∀ s e, Decidable (C s e)] {es : List ε} {s t : σ}
    (hs : M.ReachIf C s) (h : M.runIf C s es = some t) : M.ReachIf C t :=
  runIf_keeps (fun _ e _ hr hc ht => .step e hr hc ht) hs h

/-- A number that goes up by one at most passes through everything on its way. -/
theorem runIf_passes {C : σ → ε → Prop} [∀ s e, Decidable (C s e)] {f : σ → Nat}
    (hstep : ∀ s e t, M.step s e = some t → f t ≤ f s + 1) {n : Nat} {es : List ε} :
    ∀ {s t : σ}, M.runIf C s es = some t → f s ≤ n → n ≤ f t →
      ∃ fs u, fs <+: es ∧ M.runIf C s fs = some u ∧ f u = n := by
  induction es with
  | nil =>
    intro s t h hs ht
    obtain rfl := Option.some.inj h
    exact ⟨[], s, List.prefix_refl [], rfl, Nat.le_antisymm hs ht⟩
  | cons e es ih =>
    intro s t h hs ht
    by_cases hn : f s = n
    · exact ⟨[], s, List.nil_prefix, rfl, hn⟩
    · by_cases hc : C s e
      · rw [runIf, if_pos hc] at h
        obtain ⟨u, hu, hrest⟩ := Option.bind_eq_some_iff.mp h
        have hone := hstep s e u hu
        obtain ⟨fs, v, hprefix, hv, hfv⟩ := ih hrest (by omega) ht
        refine ⟨e :: fs, v, List.cons_prefix_cons.mpr ⟨rfl, hprefix⟩, ?_, hfv⟩
        rw [runIf, if_pos hc, hu]
        exact hv
      · rw [runIf, if_neg hc] at h
        cases h

section Record

variable {α : Type w}

/-- What `f` sees of the steps of a run, one after the other. -/
def record (M : Machine σ ε) (f : σ → ε → σ → List α) : σ → List ε → List α
  | _, [] => []
  | s, e :: es =>
    match M.step s e with
    | some t => f s e t ++ record M f t es
    | none => []

variable {C : σ → ε → Prop} [∀ s e, Decidable (C s e)] {f g : σ → ε → σ → List α}

theorem record_cons {s t : σ} {e : ε} (h : M.step s e = some t) (es : List ε) :
    M.record f s (e :: es) = f s e t ++ M.record f t es := by
  rw [record, h]

theorem record_nothing (s : σ) (es : List ε) : M.record (fun _ _ _ => ([] : List α)) s es = [] := by
  induction es generalizing s with
  | nil => rfl
  | cons e es ih =>
    cases h : M.step s e with
    | none => rw [record, h]
    | some t => rw [record_cons h, ih, List.nil_append]

/-- What is seen of the labels alone needs no states. -/
theorem record_labels {see : ε → List α} {es : List ε} :
    ∀ {s t : σ}, M.runIf C s es = some t → M.record (fun _ e _ => see e) s es = es.flatMap see := by
  induction es with
  | nil =>
    intro s t _
    rfl
  | cons e es ih =>
    intro s t h
    by_cases hc : C s e
    · rw [runIf, if_pos hc] at h
      obtain ⟨u, hu, hrest⟩ := Option.bind_eq_some_iff.mp h
      rw [record_cons hu, ih hrest, List.flatMap_cons]
    · rw [runIf, if_neg hc] at h
      cases h

/-- What is made of a record entry by entry can be made of each step. -/
theorem record_map {β : Type w} {k : List α → List β} (hnil : k [] = [])
    (happend : ∀ xs ys, k (xs ++ ys) = k xs ++ k ys) (s : σ) (es : List ε) :
    k (M.record f s es) = M.record (fun s e t => k (f s e t)) s es := by
  induction es generalizing s with
  | nil => exact hnil
  | cons e es ih =>
    cases h : M.step s e with
    | none =>
      rw [record, record, h]
      exact hnil
    | some t => rw [record_cons h, record_cons h, happend, ih]

/-- What goes in and what comes out differ, in every run, by what is left inside. -/
theorem runIf_balance (left : σ → List α) {I : σ → Prop}
    (hkeeps : ∀ s e t, I s → M.step s e = some t → I t)
    (hstep : ∀ s e t, I s → M.step s e = some t → f s e t ++ left t = left s ++ g s e t)
    {es : List ε} :
    ∀ {s t : σ}, I s → M.runIf C s es = some t →
      M.record f s es ++ left t = left s ++ M.record g s es := by
  induction es with
  | nil =>
    intro s t _ h
    obtain rfl := Option.some.inj h
    exact (List.append_nil _).symm
  | cons e es ih =>
    intro s t hs h
    by_cases hc : C s e
    · rw [runIf, if_pos hc] at h
      obtain ⟨u, hu, hrest⟩ := Option.bind_eq_some_iff.mp h
      rw [record_cons hu, record_cons hu, List.append_assoc, ih (hkeeps s e u hs hu) hrest,
        ← List.append_assoc, hstep s e u hs hu, List.append_assoc]
    · rw [runIf, if_neg hc] at h
      cases h

/-- A history that every step adds to holds what was seen of the run. -/
theorem runIf_history (left : σ → List α) {I : σ → Prop}
    (hkeeps : ∀ s e t, I s → M.step s e = some t → I t)
    (hstep : ∀ s e t, I s → M.step s e = some t → left t = left s ++ g s e t) {es : List ε}
    {s t : σ} (hs : I s) (h : M.runIf C s es = some t) : left t = left s ++ M.record g s es := by
  have hbalance := runIf_balance (f := fun _ _ _ => []) left hkeeps hstep hs h
  rwa [record_nothing, List.nil_append] at hbalance

end Record

/-- Lockstep refinement: if `R` survives every pair of steps with one label, then
each run of `M` is a run of `N` on the same labels and ends in related states. -/
theorem lockstep {N : Machine τ ε} {C : σ → ε → Prop} [∀ s e, Decidable (C s e)]
    {R : σ → τ → Prop}
    (hstep : ∀ s a e s', R s a → C s e → M.step s e = some s' →
      ∃ a', N.step a e = some a' ∧ R s' a') {es : List ε} :
    ∀ {s s' : σ} {a : τ}, R s a → M.runIf C s es = some s' →
      ∃ a', N.run a es = some a' ∧ R s' a' := by
  induction es with
  | nil =>
    intro s s' a hr h
    obtain rfl := Option.some.inj h
    exact ⟨a, rfl, hr⟩
  | cons e es ih =>
    intro s s' a hr h
    by_cases hc : C s e
    · rw [runIf, if_pos hc] at h
      obtain ⟨u, hu, ht⟩ := Option.bind_eq_some_iff.mp h
      obtain ⟨b, hb, hrb⟩ := hstep _ _ _ _ hr hc hu
      obtain ⟨a', ha', hr'⟩ := ih hrb ht
      refine ⟨a', ?_, hr'⟩
      rw [run, runIf, if_pos trivial, hb]
      exact ha'
    · rw [runIf, if_neg hc] at h
      cases h

end Machine
end Lib
