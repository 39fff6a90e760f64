import MyNet.Lib.MonitorWaiters

/-!
# No lost wake-up in a monitor

`Units` says which supply each condition variable guards; its rule is that nobody sleeps on
a variable while notified waiters do not cover the supply. With mutual exclusion and the
wait sets this is one inductive invariant, from which some thread can always run.
-/
namespace Lib

namespace Monitor

variable {σ κ ο ι : Type} [DecidableEq κ] [DecidableEq ι] {M : Monitor σ κ ο}

/-- The condition variable the loop of `o` waits on. -/
def waitsOn (M : Monitor σ κ ο) (o : ο) : Option κ := (M.loop o).map Prod.fst

def one (k : κ) (k' : Option κ) : Nat := if k' = some k then 1 else 0

/-- The supply behind each condition variable: a blocked loop sees none of it, and a body
adds at most one unit to what it notifies and takes one from what it waited for. -/
structure Units (M : Monitor σ κ ο) where
  units : κ → σ → Nat
  blocked : ∀ o k blocked x, M.loop o = some (k, blocked) → blocked x = true → units k x = 0
  body : ∀ o k x, M.Ready o x →
    units k (M.body o x) + one k (M.waitsOn o) ≤ units k x + one k (M.notifies o)

def Supplied (U : M.Units) (s : MonitorState σ κ ο ι) : Prop :=
  ∀ k, (s.conds k).Covered (U.units k s.shared)

theorem covered_spend {conds : κ → CondVar ι} {o : ο} {i : ι} {n : Nat} {k : κ}
    (h : (conds k).Covered n) : (M.spend o i conds k).Covered (n - one k (M.waitsOn o)) := by
  cases hl : M.loop o with
  | none =>
    simp only [spend, waitsOn, hl]
    exact h
  | some w =>
    simp only [spend, waitsOn, hl, one, Option.map_some]
    by_cases hk : w.1 = k
    · subst k
      rw [Function.update_self, if_pos rfl]
      cases n with
      | zero => exact CondVar.covered_zero _
      | succ n => exact h.resume i
    · rw [Function.update_of_ne (Ne.symm hk), if_neg (fun he => hk (Option.some.inj he))]
      exact h

theorem covered_notify {conds conds' : κ → CondVar ι} {o : ο} {woken : Option ι} {n : Nat}
    {k : κ} (hn : M.notify o woken conds = some conds') (h : (conds k).Covered n) :
    (conds' k).Covered (n + one k (M.notifies o)) := by
  cases hw : M.notifies o with
  | none =>
    simp only [notify, hw] at hn
    obtain rfl := Option.some.inj hn
    exact h
  | some k' =>
    simp only [notify, hw] at hn
    obtain ⟨cv, hs, rfl⟩ := Option.map_eq_some_iff.mp hn
    simp only [one]
    by_cases hk : k' = k
    · subst k'
      rw [Function.update_self, if_pos rfl]
      exact h.signal hs
    · rw [Function.update_of_ne (Ne.symm hk), if_neg (fun he => hk (Option.some.inj he))]
      exact h

theorem supplied_turn {U : M.Units} {s t : MonitorState σ κ ο ι} {e : MonitorMove ο ι}
    (hr : LoopLeft M s) (h : Supplied U s) (ht : Turn M s e t) : Supplied U t := by
  cases ht with
  | call | lock | relock | leave | unlock => exact h
  | @block i k o blocked woken hp hl hb =>
    intro k'
    show (Function.update s.conds k ((s.conds k).sleep i) k').Covered (U.units k' s.shared)
    by_cases hk : k' = k
    · subst k'
      rw [U.blocked o k blocked s.shared hl hb]
      exact CondVar.covered_zero _
    · rw [Function.update_of_ne hk]
      exact h k'
  | @act i o woken conds hp hn =>
    intro k
    have hbody := U.body o k s.shared (hr i o hp)
    refine (covered_notify hn (covered_spend (h k))).mono ?_
    show U.units k (M.body o s.shared) ≤ _
    omega
  | @wake i k o hp ha =>
    intro k'
    show (Function.update s.conds k ((s.conds k).wake i) k').Covered (U.units k' s.shared)
    by_cases hk : k' = k
    · subst k'
      rw [Function.update_self]
      exact (h k).wake i
    · rw [Function.update_of_ne hk]
      exact h k'

/-! ## Runs -/

/-- The invariant of every run, with a property `I` of the data that each body keeps. -/
structure Inv (U : M.Units) (I : σ → Prop) (s : MonitorState σ κ ο ι) : Prop where
  exclusive : Exclusive s.mutex s.threads
  loopLeft : LoopLeft M s
  waiters : Waiters M s.conds s.threads
  supplied : Supplied U s
  shared : I s.shared

theorem shared_turn {I : σ → Prop} (hI : ∀ o x, I x → M.Ready o x → I (M.body o x))
    {s t : MonitorState σ κ ο ι} {e : MonitorMove ο ι} (hr : LoopLeft M s) (h : I s.shared)
    (ht : Turn M s e t) : I t.shared := by
  cases ht with
  | act hp => exact hI _ _ h (hr _ _ hp)
  | call | lock | relock | leave | block | unlock | wake => exact h

theorem inv_inductive (U : M.Units) {I : σ → Prop}
    (hI : ∀ o x, I x → M.Ready o x → I (M.body o x)) {shared : σ} (h0 : I shared) :
    (M.machine ι shared).Inductive (fun _ _ => True) (Inv U I) where
  init := by
    rintro s rfl
    refine ⟨fun _ => iff_of_false Bool.false_ne_true nofun, nofun, ⟨?_, ?_, nofun⟩, ?_, h0⟩
    · exact fun i _ hi => absurd hi (Finset.notMem_empty i)
    · exact fun i _ hi => absurd hi (Finset.notMem_empty i)
    · exact fun _ => CondVar.covered_of_asleep rfl _
  step s e t h _ hs :=
    have ht := step_turn hs
    ⟨exclusive_turn h.exclusive ht, loopLeft_turn h.exclusive h.loopLeft ht,
      waiters_turn h.waiters ht, supplied_turn h.loopLeft h.supplied ht,
      shared_turn hI h.loopLeft h.shared ht⟩

omit [DecidableEq ι] in
/-- With some of the supply left, a sleeper leaves a notified waiter pending. -/
theorem Inv.notified {U : M.Units} {I : σ → Prop} {s : MonitorState σ κ ο ι} (h : Inv U I s)
    {k : κ} (hu : 0 < U.units k s.shared) (ha : (s.conds k).asleep.Nonempty) :
    (s.conds k).notified.Nonempty := (h.supplied k).notified_nonempty hu ha

/-- Thread `i` has a step of its own to make. -/
def CanRun (M : Monitor σ κ ο) (s : MonitorState σ κ ο ι) (i : ι) : Prop :=
  ∃ woken, (M.step s (.run i woken)).isSome = true

theorem exists_notify (M : Monitor σ κ ο) (o : ο) (conds : κ → CondVar ι) :
    ∃ woken conds', M.notify o woken conds = some conds' := by
  cases hw : M.notifies o with
  | none => exact ⟨none, conds, by simp only [notify, hw]⟩
  | some k =>
    obtain ⟨woken, cv, hs⟩ := (conds k).exists_signal
    exact ⟨woken, Function.update conds k cv, by simp only [notify, hw, hs, Option.map_some]⟩

/-- The thread that has the mutex can always go on. -/
theorem Exclusive.holder_runs {s : MonitorState σ κ ο ι} (h : Exclusive s.mutex s.threads)
    {i : ι} (hm : s.mutex = some i) : CanRun M s i := by
  have hin := (h i).mpr hm
  cases hp : s.threads i with
  | idle | locking o | waiting k o => rw [hp] at hin; cases hin
  | testing o =>
    cases hl : M.loop o with
    | none => exact ⟨none, by simp only [step, hp, hl, Option.isSome_some]⟩
    | some w =>
      by_cases hb : w.2 s.shared = true
      · exact ⟨none, by simp only [step, hp, hl, if_pos hb, Option.isSome_some]⟩
      · exact ⟨none, by simp only [step, hp, hl, if_neg hb, Option.isSome_some]⟩
  | acting o =>
    obtain ⟨woken, conds', hn⟩ := exists_notify M o (M.spend o i s.conds)
    exact ⟨woken, by simp only [step, hp, hn, Option.map_some, Option.isSome_some]⟩
  | unlocking => exact ⟨none, by simp only [step, hp, Option.isSome_some]⟩

/-- As long as a notification is pending, some thread can run. -/
theorem Inv.someone_runs {U : M.Units} {I : σ → Prop} {s : MonitorState σ κ ο ι}
    (h : Inv U I s) {k : κ} (hn : (s.conds k).notified.Nonempty) : ∃ i, CanRun M s i := by
  obtain ⟨i, hi⟩ := hn
  cases hm : s.mutex with
  | some j => exact ⟨j, h.exclusive.holder_runs hm⟩
  | none =>
    have hp := h.waiters.notified i k hi
    cases hw : s.threads i with
    | idle | locking o | unlocking => rw [hw] at hp; exact absurd hp id
    | waiting k' o =>
      rw [hw] at hp
      obtain rfl : k' = k := hp
      have ha : i ∉ (s.conds k').asleep := Finset.disjoint_right.mp (s.conds k').disjoint hi
      exact ⟨i, none, by simp only [step, hw, if_neg ha, if_pos hm, Option.isSome_some]⟩
    | testing o | acting o =>
      have hin := (h.exclusive i).mp (by rw [hw]; rfl)
      rw [hm] at hin
      cases hin

end Monitor
end Lib
