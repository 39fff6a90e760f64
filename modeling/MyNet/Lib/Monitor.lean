import MyNet.Lib.CondVar
import MyNet.Lib.Machine
import MyNet.Lib.Mutex

/-!
# Monitors

Threads that share data under one mutex. An operation takes the mutex, goes through its
loop `while (blocked) cond.wait();` if it has one, runs its body, notifies at most one
condition variable and releases the mutex. Each of these is a step, so other threads
move in between.

Here: the steps, that at most one thread is inside, and that a loop once left stays left
until the body has run.
-/
namespace Lib

/-- Operations `ο` on shared data `σ`, with condition variables `κ`. -/
structure Monitor (σ κ ο : Type) where
  /-- The condition variable and the test of the operation's wait loop. -/
  loop : ο → Option (κ × (σ → Bool))
  body : ο → σ → σ
  notifies : ο → Option κ

/-- Where a thread is in an operation. -/
inductive Phase (κ ο : Type) where
  | idle
  /-- At the entry, wanting the mutex. -/
  | locking (o : ο)
  /-- At the test of the loop. -/
  | testing (o : ο)
  /-- In `cond.wait()`, without the mutex. -/
  | waiting (k : κ) (o : ο)
  /-- Behind the loop. -/
  | acting (o : ο)
  | unlocking

/-- With the mutex held. -/
def Phase.inside {κ ο : Type} : Phase κ ο → Bool
  | .testing _ | .acting _ | .unlocking => true
  | .idle | .locking _ | .waiting _ _ => false

structure MonitorState (σ κ ο ι : Type) where
  shared : σ
  mutex : Option ι
  conds : κ → CondVar ι
  threads : ι → Phase κ ο

/-- `run` is the next step of thread `i` itself; `woken` is the waiter its signal picks. -/
inductive MonitorMove (ο ι : Type) where
  | call (i : ι) (o : ο)
  | run (i : ι) (woken : Option ι)
  | wake (i : ι)

namespace Monitor

variable {σ κ ο ι : Type} [DecidableEq κ] [DecidableEq ι] (M : Monitor σ κ ο)

/-- No thread is in an operation. -/
def start (ι : Type) (shared : σ) : MonitorState σ κ ο ι where
  shared := shared
  mutex := none
  conds _ := .empty
  threads _ := .idle

/-- Thread `i` has the mutex and stands before the loop of `o`. -/
def enter (s : MonitorState σ κ ο ι) (i : ι) (o : ο) : MonitorState σ κ ο ι :=
  { s with mutex := some i, threads := Function.update s.threads i (.testing o) }

/-- Thread `i` blocks on `k` and the mutex is free again. -/
def block (s : MonitorState σ κ ο ι) (i : ι) (k : κ) (o : ο) : MonitorState σ κ ο ι :=
  { s with
    mutex := none
    conds := Function.update s.conds k ((s.conds k).sleep i)
    threads := Function.update s.threads i (.waiting k o) }

/-- A notification thread `i` may have had is used up by its body. -/
def spend (o : ο) (i : ι) (conds : κ → CondVar ι) : κ → CondVar ι :=
  match M.loop o with
  | none => conds
  | some (k, _) => Function.update conds k ((conds k).resume i)

def notify (o : ο) (woken : Option ι) (conds : κ → CondVar ι) : Option (κ → CondVar ι) :=
  match M.notifies o with
  | none => some conds
  | some k => ((conds k).signal woken).map (Function.update conds k)

def step (s : MonitorState σ κ ο ι) : MonitorMove ο ι → Option (MonitorState σ κ ο ι)
  | .call i o =>
    match s.threads i with
    | .idle => some { s with threads := Function.update s.threads i (.locking o) }
    | _ => none
  | .run i woken =>
    match s.threads i with
    | .idle => none
    | .locking o => if s.mutex = none then some (enter s i o) else none
    | .waiting k o =>
      if i ∈ (s.conds k).asleep then none
      else if s.mutex = none then some (enter s i o) else none
    | .testing o =>
      match M.loop o with
      | none => some { s with threads := Function.update s.threads i (.acting o) }
      | some (k, blocked) =>
        if blocked s.shared then some (block s i k o)
        else some { s with threads := Function.update s.threads i (.acting o) }
    | .acting o =>
      (M.notify o woken (M.spend o i s.conds)).map fun conds =>
        { s with
          shared := M.body o s.shared
          conds := conds
          threads := Function.update s.threads i .unlocking }
    | .unlocking => some { s with mutex := none, threads := Function.update s.threads i .idle }
  | .wake i =>
    match s.threads i with
    | .waiting k _ =>
      if i ∈ (s.conds k).asleep then
        some { s with conds := Function.update s.conds k ((s.conds k).wake i) }
      else none
    | _ => none

variable (ι) in
def machine (shared : σ) : Machine (MonitorState σ κ ο ι) (MonitorMove ο ι) where
  init s := s = start ι shared
  step := M.step

/-- The loop of `o`, if it has one, is left in this state. -/
def Ready (o : ο) (x : σ) : Prop := ∀ k blocked, M.loop o = some (k, blocked) → blocked x = false

/-- What a step does: its guard and its result. -/
inductive Turn (s : MonitorState σ κ ο ι) : MonitorMove ο ι → MonitorState σ κ ο ι → Prop
  | call {i : ι} {o : ο} (h : s.threads i = .idle) :
      Turn s (.call i o) { s with threads := Function.update s.threads i (.locking o) }
  | lock {i : ι} {o : ο} {woken : Option ι} (h : s.threads i = .locking o)
      (hm : s.mutex = none) : Turn s (.run i woken) (enter s i o)
  | relock {i : ι} {k : κ} {o : ο} {woken : Option ι} (h : s.threads i = .waiting k o)
      (ha : i ∉ (s.conds k).asleep) (hm : s.mutex = none) : Turn s (.run i woken) (enter s i o)
  | leave {i : ι} {o : ο} {woken : Option ι} (h : s.threads i = .testing o)
      (hr : M.Ready o s.shared) :
      Turn s (.run i woken) { s with threads := Function.update s.threads i (.acting o) }
  | block {i : ι} {k : κ} {o : ο} {blocked : σ → Bool} {woken : Option ι}
      (h : s.threads i = .testing o) (hl : M.loop o = some (k, blocked))
      (hb : blocked s.shared = true) : Turn s (.run i woken) (block s i k o)
  | act {i : ι} {o : ο} {woken : Option ι} {conds : κ → CondVar ι} (h : s.threads i = .acting o)
      (hn : M.notify o woken (M.spend o i s.conds) = some conds) :
      Turn s (.run i woken)
        { s with
          shared := M.body o s.shared
          conds := conds
          threads := Function.update s.threads i .unlocking }
  | unlock {i : ι} {woken : Option ι} (h : s.threads i = .unlocking) :
      Turn s (.run i woken)
        { s with mutex := none, threads := Function.update s.threads i .idle }
  | wake {i : ι} {k : κ} {o : ο} (h : s.threads i = .waiting k o)
      (ha : i ∈ (s.conds k).asleep) :
      Turn s (.wake i) { s with conds := Function.update s.conds k ((s.conds k).wake i) }

variable {M}

theorem step_turn {s t : MonitorState σ κ ο ι} {e : MonitorMove ο ι} (h : M.step s e = some t) :
    Turn M s e t := by
  cases e with
  | call i o =>
    simp only [step] at h
    split at h
    · next hi => obtain rfl := Option.some.inj h; exact .call hi
    · cases h
  | run i woken =>
    cases hp : s.threads i with
    | idle => simp only [step, hp] at h; cases h
    | locking o =>
      simp only [step, hp] at h
      split at h
      · next hm => obtain rfl := Option.some.inj h; exact .lock hp hm
      · cases h
    | waiting k o =>
      simp only [step, hp] at h
      split at h
      · cases h
      · next ha =>
        split at h
        · next hm => obtain rfl := Option.some.inj h; exact .relock hp ha hm
        · cases h
    | testing o =>
      simp only [step, hp] at h
      split at h
      · next hl =>
        obtain rfl := Option.some.inj h
        exact .leave hp fun k blocked hk => by rw [hl] at hk; cases hk
      · next k blocked hl =>
        split at h
        · next hb => obtain rfl := Option.some.inj h; exact .block hp hl hb
        · next hb =>
          obtain rfl := Option.some.inj h
          refine .leave hp fun k' blocked' hk => ?_
          rw [hl] at hk
          cases hk
          exact Bool.eq_false_iff.mpr hb
    | acting o =>
      simp only [step, hp] at h
      obtain ⟨conds, hn, rfl⟩ := Option.map_eq_some_iff.mp h
      exact .act hp hn
    | unlocking =>
      simp only [step, hp] at h
      obtain rfl := Option.some.inj h
      exact .unlock hp
  | wake i =>
    simp only [step] at h
    split at h
    · next k o hi =>
      split at h
      · next ha => obtain rfl := Option.some.inj h; exact .wake hi ha
      · cases h
    · cases h

/-! ## A call that nobody disturbs -/

section Undisturbed

variable {s : MonitorState σ κ ο ι} {i : ι} {o : ο}

theorem step_call (hidle : s.threads i = .idle) (o : ο) :
    ∃ t, M.step s (.call i o) = some t ∧ t.threads i = .locking o ∧ t.mutex = s.mutex ∧
      t.shared = s.shared := by
  refine ⟨{ s with threads := Function.update s.threads i (.locking o) }, ?_,
    Function.update_self .., rfl, rfl⟩
  simp only [step, hidle]

theorem step_lock (hlocking : s.threads i = .locking o) (hfree : s.mutex = none) :
    ∃ t, M.step s (.run i none) = some t ∧ t.threads i = .testing o ∧ t.shared = s.shared := by
  refine ⟨enter s i o, ?_, Function.update_self .., rfl⟩
  simp only [step, hlocking, if_pos hfree]

theorem step_leave (htesting : s.threads i = .testing o) (hr : M.Ready o s.shared) :
    ∃ t, M.step s (.run i none) = some t ∧ t.threads i = .acting o ∧ t.shared = s.shared := by
  refine ⟨{ s with threads := Function.update s.threads i (.acting o) }, ?_,
    Function.update_self .., rfl⟩
  simp only [step, htesting]
  cases hl : M.loop o with
  | none => rfl
  | some loop => simp only [hr loop.1 loop.2 hl, Bool.false_eq_true, if_false]

theorem step_block {k : κ} {blocked : σ → Bool} (htesting : s.threads i = .testing o)
    (hl : M.loop o = some (k, blocked)) (hb : blocked s.shared = true) :
    ∃ t, M.step s (.run i none) = some t ∧ t.threads i = .waiting k o ∧ t.shared = s.shared := by
  refine ⟨block s i k o, ?_, Function.update_self .., rfl⟩
  simp only [step, htesting, hl, if_pos hb]

theorem step_act (hacting : s.threads i = .acting o) :
    ∃ woken t, M.step s (.run i woken) = some t ∧ t.threads i = .unlocking ∧
      t.shared = M.body o s.shared := by
  obtain ⟨woken, conds, hnotify⟩ :
      ∃ woken conds, M.notify o woken (M.spend o i s.conds) = some conds := by
    cases hn : M.notifies o with
    | none => exact ⟨none, M.spend o i s.conds, by simp only [notify, hn]⟩
    | some k =>
      obtain ⟨woken, cv, hcv⟩ := (M.spend o i s.conds k).exists_signal
      exact ⟨woken, Function.update (M.spend o i s.conds) k cv, by
        simp only [notify, hn, hcv, Option.map_some]⟩
  refine ⟨woken, { s with
    shared := M.body o s.shared
    conds := conds
    threads := Function.update s.threads i .unlocking }, ?_, Function.update_self .., rfl⟩
  simp only [step, hacting, hnotify, Option.map_some]

theorem step_unlock (hunlocking : s.threads i = .unlocking) :
    ∃ t, M.step s (.run i none) = some t ∧ t.threads i = .idle ∧ t.mutex = none ∧
      t.shared = s.shared := by
  refine ⟨{ s with mutex := none, threads := Function.update s.threads i .idle }, ?_,
    Function.update_self .., rfl, rfl⟩
  simp only [step, hunlocking]

/-- If the loop is left, the call returns without having waited. -/
theorem call_through (shared : σ) (hfree : s.mutex = none) (hidle : s.threads i = .idle)
    (hr : M.Ready o s.shared) :
    ∃ es t, (M.machine ι shared).run s es = some t ∧ t.shared = M.body o s.shared ∧
      t.mutex = none ∧ t.threads i = .idle := by
  obtain ⟨s₁, h₁, hlocking, hmutex, hs₁⟩ := step_call (M := M) hidle o
  obtain ⟨s₂, h₂, htesting, hs₂⟩ := step_lock (M := M) hlocking (hmutex.trans hfree)
  obtain ⟨s₃, h₃, hacting, hs₃⟩ := step_leave htesting (hs₂ ▸ hs₁ ▸ hr)
  obtain ⟨woken, s₄, h₄, hunlocking, hs₄⟩ := step_act (M := M) hacting
  obtain ⟨s₅, h₅, hdone, hnone, hs₅⟩ := step_unlock (M := M) hunlocking
  refine ⟨[.call i o, .run i none, .run i none, .run i woken, .run i none], s₅, ?_, ?_, hnone,
    hdone⟩
  · rw [Machine.run_cons h₁, Machine.run_cons h₂, Machine.run_cons h₃, Machine.run_cons h₄,
      Machine.run_cons h₅]
    rfl
  · rw [hs₅, hs₄, hs₃, hs₂, hs₁]

/-- If the loop is not left, the call waits. -/
theorem call_blocks (shared : σ) {k : κ} {blocked : σ → Bool} (hfree : s.mutex = none)
    (hidle : s.threads i = .idle) (hl : M.loop o = some (k, blocked))
    (hb : blocked s.shared = true) :
    ∃ es t, (M.machine ι shared).run s es = some t ∧ t.shared = s.shared ∧
      t.threads i = .waiting k o := by
  obtain ⟨s₁, h₁, hlocking, hmutex, hs₁⟩ := step_call (M := M) hidle o
  obtain ⟨s₂, h₂, htesting, hs₂⟩ := step_lock (M := M) hlocking (hmutex.trans hfree)
  obtain ⟨s₃, h₃, hwaiting, hs₃⟩ := step_block htesting hl (hs₂ ▸ hs₁ ▸ hb)
  refine ⟨[.call i o, .run i none, .run i none], s₃, ?_, ?_, hwaiting⟩
  · rw [Machine.run_cons h₁, Machine.run_cons h₂, Machine.run_cons h₃]
    rfl
  · rw [hs₃, hs₂, hs₁]

end Undisturbed

/-! ## Mutual exclusion -/

/-- The thread that has the mutex is the one inside. -/
def Exclusive (mutex : Option ι) (threads : ι → Phase κ ο) : Prop :=
  ∀ i, (threads i).inside = true ↔ mutex = some i

section Exclusive

omit [DecidableEq κ]

variable {mutex : Option ι} {threads : ι → Phase κ ο} {i : ι} {p : Phase κ ο}

theorem Exclusive.stay (h : Exclusive mutex threads)
    (hp : p.inside = (threads i).inside) :
    Exclusive mutex (Function.update threads i p) := Mutex.Held.stay h hp

theorem Exclusive.enter (h : Exclusive none threads) (hp : p.inside = true) :
    Exclusive (some i) (Function.update threads i p) := Mutex.Held.enter h hp

theorem Exclusive.exit (h : Exclusive mutex threads) (hi : (threads i).inside = true)
    (hp : p.inside = false) : Exclusive none (Function.update threads i p) :=
  Mutex.Held.exit h hi hp

omit [DecidableEq ι] in
/-- Two threads inside are one. -/
theorem Exclusive.unique (h : Exclusive mutex threads) {j : ι}
    (hi : (threads i).inside = true) (hj : (threads j).inside = true) : i = j :=
  Mutex.Held.unique h hi hj

end Exclusive

theorem exclusive_turn {s t : MonitorState σ κ ο ι} {e : MonitorMove ο ι}
    (h : Exclusive s.mutex s.threads) (ht : Turn M s e t) : Exclusive t.mutex t.threads := by
  cases ht with
  | call hp => exact h.stay (by rw [hp]; rfl)
  | lock hp hm | relock hp ha hm =>
    rw [hm] at h
    exact h.enter rfl
  | leave hp | act hp => exact h.stay (by rw [hp]; rfl)
  | block hp | unlock hp => exact h.exit (by rw [hp]; rfl) rfl
  | wake hp => exact h

/-- Who stands before the body left the loop, and nobody moved the data since. -/
def LoopLeft (M : Monitor σ κ ο) (s : MonitorState σ κ ο ι) : Prop :=
  ∀ i o, s.threads i = .acting o → M.Ready o s.shared

omit [DecidableEq κ] in
theorem LoopLeft.update {s : MonitorState σ κ ο ι} (h : LoopLeft M s) {i : ι} {p : Phase κ ο}
    (hp : ∀ o, p = .acting o → M.Ready o s.shared) (j : ι) (o : ο)
    (hj : Function.update s.threads i p j = .acting o) : M.Ready o s.shared := by
  by_cases hij : j = i
  · subst j
    rw [Function.update_self] at hj
    exact hp o hj
  · rw [Function.update_of_ne hij] at hj
    exact h j o hj

theorem loopLeft_turn {s t : MonitorState σ κ ο ι} {e : MonitorMove ο ι}
    (hx : Exclusive s.mutex s.threads) (h : LoopLeft M s) (ht : Turn M s e t) :
    LoopLeft M t := by
  cases ht with
  | call | lock | relock | block | unlock => exact h.update nofun
  | leave hp hr =>
    refine h.update fun o he => ?_
    cases he
    exact hr
  | @act i o woken conds hp hn =>
    intro j o' hj
    have hj' : Function.update s.threads i Phase.unlocking j = .acting o' := hj
    by_cases hij : j = i
    · subst j
      rw [Function.update_self] at hj'
      cases hj'
    · rw [Function.update_of_ne hij] at hj'
      exact absurd (hx.unique (by rw [hj']; rfl) (by rw [hp]; rfl)) hij
  | wake hp => exact h

end Monitor
end Lib
