import MyNet.Base.ThreadPoolQueue

/-!
# Stopping a `ThreadPool`

`stop` clears `m_brunning` and wakes the workers asleep on `m_notEmpty`. It does not
wake the callers of `run` asleep on `m_notFull`, and `run` does not look at
`m_brunning` while it waits. A caller that sleeps when `stop` is called, or that finds
the queue full afterwards, depends on a worker that happens to dequeue once more.
Without such a caller nobody is stranded.
-/
namespace MyNet.Base.ThreadPool

open Lib Lib.CondVar

variable {n : Nat} {ι τ : Type} [DecidableEq ι]

/-- All workers have terminated and a caller of `run` still sleeps. -/
def Stranded (s : ThreadPool n ι τ) : Prop :=
  (∀ w, s.workers w = .terminated) ∧ ∃ c, c ∈ s.m_notFull.asleep

/-- `stop` is called when no caller sleeps on `m_notFull`, and no caller finds the queue
full once `m_brunning` is cleared. -/
def CallersClear (s : ThreadPool n ι τ) : PoolMove n ι τ → Prop
  | .stop => s.m_notFull.asleep = ∅
  | .run _ _ => s.m_brunning = false → s.isFull = false
  | _ => True

instance (s : ThreadPool n ι τ) : (e : PoolMove n ι τ) → Decidable (CallersClear s e)
  | .stop => inferInstanceAs (Decidable (_ = _))
  | .run _ _ => inferInstanceAs (Decidable (_ → _))
  | .begin _ | .test _ | .getTask _ _ | .take _ | .finish _ | .call _ _ | .wakeWorker _
  | .wakeCaller _ => inferInstanceAs (Decidable True)

/-- Workers leave their loop only after `stop`. -/
def LeftAfterStop (s : ThreadPool n ι τ) : Prop :=
  ∀ w, s.workers w = .terminated → s.m_brunning = false

def ClearAfterStop (s : ThreadPool n ι τ) : Prop :=
  s.m_brunning = false → s.m_notFull.asleep = ∅

omit [DecidableEq ι] in
theorem LeftAfterStop.setWorker {s : ThreadPool n ι τ} (h : LeftAfterStop s) {w : Fin n}
    {pc : WorkerPc τ} (hp : pc = .terminated → s.m_brunning = false) :
    LeftAfterStop (s.setWorker w pc) := by
  intro v hv
  change Function.update s.workers w pc v = _ at hv
  by_cases hvw : v = w
  · subst v
    rw [Function.update_self] at hv
    exact hp hv
  · rw [Function.update_of_ne hvw] at hv
    exact h v hv

theorem leftAfterStop_turn {s t : ThreadPool n ι τ} {e : PoolMove n ι τ}
    (h : LeftAfterStop s) (ht : Turn s e t) : LeftAfterStop t := by
  cases ht with
  | leave hw hr => exact h.setWorker fun _ => hr
  | begin | enter | sleepWorker | giveUp | pop | invoke | drop | finish =>
    exact LeftAfterStop.setWorker h nofun
  | stop => exact fun _ _ => rfl
  | call | callInline | sleepCaller | push | wakeWorker | wakeCaller => exact h

theorem clearAfterStop_turn {s t : ThreadPool n ι τ} {e : PoolMove n ι τ}
    (h : ClearAfterStop s) (hc : CallersClear s e) (ht : Turn s e t) : ClearAfterStop t := by
  cases ht with
  | pop hw hq hs =>
    intro hr
    exact Finset.subset_empty.mp ((asleep_signal hs).trans (h hr).subset)
  | sleepCaller hw hf =>
    intro hr
    have hfull : s.isFull = true := by simpa [isFull] using hf
    rw [hc hr] at hfull
    cases hfull
  | stop => exact fun _ => hc
  | wakeCaller ha =>
    intro hr
    rw [h hr] at ha
    exact absurd ha (Finset.notMem_empty _)
  | begin | enter | leave | sleepWorker | giveUp | invoke | drop | finish | call | callInline
  | push | wakeWorker => exact h

theorem stop_inductive (k : Nat) (init : Task τ) :
    (pool n ι k init).Inductive CallersClear
      (fun s => LeftAfterStop s ∧ ClearAfterStop s) where
  init := by
    rintro s rfl
    exact ⟨nofun, fun _ => rfl⟩
  step _ _ _ h hc hs :=
    have ht := step_turn hs
    ⟨leftAfterStop_turn h.1 ht, clearAfterStop_turn h.2 hc ht⟩

/-- With at least one worker, no run in which `stop` meets no sleeping caller and later
callers find room strands anybody. -/
theorem stop_strands_nobody {k : Nat} {init : Task τ} {s : ThreadPool n ι τ} (hn : 0 < n)
    (h : (pool n ι k init).ReachIf CallersClear s) : ¬ Stranded s := by
  obtain ⟨hleft, hclear⟩ := (stop_inductive k init).reach h
  rintro ⟨hall, c, hc⟩
  rw [hclear (hleft ⟨0, hn⟩ (hall ⟨0, hn⟩))] at hc
  exact absurd hc (Finset.notMem_empty c)

/-- One worker, one place, one task; the pool is stopped while the worker runs it. -/
def quietStop : List (PoolMove 1 Bool Nat) :=
  [.begin soleWorker, .test soleWorker, .call true (some 1), .run true none,
   .getTask soleWorker none, .take soleWorker, .stop, .finish soleWorker, .test soleWorker]

theorem stop_strands_nobody_quiet :
    ∃ s, (pool 1 Bool (τ := Nat) 1 none).runIf CallersClear (start 1 1 Bool none) quietStop =
      some s ∧ (∀ w, s.workers w = .terminated) ∧ ¬ Stranded s := by
  have hrun : (pool 1 Bool (τ := Nat) 1 none).runIf CallersClear (start 1 1 Bool none) quietStop =
      some _ := rfl
  refine ⟨_, hrun, ?_, stop_strands_nobody (by decide) (Machine.reachIf_of_runIf (.init rfl) hrun)⟩
  intro w
  rw [Subsingleton.elim w 0]
  rfl

/-- The same pool with the queue refilled and a second caller waiting for room. -/
def busyStop : List (PoolMove 1 Bool Nat) :=
  [.begin soleWorker, .test soleWorker, .call true (some 1), .run true none,
   .getTask soleWorker none, .take soleWorker, .call true (some 2), .run true none,
   .call false (some 3), .run false none, .stop, .finish soleWorker, .test soleWorker]

theorem busyStop_strands :
    ¬ ∀ s, (pool 1 Bool (τ := Nat) 1 none).Reach s → ¬ Stranded s := by
  intro h
  have hrun : (pool 1 Bool (τ := Nat) 1 none).run (start 1 1 Bool none) busyStop = some _ := rfl
  refine h _ (Machine.reachIf_of_runIf (.init rfl) hrun) ⟨?_, false, by decide⟩
  intro w
  rw [Subsingleton.elim w 0]
  rfl

end MyNet.Base.ThreadPool
