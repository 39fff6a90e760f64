import MyNet.Base.ThreadPool

/-!
# The queue of `ThreadPool`

`Turn` lists what one step of the pool can do, once; the invariants are read off it.
The queue is first in first out, and each condition variable covers the units its
waiters could take: the queued tasks for `m_notEmpty`, the free places for
`m_notFull`. A task stolen by a thread that was never asleep costs a unit but no
notification, so the counts survive it.
-/
namespace MyNet.Base.ThreadPool

open Lib Lib.CondVar Lib.History

variable {n : Nat} {ι τ : Type} [DecidableEq ι]

/-- The worker may take the mutex inside `getTask`. -/
def WorkerReady (s : ThreadPool n ι τ) (w : Fin n) : Prop :=
  s.workers w = .locking ∨ (s.workers w = .waiting ∧ w ∉ s.m_notEmpty.asleep)

/-- The caller may take the mutex inside `run`. -/
def CallerReady (s : ThreadPool n ι τ) (c : ι) (task : Task τ) : Prop :=
  s.callers c = .locking task ∨ (s.callers c = .waiting task ∧ c ∉ s.m_notFull.asleep)

/-- What a step does: its guard and its result. -/
inductive Turn (s : ThreadPool n ι τ) : PoolMove n ι τ → ThreadPool n ι τ → Prop
  | begin {w : Fin n} (h : s.workers w = .starting) :
      Turn s (.begin w)
        ({ s with inits := s.inits ++ s.m_ThreadInitFunc.toList }.setWorker w .loopTest)
  | enter {w : Fin n} (h : s.workers w = .loopTest) (hr : s.m_brunning = true) :
      Turn s (.test w) (s.setWorker w .locking)
  | leave {w : Fin n} (h : s.workers w = .loopTest) (hr : s.m_brunning = false) :
      Turn s (.test w) (s.setWorker w .terminated)
  | sleepWorker {w : Fin n} {woken : Option ι} (h : WorkerReady s w) (ht : s.m_tasks = [])
      (hr : s.m_brunning = true) :
      Turn s (.getTask w woken)
        ({ s with m_notEmpty := s.m_notEmpty.sleep w }.setWorker w .waiting)
  | giveUp {w : Fin n} {woken : Option ι} (h : WorkerReady s w) (ht : s.m_tasks = [])
      (hr : s.m_brunning = false) :
      Turn s (.getTask w woken)
        ({ s with m_notEmpty := s.m_notEmpty.resume w }.setWorker w (.gotTask none))
  | pop {w : Fin n} {woken : Option ι} {task : Task τ} {rest : List (Task τ)}
      {notFull : CondVar ι} (h : WorkerReady s w) (ht : s.m_tasks = task :: rest)
      (hs : s.m_notFull.signal woken = some notFull) :
      Turn s (.getTask w woken)
        ({ s with
            m_notEmpty := s.m_notEmpty.resume w
            m_notFull := notFull
            m_tasks := rest
            dequeued := s.dequeued ++ [(w, task)] }.setWorker w (.gotTask task))
  | invoke {w : Fin n} {t : τ} (h : s.workers w = .gotTask (some t)) :
      Turn s (.take w)
        ({ s with invoked := s.invoked ++ [(Sum.inl w, t)] }.setWorker w (.invoking t))
  | drop {w : Fin n} (h : s.workers w = .gotTask none) :
      Turn s (.take w) (s.setWorker w .loopTest)
  | finish {w : Fin n} {t : τ} (h : s.workers w = .invoking t) :
      Turn s (.finish w) (s.setWorker w .loopTest)
  | call {c : ι} {task : Task τ} (h : s.callers c = .idle) (hn : n ≠ 0) :
      Turn s (.call c task)
        ({ s with submitted := s.submitted ++ [(c, task)] }.setCaller c (.locking task))
  | callInline {c : ι} {task : Task τ} (h : s.callers c = .idle) (hn : n = 0) :
      Turn s (.call c task) { s with submitted := s.submitted ++ [(c, task)] }
  | sleepCaller {c : ι} {task : Task τ} {woken : Option (Fin n)} (h : CallerReady s c task)
      (hf : s.m_maxQueueSize ≤ s.m_tasks.length) :
      Turn s (.run c woken)
        ({ s with m_notFull := s.m_notFull.sleep c }.setCaller c (.waiting task))
  | push {c : ι} {task : Task τ} {woken : Option (Fin n)} {notEmpty : CondVar (Fin n)}
      (h : CallerReady s c task) (hf : s.m_tasks.length < s.m_maxQueueSize)
      (hs : s.m_notEmpty.signal woken = some notEmpty) :
      Turn s (.run c woken)
        ({ s with
            m_notFull := s.m_notFull.resume c
            m_notEmpty := notEmpty
            m_tasks := s.m_tasks ++ [task]
            enqueued := s.enqueued ++ [(c, task)] }.setCaller c .idle)
  | stop :
      Turn s .stop { s with m_brunning := false, m_notEmpty := s.m_notEmpty.broadcast }
  | wakeWorker {w : Fin n} (h : w ∈ s.m_notEmpty.asleep) :
      Turn s (.wakeWorker w) { s with m_notEmpty := s.m_notEmpty.wake w }
  | wakeCaller {c : ι} (h : c ∈ s.m_notFull.asleep) :
      Turn s (.wakeCaller c) { s with m_notFull := s.m_notFull.wake c }

theorem getTask_turn {s t : ThreadPool n ι τ} {w : Fin n} {woken : Option ι}
    (hready : WorkerReady s w) (h : s.getTask w woken = some t) : Turn s (.getTask w woken) t := by
  unfold getTask at h
  split at h
  · next ht =>
    split at h
    · next hr => obtain rfl := Option.some.inj h; exact .sleepWorker hready ht hr
    · next hr =>
      obtain rfl := Option.some.inj h
      exact .giveUp hready ht (Bool.eq_false_iff.mpr hr)
  · next task rest ht =>
    obtain ⟨cv, hs, rfl⟩ := Option.map_eq_some_iff.mp h
    exact .pop hready ht hs

theorem run_turn {s t : ThreadPool n ι τ} {c : ι} {task : Task τ} {woken : Option (Fin n)}
    (hready : CallerReady s c task) (h : s.run c task woken = some t) :
    Turn s (.run c woken) t := by
  unfold run isFull at h
  by_cases hf : s.m_maxQueueSize ≤ s.m_tasks.length
  · rw [if_pos (by simpa using hf)] at h
    obtain rfl := Option.some.inj h
    exact .sleepCaller hready hf
  · rw [if_neg (by simpa using hf)] at h
    obtain ⟨cv, hs, rfl⟩ := Option.map_eq_some_iff.mp h
    exact .push hready (by omega) hs

theorem step_turn {s t : ThreadPool n ι τ} {e : PoolMove n ι τ} (h : s.step e = some t) :
    Turn s e t := by
  cases e with
  | begin w =>
    simp only [step] at h
    split at h
    · next hw => obtain rfl := Option.some.inj h; exact .begin hw
    · cases h
  | test w =>
    simp only [step] at h
    split at h
    · next hw =>
      obtain rfl := Option.some.inj h
      cases hr : s.m_brunning with
      | true => exact .enter hw hr
      | false => exact .leave hw hr
    · cases h
  | getTask w woken =>
    simp only [step] at h
    split at h
    · next hw => exact getTask_turn (Or.inl hw) h
    · next hw =>
      split at h
      · cases h
      · next ha => exact getTask_turn (Or.inr ⟨hw, ha⟩) h
    · cases h
  | take w =>
    simp only [step] at h
    split at h
    · next hw => obtain rfl := Option.some.inj h; exact .invoke hw
    · next hw => obtain rfl := Option.some.inj h; exact .drop hw
    · cases h
  | finish w =>
    simp only [step] at h
    split at h
    · next hw => obtain rfl := Option.some.inj h; exact .finish hw
    · cases h
  | call c task =>
    simp only [step] at h
    split at h
    · next hc =>
      obtain rfl := Option.some.inj h
      by_cases hn : n = 0
      · rw [if_pos hn]; exact .callInline hc hn
      · rw [if_neg hn]; exact .call hc hn
    · cases h
  | run c woken =>
    simp only [step] at h
    split at h
    · next hc => exact run_turn (Or.inl hc) h
    · next hc =>
      split at h
      · cases h
      · next ha => exact run_turn (Or.inr ⟨hc, ha⟩) h
    · cases h
  | stop => obtain rfl := Option.some.inj h; exact .stop
  | wakeWorker w =>
    simp only [step] at h
    split at h
    · next hw => obtain rfl := Option.some.inj h; exact .wakeWorker hw
    · cases h
  | wakeCaller c =>
    simp only [step] at h
    split at h
    · next hc => obtain rfl := Option.some.inj h; exact .wakeCaller hc
    · cases h

/-! ## First in, first out, and each task once -/

/-- The task a worker has taken and not yet invoked. -/
def pending : WorkerPc τ → List τ
  | .gotTask (some t) => [t]
  | _ => []

omit [DecidableEq ι] in
theorem WorkerReady.pending {s : ThreadPool n ι τ} {w : Fin n} (h : WorkerReady s w) :
    ThreadPool.pending (s.workers w) = [] := by
  rcases h with h | ⟨h, -⟩ <;> rw [h] <;> rfl

theorem pending_gotTask (task : Task τ) : pending (.gotTask task) = [task].filterMap id := by
  cases task <;> rfl

theorem pending_update {f : Fin n → WorkerPc τ} {w : Fin n} {pc : WorkerPc τ}
    (h : pending pc = pending (f w)) (v : Fin n) :
    pending (Function.update f w pc v) = pending (f v) := by
  by_cases hv : v = w
  · subst v
    rw [Function.update_self, h]
  · rw [Function.update_of_ne hv]

/-- What was enqueued is what was dequeued followed by the queue. -/
def Fifo (s : ThreadPool n ι τ) : Prop :=
  s.enqueued.map Prod.snd = s.dequeued.map Prod.snd ++ s.m_tasks

/-- Each worker invoked the non-empty tasks it dequeued, in order and once each, but for
one it may still hold. -/
def Once (s : ThreadPool n ι τ) : Prop :=
  ∀ w, (doneBy w s.dequeued).filterMap id =
    doneBy (Sum.inl w) s.invoked ++ pending (s.workers w)

theorem fifo_turn {s t : ThreadPool n ι τ} {e : PoolMove n ι τ} (h : Fifo s) (ht : Turn s e t) :
    Fifo t := by
  cases ht with
  | pop hw hq hs =>
    unfold Fifo at h ⊢
    change s.enqueued.map Prod.snd = (s.dequeued ++ [_]).map Prod.snd ++ _
    rw [h, hq, List.map_append, List.append_assoc]
    rfl
  | push hc hf hs =>
    unfold Fifo at h ⊢
    change (s.enqueued ++ [_]).map Prod.snd = s.dequeued.map Prod.snd ++ (s.m_tasks ++ [_])
    rw [List.map_append, h, List.append_assoc]
    rfl
  | begin | enter | leave | sleepWorker | giveUp | invoke | drop | finish | call | callInline
  | sleepCaller | stop | wakeWorker | wakeCaller => exact h

/-- A worker whose program counter moves between places without a pending task. -/
theorem Once.setWorker {s : ThreadPool n ι τ} (h : Once s) {w : Fin n} {pc : WorkerPc τ}
    (hp : pending pc = pending (s.workers w)) : Once (s.setWorker w pc) := by
  intro v
  change _ = _ ++ pending (Function.update s.workers w pc v)
  rw [pending_update hp]
  exact h v

theorem once_turn {s t : ThreadPool n ι τ} {e : PoolMove n ι τ} (h : Once s) (ht : Turn s e t) :
    Once t := by
  cases ht with
  | begin hw | enter hw | leave hw | drop hw | finish hw =>
    exact Once.setWorker h (by rw [hw]; rfl)
  | sleepWorker hw | giveUp hw => exact Once.setWorker h (by rw [hw.pending]; rfl)
  | @pop w woken task rest notFull hw hq hs =>
    intro v
    change (doneBy v (s.dequeued ++ [(w, task)])).filterMap id =
      doneBy (Sum.inl v) s.invoked ++ pending (Function.update s.workers w (.gotTask task) v)
    have hv := h v
    rw [doneBy_concat]
    by_cases hvw : w = v
    · subst v
      rw [hw.pending, List.append_nil] at hv
      rw [if_pos rfl, Function.update_self, pending_gotTask, List.filterMap_append, hv]
    · rw [if_neg hvw, Function.update_of_ne (Ne.symm hvw), hv]
  | @invoke w x hw =>
    intro v
    change (doneBy v s.dequeued).filterMap id = doneBy (Sum.inl v) (s.invoked ++ [(Sum.inl w, x)]) ++
      pending (Function.update s.workers w (.invoking x) v)
    have hv := h v
    rw [doneBy_concat]
    by_cases hvw : w = v
    · subst v
      rw [hw] at hv
      rw [if_pos rfl, Function.update_self, hv]
      exact (List.append_nil _).symm
    · rw [if_neg (fun he => hvw (Sum.inl.inj he)), Function.update_of_ne (Ne.symm hvw), hv]
  | call | callInline | sleepCaller | push | stop | wakeWorker | wakeCaller => exact h

/-! ## Room and wake-ups -/

/-- The queue respects its bound and both condition variables are covered. -/
structure Signalled (k : Nat) (s : ThreadPool n ι τ) : Prop where
  bound : s.m_maxQueueSize = k
  size : s.m_tasks.length ≤ k
  notEmpty : Covered s.m_tasks.length s.m_notEmpty
  notFull : Covered (k - s.m_tasks.length) s.m_notFull

theorem signalled_turn {k : Nat} {s t : ThreadPool n ι τ} {e : PoolMove n ι τ}
    (h : Signalled k s) (ht : Turn s e t) : Signalled k t := by
  have hsize := h.size
  cases ht with
  | begin | enter | leave | invoke | drop | finish | call | callInline =>
    exact ⟨h.bound, h.size, h.notEmpty, h.notFull⟩
  | sleepWorker hw hq | giveUp hw hq =>
    refine ⟨h.bound, h.size, ?_, h.notFull⟩
    change Covered s.m_tasks.length _
    rw [hq]
    exact covered_zero _
  | @pop w woken task rest notFull hw hq hs =>
    have hne := h.notEmpty
    have hnf := h.notFull
    rw [hq] at hne hnf hsize
    simp only [List.length_cons] at hsize hnf
    refine ⟨h.bound, ?_, hne.resume w, (hnf.signal hs).mono ?_⟩
    · change rest.length ≤ k
      omega
    · change k - rest.length ≤ k - (rest.length + 1) + 1
      omega
  | @sleepCaller c task woken hc hf =>
    refine ⟨h.bound, h.size, h.notEmpty, ?_⟩
    rw [h.bound] at hf
    change Covered (k - s.m_tasks.length) _
    rw [Nat.sub_eq_zero_of_le hf]
    exact covered_zero _
  | @push c task woken notEmpty hc hf hs =>
    rw [h.bound] at hf
    have hlen : (s.m_tasks ++ [task]).length = s.m_tasks.length + 1 := by
      rw [List.length_append, List.length_singleton]
    refine ⟨h.bound, ?_, ?_, ?_⟩
    · change (s.m_tasks ++ [task]).length ≤ k
      omega
    · change Covered (s.m_tasks ++ [task]).length notEmpty
      rw [hlen]
      exact h.notEmpty.signal hs
    · change Covered (k - (s.m_tasks ++ [task]).length) (s.m_notFull.resume c)
      rw [hlen]
      refine Covered.resume (h.notFull.mono ?_) c
      omega
  | stop => exact ⟨h.bound, h.size, covered_of_asleep rfl _, h.notFull⟩
  | wakeWorker hw => exact ⟨h.bound, h.size, h.notEmpty.wake _, h.notFull⟩
  | wakeCaller hc => exact ⟨h.bound, h.size, h.notEmpty, h.notFull.wake _⟩

structure QueueInv (k : Nat) (s : ThreadPool n ι τ) : Prop where
  fifo : Fifo s
  once : Once s
  signalled : Signalled k s

theorem queueInv_inductive (k : Nat) (init : Task τ) :
    (pool n ι k init).Inductive (fun _ _ => True) (QueueInv k) where
  init := by
    rintro s rfl
    exact ⟨rfl, fun _ => rfl, rfl, Nat.zero_le k, covered_of_asleep rfl _,
      covered_of_asleep rfl _⟩
  step _ _ _ h _ hs :=
    have ht := step_turn hs
    ⟨fifo_turn h.fifo ht, once_turn h.once ht, signalled_turn h.signalled ht⟩

/-- In every state of every run: the tasks enqueued are the tasks dequeued followed by the
queue; each worker has invoked, in order and once each, the non-empty tasks it dequeued
but for one it may still hold; the queue is within its bound; and nobody sleeps on a
condition variable, with no notified waiter pending, while it could proceed. -/
theorem queue_exact {k : Nat} {init : Task τ} {s : ThreadPool n ι τ}
    (h : (pool n ι k init).Reach s) :
    s.enqueued.map Prod.snd = s.dequeued.map Prod.snd ++ s.m_tasks ∧
    (∀ w, (doneBy w s.dequeued).filterMap id =
      doneBy (Sum.inl w) s.invoked ++ pending (s.workers w)) ∧
    s.m_tasks.length ≤ k ∧
    ¬ ((∃ w, w ∈ s.m_notEmpty.asleep) ∧ s.m_notEmpty.notified = ∅ ∧ s.m_tasks ≠ []) ∧
    ¬ ((∃ c, c ∈ s.m_notFull.asleep) ∧ s.m_notFull.notified = ∅ ∧ s.m_tasks.length < k) := by
  have hi := (queueInv_inductive k init).reach h
  refine ⟨hi.fifo, hi.once, hi.signalled.size, ?_, ?_⟩
  · rintro ⟨ha, hn, hq⟩
    have hpos := List.length_pos_iff.mpr hq
    obtain ⟨w, hw⟩ := hi.signalled.notEmpty.notified_nonempty hpos ha
    rw [hn] at hw
    exact absurd hw (Finset.notMem_empty w)
  · rintro ⟨ha, hn, hq⟩
    obtain ⟨c, hc⟩ := hi.signalled.notFull.notified_nonempty (by omega) ha
    rw [hn] at hc
    exact absurd hc (Finset.notMem_empty c)

/-- The worker of a pool that has one. -/
def soleWorker : Fin 1 := 0

/-- Two callers and one worker on a queue of one place: the worker sleeps first, the
second caller has to wait. -/
def fullRun : List (PoolMove 1 Bool Nat) :=
  [.begin soleWorker, .test soleWorker, .getTask soleWorker none, .call true (some 7),
   .run true (some soleWorker), .call false (some 8), .run false none]

theorem queue_exact_fullRun :
    ∃ s, (pool 1 Bool (τ := Nat) 1 none).run (start 1 1 Bool none) fullRun = some s ∧
      s.enqueued.map Prod.snd = s.dequeued.map Prod.snd ++ s.m_tasks ∧
      ¬ ((∃ w, w ∈ s.m_notEmpty.asleep) ∧ s.m_notEmpty.notified = ∅ ∧ s.m_tasks ≠ []) := by
  have hrun : (pool 1 Bool (τ := Nat) 1 none).run (start 1 1 Bool none) fullRun = some _ := rfl
  have h := queue_exact (Machine.reachIf_of_runIf (.init rfl) hrun)
  exact ⟨_, hrun, h.1, h.2.2.2.1⟩

/-! ## The calls -/

def calls : PoolMove n ι τ → List (ι × Task τ)
  | .call c task => [(c, task)]
  | _ => []

/-- The call of `run` that returns in this step. -/
def returned (s : ThreadPool n ι τ) (e : PoolMove n ι τ) (t : ThreadPool n ι τ) :
    List (ι × Task τ) :=
  match e with
  | .run c _ =>
    match s.callers c, t.callers c with
    | .locking task, .idle | .waiting task, .idle => [(c, task)]
    | _, _ => []
  | _ => []

/-- The non-empty task with which `getTask` returns in this step. -/
def gotten (e : PoolMove n ι τ) (t : ThreadPool n ι τ) : List τ :=
  match e with
  | .getTask w _ => pending (t.workers w)
  | _ => []

/-- The task a worker begins to execute in this step. -/
def begun (s : ThreadPool n ι τ) : PoolMove n ι τ → List ((Fin n ⊕ ι) × τ)
  | .take w => (pending (s.workers w)).map fun x => (Sum.inl w, x)
  | _ => []

omit [DecidableEq ι] in
theorem setWorker_self (s : ThreadPool n ι τ) (w : Fin n) (pc : WorkerPc τ) :
    (s.setWorker w pc).workers w = pc := Function.update_self ..

omit [DecidableEq ι] in
theorem returned_pushed {s t : ThreadPool n ι τ} {c : ι} {task : Task τ} {woken : Option (Fin n)}
    (hc : CallerReady s c task) (ht : t.callers c = .idle) :
    returned s (.run c woken) t = [(c, task)] := by
  rcases hc with hc | ⟨hc, -⟩
  · simp only [returned, hc, ht]
  · simp only [returned, hc, ht]

/-- What a step adds to the histories is what the calls and returns in it say. -/
theorem histories_turn {s t : ThreadPool n ι τ} {e : PoolMove n ι τ} (ht : Turn s e t) :
    t.submitted = s.submitted ++ calls e ∧ t.enqueued = s.enqueued ++ returned s e t ∧
      t.dequeued.filterMap Prod.snd = s.dequeued.filterMap Prod.snd ++ gotten e t ∧
      t.invoked = s.invoked ++ begun s e := by
  have hnil {α : Type _} {xs ys : List α} (h : ys = []) : xs = xs ++ ys := by
    rw [h, List.append_nil]
  -- the caller of `run` is not done, so nothing returns
  have hasleep {c : ι} {task : Task τ} {woken : Option (Fin n)} {t : ThreadPool n ι τ}
      (ht : t.callers c = .waiting task) : returned s (.run c woken) t = [] := by
    simp only [returned, ht]
    cases s.callers c <;> rfl
  cases ht with
  | begin | enter | leave | finish | stop | wakeWorker | wakeCaller =>
    exact ⟨hnil rfl, hnil rfl, hnil rfl, hnil rfl⟩
  | sleepWorker hw | giveUp hw =>
    refine ⟨hnil rfl, hnil rfl, hnil ?_, hnil rfl⟩
    rw [gotten, setWorker_self]
    rfl
  | @pop w woken task rest notFull hw =>
    refine ⟨hnil rfl, hnil rfl, ?_, hnil rfl⟩
    rw [gotten, setWorker_self, pending_gotTask]
    change (s.dequeued ++ [(w, task)]).filterMap Prod.snd = _
    rw [List.filterMap_append]
    cases task <;> rfl
  | invoke hw =>
    refine ⟨hnil rfl, hnil rfl, hnil rfl, ?_⟩
    rw [begun, hw]
    rfl
  | drop hw =>
    refine ⟨hnil rfl, hnil rfl, hnil rfl, hnil ?_⟩
    rw [begun, hw]
    rfl
  | call | callInline => exact ⟨rfl, hnil rfl, hnil rfl, hnil rfl⟩
  | sleepCaller hc =>
    exact ⟨hnil rfl, hnil (hasleep (Function.update_self ..)), hnil rfl, hnil rfl⟩
  | push hc =>
    refine ⟨hnil rfl, ?_, hnil rfl, hnil rfl⟩
    rw [returned_pushed hc (Function.update_self ..)]
    rfl

/-- **What the histories have to do with the calls.** In every run: what was submitted are the
calls of `run`, what was enqueued those that have returned, what was dequeued what `getTask` has
returned, and what was invoked what the workers have begun to execute. -/
theorem histories_calls {k : Nat} {init : Task τ} {s : ThreadPool n ι τ}
    {es : List (PoolMove n ι τ)} (h : (pool n ι k init).run (start n k ι init) es = some s) :
    s.submitted = es.flatMap calls ∧
    s.enqueued = (pool n ι k init).record returned (start n k ι init) es ∧
    s.dequeued.filterMap Prod.snd =
      (pool n ι k init).record (fun _ => gotten) (start n k ι init) es ∧
    s.invoked = (pool n ι k init).record (fun s e _ => begun s e) (start n k ι init) es := by
  have hkeeps : ∀ s e t, True → (pool n ι k init).step s e = some t → True :=
    fun _ _ _ _ _ => trivial
  refine ⟨?_, ?_, ?_, ?_⟩
  · rw [← Machine.record_labels h]
    exact Machine.runIf_history submitted hkeeps
      (fun s e t _ hs => (histories_turn (step_turn hs)).1) trivial h
  · exact Machine.runIf_history enqueued hkeeps
      (fun s e t _ hs => (histories_turn (step_turn hs)).2.1) trivial h
  · exact Machine.runIf_history (fun s => s.dequeued.filterMap Prod.snd) hkeeps
      (fun s e t _ hs => (histories_turn (step_turn hs)).2.2.1) trivial h
  · exact Machine.runIf_history invoked hkeeps
      (fun s e t _ hs => (histories_turn (step_turn hs)).2.2.2) trivial h

end MyNet.Base.ThreadPool
