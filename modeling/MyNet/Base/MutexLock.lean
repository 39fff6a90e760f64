import MyNet.Base.Runtime
import MyNet.Lib.CondVar
import MyNet.Lib.Machine
import MyNet.Lib.Mutex

/-!
# `MutexLock` and `Condition`

A mutex that keeps the id of its owner in `m_holder`, and the condition variables made for it.
The field is written by hand: behind `pthread_mutex_lock`, before `pthread_mutex_unlock`, and
around a wait, by the guard whose constructor clears it and whose destructor sets it again.
Each of these is a step, and so is each stage of a wait, so another thread may have owned the
mutex and written the field before a wait returns.

`unlock` and the waits are called by the owner. A second `lock` of the owner blocks it for
good. The constructor of a `MutexLockGuard` is `lock`, and its destructor is `unlock`.
-/
namespace MyNet.Base

open Lib

/-- The pthread mutex is its owner. -/
structure MutexLock (ι : Type) where
  m_lock : Option ι
  m_holder : Int

namespace MutexLock

variable {ι : Type}

variable (ι) in
def new : MutexLock ι := ⟨none, 0⟩

/-- `~MutexLock` -/
def destroy (m : MutexLock ι) : Except Fault Unit :=
  if m.m_holder = 0 then .ok () else .error .assertion

def unassgin (m : MutexLock ι) : MutexLock ι := { m with m_holder := 0 }

def assign (m : MutexLock ι) (tid : Int) : MutexLock ι := { m with m_holder := tid }

/-- `pthread_mutex_lock` returns when the mutex is free. -/
def pthread_lock (m : MutexLock ι) (i : ι) : Option (MutexLock ι) :=
  match m.m_lock with
  | none => some { m with m_lock := some i }
  | some _ => none

def pthread_unlock (m : MutexLock ι) : MutexLock ι := { m with m_lock := none }

end MutexLock

structure Timespec where
  tv_sec : Int
  tv_nsec : Int

/-- At the time `now` the time `t` has come. -/
def Timespec.Reached (t now : Timespec) : Prop :=
  t.tv_sec < now.tv_sec ∨ t.tv_sec = now.tv_sec ∧ t.tv_nsec ≤ now.tv_nsec

instance (t now : Timespec) : Decidable (t.Reached now) := inferInstanceAs (Decidable (_ ∨ _))

/-- A call of a member function, of the mutex or of the condition `k`. -/
inductive LockCall (κ : Type) where
  | lock
  | unlock
  | wait (k : κ)
  | waitForSeconds (k : κ) (seconds : Int)

/-- Where a thread is. A wait without a time-out has no `abs_time`. -/
inductive LockPc (κ : Type) where
  /-- In no call, without the mutex. -/
  | outside
  /-- In no call, with the mutex; `returned` is what `waitForSeconds` returned, if it was the
  last call. -/
  | owning (returned : Option Bool)
  /-- At `pthread_mutex_lock` in `lock`. -/
  | locking
  /-- The same with the mutex at hand. -/
  | relocking
  /-- At `assign` in `lock`. -/
  | assigning
  /-- At `unassgin` in `unlock`. -/
  | unassigning
  /-- At `pthread_mutex_unlock`. -/
  | unlocking
  /-- At `clock_gettime` in `waitForSeconds`. -/
  | timing (k : κ) (seconds : Int)
  /-- At the constructor of the guard. -/
  | guarding (k : κ) (abs_time : Option Timespec)
  /-- At `pthread_cond_wait` or `pthread_cond_timedwait`, with the mutex. -/
  | blocking (k : κ) (abs_time : Option Timespec)
  /-- Inside it, without the mutex. -/
  | waiting (k : κ) (abs_time : Option Timespec) (timedOut : Bool)
  /-- At the destructor of the guard. -/
  | restoring (returned : Option Bool)

/-- With the pthread mutex. -/
def LockPc.inside {κ : Type} : LockPc κ → Bool
  | .outside | .locking | .waiting _ _ _ => false
  | .owning _ | .relocking | .assigning | .unassigning | .unlocking | .timing _ _ | .guarding _ _
  | .blocking _ _ | .restoring _ => true

/-- Past `lock()` or past the return of a wait, up to the next `unassgin()`. -/
def LockPc.past {κ : Type} : LockPc κ → Bool
  | .owning _ | .relocking | .unassigning | .timing _ _ | .guarding _ _ => true
  | .outside | .locking | .assigning | .unlocking | .blocking _ _ | .waiting _ _ _
  | .restoring _ => false

theorem LockPc.inside_of_past {κ : Type} {pc : LockPc κ} (h : pc.past = true) :
    pc.inside = true := by
  cases pc with
  | owning | relocking | unassigning | timing | guarding => rfl
  | outside | locking | assigning | unlocking | blocking | waiting | restoring => cases h

structure LockedThreads (ι κ : Type) where
  m_mutex : MutexLock ι
  m_cond : κ → CondVar ι
  threads : ι → LockPc κ
  t_cachedtid : ι → Int

/-- `notify` and `notifyAll` may come from any thread, and `woken` is the waiter that a signal
picks. `tid` is a call of `ThreadOp::tid()` elsewhere in the program. -/
inductive LockMove (ι κ : Type) where
  | call (i : ι) (c : LockCall κ)
  /-- The next step of thread `i` itself. -/
  | run (i : ι)
  /-- The same at `clock_gettime`. -/
  | clock (i : ι) (now : Timespec)
  | notify (k : κ) (woken : Option ι)
  | notifyAll (k : κ)
  | wake (i : ι)
  | timeOut (i : ι) (now : Timespec)
  | tid (i : ι)

namespace LockedThreads

variable {ι κ : Type} [DecidableEq ι]

def goto (s : LockedThreads ι κ) (i : ι) (pc : LockPc κ) : LockedThreads ι κ :=
  { s with threads := Function.update s.threads i pc }

section Step

variable (gettid : ι → Int)

/-- No thread has called a function yet; some may have cached their ids. -/
structure Constructed (s : LockedThreads ι κ) : Prop where
  m_mutex : s.m_mutex = .new ι
  m_cond : ∀ k, s.m_cond k = .empty
  threads : ∀ i, s.threads i = .outside
  t_cachedtid : ∀ i, s.t_cachedtid i = 0 ∨ s.t_cachedtid i = gettid i

def cacheTid (s : LockedThreads ι κ) (i : ι) : LockedThreads ι κ :=
  if s.t_cachedtid i = 0 then
    { s with t_cachedtid := Function.update s.t_cachedtid i (gettid i) }
  else s

/-- `ThreadOp::tid()`, called by thread `i`. -/
def tid (s : LockedThreads ι κ) (i : ι) : Int × LockedThreads ι κ :=
  let s := if s.t_cachedtid i = 0 then s.cacheTid gettid i else s
  (s.t_cachedtid i, s)

/-- `m_mutex.assign()` -/
def assign (s : LockedThreads ι κ) (i : ι) : LockedThreads ι κ :=
  let (tid, s) := s.tid gettid i
  { s with m_mutex := s.m_mutex.assign tid }

/-- The mutex is acquired and `i` goes on to `pc`. -/
def acquire (s : LockedThreads ι κ) (i : ι) (pc : LockPc κ) : Option (LockedThreads ι κ) :=
  (s.m_mutex.pthread_lock i).map fun m => { s with m_mutex := m }.goto i pc

def call (s : LockedThreads ι κ) (i : ι) (c : LockCall κ) : Option (LockedThreads ι κ) :=
  match s.threads i, c with
  | .outside, .lock => some (s.goto i .locking)
  | .owning _, .lock => some (s.goto i .relocking)
  | .owning _, .unlock => some (s.goto i .unassigning)
  | .owning _, .wait k => some (s.goto i (.guarding k none))
  | .owning _, .waitForSeconds k seconds => some (s.goto i (.timing k seconds))
  | _, _ => none

variable [DecidableEq κ]

def setCond (s : LockedThreads ι κ) (k : κ) (cv : CondVar ι) : LockedThreads ι κ :=
  { s with m_cond := Function.update s.m_cond k cv }

def run (s : LockedThreads ι κ) (i : ι) : Option (LockedThreads ι κ) :=
  match s.threads i with
  | .outside | .owning _ | .relocking | .timing _ _ => none
  | .locking => s.acquire i .assigning
  | .assigning => some ((s.assign gettid i).goto i (.owning none))
  | .unassigning => some ({ s with m_mutex := s.m_mutex.unassgin }.goto i .unlocking)
  | .unlocking => some ({ s with m_mutex := s.m_mutex.pthread_unlock }.goto i .outside)
  | .guarding k abs_time =>
    some ({ s with m_mutex := s.m_mutex.unassgin }.goto i (.blocking k abs_time))
  | .blocking k abs_time =>
    some (({ s with m_mutex := s.m_mutex.pthread_unlock }.setCond k ((s.m_cond k).sleep i)).goto i
      (.waiting k abs_time false))
  | .waiting k abs_time timedOut =>
    if i ∈ (s.m_cond k).asleep then none
    else
      (s.setCond k ((s.m_cond k).resume i)).acquire i (.restoring (abs_time.map fun _ => timedOut))
  | .restoring returned => some ((s.assign gettid i).goto i (.owning returned))

def step (s : LockedThreads ι κ) : LockMove ι κ → Option (LockedThreads ι κ)
  | .call i c => s.call i c
  | .run i => s.run gettid i
  | .clock i now =>
    match s.threads i with
    | .timing k seconds =>
      some (s.goto i (.guarding k (some { now with tv_sec := now.tv_sec + seconds })))
    | _ => none
  | .notify k woken => ((s.m_cond k).signal woken).map (s.setCond k)
  | .notifyAll k => some (s.setCond k (s.m_cond k).broadcast)
  | .wake i =>
    match s.threads i with
    | .waiting k _ _ =>
      if i ∈ (s.m_cond k).asleep then some (s.setCond k ((s.m_cond k).wake i)) else none
    | _ => none
  | .timeOut i now =>
    match s.threads i with
    | .waiting k (some abs_time) _ =>
      if i ∈ (s.m_cond k).asleep ∧ abs_time.Reached now then
        some ((s.setCond k ((s.m_cond k).wake i)).goto i (.waiting k (some abs_time) true))
      else none
    | _ => none
  | .tid i => some (s.tid gettid i).2

variable (κ) in
def locked : Machine (LockedThreads ι κ) (LockMove ι κ) where
  init := Constructed gettid
  step := step gettid

end Step

/-! ## Who writes the field -/

/-- The field shows the owner wherever it is past `lock()` or a wait, and is 0 elsewhere. -/
structure Truthful (gettid : ι → Int) (s : LockedThreads ι κ) : Prop where
  held : Mutex.Held LockPc.inside s.m_mutex.m_lock s.threads
  shown : Mutex.Shows LockPc.past gettid 0 s.m_mutex.m_lock s.threads s.m_mutex.m_holder
  cached : ∀ i, s.t_cachedtid i = 0 ∨ s.t_cachedtid i = gettid i

variable {gettid : ι → Int} {s t : LockedThreads ι κ} {i : ι} {pc q : LockPc κ}

theorem tid_spec (h : ∀ j, s.t_cachedtid j = 0 ∨ s.t_cachedtid j = gettid j) (i : ι) :
    (s.tid gettid i).1 = gettid i ∧
      ∀ j, (s.tid gettid i).2.t_cachedtid j = 0 ∨ (s.tid gettid i).2.t_cachedtid j = gettid j := by
  by_cases hzero : s.t_cachedtid i = 0
  · simp only [tid, cacheTid, if_pos hzero]
    refine ⟨Function.update_self .., fun j => ?_⟩
    by_cases hj : j = i
    · subst j
      exact .inr (Function.update_self ..)
    · rw [Function.update_of_ne hj]
      exact h j
  · simp only [tid, if_neg hzero]
    exact ⟨(h i).resolve_left hzero, h⟩

theorem tid_frame (gettid : ι → Int) (s : LockedThreads ι κ) (i : ι) :
    (s.tid gettid i).2.m_mutex = s.m_mutex ∧ (s.tid gettid i).2.threads = s.threads := by
  by_cases hzero : s.t_cachedtid i = 0
  · simp only [tid, cacheTid, if_pos hzero, and_self]
  · simp only [tid, if_neg hzero, and_self]

omit [DecidableEq ι] in
theorem Truthful.owner (h : Truthful gettid s) (hpc : s.threads i = pc) (hin : pc.inside = true) :
    s.m_mutex.m_lock = some i := by
  refine (h.held i).mp ?_
  rw [hpc]
  exact hin

theorem Truthful.goto (h : Truthful gettid s) (hpc : s.threads i = pc)
    (hin : q.inside = pc.inside) (hp : q.past = pc.past) : Truthful gettid (s.goto i q) where
  held := h.held.stay (hpc ▸ hin)
  shown := h.shown.stay (hpc ▸ hp)
  cached := h.cached

theorem Truthful.tid (h : Truthful gettid s) (i : ι) : Truthful gettid (s.tid gettid i).2 := by
  obtain ⟨hmutex, hthreads⟩ := tid_frame gettid s i
  refine ⟨?_, ?_, (tid_spec h.cached i).2⟩ <;> rw [hmutex, hthreads]
  · exact h.held
  · exact h.shown

/-- The new owner has not written the field yet. -/
theorem Truthful.acquire (h : Truthful gettid s) (hin : q.inside = true) (hp : q.past = false)
    (hs : s.acquire i q = some t) : Truthful gettid t := by
  obtain ⟨m, hm, rfl⟩ := Option.map_eq_some_iff.mp hs
  unfold MutexLock.pthread_lock at hm
  have hheld := h.held
  have hshown := h.shown
  split at hm
  · next hfree =>
    obtain rfl := Option.some.inj hm
    rw [hfree] at hheld hshown
    exact ⟨hheld.enter hin, hshown.enter hp, h.cached⟩
  · cases hm

/-- Only the owner writes its id. -/
theorem Truthful.assign (h : Truthful gettid s) (hpc : s.threads i = pc) (hin : pc.inside = true)
    (hq : q.inside = true) (hp : q.past = true) :
    Truthful gettid ((s.assign gettid i).goto i q) := by
  have hlock := h.owner hpc hin
  obtain ⟨htid, hcached⟩ := tid_spec h.cached i
  obtain ⟨hmutex, hthreads⟩ := tid_frame gettid s i
  refine ⟨?_, ?_, hcached⟩
  · change Mutex.Held _ (s.tid gettid i).2.m_mutex.m_lock
      (Function.update (s.tid gettid i).2.threads i q)
    rw [hmutex, hthreads]
    exact h.held.stay (by rw [hpc, hin, hq])
  · change Mutex.Shows _ _ _ (s.tid gettid i).2.m_mutex.m_lock
      (Function.update (s.tid gettid i).2.threads i q) (s.tid gettid i).1
    rw [hmutex, hthreads, hlock, htid]
    exact Mutex.shows_sign hp

/-- Only the owner clears the field. -/
theorem Truthful.unassgin (h : Truthful gettid s) (hpc : s.threads i = pc)
    (hin : pc.inside = true) (hq : q.inside = true) (hp : q.past = false) :
    Truthful gettid ({ s with m_mutex := s.m_mutex.unassgin }.goto i q) := by
  refine ⟨h.held.stay (by rw [hpc, hin, hq]), ?_, h.cached⟩
  change Mutex.Shows _ _ _ s.m_mutex.m_lock (Function.update s.threads i q) 0
  rw [h.owner hpc hin]
  exact Mutex.shows_clear hp

/-- The owner has cleared the field before. -/
theorem Truthful.pthread_unlock (h : Truthful gettid s) (hpc : s.threads i = pc)
    (hin : pc.inside = true) (hp : pc.past = false) (hq : q.inside = false) :
    Truthful gettid ({ s with m_mutex := s.m_mutex.pthread_unlock }.goto i q) := by
  have hshown := h.shown
  rw [h.owner hpc hin] at hshown
  refine ⟨h.held.exit (hpc ▸ hin) hq, ?_, h.cached⟩
  exact hshown.exit (hpc ▸ hp) _

omit [DecidableEq ι] in
theorem truthful_constructed (h : Constructed gettid s) : Truthful gettid s where
  held := by
    intro i
    rw [h.threads i, h.m_mutex]
    exact iff_of_false Bool.false_ne_true nofun
  shown := by
    rw [h.m_mutex]
    rfl
  cached := h.t_cachedtid

theorem truthful_call {c : LockCall κ} (h : Truthful gettid s) (hs : s.call i c = some t) :
    Truthful gettid t := by
  unfold call at hs
  split at hs
  · next hpc => obtain rfl := Option.some.inj hs; exact h.goto hpc rfl rfl
  · next hpc => obtain rfl := Option.some.inj hs; exact h.goto hpc rfl rfl
  · next hpc => obtain rfl := Option.some.inj hs; exact h.goto hpc rfl rfl
  · next hpc => obtain rfl := Option.some.inj hs; exact h.goto hpc rfl rfl
  · next hpc => obtain rfl := Option.some.inj hs; exact h.goto hpc rfl rfl
  · cases hs

/-! ## Runs -/

variable [DecidableEq κ]

omit [DecidableEq ι] in
theorem Truthful.setCond (h : Truthful gettid s) (k : κ) (cv : CondVar ι) :
    Truthful gettid (s.setCond k cv) := ⟨h.held, h.shown, h.cached⟩

theorem truthful_run (h : Truthful gettid s) (hs : s.run gettid i = some t) :
    Truthful gettid t := by
  unfold run at hs
  cases hpc : s.threads i with
  | outside | owning | relocking | timing =>
    rw [hpc] at hs
    cases hs
  | locking =>
    rw [hpc] at hs
    exact h.acquire rfl rfl hs
  | assigning | restoring =>
    rw [hpc] at hs
    obtain rfl := Option.some.inj hs
    exact h.assign hpc rfl rfl rfl
  | unassigning | guarding =>
    rw [hpc] at hs
    obtain rfl := Option.some.inj hs
    exact h.unassgin hpc rfl rfl rfl
  | unlocking =>
    rw [hpc] at hs
    obtain rfl := Option.some.inj hs
    exact h.pthread_unlock hpc rfl rfl rfl
  | blocking k abs_time =>
    rw [hpc] at hs
    obtain rfl := Option.some.inj hs
    exact (h.pthread_unlock hpc rfl rfl rfl).setCond k _
  | waiting k abs_time timedOut =>
    simp only [hpc] at hs
    split at hs
    · cases hs
    · exact (h.setCond k _).acquire rfl rfl hs

theorem truthful_step {e : LockMove ι κ} (h : Truthful gettid s)
    (hs : s.step gettid e = some t) : Truthful gettid t := by
  cases e with
  | call i c => exact truthful_call h hs
  | run i => exact truthful_run h hs
  | clock i now =>
    simp only [step] at hs
    split at hs
    · next hpc => obtain rfl := Option.some.inj hs; exact h.goto hpc rfl rfl
    · cases hs
  | notify k woken =>
    obtain ⟨cv, -, rfl⟩ := Option.map_eq_some_iff.mp hs
    exact h.setCond k cv
  | notifyAll k =>
    obtain rfl := Option.some.inj hs
    exact h.setCond k _
  | wake i =>
    simp only [step] at hs
    split at hs
    · split at hs
      · obtain rfl := Option.some.inj hs
        exact h.setCond _ _
      · cases hs
    · cases hs
  | timeOut i now =>
    simp only [step] at hs
    split at hs
    · next hpc =>
      split at hs
      · obtain rfl := Option.some.inj hs
        exact (h.setCond _ _).goto hpc rfl rfl
      · cases hs
    · cases hs
  | tid i =>
    obtain rfl := Option.some.inj hs
    exact h.tid i

theorem truthful_reach (h : (locked κ gettid).Reach s) : Truthful gettid s :=
  Machine.Inductive.reach (I := Truthful gettid)
    ⟨fun _ => truthful_constructed, fun _ _ _ hs _ hstep => truthful_step hs hstep⟩ h

/-- **The holder is truthful.** It is 0 or the id of the owner; a thread past `lock()` or a wait
is the owner, and it is the id of that thread; and the mutex can be destroyed when nobody owns
it. -/
theorem holder_truthful (gettid : ι → Int) {s : LockedThreads ι κ}
    (h : (locked κ gettid).Reach s) :
    (s.m_mutex.m_holder = 0 ∨
      ∃ i, s.m_mutex.m_lock = some i ∧ s.m_mutex.m_holder = gettid i) ∧
    (∀ i, (s.threads i).past = true →
      s.m_mutex.m_lock = some i ∧ s.m_mutex.m_holder = gettid i) ∧
    (s.m_mutex.m_lock = none → s.m_mutex.m_holder = 0 ∧ s.m_mutex.destroy = .ok ()) := by
  have htruthful := truthful_reach h
  have hshown := htruthful.shown
  refine ⟨hshown.blank_or, fun i hpast => ?_, fun hfree => ?_⟩
  · have hlock := htruthful.owner rfl (LockPc.inside_of_past hpast)
    rw [hlock] at hshown
    exact ⟨hlock, hshown.marked hpast⟩
  · rw [hfree] at hshown
    exact ⟨hshown.free, if_pos hshown.free⟩

def start : LockedThreads ι κ := ⟨.new ι, fun _ => .empty, fun _ => .outside, fun _ => 0⟩

/-- The first thread waits, the second one takes the mutex and notifies it; the first one is back
from its wait. -/
def handOver : List (LockMove Bool Bool) :=
  [.call true .lock, .run true, .run true, .call true (.wait true), .run true, .run true,
    .call false .lock, .run false, .run false, .notify true (some true), .call false .unlock,
    .run false, .run false, .run true, .run true]

theorem holder_truthful_handOver :
    ∃ s, (locked Bool fun i => bif i then 101 else 102).run start handOver = some s ∧
      s.threads true = .owning none ∧ s.m_mutex.m_lock = some true ∧ s.m_mutex.m_holder = 101 := by
  have hrun : (locked Bool fun i => bif i then 101 else 102).run start handOver = some _ := rfl
  have hinit : (locked Bool fun i => bif i then 101 else 102).init start :=
    ⟨rfl, fun _ => rfl, fun _ => rfl, fun _ => .inl rfl⟩
  have htruthful := holder_truthful _ (Machine.reachIf_of_runIf (.init hinit) hrun)
  exact ⟨_, hrun, rfl, htruthful.2.1 true rfl⟩

end LockedThreads
end MyNet.Base
