import MyNet.Base.ThreadPoolQueue
import Mathlib.Data.Fintype.Card

/-!
# A `ThreadPool` whose bound was never set

The constructor leaves `m_maxQueueSize` alone, so `k` is whatever the memory held. As many
callers as the bound admits never wait in vain. One caller more can be asleep while the queue
is empty: for a bound of 0 for good, since nothing is ever queued and nobody signals; for any
other bound only while a signalled caller is on its way to the mutex.
-/
namespace MyNet.Base.ThreadPool

open Lib Lib.CondVar

variable {n : Nat} {ι τ : Type}

/-- The pool runs on. -/
def NoStop (_ : ThreadPool n ι τ) : PoolMove n ι τ → Prop
  | .stop => False
  | _ => True

instance (s : ThreadPool n ι τ) : (e : PoolMove n ι τ) → Decidable (NoStop s e)
  | .stop => inferInstanceAs (Decidable False)
  | .begin _ | .test _ | .getTask _ _ | .take _ | .finish _ | .call _ _ | .run _ _ | .wakeWorker _
  | .wakeCaller _ => inferInstanceAs (Decidable True)

/-- A caller of `run` sleeps un-notified on `m_notFull` while the queue is empty. -/
def Blocked (s : ThreadPool n ι τ) : Prop := (∃ c, c ∈ s.m_notFull.asleep) ∧ s.m_tasks = []

variable [DecidableEq ι]

/-- No worker has started yet, `queued` empty functions wait and these callers sleep. -/
structure Loaded (k queued : Nat) (sleeping : Finset ι) (s : ThreadPool n ι τ) : Prop where
  bound : s.m_maxQueueSize = k
  running : s.m_brunning = true
  tasks : s.m_tasks = List.replicate queued none
  workers : ∀ w, s.workers w = .starting
  awake : s.m_notEmpty.asleep = ∅
  asleep : s.m_notFull.asleep = sleeping
  notified : s.m_notFull.notified = ∅
  callers : ∀ c ∉ sleeping, s.callers c = .idle

variable {k queued : Nat} {sleeping : Finset ι} {init : Task τ} {s : ThreadPool n ι τ} {c : ι}

omit [DecidableEq ι] in
theorem loaded_start : Loaded k 0 ∅ (start n k ι init) :=
  ⟨rfl, rfl, rfl, fun _ => rfl, rfl, rfl, rfl, fun _ _ => rfl⟩

/-- The state of the pool in which `c` has called `run` with the empty function. -/
def called (s : ThreadPool n ι τ) (c : ι) : ThreadPool n ι τ :=
  { s with submitted := s.submitted ++ [(c, none)] }.setCaller c (.locking none)

theorem reach_called (hn : 0 < n) (hs : (pool n ι k init).ReachIf NoStop s)
    (h : Loaded k queued sleeping s) (hc : c ∉ sleeping) :
    (pool n ι k init).ReachIf NoStop (s.called c) := by
  refine .step (.call c none) hs trivial ?_
  simp only [pool, step, h.callers c hc, if_neg hn.ne']
  rfl

theorem step_called {woken : Option (Fin n)} :
    (s.called c).step (.run c woken) = (s.called c).run c none woken := by
  simp only [step, called, setCaller, Function.update_self]

theorem called_callers (h : Loaded k queued sleeping s) {pc : CallerPc τ} {d : ι} (hne : d ≠ c)
    (hd : d ∉ sleeping) : Function.update (s.called c).callers c pc d = .idle := by
  rw [Function.update_of_ne hne]
  exact (Function.update_of_ne hne ..).trans (h.callers d hd)

/-- A caller finds room. -/
theorem loaded_push (hn : 0 < n) (hs : (pool n ι k init).ReachIf NoStop s)
    (h : Loaded k queued ∅ s) (hroom : queued < k) (c : ι) :
    ∃ t, (pool n ι k init).ReachIf NoStop t ∧ Loaded k (queued + 1) ∅ t := by
  have hcalled := reach_called hn hs h (Finset.notMem_empty c)
  have hnotfull : (s.called c).isFull = false := by
    show decide (s.m_maxQueueSize ≤ s.m_tasks.length) = false
    rw [h.bound, h.tasks, List.length_replicate]
    exact decide_eq_false (Nat.not_le.mpr hroom)
  have hsignal : (s.called c).m_notEmpty.signal none = some s.m_notEmpty := if_pos h.awake
  have hpush : (s.called c).step (.run c none) = some ({ s.called c with
      m_notFull := s.m_notFull.resume c
      m_tasks := s.m_tasks ++ [none]
      enqueued := s.enqueued ++ [(c, none)] }.setCaller c .idle) := by
    rw [step_called, run, hnotfull, hsignal]
    rfl
  refine ⟨_, .step (.run c none) hcalled trivial hpush, h.bound, h.running, ?_, h.workers, h.awake,
    h.asleep, ?_, ?_⟩
  · show s.m_tasks ++ [none] = _
    rw [h.tasks, List.replicate_succ']
  · show s.m_notFull.notified.erase c = ∅
    rw [h.notified]
    rfl
  · intro d hd
    by_cases hdc : d = c
    · subst d
      exact Function.update_self ..
    · exact called_callers h hdc hd

/-- A caller finds the queue full. -/
theorem loaded_sleep (hn : 0 < n) (hs : (pool n ι k init).ReachIf NoStop s)
    (h : Loaded k k sleeping s) (hc : c ∉ sleeping) :
    ∃ t, (pool n ι k init).ReachIf NoStop t ∧ Loaded k k (insert c sleeping) t := by
  have hcalled := reach_called hn hs h hc
  have hfull : (s.called c).isFull = true := by
    show decide (s.m_maxQueueSize ≤ s.m_tasks.length) = true
    rw [h.bound, h.tasks, List.length_replicate]
    exact decide_eq_true (Nat.le_refl k)
  have hsleep : (s.called c).step (.run c none) =
      some ({ s.called c with m_notFull := s.m_notFull.sleep c }.setCaller c (.waiting none)) := by
    rw [step_called, run, hfull]
    rfl
  refine ⟨_, .step (.run c none) hcalled trivial hsleep, h.bound, h.running, h.tasks, h.workers,
    h.awake, ?_, ?_, ?_⟩
  · show insert c s.m_notFull.asleep = _
    rw [h.asleep]
  · show s.m_notFull.notified.erase c = ∅
    rw [h.notified]
    rfl
  · intro d hd
    rw [Finset.mem_insert, not_or] at hd
    exact called_callers h hd.1 hd.2

/-- One caller fills the queue. -/
theorem exists_loaded (hn : 0 < n) (c : ι) :
    ∀ queued ≤ k, ∃ s, (pool n ι k init).ReachIf NoStop s ∧ Loaded k queued ∅ s := by
  intro queued
  induction queued with
  | zero => exact fun _ => ⟨_, .init rfl, loaded_start⟩
  | succ queued ih =>
    intro hle
    obtain ⟨s, hs, hloaded⟩ := ih (Nat.le_of_succ_le hle)
    exact loaded_push hn hs hloaded hle c

/-- Then everybody else comes and sleeps. -/
theorem exists_sleeping (hn : 0 < n) (c : ι) (sleeping : Finset ι) :
    ∃ s, (pool n ι k init).ReachIf NoStop s ∧ Loaded k k sleeping s := by
  induction sleeping using Finset.induction_on with
  | empty => exact exists_loaded hn c k (Nat.le_refl k)
  | insert d sleeping hd ih =>
    obtain ⟨s, hs, hloaded⟩ := ih
    exact loaded_sleep hn hs hloaded hd

/-- A worker before `getTask`, with so many empty functions to take. -/
structure Draining (w : Fin n) (queued : Nat) (s : ThreadPool n ι τ) : Prop where
  running : s.m_brunning = true
  tasks : s.m_tasks = List.replicate queued none
  worker : s.workers w = .locking

theorem reach_test {w : Fin n} (hs : (pool n ι k init).ReachIf NoStop s)
    (hworker : s.workers w = .loopTest) (hrunning : s.m_brunning = true) :
    (pool n ι k init).ReachIf NoStop (s.setWorker w .locking) := by
  refine .step (.test w) hs trivial ?_
  simp only [pool, step, hworker, hrunning, if_true]

theorem reach_drop {w : Fin n} (hs : (pool n ι k init).ReachIf NoStop s)
    (hworker : s.workers w = .gotTask none) :
    (pool n ι k init).ReachIf NoStop (s.setWorker w .loopTest) := by
  refine .step (.take w) hs trivial ?_
  simp only [pool, step, hworker]

theorem loaded_begin {w : Fin n} (hs : (pool n ι k init).ReachIf NoStop s)
    (h : Loaded k queued sleeping s) :
    ∃ t, (pool n ι k init).ReachIf NoStop t ∧ Draining w queued t ∧
      t.m_notFull.asleep = sleeping := by
  have hbegin : s.step (.begin w) =
      some ({ s with inits := s.inits ++ s.m_ThreadInitFunc.toList }.setWorker w .loopTest) := by
    simp only [step, h.workers w]
  have hreach := Machine.ReachIf.step (M := pool n ι k init) (.begin w) hs trivial hbegin
  refine ⟨_, reach_test hreach (Function.update_self ..) h.running, ?_, h.asleep⟩
  exact ⟨h.running, h.tasks, Function.update_self ..⟩

/-- The worker takes one, wakes one sleeper and comes back. -/
theorem draining_pop {w : Fin n} (hs : (pool n ι k init).ReachIf NoStop s)
    (h : Draining w (queued + 1) s) (hc : c ∈ s.m_notFull.asleep) :
    ∃ t, (pool n ι k init).ReachIf NoStop t ∧ Draining w queued t ∧
      t.m_notFull.asleep = s.m_notFull.asleep.erase c := by
  obtain ⟨hrunning, htasks, hworker⟩ := h
  obtain ⟨notFull, hsignal⟩ : ∃ cv, s.m_notFull.signal (some c) = some cv := ⟨_, if_pos hc⟩
  have hasleep : notFull.asleep = s.m_notFull.asleep.erase c := by
    rcases signal_cases hsignal with ⟨hnone, -⟩ | ⟨d, -, hd, ha, -⟩
    · cases hnone
    · cases hd
      exact ha
  have hpop : s.step (.getTask w (some c)) = some ({ s with
      m_notEmpty := s.m_notEmpty.resume w
      m_notFull := notFull
      m_tasks := List.replicate queued none
      dequeued := s.dequeued ++ [(w, none)] }.setWorker w (.gotTask none)) := by
    simp only [step, hworker, getTask, htasks, List.replicate_succ, hsignal, Option.map_some]
  have hgot := Machine.ReachIf.step (M := pool n ι k init) (.getTask w (some c)) hs trivial hpop
  have hback := reach_drop hgot (Function.update_self ..)
  refine ⟨_, reach_test hback (Function.update_self ..) hrunning, ?_, hasleep⟩
  exact ⟨hrunning, rfl, Function.update_self ..⟩

/-- With one sleeper more than tasks, one is left when the queue is empty. -/
theorem exists_blocked {w : Fin n} :
    ∀ {queued : Nat} {s : ThreadPool n ι τ}, (pool n ι k init).ReachIf NoStop s →
      Draining w queued s → queued < s.m_notFull.asleep.card →
      ∃ t, (pool n ι k init).ReachIf NoStop t ∧ Blocked t := by
  intro queued
  induction queued with
  | zero =>
    intro s hs h hcard
    exact ⟨s, hs, Finset.card_pos.mp hcard, h.tasks⟩
  | succ queued ih =>
    intro s hs h hcard
    obtain ⟨c, hc⟩ := Finset.card_pos.mp (Nat.zero_lt_of_lt hcard)
    obtain ⟨t, ht, hdraining, hasleep⟩ := draining_pop hs h hc
    refine ih ht hdraining ?_
    rw [hasleep, Finset.card_erase_of_mem hc]
    omega

/-- A caller asleep beside an empty queue, and a signalled one for each place. -/
theorem blocked_card (hs : (pool n ι k init).ReachIf NoStop s) (h : Blocked s) :
    ∃ S : Finset ι, k < S.card := by
  obtain ⟨⟨c, hc⟩, hempty⟩ := h
  have hreach : (pool n ι k init).Reach s := hs.mono fun _ _ _ => trivial
  have hcovered := ((queueInv_inductive k init).reach hreach).signalled.notFull ⟨c, hc⟩
  rw [hempty] at hcovered
  refine ⟨s.m_notFull.asleep ∪ s.m_notFull.notified, ?_⟩
  rw [Finset.card_union_of_disjoint s.m_notFull.disjoint]
  have hsome := Finset.card_pos.mpr ⟨c, hc⟩
  have hcovered' : k ≤ s.m_notFull.notified.card := hcovered
  omega

/-- More callers than places: as many as there are places are woken, one is left. -/
theorem blocked_reachable (hn : 0 < n) {S : Finset ι} (hS : k < S.card) :
    ∃ s, (pool n ι k init).ReachIf NoStop s ∧ Blocked s := by
  obtain ⟨c, -⟩ := Finset.card_pos.mp (Nat.zero_lt_of_lt hS)
  obtain ⟨s, hs, hloaded⟩ : ∃ s, (pool n ι k init).ReachIf NoStop s ∧ Loaded k k S s :=
    exists_sleeping hn c S
  obtain ⟨t, ht, hdraining, hasleep⟩ := loaded_begin (w := ⟨0, hn⟩) hs hloaded
  exact exists_blocked ht hdraining (hasleep ▸ hS)

/-- No places: the first caller sleeps, and nobody was ever woken. -/
theorem stuck_reachable (init : Task τ) (hn : 0 < n) (c : ι) :
    ∃ s, (pool n ι 0 init).ReachIf NoStop s ∧ Blocked s ∧ s.m_notFull.notified = ∅ := by
  obtain ⟨s, hs, hloaded⟩ : ∃ s, (pool n ι 0 init).ReachIf NoStop s ∧ Loaded 0 0 {c} s :=
    exists_sleeping hn c {c}
  refine ⟨s, hs, ⟨⟨c, ?_⟩, hloaded.tasks⟩, hloaded.notified⟩
  rw [hloaded.asleep]
  exact Finset.mem_singleton_self c

/-- **What an unset bound does.** While a pool with workers runs, no caller of `run` sleeps
un-notified beside an empty queue exactly if no more threads call `run` than the bound says,
never for a bound of 0. And none does with nobody signalled exactly if the bound is not 0 (or
nobody calls `run`). -/
theorem unset_bound_iff (k : Nat) (init : Task τ) (hn : 0 < n) :
    ((∀ s, (pool n ι k init).ReachIf NoStop s → ¬ Blocked s) ↔ ∀ S : Finset ι, S.card ≤ k) ∧
    ((∀ s, (pool n ι k init).ReachIf NoStop s → ¬ (Blocked s ∧ s.m_notFull.notified = ∅)) ↔
      0 < k ∨ IsEmpty ι) := by
  refine ⟨⟨fun h S => ?_, fun h s hs hb => ?_⟩, fun h => ?_, fun h s hs => ?_⟩
  · by_contra hmore
    obtain ⟨s, hs, hblocked⟩ : ∃ s, (pool n ι k init).ReachIf NoStop s ∧ Blocked s :=
      blocked_reachable hn (Nat.not_le.mp hmore)
    exact h s hs hblocked
  · obtain ⟨S, hS⟩ := blocked_card hs hb
    exact absurd (h S) (Nat.not_le.mpr hS)
  · rcases Nat.eq_zero_or_pos k with rfl | hk
    · refine .inr ⟨fun c => ?_⟩
      obtain ⟨s, hs, hstuck⟩ := stuck_reachable init hn c
      exact h s hs hstuck
    · exact .inl hk
  · rintro ⟨⟨⟨c, hc⟩, hempty⟩, hnobody⟩
    rcases h with hk | hnone
    · have hreach : (pool n ι k init).Reach s := hs.mono fun _ _ _ => trivial
      refine (queue_exact hreach).2.2.2.2 ⟨⟨c, hc⟩, hnobody, ?_⟩
      rw [hempty]
      exact hk
    · exact hnone.elim c

/-- Two callers at a bound of two. -/
theorem unset_bound_iff_two :
    (∀ S : Finset Bool, S.card ≤ 2) ∧
      ∀ s, (pool 1 Bool (τ := Nat) 2 none).ReachIf NoStop s → ¬ Blocked s := by
  have hfew : ∀ S : Finset Bool, S.card ≤ 2 := fun S => S.card_le_univ
  exact ⟨hfew, (unset_bound_iff 2 none Nat.one_pos).1.mpr hfew⟩

/-- A bound of 0: the first caller sleeps at once, and the worker finds nothing to take. -/
theorem unset_bound_zero :
    ¬ ∀ k s, (pool 1 Bool (τ := Nat) k none).ReachIf NoStop s → ¬ Blocked s := by
  intro h
  have hrun : (pool 1 Bool (τ := Nat) 0 none).runIf NoStop (start 1 0 Bool none)
      [.call true (some 7), .run true none, .begin soleWorker, .test soleWorker,
        .getTask soleWorker none] = some _ := rfl
  exact h 0 _ (Machine.reachIf_of_runIf (.init rfl) hrun) ⟨⟨true, by decide⟩, rfl⟩

end MyNet.Base.ThreadPool
