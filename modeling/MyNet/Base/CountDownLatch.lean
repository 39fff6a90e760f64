import MyNet.Lib.CInt
import MyNet.Lib.CondVar
import MyNet.Lib.Machine
import MyNet.Lib.Mutex

/-!
# `CountDownLatch`

Any number of threads that call `wait` and `countDown`. A step takes one thread to its next
place in the two functions, so the others move between the test of the loop and the wait, and
between the decrement and the broadcast, as far as the mutex lets them.
-/
namespace MyNet.Base

open Lib

inductive LatchOp where
  | wait
  | countDown
  deriving DecidableEq

/-- Where a thread is in `wait` or `countDown`. -/
inductive LatchPc where
  | idle
  /-- At the entry, wanting the mutex. -/
  | locking (o : LatchOp)
  /-- At `while(m_count > 0)`. -/
  | testing
  /-- At `m_cond.wait()`, still with the mutex. -/
  | blocking
  /-- In `pthread_cond_wait`. -/
  | waiting
  /-- Behind the loop. -/
  | leaving
  /-- At `--m_count`. -/
  | decrementing
  /-- At `if(m_count == 0)`. -/
  | comparing
  | notifying
  /-- At the end of `countDown`. -/
  | finishing
  deriving DecidableEq

/-- With the mutex held. -/
def LatchPc.inside : LatchPc → Bool
  | .testing | .blocking | .leaving | .decrementing | .comparing | .notifying | .finishing => true
  | .idle | .locking _ | .waiting => false

structure CountDownLatch (ι : Type) where
  m_count : CInt
  m_mutex : Option ι
  m_cond : CondVar ι
  threads : ι → LatchPc
  /-- How many calls of `countDown` have decremented. -/
  decremented : Nat
  /-- How many have returned. -/
  counted : Nat
  /-- For each call of `wait` that has returned, how many of `countDown` had by then. -/
  returns : List Nat

/-- `run` is the next step of thread `i` itself. -/
inductive LatchMove (ι : Type) where
  | call (i : ι) (o : LatchOp)
  | run (i : ι)
  | wake (i : ι)

namespace CountDownLatch

variable {ι : Type} [DecidableEq ι]

def new (ι : Type) (count : Int) : CountDownLatch ι where
  m_count := .of count
  m_mutex := none
  m_cond := .empty
  threads _ := .idle
  decremented := 0
  counted := 0
  returns := []

def goto (s : CountDownLatch ι) (i : ι) (pc : LatchPc) : CountDownLatch ι :=
  { s with threads := Function.update s.threads i pc }

/-- `MutexLockGuard guard(m_mutex)` -/
def lock (s : CountDownLatch ι) (i : ι) (pc : LatchPc) : Option (CountDownLatch ι) :=
  match s.m_mutex with
  | none => some ({ s with m_mutex := some i }.goto i pc)
  | some _ => none

def run (s : CountDownLatch ι) (i : ι) : Option (CountDownLatch ι) :=
  match s.threads i with
  | .idle => none
  | .locking .wait => s.lock i .testing
  | .locking .countDown => s.lock i .decrementing
  | .testing => some (s.goto i (if 0 < s.m_count.value then .blocking else .leaving))
  | .blocking => some ({ s with m_mutex := none, m_cond := s.m_cond.sleep i }.goto i .waiting)
  | .waiting =>
    if i ∈ s.m_cond.asleep then none
    else { s with m_cond := s.m_cond.resume i }.lock i .testing
  | .leaving => some ({ s with m_mutex := none, returns := s.returns ++ [s.counted] }.goto i .idle)
  | .decrementing =>
    some ({ s with m_count := s.m_count - 1, decremented := s.decremented + 1 }.goto i .comparing)
  | .comparing => some (s.goto i (if s.m_count.value = 0 then .notifying else .finishing))
  | .notifying => some ({ s with m_cond := s.m_cond.broadcast }.goto i .finishing)
  | .finishing => some ({ s with m_mutex := none, counted := s.counted + 1 }.goto i .idle)

def step (s : CountDownLatch ι) : LatchMove ι → Option (CountDownLatch ι)
  | .call i o =>
    match s.threads i with
    | .idle => some (s.goto i (.locking o))
    | _ => none
  | .run i => s.run i
  | .wake i =>
    if i ∈ s.m_cond.asleep then some { s with m_cond := s.m_cond.wake i } else none

variable (ι) in
def latch (count : Int) : Machine (CountDownLatch ι) (LatchMove ι) where
  init s := s = new ι count
  step := step

/-- Nobody sleeps un-notified unless there is more to count. -/
def Quiet (s : CountDownLatch ι) : Prop := s.m_cond.asleep.Nonempty → 0 < s.m_count.value

/-- What holds while the thread with the mutex is at this place; a place outside stands for a
mutex that is free. -/
def At (s : CountDownLatch ι) : LatchPc → Prop
  | .testing | .decrementing | .idle | .locking _ | .waiting =>
    s.decremented = s.counted ∧ s.Quiet
  | .blocking => s.decremented = s.counted ∧ 0 < s.m_count.value
  | .leaving => s.decremented = s.counted ∧ s.Quiet ∧ s.m_count.value ≤ 0
  | .comparing => s.decremented = s.counted + 1 ∧ (s.m_cond.asleep.Nonempty → 0 ≤ s.m_count.value)
  | .notifying => s.decremented = s.counted + 1 ∧ s.m_count.value = 0
  | .finishing => s.decremented = s.counted + 1 ∧ s.Quiet

/-- The place of the thread with the mutex. -/
def holder (s : CountDownLatch ι) : LatchPc := s.m_mutex.elim .idle s.threads

structure Latched (count : Int) (s : CountDownLatch ι) : Prop where
  held : Mutex.Held LatchPc.inside s.m_mutex s.threads
  count_eq : s.m_count = .of (count - s.decremented)
  place : s.At s.holder
  returns : ∀ r ∈ s.returns, count ≤ r

variable {count : Int} {s t : CountDownLatch ι} {i : ι} {pc : LatchPc}

theorem holder_goto (h : s.m_mutex = some i) : (s.goto i pc).holder = pc := by
  rw [holder, show (s.goto i pc).m_mutex = some i from h]
  exact Function.update_self ..

/-- A thread outside moves past the one inside. -/
theorem holder_goto_outside (h : Mutex.Held LatchPc.inside s.m_mutex s.threads)
    (hi : (s.threads i).inside = false) : (s.goto i pc).holder = s.holder := by
  rw [holder, holder, show (s.goto i pc).m_mutex = s.m_mutex from rfl]
  cases hm : s.m_mutex with
  | none => rfl
  | some j =>
    have hj := (h j).mpr hm
    refine Function.update_of_ne ?_ ..
    rintro rfl
    rw [hi] at hj
    cases hj

omit [DecidableEq ι] in
theorem Latched.mutex (h : Latched count s) (hpc : s.threads i = pc) (hin : pc.inside = true) :
    s.m_mutex = some i := by
  refine (h.held i).mp ?_
  rw [hpc]
  exact hin

omit [DecidableEq ι] in
theorem Latched.at (h : Latched count s) (hpc : s.threads i = pc) (hin : pc.inside = true) :
    s.At pc := by
  have hplace := h.place
  rw [holder, h.mutex hpc hin] at hplace
  exact hpc ▸ hplace

omit [DecidableEq ι] in
/-- A free mutex finds nobody between the decrement and the broadcast. -/
theorem Latched.free (h : Latched count s) (hm : s.m_mutex = none) :
    s.decremented = s.counted ∧ s.Quiet := by
  have hplace := h.place
  rw [holder, hm] at hplace
  exact hplace

theorem latched_lock (h : Latched count s) (hpc : pc = .testing ∨ pc = .decrementing)
    (hs : s.lock i pc = some t) : Latched count t := by
  unfold lock at hs
  cases hm : s.m_mutex with
  | none =>
    rw [hm] at hs
    obtain rfl := Option.some.inj hs
    have hheld := h.held
    rw [hm] at hheld
    refine ⟨hheld.enter ?_, h.count_eq, ?_, h.returns⟩
    · rcases hpc with rfl | rfl <;> rfl
    · rw [holder_goto (s := { s with m_mutex := some i }) rfl]
      rcases hpc with rfl | rfl <;> exact h.free hm
  | some j =>
    rw [hm] at hs
    cases hs

/-- The thread inside goes on to another place inside. -/
theorem Latched.stay {u : CountDownLatch ι} {q : LatchPc} (h : Latched count s)
    (hpc : s.threads i = pc) (hin : pc.inside = true) (hq : q.inside = true)
    (hm : u.m_mutex = s.m_mutex) (ht : u.threads = s.threads)
    (hc : u.m_count = .of (count - u.decremented)) (hat : u.At q) (hr : u.returns = s.returns) :
    Latched count (u.goto i q) := by
  have hheld := h.held
  rw [← hm, ← ht] at hheld
  refine ⟨hheld.stay ?_, hc, ?_, ?_⟩
  · rw [hq, ht, hpc, hin]
  · rw [holder_goto (hm.trans (h.mutex hpc hin))]
    exact hat
  · exact fun r hmem => h.returns r (hr ▸ hmem)

theorem Latched.exit (h : Latched count s) (hpc : s.threads i = pc) (hin : pc.inside = true)
    {q : LatchPc} (hq : q.inside = false) :
    Mutex.Held LatchPc.inside none (Function.update s.threads i q) := by
  refine h.held.exit ?_ hq
  rw [hpc]
  exact hin

omit [DecidableEq ι] in
theorem value_eq (h : Latched count s) (hcount : 0 < count ∧ count ≤ 2147483647)
    (hfew : s.decremented < 2147483648) : s.m_count.value = count - s.decremented := by
  rw [h.count_eq]
  exact CInt.of_value (by omega)

theorem latched_run (hcount : 0 < count ∧ count ≤ 2147483647) (h : Latched count s)
    (hs : s.run i = some t) (hfew : t.decremented < 2147483648) : Latched count t := by
  unfold run at hs
  cases hpc : s.threads i with
  | idle =>
    rw [hpc] at hs
    cases hs
  | locking o =>
    rw [hpc] at hs
    cases o with
    | wait => exact latched_lock h (.inl rfl) hs
    | countDown => exact latched_lock h (.inr rfl) hs
  | testing =>
    rw [hpc] at hs
    obtain rfl := Option.some.inj hs
    obtain ⟨hsame, hquiet⟩ := h.at hpc rfl
    split
    · next hmore => exact h.stay hpc rfl rfl rfl rfl h.count_eq ⟨hsame, hmore⟩ rfl
    · next hdone => exact h.stay hpc rfl rfl rfl rfl h.count_eq ⟨hsame, hquiet, Int.not_lt.mp hdone⟩ rfl
  | blocking =>
    rw [hpc] at hs
    obtain rfl := Option.some.inj hs
    obtain ⟨hsame, hmore⟩ := h.at hpc rfl
    exact ⟨h.exit hpc rfl rfl, h.count_eq, ⟨hsame, fun _ => hmore⟩, h.returns⟩
  | waiting =>
    simp only [hpc] at hs
    split at hs
    · cases hs
    · refine latched_lock (s := { s with m_cond := s.m_cond.resume i }) ?_ (.inl rfl) hs
      exact ⟨h.held, h.count_eq, h.place, h.returns⟩
  | leaving =>
    rw [hpc] at hs
    obtain rfl := Option.some.inj hs
    obtain ⟨hsame, hquiet, hdone⟩ := h.at hpc rfl
    have hvalue := value_eq h hcount hfew
    refine ⟨h.exit hpc rfl rfl, h.count_eq, ⟨hsame, hquiet⟩, fun r hr => ?_⟩
    rcases List.mem_append.mp hr with hold | hnew
    · exact h.returns r hold
    · obtain rfl := List.mem_singleton.mp hnew
      omega
  | decrementing =>
    rw [hpc] at hs
    obtain rfl := Option.some.inj hs
    obtain ⟨hsame, hquiet⟩ := h.at hpc rfl
    have hbelow : s.decremented + 1 < 2147483648 := hfew
    have hnext : s.m_count - 1 = .of (count - (s.decremented + 1 : Nat)) := by
      rw [h.count_eq, CInt.lit, CInt.sub_exact (by omega) (by decide)]
      congr 1
      push_cast
      omega
    have hvalue := value_eq h hcount (by omega)
    refine h.stay (u := { s with m_count := s.m_count - 1, decremented := s.decremented + 1 })
      hpc rfl rfl rfl rfl hnext ⟨congrArg (· + 1) hsame, fun hasleep => ?_⟩ rfl
    have hmore := hquiet hasleep
    show 0 ≤ (s.m_count - 1).value
    rw [hnext, CInt.of_value (by omega)]
    omega
  | comparing =>
    rw [hpc] at hs
    obtain rfl := Option.some.inj hs
    obtain ⟨hone, hnone⟩ := h.at hpc rfl
    split
    · next hzero => exact h.stay hpc rfl rfl rfl rfl h.count_eq ⟨hone, hzero⟩ rfl
    · next hmore =>
      refine h.stay hpc rfl rfl rfl rfl h.count_eq ⟨hone, fun hasleep => ?_⟩ rfl
      have hrest := hnone hasleep
      omega
  | notifying =>
    rw [hpc] at hs
    obtain rfl := Option.some.inj hs
    obtain ⟨hone, -⟩ := h.at hpc rfl
    exact h.stay (u := { s with m_cond := s.m_cond.broadcast }) hpc rfl rfl rfl rfl h.count_eq
      ⟨hone, fun hasleep => absurd hasleep Finset.not_nonempty_empty⟩ rfl
  | finishing =>
    rw [hpc] at hs
    obtain rfl := Option.some.inj hs
    obtain ⟨hone, hquiet⟩ := h.at hpc rfl
    exact ⟨h.exit hpc rfl rfl, h.count_eq, ⟨hone, hquiet⟩, h.returns⟩

omit [DecidableEq ι] in
/-- Fewer sleepers are no more trouble. -/
theorem At.mono {u : CountDownLatch ι} (h : s.At pc) (hc : u.m_count = s.m_count)
    (hd : u.decremented = s.decremented) (hn : u.counted = s.counted)
    (ha : u.m_cond.asleep ⊆ s.m_cond.asleep) : u.At pc := by
  have hquiet : s.Quiet → u.Quiet := fun hq hasleep => hc ▸ hq (hasleep.mono ha)
  cases pc with
  | testing | decrementing | idle | locking | waiting | finishing =>
    simp only [At, hd, hn]
    exact ⟨h.1, hquiet h.2⟩
  | blocking | notifying =>
    simp only [At, hd, hn, hc]
    exact h
  | leaving =>
    simp only [At, hd, hn, hc]
    exact ⟨h.1, hquiet h.2.1, h.2.2⟩
  | comparing =>
    simp only [At, hd, hn, hc]
    exact ⟨h.1, fun hasleep => h.2 (hasleep.mono ha)⟩

theorem latched_step {e : LatchMove ι} (hcount : 0 < count ∧ count ≤ 2147483647)
    (h : Latched count s) (hs : s.step e = some t) (hfew : t.decremented < 2147483648) :
    Latched count t := by
  cases e with
  | call i o =>
    simp only [step] at hs
    split at hs
    · next hidle =>
      obtain rfl := Option.some.inj hs
      refine ⟨h.held.stay ?_, h.count_eq, ?_, h.returns⟩
      · rw [hidle]
        rfl
      · rw [holder_goto_outside h.held (hidle ▸ rfl)]
        exact h.place
    · cases hs
  | run i => exact latched_run hcount h hs hfew
  | wake i =>
    simp only [step] at hs
    split at hs
    · obtain rfl := Option.some.inj hs
      exact ⟨h.held, h.count_eq, h.place.mono rfl rfl rfl (Finset.erase_subset ..), h.returns⟩
    · cases hs

/-- What a step does to the count: nothing, or one decrement. -/
def Counts (s t : CountDownLatch ι) : Prop :=
  t.m_count = s.m_count ∧ t.decremented = s.decremented ∨
    t.m_count = s.m_count - 1 ∧ t.decremented = s.decremented + 1

theorem counts_lock (hs : s.lock i pc = some t) : Counts s t := by
  unfold lock at hs
  split at hs
  · obtain rfl := Option.some.inj hs
    exact .inl ⟨rfl, rfl⟩
  · cases hs

theorem counts_step {e : LatchMove ι} (hs : s.step e = some t) : Counts s t := by
  cases e with
  | call i o =>
    simp only [step] at hs
    split at hs
    · obtain rfl := Option.some.inj hs
      exact .inl ⟨rfl, rfl⟩
    · cases hs
  | run i =>
    simp only [step, run] at hs
    cases hpc : s.threads i with
    | idle =>
      rw [hpc] at hs
      cases hs
    | locking o =>
      rw [hpc] at hs
      cases o with
      | wait | countDown => exact counts_lock hs
    | waiting =>
      simp only [hpc] at hs
      split at hs
      · cases hs
      · exact counts_lock (s := { s with m_cond := s.m_cond.resume i }) hs
    | decrementing =>
      rw [hpc] at hs
      obtain rfl := Option.some.inj hs
      exact .inr ⟨rfl, rfl⟩
    | testing | blocking | leaving | comparing | notifying | finishing =>
      rw [hpc] at hs
      obtain rfl := Option.some.inj hs
      exact .inl ⟨rfl, rfl⟩
  | wake i =>
    simp only [step] at hs
    split at hs
    · obtain rfl := Option.some.inj hs
      exact .inl ⟨rfl, rfl⟩
    · cases hs

theorem decremented_le {e : LatchMove ι} (hs : s.step e = some t) :
    s.decremented ≤ t.decremented := by
  rcases counts_step hs with ⟨-, hsame⟩ | ⟨-, hnext⟩ <;> omega

omit [DecidableEq ι] in
theorem latched_new (count : Int) : Latched count (new ι count) :=
  ⟨fun _ => iff_of_false Bool.false_ne_true nofun, congrArg CInt.of (Int.sub_zero count).symm,
    ⟨rfl, fun hasleep => absurd hasleep Finset.not_nonempty_empty⟩, nofun⟩

theorem latched_reach (hcount : 0 < count ∧ count ≤ 2147483647) (h : (latch ι count).Reach s) :
    s.decremented < 2147483648 → Latched count s := by
  refine Machine.Inductive.reach (M := latch ι count) (C := fun _ _ => True)
    (I := fun s => s.decremented < 2147483648 → Latched count s) ⟨?_, ?_⟩ h
  · rintro s rfl -
    exact latched_new count
  · intro s e t hs _ hstep hfew
    exact latched_step hcount (hs (Nat.lt_of_le_of_lt (decremented_le hstep) hfew)) hstep hfew

omit [DecidableEq ι] in
theorem At.counted_le (h : s.At pc) : s.counted ≤ s.decremented := by
  cases pc with
  | testing | decrementing | idle | locking | waiting | blocking | leaving => exact h.1.ge
  | comparing | notifying | finishing =>
    rw [h.1]
    exact Nat.le_succ _

omit [DecidableEq ι] in
/-- With nothing left to count and every counter gone, everybody is awake. -/
theorem At.awake (h : s.At pc) (hvalue : s.m_count.value = count - s.decremented)
    (hdone : count ≤ s.counted) : s.m_cond.asleep = ∅ := by
  have hle := h.counted_le
  rw [← Finset.not_nonempty_iff_eq_empty]
  intro hasleep
  cases pc with
  | testing | decrementing | idle | locking | waiting | finishing =>
    have hmore := h.2 hasleep
    omega
  | leaving =>
    have hmore := h.2.1 hasleep
    omega
  | blocking | notifying =>
    obtain ⟨hcounted, hmore⟩ := h
    omega
  | comparing =>
    obtain ⟨hcounted, hmore⟩ := h
    have hzero := hmore hasleep
    omega

/-- **The latch releases exactly at zero.** As long as fewer than `2 ^ 31` calls of `countDown`
have decremented: no call of `wait` has returned before `count` of them had; and from the
`count`-th on nobody sleeps un-notified, nobody is about to, and who comes to the test of the
loop leaves it. -/
theorem releases_at_zero (hcount : 0 < count ∧ count ≤ 2147483647)
    (h : (latch ι count).Reach s) (hfew : s.decremented < 2147483648) :
    (∀ r ∈ s.returns, count ≤ r) ∧
    (count ≤ s.counted → s.m_cond.asleep = ∅ ∧
      ∀ i, s.threads i ≠ .blocking ∧
        (s.threads i = .testing → s.step (.run i) = some (s.goto i .leaving))) := by
  have hlatched := latched_reach hcount h hfew
  have hvalue := value_eq hlatched hcount hfew
  refine ⟨hlatched.returns, fun hdone => ?_⟩
  have hle := hlatched.place.counted_le
  refine ⟨hlatched.place.awake hvalue hdone, fun i => ⟨fun hpc => ?_, fun hpc => ?_⟩⟩
  · have hmore := (hlatched.at hpc rfl).2
    omega
  · have hnone : ¬ 0 < s.m_count.value := by omega
    simp only [step, run, hpc, if_neg hnone]

/-- One waiter and one call of `countDown`: it sleeps, is woken and returns. -/
theorem releases_at_zero_one :
    ∃ s, (latch (Fin 2) 1).run (new (Fin 2) 1)
        [.call 0 .wait, .run 0, .run 0, .run 0, .call 1 .countDown, .run 1, .run 1, .run 1, .run 1,
          .run 1, .run 0] = some s ∧
      s.counted = 1 ∧ s.threads 0 = .testing ∧ s.m_cond.asleep = ∅ ∧
      s.step (.run 0) = some (s.goto 0 .leaving) := by
  have hrun : (latch (Fin 2) 1).run (new (Fin 2) 1)
      [.call 0 .wait, .run 0, .run 0, .run 0, .call 1 .countDown, .run 1, .run 1, .run 1, .run 1,
        .run 1, .run 0] = some _ := rfl
  have hreleased := (releases_at_zero (by decide) (Machine.reachIf_of_runIf (.init rfl) hrun)
    (by decide)).2 (by decide)
  exact ⟨_, hrun, rfl, rfl, hreleased.1, (hreleased.2 0).2 rfl⟩

end CountDownLatch
end MyNet.Base
