import MyNet.Base.BoundedBlockingQueue
import MyNet.Lib.SizeT

/-!
# `capacity` and `size` of `BoundedBlockingQueue`

`capacity` returns a `bool`, so it is 1 for every queue that has room for anything. What the
queue takes before `put` blocks is the number of its free places.
-/
namespace MyNet.Base.BoundedBlockingQueue

open Lib Lib.SizeT
open CircularBuffer (full pushBack)

variable {B T ι : Type} [CircularBuffer B T] [DecidableEq ι]

def capacity (q : BoundedBlockingQueue B T) : Bool := CircularBuffer.capacity q.m_queue != 0

def size (q : BoundedBlockingQueue B T) : Nat := CircularBuffer.size q.m_queue

/-- `capacity() - size()`; the `bool` is promoted. -/
def reported (q : BoundedBlockingQueue B T) : Nat := subSize q.capacity.toNat q.size

/-- After `n` calls of `put`, and no other. -/
def putAll (values : Nat → T) (q : BoundedBlockingQueue B T) : Nat → BoundedBlockingQueue B T
  | 0 => q
  | n + 1 => (q.putAll values n).put (values n)

/-- Exactly `n` further calls of `put` find the loop left; the next one does not. -/
structure Takes (values : Nat → T) (q : BoundedBlockingQueue B T) (n : Nat) : Prop where
  through : ∀ k < n, full (q.putAll values k).m_queue = false
  blocked : full (q.putAll values n).m_queue = true

/-- `capacity` and `size` tell how much the queue takes. -/
structure Tells (values : Nat → T) (q : BoundedBlockingQueue B T) : Prop where
  takes : q.Takes values q.reported
  size_le : q.size ≤ q.capacity.toNat

/-! ## Further calls of `put` -/

variable {values : Nat → T} {q : BoundedBlockingQueue B T} {n : Nat}

/-- As long as there are free places every call of `put` fills one. -/
theorem putAll_size (values : Nat → T) (h : q.size + n ≤ CircularBuffer.capacity q.m_queue) :
    (q.putAll values n).size = q.size + n ∧
      CircularBuffer.capacity (q.putAll values n).m_queue = CircularBuffer.capacity q.m_queue := by
  induction n with
  | zero => exact ⟨rfl, rfl⟩
  | succ n ih =>
    obtain ⟨hsize, hcapacity⟩ := ih (by omega)
    have hroom : full (q.putAll values n).m_queue = false := by
      rw [← Bool.not_eq_true, CircularBuffer.full_iff]
      exact fun hfull => absurd (hsize.symm.trans hfull) (by omega)
    refine ⟨?_, (CircularBuffer.capacity_pushBack _ _).trans hcapacity⟩
    show CircularBuffer.size (pushBack (q.putAll values n).m_queue (values n)) = _
    rw [CircularBuffer.size_eq, CircularBuffer.pushBack_items hroom, List.length_append,
      List.length_singleton, ← CircularBuffer.size_eq]
    exact congrArg (· + 1) hsize

theorem putAll_full_iff (values : Nat → T) (h : q.size + n ≤ CircularBuffer.capacity q.m_queue) :
    full (q.putAll values n).m_queue = true ↔ q.size + n = CircularBuffer.capacity q.m_queue := by
  obtain ⟨hsize, hcapacity⟩ := putAll_size values h
  rw [CircularBuffer.full_iff, hcapacity, ← hsize]
  rfl

/-- The queue takes as many values as it has free places. -/
theorem takes_iff (values : Nat → T) (q : BoundedBlockingQueue B T) (n : Nat) :
    q.Takes values n ↔ q.size + n = CircularBuffer.capacity q.m_queue := by
  have hinside : q.size ≤ CircularBuffer.capacity q.m_queue := CircularBuffer.inside q.m_queue
  constructor
  · intro h
    by_contra hne
    by_cases hle : q.size + n ≤ CircularBuffer.capacity q.m_queue
    · exact hne ((putAll_full_iff values hle).mp h.blocked)
    · have hthrough := h.through (CircularBuffer.capacity q.m_queue - q.size) (by omega)
      rw [← Bool.not_eq_true, putAll_full_iff values (by omega)] at hthrough
      omega
  · intro h
    refine ⟨?_, (putAll_full_iff values (Nat.le_of_eq h)).mpr h⟩
    intro k hk
    rw [← Bool.not_eq_true, putAll_full_iff values (by omega)]
    omega

/-! ## What a thread gets through -/

variable {s : MonitorState (BoundedBlockingQueue B T) Cond (Op T) ι} {i : ι}

/-- A thread that puts one value after the other, with nobody else moving, gets the values
through for which there are places. -/
theorem Takes.through_run (q : BoundedBlockingQueue B T) (hfree : s.mutex = none)
    (hidle : s.threads i = .idle) (h : s.shared.Takes values n) {k : Nat} (hk : k ≤ n) :
    ∃ es t, ((monitor B T).machine ι q).run s es = some t ∧ t.shared = s.shared.putAll values k ∧
      t.mutex = none ∧ t.threads i = .idle := by
  induction k with
  | zero => exact ⟨[], s, rfl, rfl, hfree, hidle⟩
  | succ k ih =>
    obtain ⟨es, t, hes, hshared, hmutex, hthread⟩ := ih (by omega)
    have hroom : (monitor B T).Ready (.put (values k)) t.shared := by
      intro c blocked hloop
      cases hloop
      rw [hshared]
      exact h.through k hk
    obtain ⟨fs, u, hfs, hbody, hdone⟩ := Monitor.call_through q hmutex hthread hroom
    refine ⟨es ++ fs, u, (Machine.run_append hes fs).trans hfs, ?_, hdone⟩
    rw [hbody, hshared]
    rfl

/-- It gets all of them through, and waits with the next one. -/
theorem Takes.puts (q : BoundedBlockingQueue B T) (hfree : s.mutex = none)
    (hidle : s.threads i = .idle) (h : s.shared.Takes values n) :
    ∃ es t, ((monitor B T).machine ι q).run s es = some t ∧ t.shared = s.shared.putAll values n ∧
      t.threads i = .waiting .m_full (.put (values n)) := by
  obtain ⟨es, t, hes, hshared, hmutex, hthread⟩ := h.through_run q hfree hidle (Nat.le_refl n)
  obtain ⟨fs, u, hfs, hsame, hwaiting⟩ := Monitor.call_blocks (M := monitor B T) (o := .put (values n))
    q hmutex hthread rfl (hshared ▸ h.blocked)
  exact ⟨es ++ fs, u, (Machine.run_append hes fs).trans hfs, hsame.trans hshared, hwaiting⟩

/-! ## What is reported -/

theorem tells_iff (values : Nat → T) (q : BoundedBlockingQueue B T) :
    q.Tells values ↔ CircularBuffer.capacity q.m_queue ≤ 1 := by
  have hinside : q.size ≤ CircularBuffer.capacity q.m_queue := CircularBuffer.inside q.m_queue
  have hpromoted : q.capacity.toNat = if CircularBuffer.capacity q.m_queue = 0 then 0 else 1 := by
    by_cases hzero : CircularBuffer.capacity q.m_queue = 0
    · simp [capacity, hzero]
    · simp [capacity, hzero]
  constructor
  · intro h
    have hroom := (takes_iff values q _).mp h.takes
    have hsize := h.size_le
    have hone : q.capacity.toNat ≤ 1 := Bool.toNat_le _
    rw [reported, subSize_of_le hsize (by unfold modulus; omega)] at hroom
    omega
  · intro hle
    have hsize : q.size ≤ q.capacity.toNat := by
      rw [hpromoted]
      split <;> omega
    refine ⟨(takes_iff values q _).mpr ?_, hsize⟩
    have hone : q.capacity.toNat ≤ 1 := Bool.toNat_le _
    rw [reported, subSize_of_le hsize (by unfold modulus; omega), hpromoted]
    split <;> omega

/-- **What the two numbers tell.** In every state of every run, `capacity() - size()` is the
number of further calls of `put` that get through, and `size()` is not above `capacity()`, if
and only if the queue was made for one element at most. -/
theorem capacity_tells_iff {alloc : Allocator} {maxSize : BitVec 32} {q : BoundedBlockingQueue B T}
    (hnew : new alloc maxSize = .ok q)
    {s : MonitorState (BoundedBlockingQueue B T) Cond (Op T) ι}
    (h : ((monitor B T).machine ι q).Reach s) (values : Nat → T) :
    s.shared.Tells values ↔ maxSize.toInt ≤ 1 := by
  have hcapacity := (inv_reach hnew h).shared.capacity_eq
  have hmax := (new_ok hnew).2
  rw [tells_iff]
  omega

theorem capacity_tells_handOver :
    ∃ s, ((monitor (CircularList Nat) Nat).machine Bool onePlace).run
        (Monitor.start Bool onePlace) handOver = some s ∧
      (s.shared.Tells (fun _ => 9) ↔ (1 : BitVec 32).toInt ≤ 1) := by
  have hnew : new (fun _ => true) 1 = .ok onePlace := rfl
  have hrun : ((monitor (CircularList Nat) Nat).machine Bool onePlace).run
      (Monitor.start Bool onePlace) handOver = some _ := rfl
  exact ⟨_, hrun, capacity_tells_iff hnew (Machine.reachIf_of_runIf (.init rfl) hrun) _⟩

/-- A new queue of two places says that it takes one value, and takes two. -/
def twoPlaces : BoundedBlockingQueue (CircularList Nat) Nat := ⟨⟨2, [], Nat.zero_le 2⟩, [], [], true⟩

theorem capacity_misleads :
    new (fun _ => true) 2 = .ok twoPlaces ∧ twoPlaces.reported = 1 ∧
      twoPlaces.Takes (fun _ => 9) 2 ∧ ¬twoPlaces.Tells fun _ => 9 := by
  refine ⟨rfl, rfl, (takes_iff _ _ _).mpr rfl, ?_⟩
  rw [tells_iff]
  decide

end MyNet.Base.BoundedBlockingQueue
