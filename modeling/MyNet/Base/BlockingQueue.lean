import MyNet.Lib.MonitorSupply

/-!
# `BlockingQueue`

`put` and `get` as a monitor with the one condition variable `m_cond`. `put` has no loop
and notifies unconditionally; `get` notifies nobody. The histories record, in the order in
which the calls got through under the mutex, what was put and what was returned.
-/
namespace MyNet.Base

open Lib

structure BlockingQueue (T : Type) where
  m_deque : List T
  /-- The values put. -/
  delivered : List T
  /-- The values returned by `get`. -/
  received : List T
  /-- The assertion of `get` has not failed. -/
  nonEmptyReads : Bool

namespace BlockingQueue

variable {T ι : Type} [DecidableEq ι]

def new : BlockingQueue T := ⟨[], [], [], true⟩

inductive Op (T : Type) where
  | put (value : T)
  | get

def put (q : BlockingQueue T) (value : T) : BlockingQueue T :=
  { q with m_deque := q.m_deque ++ [value], delivered := q.delivered ++ [value] }

/-- `get` behind its loop; an empty deque has no front to return. -/
def get (q : BlockingQueue T) : BlockingQueue T :=
  match q.m_deque with
  | [] => { q with nonEmptyReads := false }
  | value :: rest => { q with m_deque := rest, received := q.received ++ [value] }

/-- `m_cond` is the only condition variable. -/
def monitor : Monitor (BlockingQueue T) Unit (Op T) where
  loop
    | .put _ => none
    | .get => some ((), fun q => q.m_deque.isEmpty)
  body
    | .put value, q => q.put value
    | .get, q => q.get
  notifies
    | .put _ => some ()
    | .get => none

/-- What was put is what was returned followed by the deque; no empty deque was read. -/
structure Fifo (q : BlockingQueue T) : Prop where
  fifo : q.delivered = q.received ++ q.m_deque
  nonEmptyReads : q.nonEmptyReads = true

theorem ready_get {q : BlockingQueue T} (h : monitor.Ready .get q) :
    ∃ value rest, q.m_deque = value :: rest := by
  have he : q.m_deque.isEmpty = false := h () _ rfl
  exact List.exists_cons_of_ne_nil (List.isEmpty_eq_false_iff.mp he)

theorem fifo_body (o : Op T) (q : BlockingQueue T) (h : Fifo q) (hr : monitor.Ready o q) :
    Fifo (monitor.body o q) := by
  cases o with
  | put value =>
    refine ⟨?_, h.nonEmptyReads⟩
    show q.delivered ++ [value] = q.received ++ (q.m_deque ++ [value])
    rw [h.fifo, List.append_assoc]
  | get =>
    obtain ⟨value, rest, hq⟩ := ready_get hr
    show Fifo q.get
    simp only [get, hq]
    refine ⟨?_, h.nonEmptyReads⟩
    show q.delivered = (q.received ++ [value]) ++ rest
    rw [h.fifo, hq, List.append_assoc]
    rfl

/-- The elements are the supply of `m_cond`. -/
def units : (monitor : Monitor (BlockingQueue T) Unit (Op T)).Units where
  units _ q := q.m_deque.length
  blocked o k blocked q hl hb := by
    cases o with
    | put value => cases hl
    | get =>
      obtain ⟨rfl, rfl⟩ := Prod.mk.inj (Option.some.inj hl)
      exact List.length_eq_zero_iff.mpr (List.isEmpty_iff.mp hb)
  body o k q hr := by
    cases o with
    | put value =>
      show (q.m_deque ++ [value]).length + 0 ≤ q.m_deque.length + 1
      rw [List.length_append, List.length_singleton]
    | get =>
      obtain ⟨value, rest, hq⟩ := ready_get hr
      show q.get.m_deque.length + 1 ≤ q.m_deque.length + 0
      simp only [get, hq, List.length_cons]
      exact Nat.le_refl _

/-- In every state of every run, with any number of threads: the values put are the values
returned by `get` followed by the deque, no empty deque was read, and nobody sleeps
un-notified on `m_cond` while there is an element and no notified consumer is pending. -/
theorem delivers_once {s : MonitorState (BlockingQueue T) Unit (Op T) ι}
    (h : (monitor.machine ι new).Reach s) :
    s.shared.delivered = s.shared.received ++ s.shared.m_deque ∧
    s.shared.nonEmptyReads = true ∧
    ¬ ((∃ c, c ∈ (s.conds ()).asleep) ∧ (s.conds ()).notified = ∅ ∧ s.shared.m_deque ≠ []) := by
  have hi := (Monitor.inv_inductive units fifo_body ⟨rfl, rfl⟩).reach h
  refine ⟨hi.shared.fifo, hi.shared.nonEmptyReads, fun ⟨ha, hn, hne⟩ => ?_⟩
  have hpos : 0 < s.shared.m_deque.length := List.length_pos_iff.mpr hne
  exact absurd hn (hi.notified (k := ()) hpos ha).ne_empty

/-- Two consumers sleep; the second wakes up by itself and takes the element the first was
notified for, which then finds nothing and sleeps again. -/
def stolen : List (MonitorMove (Op Nat) (Option Bool)) :=
  [.call (some true) .get, .run (some true) none, .run (some true) none,
   .call (some false) .get, .run (some false) none, .run (some false) none,
   .wake (some false),
   .call none (.put 7), .run none none, .run none none, .run none (some (some true)),
   .run none none,
   .run (some false) none, .run (some false) none, .run (some false) none,
   .run (some false) none,
   .run (some true) none, .run (some true) none]

theorem delivers_once_stolen :
    ∃ s, (monitor.machine (Option Bool) new).run (Monitor.start (Option Bool) new) stolen = some s ∧
      s.shared.delivered = s.shared.received ++ s.shared.m_deque ∧
      s.shared.nonEmptyReads = true := by
  have hrun : (monitor.machine (Option Bool) new).run (Monitor.start (Option Bool) new) stolen =
      some _ := rfl
  obtain ⟨hfifo, hreads, -⟩ := delivers_once (Machine.reachIf_of_runIf (.init rfl) hrun)
  exact ⟨_, hrun, hfifo, hreads⟩

end BlockingQueue
end MyNet.Base
