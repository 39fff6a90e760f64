import MyNet.Base.CircularBuffer
import MyNet.Lib.MonitorCalls

/-!
# `BoundedBlockingQueue`

`put` and `get` as a monitor with the condition variables `m_full` and `m_empty`. The
container drops its oldest element when it is pushed while full; that no element is ever
dropped rests on the wait loops. The two histories record, in the order in which the
calls got through under the mutex, what was put and what was returned.
-/
namespace MyNet.Base

open Lib CircularBuffer

structure BoundedBlockingQueue (B T : Type) where
  m_queue : B
  /-- The values put. -/
  stored : List T
  /-- The values returned by `get`. -/
  fetched : List T
  /-- No assertion has failed. -/
  asserted : Bool

namespace BoundedBlockingQueue

variable {B T ι : Type} [CircularBuffer B T] [DecidableEq ι]

/-- The constructor converts its `int` to the container's `size_t`. -/
def new (alloc : Allocator) (maxSize : BitVec 32) : Except Fault (BoundedBlockingQueue B T) := do
  let queue ← CircularBuffer.new alloc (maxSize.signExtend 64).toNat
  return ⟨queue, [], [], true⟩

inductive Cond where
  | m_full
  | m_empty
  deriving DecidableEq

inductive Op (T : Type) where
  | put (value : T)
  | get

/-- `put` behind its loop. -/
def put (q : BoundedBlockingQueue B T) (value : T) : BoundedBlockingQueue B T :=
  { q with
    asserted := q.asserted && !full q.m_queue
    m_queue := pushBack q.m_queue value
    stored := q.stored ++ [value] }

/-- `get` behind its loop; there is no front to return when the assertion fails. -/
def get (q : BoundedBlockingQueue B T) : BoundedBlockingQueue B T :=
  match items q.m_queue with
  | [] => { q with asserted := false }
  | value :: _ => { q with m_queue := popFront q.m_queue, fetched := q.fetched ++ [value] }

variable (B T) in
def monitor : Monitor (BoundedBlockingQueue B T) Cond (Op T) where
  loop
    | .put _ => some (.m_full, fun q => full q.m_queue)
    | .get => some (.m_empty, fun q => empty q.m_queue)
  body
    | .put value, q => q.put value
    | .get, q => q.get
  notifies
    | .put _ => some .m_empty
    | .get => some .m_full

/-! ## The queue -/

/-- What was put is what was returned followed by the content; the asserts held. -/
structure Fifo (capacity : Nat) (q : BoundedBlockingQueue B T) : Prop where
  capacity_eq : CircularBuffer.capacity q.m_queue = capacity
  fifo : q.stored = q.fetched ++ items q.m_queue
  asserted : q.asserted = true

theorem ready_put {value : T} {q : BoundedBlockingQueue B T}
    (h : (monitor B T).Ready (.put value) q) : full q.m_queue = false := h .m_full _ rfl

theorem ready_get {q : BoundedBlockingQueue B T} (h : (monitor B T).Ready .get q) :
    ∃ value rest, items q.m_queue = value :: rest := by
  have he : empty q.m_queue = false := h .m_empty _ rfl
  refine List.exists_cons_of_ne_nil fun hnil => ?_
  rw [(empty_iff _).mpr hnil] at he
  cases he

theorem get_queue {q : BoundedBlockingQueue B T} {value : T} {rest : List T}
    (h : items q.m_queue = value :: rest) :
    q.get = { q with m_queue := popFront q.m_queue, fetched := q.fetched ++ [value] } := by
  simp only [get, h]

theorem get_items {q : BoundedBlockingQueue B T} {value : T} {rest : List T}
    (h : items q.m_queue = value :: rest) : items q.get.m_queue = rest := by
  have hne : items q.m_queue ≠ [] := by
    rw [h]
    exact List.cons_ne_nil value rest
  rw [get_queue h]
  exact (items_popFront _ hne).trans (congrArg List.tail h)

theorem get_capacity {q : BoundedBlockingQueue B T} {value : T} {rest : List T}
    (h : items q.m_queue = value :: rest) :
    CircularBuffer.capacity q.get.m_queue = CircularBuffer.capacity q.m_queue := by
  have hne : items q.m_queue ≠ [] := by
    rw [h]
    exact List.cons_ne_nil value rest
  rw [get_queue h]
  exact capacity_popFront _ hne

theorem fifo_body {capacity : Nat} (o : Op T) (q : BoundedBlockingQueue B T)
    (h : Fifo capacity q) (hr : (monitor B T).Ready o q) :
    Fifo capacity ((monitor B T).body o q) := by
  cases o with
  | put value =>
    have hf := ready_put hr
    refine ⟨(capacity_pushBack _ _).trans h.capacity_eq, ?_, ?_⟩
    · show q.stored ++ [value] = q.fetched ++ items (pushBack q.m_queue value)
      rw [pushBack_items hf, h.fifo, List.append_assoc]
    · show (q.asserted && !full q.m_queue) = true
      rw [h.asserted, hf]
      rfl
  | get =>
    obtain ⟨value, rest, hq⟩ := ready_get hr
    refine ⟨(get_capacity hq).trans h.capacity_eq, ?_, ?_⟩
    · show q.get.stored = q.get.fetched ++ items q.get.m_queue
      rw [get_items hq, get_queue hq, h.fifo, hq, List.append_assoc]
      rfl
    · show q.get.asserted = true
      rw [get_queue hq]
      exact h.asserted

/-- Elements are the supply of `m_empty` and free places that of `m_full`. -/
def units : (monitor B T).Units where
  units
    | .m_empty, q => (items q.m_queue).length
    | .m_full, q => CircularBuffer.capacity q.m_queue - (items q.m_queue).length
  blocked o k blocked q hl hb := by
    cases o with
    | put value =>
      obtain ⟨rfl, rfl⟩ := Prod.mk.inj (Option.some.inj hl)
      exact Nat.sub_eq_zero_of_le (length_of_full hb).ge
    | get =>
      obtain ⟨rfl, rfl⟩ := Prod.mk.inj (Option.some.inj hl)
      exact List.length_eq_zero_iff.mpr ((empty_iff _).mp hb)
  body o k q hr := by
    cases o with
    | put value =>
      have hf := ready_put hr
      have hlt := lt_of_not_full hf
      have hlen : (items (q.put value).m_queue).length = (items q.m_queue).length + 1 := by
        show (items (pushBack q.m_queue value)).length = _
        rw [pushBack_items hf, List.length_append, List.length_singleton]
      have hcap : CircularBuffer.capacity (q.put value).m_queue =
          CircularBuffer.capacity q.m_queue := capacity_pushBack _ _
      cases k with
      | m_full =>
        show CircularBuffer.capacity (q.put value).m_queue -
          (items (q.put value).m_queue).length + 1 ≤
            CircularBuffer.capacity q.m_queue - (items q.m_queue).length + 0
        omega
      | m_empty =>
        show (items (q.put value).m_queue).length + 0 ≤ (items q.m_queue).length + 1
        omega
    | get =>
      obtain ⟨value, rest, hq⟩ := ready_get hr
      have hlen : (items q.get.m_queue).length + 1 = (items q.m_queue).length := by
        rw [get_items hq, hq, List.length_cons]
      have hcap := get_capacity hq
      cases k with
      | m_full =>
        show CircularBuffer.capacity q.get.m_queue - (items q.get.m_queue).length + 0 ≤
          CircularBuffer.capacity q.m_queue - (items q.m_queue).length + 1
        omega
      | m_empty =>
        show (items q.get.m_queue).length + 1 ≤ (items q.m_queue).length + 0
        omega

/-! ## Every run -/

/-- A queue that could be constructed has the capacity asked for. -/
theorem new_ok {alloc : Allocator} {maxSize : BitVec 32} {q : BoundedBlockingQueue B T}
    (h : new alloc maxSize = .ok q) :
    Fifo (CircularBuffer.capacity q.m_queue) q ∧
      (CircularBuffer.capacity q.m_queue : Int) = maxSize.toInt := by
  cases hn : CircularBuffer.new (B := B) alloc (maxSize.signExtend 64).toNat with
  | error e =>
    rw [new, hn] at h
    cases h
  | ok queue =>
    rw [new, hn] at h
    obtain rfl := Except.ok.inj h
    obtain ⟨hmax, hitems, hcap⟩ := CircularBuffer.new_ok hn
    refine ⟨⟨rfl, hitems.symm, rfl⟩, ?_⟩
    show (CircularBuffer.capacity queue : Int) = maxSize.toInt
    have hlt : 2 * (maxSize.signExtend 64).toNat < 2 ^ 64 := by
      have hm : Base.maxSize = 2 ^ 63 - 1 := rfl
      omega
    rw [hcap, ← BitVec.toInt_eq_toNat_of_lt hlt, BitVec.toInt_signExtend_of_le (by decide)]

section Runs

variable {alloc : Allocator} {maxSize : BitVec 32} {q : BoundedBlockingQueue B T}
  {s : MonitorState (BoundedBlockingQueue B T) Cond (Op T) ι}

theorem inv_reach (hnew : new alloc maxSize = .ok q)
    (h : ((monitor B T).machine ι q).Reach s) :
    Monitor.Inv units (Fifo (CircularBuffer.capacity q.m_queue)) s :=
  (Monitor.inv_inductive units fifo_body (new_ok hnew).1).reach h

/-- In every state of every run, with any number of threads: the queue holds at most
`maxSize` elements, the values put are the values returned followed by the content, no
assertion has failed, and a thread about to push keeps every element. -/
theorem bounded_fifo (hnew : new alloc maxSize = .ok q)
    (h : ((monitor B T).machine ι q).Reach s) :
    ((items s.shared.m_queue).length : Int) ≤ maxSize.toInt ∧
    s.shared.stored = s.shared.fetched ++ items s.shared.m_queue ∧
    s.shared.asserted = true ∧
    ∀ i value, s.threads i = .acting (.put value) →
      items (pushBack s.shared.m_queue value) = items s.shared.m_queue ++ [value] := by
  have hi := inv_reach hnew h
  have hcap := (new_ok hnew).2
  have hinside := inside s.shared.m_queue
  have heq := hi.shared.capacity_eq
  rw [size_eq] at hinside
  refine ⟨by omega, hi.shared.fifo, hi.shared.asserted, fun i value hp => ?_⟩
  exact pushBack_items (ready_put (hi.loopLeft i _ hp)) value

end Runs

/-- The constructed queue of one place. -/
def onePlace : BoundedBlockingQueue (CircularList Nat) Nat :=
  ⟨⟨1, [], Nat.zero_le 1⟩, [], [], true⟩

/-- A consumer sleeps, a producer fills the only place, notifies it and has to wait for
the second element; the consumer is about to take the first one. -/
def handOver : List (MonitorMove (Op Nat) Bool) :=
  [.call true .get, .run true none, .run true none,
   .call false (.put 7), .run false none, .run false none, .run false (some true),
   .run false none,
   .call false (.put 8), .run false none, .run false none]

theorem bounded_fifo_handOver :
    ∃ s, ((monitor (CircularList Nat) Nat).machine Bool onePlace).run
        (Monitor.start Bool onePlace) handOver = some s ∧
      ((items s.shared.m_queue).length : Int) ≤ 1 ∧
      s.shared.stored = s.shared.fetched ++ items s.shared.m_queue ∧
      s.shared.asserted = true := by
  have hnew : new (fun _ => true) 1 = .ok onePlace := rfl
  have hrun : ((monitor (CircularList Nat) Nat).machine Bool onePlace).run
      (Monitor.start Bool onePlace) handOver = some _ := rfl
  obtain ⟨hsize, hfifo, hassert, -⟩ := bounded_fifo hnew (Machine.reachIf_of_runIf (.init rfl) hrun)
  exact ⟨_, hrun, hsize, hfifo, hassert⟩

section Runs

variable {alloc : Allocator} {maxSize : BitVec 32} {q : BoundedBlockingQueue B T}
  {s : MonitorState (BoundedBlockingQueue B T) Cond (Op T) ι}

/-- Nobody sleeps un-notified on `m_empty` while there is an element, nor on `m_full` while
there is a free place, unless a notified waiter is pending; so with room for one element
a producer and a consumer never sleep while no thread can run. -/
theorem no_lost_wakeup (hnew : new alloc maxSize = .ok q)
    (h : ((monitor B T).machine ι q).Reach s) :
    ¬ ((∃ c, c ∈ (s.conds .m_empty).asleep) ∧ (s.conds .m_empty).notified = ∅ ∧
      items s.shared.m_queue ≠ []) ∧
    ¬ ((∃ p, p ∈ (s.conds .m_full).asleep) ∧ (s.conds .m_full).notified = ∅ ∧
      (items s.shared.m_queue).length < maxSize.toInt) ∧
    (1 ≤ maxSize.toInt → ∀ p c, p ∈ (s.conds .m_full).asleep → c ∈ (s.conds .m_empty).asleep →
      ∃ i, Monitor.CanRun (monitor B T) s i) := by
  have hi := inv_reach hnew h
  have hcap := (new_ok hnew).2
  have heq := hi.shared.capacity_eq
  have helems : items s.shared.m_queue ≠ [] → (s.conds .m_empty).asleep.Nonempty →
      (s.conds .m_empty).notified.Nonempty := fun hne =>
    hi.notified (k := .m_empty) (List.length_pos_iff.mpr hne)
  have hplaces : (items s.shared.m_queue).length < maxSize.toInt →
      (s.conds .m_full).asleep.Nonempty → (s.conds .m_full).notified.Nonempty := fun hlt =>
    hi.notified (k := .m_full) (show 0 < CircularBuffer.capacity s.shared.m_queue -
      (items s.shared.m_queue).length by omega)
  refine ⟨fun ⟨ha, hn, hne⟩ => ?_, fun ⟨ha, hn, hlt⟩ => ?_, fun hone p c hp hc => ?_⟩
  · exact absurd hn (helems hne ha).ne_empty
  · exact absurd hn (hplaces hlt ha).ne_empty
  · by_cases hne : items s.shared.m_queue = []
    · have hlt : ((items s.shared.m_queue).length : Int) < maxSize.toInt := by
        rw [hne]
        exact hone
      exact hi.someone_runs (hplaces hlt ⟨p, hp⟩)
    · exact hi.someone_runs (helems hne ⟨c, hc⟩)

end Runs

/-- After `handOver` the producer sleeps and the consumer's notification is pending. -/
theorem no_lost_wakeup_handOver :
    ∃ s, ((monitor (CircularList Nat) Nat).machine Bool onePlace).run
        (Monitor.start Bool onePlace) handOver = some s ∧
      items s.shared.m_queue ≠ [] ∧ false ∈ (s.conds .m_full).asleep ∧
      ¬ ((∃ c, c ∈ (s.conds .m_empty).asleep) ∧ (s.conds .m_empty).notified = ∅ ∧
        items s.shared.m_queue ≠ []) := by
  have hnew : new (fun _ => true) 1 = .ok onePlace := rfl
  have hrun : ((monitor (CircularList Nat) Nat).machine Bool onePlace).run
      (Monitor.start Bool onePlace) handOver = some _ := rfl
  have h := no_lost_wakeup hnew (Machine.reachIf_of_runIf (.init rfl) hrun)
  exact ⟨_, hrun, List.cons_ne_nil 7 [], Finset.mem_insert_self _ _, h.1⟩

/-! ## The calls -/

/-- The value that is put. -/
def Op.given : Op T → List T
  | .put value => [value]
  | .get => []

def Op.isGet : Op T → Bool
  | .put _ => false
  | .get => true

omit [DecidableEq ι] in
theorem length_ticks (ops : List (ι × Op T)) :
    (ops.flatMap fun p => if p.2.isGet then [()] else []).length =
      ops.countP fun p => p.2.isGet := by
  induction ops with
  | nil => rfl
  | cons p ops ih =>
    rw [List.flatMap_cons, List.length_append, ih, List.countP_cons, Nat.add_comm]
    split <;> rfl

/-- **What the histories have to do with the calls.** The operations that got through in a run are,
for each thread, its calls but for the one it is in. The values put are theirs, in order, and each
`get` among them returned one of the values returned. -/
theorem histories_calls {alloc : Allocator} {maxSize : BitVec 32} {q : BoundedBlockingQueue B T}
    {s : MonitorState (BoundedBlockingQueue B T) Cond (Op T) ι}
    {es : List (MonitorMove (Op T) ι)} (hnew : new alloc maxSize = .ok q)
    (h : ((monitor B T).machine ι q).run (Monitor.start ι q) es = some s) :
    let done := Monitor.performed (monitor B T) q (Monitor.start ι q) es
    s.shared.stored = done.flatMap (fun p => p.2.given) ∧
    s.shared.fetched.length = done.countP (fun p => p.2.isGet) ∧
    ∀ i, History.doneBy i done ++ Monitor.inCall (s.threads i) =
      History.doneBy i (es.flatMap Monitor.called) := by
  have hempty : q.stored = [] ∧ q.fetched = [] := by
    rw [new] at hnew
    cases hn : CircularBuffer.new (B := B) alloc (maxSize.signExtend 64).toNat with
    | error e =>
      rw [hn] at hnew
      cases hnew
    | ok queue =>
      rw [hn] at hnew
      obtain rfl := Except.ok.inj hnew
      exact ⟨rfl, rfl⟩
  have hkeeps := (new_ok hnew).1
  have hstored := Monitor.performed_history stored Op.given units fifo_body hkeeps
    (fun o x _ hr => ?_) h
  have hfetched := Monitor.performed_history (fun q => q.fetched.map fun _ => ())
    (fun o => if o.isGet then [()] else []) units fifo_body hkeeps (fun o x _ hr => ?_) h
  · refine ⟨?_, ?_, Monitor.performed_called h⟩
    · rw [hstored, hempty.1, List.nil_append]
    · have hlength := congrArg List.length hfetched
      rw [List.length_map, hempty.2, List.map_nil, List.nil_append] at hlength
      rw [hlength]
      exact length_ticks _
  · cases o with
    | put value => exact (List.append_nil _).symm
    | get =>
      obtain ⟨value, rest, hq⟩ := ready_get hr
      show x.get.fetched.map _ = _
      rw [get_queue hq]
      exact List.map_append
  · cases o with
    | put value => rfl
    | get =>
      obtain ⟨value, rest, hq⟩ := ready_get hr
      show x.get.stored = _
      rw [get_queue hq]
      exact (List.append_nil _).symm

end BoundedBlockingQueue
end MyNet.Base
