import Mathlib.Algebra.Order.Ring.Int
import Mathlib.Data.List.Count

/-!
# The threads of a `ThreadPool`

What `start`, `stop` and the destructor of the pool do with its `Thread` objects, and these
with their pthreads. A failing `assert` ends the program. The pool is used by one thread;
what its workers run and the queue make no difference to the flags of `Thread`.
-/
namespace MyNet.Base

/-- The assertions on the way, by their conditions. -/
inductive ThreadAssertion where
  /-- `assert(m_threads.empty())` in `ThreadPool::start` -/
  | threadsEmpty
  /-- `assert(!m_started)` in `Thread::start` -/
  | notStarted
  /-- `assert(m_started)` in `Thread::join` -/
  | started
  /-- `assert(!m_joined)` in `Thread::join` -/
  | notJoined
  deriving DecidableEq

structure Thread where
  m_started : Bool
  m_joined : Bool
  /-- `pthread_create` has made a pthread. -/
  created : Bool
  /-- The calls of `pthread_join` and `pthread_detach` on it. -/
  joins : Nat
  detaches : Nat
  deriving DecidableEq

namespace Thread

def new : Thread := ⟨false, false, false, 0, 0⟩

/-- `success` is what `pthread_create` comes to. -/
def start (t : Thread) (success : Bool) : Except ThreadAssertion Thread :=
  if t.m_started then .error .notStarted
  else if success then .ok { t with m_started := true, created := true }
  else .ok t

def join (t : Thread) : Except ThreadAssertion Thread :=
  if t.m_started then
    if t.m_joined then .error .notJoined
    else .ok { t with m_joined := true, joins := t.joins + 1 }
  else .error .started

/-- The destructor. -/
def destroy (t : Thread) : Thread :=
  if t.m_started && !t.m_joined then { t with detaches := t.detaches + 1 } else t

/-- Its pthread, if there is one, has been joined or detached once. -/
def Released (t : Thread) : Prop := t.joins + t.detaches = if t.created then 1 else 0

end Thread

/-- The part of the pool that has to do with its threads. -/
structure PoolThreads where
  m_brunning : Bool
  m_threads : List Thread

/-- What may be called between `start` and the destructor. -/
inductive PoolCall where
  | run
  | stop
  deriving DecidableEq

namespace PoolThreads

open Thread

def new : PoolThreads := ⟨false, []⟩

/-- The loop of `start`, on what the calls of `pthread_create` come to. `m_threads[i]` is the
thread just pushed: there was none before the loop. -/
def startLoop (m_threads : List Thread) : List Bool → Except ThreadAssertion (List Thread)
  | [] => .ok m_threads
  | success :: rest =>
    match Thread.new.start success with
    | .ok t => startLoop (m_threads ++ [t]) rest
    | .error a => .error a

def start (s : PoolThreads) (successes : List Bool) : Except ThreadAssertion PoolThreads :=
  if s.m_threads = [] then
    (startLoop s.m_threads successes).map fun m_threads => ⟨true, m_threads⟩
  else .error .threadsEmpty

/-- `for_each` over `Thread::join` -/
def joinAll : List Thread → Except ThreadAssertion (List Thread)
  | [] => .ok []
  | t :: rest =>
    match t.join with
    | .ok joined => (joinAll rest).map (joined :: ·)
    | .error a => .error a

def stop (s : PoolThreads) : Except ThreadAssertion PoolThreads :=
  (joinAll s.m_threads).map fun m_threads => ⟨false, m_threads⟩

/-- `run` touches the queue only. -/
def run (s : PoolThreads) : Except ThreadAssertion PoolThreads := .ok s

/-- The destructor, then those of the threads. -/
def destroy (s : PoolThreads) : Except ThreadAssertion (List Thread) :=
  match if s.m_brunning then s.stop else .ok s with
  | .ok t => .ok (t.m_threads.map Thread.destroy)
  | .error a => .error a

def call (s : PoolThreads) : PoolCall → Except ThreadAssertion PoolThreads
  | .run => s.run
  | .stop => s.stop

def calls (s : PoolThreads) : List PoolCall → Except ThreadAssertion PoolThreads
  | [] => .ok s
  | c :: cs =>
    match s.call c with
    | .ok t => calls t cs
    | .error a => .error a

/-- Construction, `start` and the calls. -/
def use (successes : List Bool) (cs : List PoolCall) : Except ThreadAssertion PoolThreads :=
  match new.start successes with
  | .ok s => s.calls cs
  | .error a => .error a

/-- The life of a pool; what it leaves of its threads. -/
def life (successes : List Bool) (cs : List PoolCall) : Except ThreadAssertion (List Thread) :=
  match use successes cs with
  | .ok s => s.destroy
  | .error a => .error a

/-- A thread after `start`. -/
def begun (success : Bool) : Thread := ⟨success, false, success, 0, 0⟩

/-- A thread after `join`. -/
def joined : Thread := ⟨true, true, true, 1, 0⟩

variable {successes : List Bool} {ts : List Thread} {b : Bool} {cs : List PoolCall}

theorem startLoop_eq (successes : List Bool) :
    ∀ ts : List Thread, startLoop ts successes = .ok (ts ++ successes.map begun) := by
  induction successes with
  | nil => exact fun ts => congrArg Except.ok (List.append_nil ts).symm
  | cons success rest ih =>
    intro ts
    have hstart : Thread.new.start success = .ok (begun success) := by cases success <;> rfl
    rw [startLoop, hstart, List.map_cons, List.append_cons]
    exact ih _

/-- `start` reports no failure. -/
theorem start_eq (successes : List Bool) :
    new.start successes = .ok ⟨true, successes.map begun⟩ := by
  rw [start, if_pos (show new.m_threads = [] from rfl), startLoop_eq]
  rfl

/-- The first join is right for the threads that exist, all of them or it fails. -/
theorem joinAll_begun (successes : List Bool) :
    joinAll (successes.map begun) =
      if ∀ success ∈ successes, success = true then .ok (successes.map fun _ => joined)
      else .error .started := by
  induction successes with
  | nil => rfl
  | cons success rest ih =>
    rw [List.map_cons, joinAll]
    cases success with
    | false =>
      rw [if_neg fun hall => Bool.false_ne_true (hall false List.mem_cons_self)]
      rfl
    | true =>
      have hjoin : (begun true).join = .ok joined := rfl
      rw [hjoin, ih]
      simp only [List.forall_mem_cons, true_and]
      split <;> rfl

/-- The second join fails as soon as there is a thread. -/
theorem joinAll_joined (successes : List Bool) :
    joinAll (successes.map fun _ => joined) =
        if successes = [] then .ok [] else .error .notJoined := by
  cases successes <;> rfl

/-- Once every thread is joined, the calls of `stop` that remain fail, if there is a thread. -/
theorem calls_joined (successes : List Bool) (cs : List PoolCall) :
    calls ⟨false, successes.map fun _ => joined⟩ cs =
      if successes = [] ∨ cs.count .stop = 0 then .ok ⟨false, successes.map fun _ => joined⟩
      else .error .notJoined := by
  induction cs with
  | nil => exact (if_pos (.inr rfl)).symm
  | cons c cs ih =>
    cases c with
    | run =>
      rw [List.count_cons_of_ne (by decide)]
      exact ih
    | stop =>
      rw [calls, call, stop, joinAll_joined, List.count_cons_self]
      by_cases hnone : successes = []
      · subst hnone
        exact ih
      · rw [if_neg hnone, if_neg (by simp [hnone])]
        rfl

/-- After `start`: no `stop`, one that joins, or one too many. -/
theorem calls_begun (successes : List Bool) (cs : List PoolCall) :
    calls ⟨true, successes.map begun⟩ cs =
      if cs.count .stop = 0 then .ok ⟨true, successes.map begun⟩
      else if ∀ success ∈ successes, success = true then
        if successes = [] ∨ cs.count .stop ≤ 1 then .ok ⟨false, successes.map fun _ => joined⟩
        else .error .notJoined
      else .error .started := by
  induction cs with
  | nil => rfl
  | cons c cs ih =>
    cases c with
    | run =>
      rw [List.count_cons_of_ne (by decide)]
      exact ih
    | stop =>
      rw [calls, call, stop, joinAll_begun, List.count_cons_self, if_neg (Nat.succ_ne_zero _)]
      by_cases hall : ∀ success ∈ successes, success = true
      · rw [if_pos hall, if_pos hall]
        have hone : cs.count .stop + 1 ≤ 1 ↔ cs.count .stop = 0 := by omega
        simp only [hone]
        exact calls_joined successes cs
      · rw [if_neg hall, if_neg hall]
        rfl

theorem use_eq (successes : List Bool) (cs : List PoolCall) :
    use successes cs = calls ⟨true, successes.map begun⟩ cs := by
  rw [use, start_eq]

theorem destroy_joined (successes : List Bool) :
    destroy ⟨false, successes.map fun _ => joined⟩ = .ok (successes.map fun _ => joined) :=
  congrArg Except.ok (List.map_map ..)

/-- The destructor joins what no `stop` has joined. -/
theorem destroy_begun (successes : List Bool) :
    destroy ⟨true, successes.map begun⟩ =
      if ∀ success ∈ successes, success = true then .ok (successes.map fun _ => joined)
      else .error .started := by
  rw [destroy, if_pos rfl, stop, joinAll_begun]
  by_cases hall : ∀ success ∈ successes, success = true
  · rw [if_pos hall]
    exact destroy_joined successes
  · rw [if_neg hall]
    rfl

/-- How the life of a pool ends. -/
theorem life_eq (successes : List Bool) (cs : List PoolCall) :
    life successes cs =
      if ∀ success ∈ successes, success = true then
        if successes = [] ∨ cs.count .stop ≤ 1 then .ok (successes.map fun _ => joined)
        else .error .notJoined
      else .error .started := by
  rw [life, use_eq, calls_begun]
  by_cases hcalm : cs.count .stop = 0
  · rw [if_pos hcalm, if_pos (show successes = [] ∨ cs.count .stop ≤ 1 from .inr (by omega))]
    exact destroy_begun successes
  · rw [if_neg hcalm]
    by_cases hall : ∀ success ∈ successes, success = true
    · rw [if_pos hall, if_pos hall]
      by_cases honce : successes = [] ∨ cs.count .stop ≤ 1
      · rw [if_pos honce, if_pos honce]
        exact destroy_joined successes
      · rw [if_neg honce, if_neg honce]
    · rw [if_neg hall, if_neg hall]

theorem joined_released (successes : List Bool)
    (hall : ∀ success ∈ successes, success = true) :
    (successes.map fun _ => joined).map Thread.created = successes ∧
      ∀ t ∈ successes.map fun _ => joined, t.Released := by
  constructor
  · rw [List.map_map]
    refine (List.map_congr_left fun success hmem => ?_).trans (List.map_id successes)
    exact (hall success hmem).symm
  · intro t ht
    obtain ⟨-, -, rfl⟩ := List.mem_map.mp ht
    rfl

/-- Every thread there and no second `stop`: one condition for a pool without threads. -/
theorem all_once_iff {successes : List Bool} {n : Nat} :
    ((∀ success ∈ successes, success = true) ∧ (successes = [] ∨ n ≤ 1)) ↔
      successes = [] ∨ (∀ success ∈ successes, success = true) ∧ n ≤ 1 := by
  constructor
  · rintro ⟨hall, honce⟩
    exact honce.imp_right (⟨hall, ·⟩)
  · rintro (rfl | ⟨hall, honce⟩)
    · exact ⟨nofun, .inl rfl⟩
    · exact ⟨hall, .inr honce⟩

theorem ok_iff {α : Type} {p q : Prop} [Decidable p] [Decidable q] {x y : α}
    {a b : ThreadAssertion} :
    (if p then if q then .ok x else .error a else .error b) = Except.ok y ↔ (p ∧ q) ∧ x = y := by
  by_cases hp : p
  · by_cases hq : q
    · rw [if_pos hp, if_pos hq, and_iff_right ⟨hp, hq⟩]
      exact ⟨Except.ok.inj, congrArg Except.ok⟩
    · rw [if_pos hp, if_neg hq]
      exact iff_of_false nofun fun h => hq h.1.2
  · rw [if_neg hp]
    exact iff_of_false nofun fun h => hp h.1.1

theorem life_released (successes : List Bool) (cs : List PoolCall) :
    (∃ ts, life successes cs = .ok ts ∧ ts.map Thread.created = successes ∧
        ∀ t ∈ ts, t.Released) ↔
      successes = [] ∨ (∀ success ∈ successes, success = true) ∧ cs.count .stop ≤ 1 := by
  rw [life_eq, ← all_once_iff]
  constructor
  · rintro ⟨ts, hts, -⟩
    exact (ok_iff.mp hts).1
  · intro h
    exact ⟨_, ok_iff.mpr ⟨h, rfl⟩, joined_released successes h.1⟩

theorem use_ok (successes : List Bool) (cs : List PoolCall) :
    (∃ s, use successes cs = .ok s) ↔
      cs.count .stop = 0 ∨ successes = [] ∨
        (∀ success ∈ successes, success = true) ∧ cs.count .stop ≤ 1 := by
  rw [use_eq, calls_begun, ← all_once_iff]
  by_cases hcalm : cs.count .stop = 0
  · rw [if_pos hcalm]
    exact iff_of_true ⟨_, rfl⟩ (.inl hcalm)
  · rw [if_neg hcalm, or_iff_right hcalm]
    constructor
    · rintro ⟨s, hs⟩
      exact (ok_iff.mp hs).1
    · intro h
      exact ⟨_, ok_iff.mpr ⟨h, rfl⟩⟩

/-- **When the flags of `Thread` are respected.** A pool lives without a failing assertion, and
with every pthread joined or detached once at its end, exactly if it has no threads or if all of
them could be created and `stop` is called at most once. It comes as far as its destructor
exactly if besides that `stop` is never called. -/
theorem life_released_iff (successes : List Bool) (cs : List PoolCall) :
    ((∃ ts, life successes cs = .ok ts ∧ ts.map Thread.created = successes ∧
        ∀ t ∈ ts, t.Released) ↔
      successes = [] ∨ (∀ success ∈ successes, success = true) ∧ cs.count .stop ≤ 1) ∧
    ((∃ s, use successes cs = .ok s) ↔
      cs.count .stop = 0 ∨ successes = [] ∨
        (∀ success ∈ successes, success = true) ∧ cs.count .stop ≤ 1) :=
  ⟨life_released successes cs, use_ok successes cs⟩

/-- One thread that cannot be created: the destructor joins it all the same. One that can, and
a second `stop`: it is joined twice. -/
theorem life_unreleased :
    life [false] [] = .error .started ∧ life [true] [.stop, .stop] = .error .notJoined ∧
      ¬ ∀ successes cs, ∃ ts, life successes cs = .ok ts ∧ ∀ t ∈ ts, t.Released := by
  refine ⟨rfl, rfl, fun h => ?_⟩
  obtain ⟨ts, hts, -⟩ := h [false] []
  cases hts

end PoolThreads
end MyNet.Base
