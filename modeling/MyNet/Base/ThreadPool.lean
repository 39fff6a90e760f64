import MyNet.Lib.CondVar
import MyNet.Lib.History
import MyNet.Lib.Machine
import Mathlib.Logic.Function.Basic

/-!
# `ThreadPool`

A started pool of `n` worker threads and any number of threads that call `run`. What
a thread does with `m_Mutex` held is one step: from taking the mutex (or getting it
back after a wait) to releasing it, by returning or by waiting again. A task that is
running is a step of its own, so it may take arbitrarily long.

The histories record who submitted, enqueued, dequeued and invoked what. They are
written and never read by the pool.
-/
namespace MyNet.Base

open Lib

/-- `boost::function<void()>`; `none` is the empty function. -/
abbrev Task (τ : Type) := Option τ

/-- Where a worker is in `runInThread` and `getTask`. -/
inductive WorkerPc (τ : Type) where
  /-- Before `m_ThreadInitFunc`. -/
  | starting
  /-- At `while(m_brunning)`. -/
  | loopTest
  /-- In `getTask`, not yet holding `m_Mutex`. -/
  | locking
  /-- In `m_notEmpty.wait()`. -/
  | waiting
  | gotTask (task : Task τ)
  | invoking (t : τ)
  | terminated

/-- Where a thread is in `run`. -/
inductive CallerPc (τ : Type) where
  | idle
  | locking (task : Task τ)
  /-- In `m_notFull.wait()`. -/
  | waiting (task : Task τ)

structure ThreadPool (n : Nat) (ι τ : Type) where
  m_notFull : CondVar ι
  m_notEmpty : CondVar (Fin n)
  m_brunning : Bool
  m_ThreadInitFunc : Task τ
  m_tasks : List (Task τ)
  m_maxQueueSize : Nat
  workers : Fin n → WorkerPc τ
  callers : ι → CallerPc τ
  /-- Calls of `m_ThreadInitFunc`. -/
  inits : List τ
  submitted : List (ι × Task τ)
  enqueued : List (ι × Task τ)
  dequeued : List (Fin n × Task τ)
  /-- The invocations of tasks, by the worker or by the caller of `run`. -/
  invoked : List ((Fin n ⊕ ι) × τ)

/-- The moves of the threads. `woken` is the waiter a signal picks. -/
inductive PoolMove (n : Nat) (ι τ : Type) where
  | begin (w : Fin n)
  | test (w : Fin n)
  | getTask (w : Fin n) (woken : Option ι)
  | take (w : Fin n)
  | finish (w : Fin n)
  | call (c : ι) (task : Task τ)
  | run (c : ι) (woken : Option (Fin n))
  | stop
  | wakeWorker (w : Fin n)
  | wakeCaller (c : ι)

namespace ThreadPool

variable {n : Nat} {ι τ : Type} [DecidableEq ι]

/-- The pool after `setMaxQueueSize(k)` and `start(n)`. -/
def start (n k : Nat) (ι : Type) {τ : Type} (init : Task τ) : ThreadPool n ι τ where
  m_notFull := .empty
  m_notEmpty := .empty
  m_brunning := true
  m_ThreadInitFunc := init
  m_tasks := []
  m_maxQueueSize := k
  workers _ := .starting
  callers _ := .idle
  inits := if n = 0 then init.toList else []
  submitted := []
  enqueued := []
  dequeued := []
  invoked := []

def isFull (s : ThreadPool n ι τ) : Bool := s.m_maxQueueSize ≤ s.m_tasks.length

def setWorker (s : ThreadPool n ι τ) (w : Fin n) (pc : WorkerPc τ) : ThreadPool n ι τ :=
  { s with workers := Function.update s.workers w pc }

def setCaller (s : ThreadPool n ι τ) (c : ι) (pc : CallerPc τ) : ThreadPool n ι τ :=
  { s with callers := Function.update s.callers c pc }

/-- One turn of `getTask` with the mutex held. -/
def getTask (s : ThreadPool n ι τ) (w : Fin n) (woken : Option ι) :
    Option (ThreadPool n ι τ) :=
  match s.m_tasks with
  | [] =>
    if s.m_brunning then
      some ({ s with m_notEmpty := s.m_notEmpty.sleep w }.setWorker w .waiting)
    else
      some ({ s with m_notEmpty := s.m_notEmpty.resume w }.setWorker w (.gotTask none))
  | task :: rest =>
    (s.m_notFull.signal woken).map fun notFull =>
      { s with
        m_notEmpty := s.m_notEmpty.resume w
        m_notFull := notFull
        m_tasks := rest
        dequeued := s.dequeued ++ [(w, task)] }.setWorker w (.gotTask task)

/-- `run` on a pool without threads: `Task();` makes an empty function and drops it. -/
def runInline (s : ThreadPool n ι τ) (_c : ι) (_task : Task τ) : ThreadPool n ι τ :=
  let _temporary : Task τ := none
  s

/-- One turn of `run` with the mutex held. -/
def run (s : ThreadPool n ι τ) (c : ι) (task : Task τ) (woken : Option (Fin n)) :
    Option (ThreadPool n ι τ) :=
  if s.isFull then
    some ({ s with m_notFull := s.m_notFull.sleep c }.setCaller c (.waiting task))
  else
    (s.m_notEmpty.signal woken).map fun notEmpty =>
      { s with
        m_notFull := s.m_notFull.resume c
        m_notEmpty := notEmpty
        m_tasks := s.m_tasks ++ [task]
        enqueued := s.enqueued ++ [(c, task)] }.setCaller c .idle

def step (s : ThreadPool n ι τ) : PoolMove n ι τ → Option (ThreadPool n ι τ)
  | .begin w =>
    match s.workers w with
    | .starting =>
      some ({ s with inits := s.inits ++ s.m_ThreadInitFunc.toList }.setWorker w .loopTest)
    | _ => none
  | .test w =>
    match s.workers w with
    | .loopTest => some (s.setWorker w (if s.m_brunning then .locking else .terminated))
    | _ => none
  | .getTask w woken =>
    match s.workers w with
    | .locking => s.getTask w woken
    | .waiting => if w ∈ s.m_notEmpty.asleep then none else s.getTask w woken
    | _ => none
  | .take w =>
    match s.workers w with
    | .gotTask (some t) =>
      some ({ s with invoked := s.invoked ++ [(Sum.inl w, t)] }.setWorker w (.invoking t))
    | .gotTask none => some (s.setWorker w .loopTest)
    | _ => none
  | .finish w =>
    match s.workers w with
    | .invoking _ => some (s.setWorker w .loopTest)
    | _ => none
  | .call c task =>
    match s.callers c with
    | .idle =>
      let s := { s with submitted := s.submitted ++ [(c, task)] }
      some (if n = 0 then s.runInline c task else s.setCaller c (.locking task))
    | _ => none
  | .run c woken =>
    match s.callers c with
    | .locking task => s.run c task woken
    | .waiting task => if c ∈ s.m_notFull.asleep then none else s.run c task woken
    | .idle => none
  | .stop => some { s with m_brunning := false, m_notEmpty := s.m_notEmpty.broadcast }
  | .wakeWorker w =>
    if w ∈ s.m_notEmpty.asleep then some { s with m_notEmpty := s.m_notEmpty.wake w } else none
  | .wakeCaller c =>
    if c ∈ s.m_notFull.asleep then some { s with m_notFull := s.m_notFull.wake c } else none

variable (n ι) in
def pool (k : Nat) (init : Task τ) : Machine (ThreadPool n ι τ) (PoolMove n ι τ) where
  init s := s = start n k ι init
  step := step

end ThreadPool
end MyNet.Base
