import MyNet.Base.AsyncLoggingRecycling
import MyNet.Base.CountDownLatch
import MyNet.Base.ThreadLife

/-!
# The life of an `AsyncLogging`

The object with its `Thread` and its latch. The thread that uses the object calls `start`, `stop`
and the destructor; the logging thread runs `startThread`, which runs `ThreadFunc`; any others
append, also when the members are gone, as nobody waits for them. Each statement is a step of the
part that it is about, in any order of the threads.
-/
namespace MyNet.Base

open Lib AsyncLogging

/-- Who waits for `m_latch`, and who counts it down. -/
inductive LatchParty where
  | user
  | loggingThread
  deriving DecidableEq

/-- Where the user of the object is; `idle` is between two calls. `destructor` tells whether it is
the destructor that has called `stop`. -/
inductive UserPc where
  | idle
  /-- In `start`, at `m_loggingThread.start()`. -/
  | starting
  /-- In that call. -/
  | creating
  /-- In `m_latch.wait()`. -/
  | waiting
  /-- In `stop`, at `m_loggingThread.join()`. -/
  | stopping (destructor : Bool)
  | joining (destructor : Bool)
  /-- At the end of the destructor, where the members go. -/
  | destroying
  | gone
  deriving DecidableEq

/-- Where the logging thread is in `ThreadFunc`. -/
inductive FuncPc where
  /-- At `assert(m_running == true)`. -/
  | asserting
  /-- In `m_latch.countDown()`. -/
  | counting
  | body
  deriving DecidableEq

structure AsyncLoggingLife (R ι : Type) where
  user : UserPc
  func : FuncPc
  m_loggingThread : ThreadLife R
  m_latch : CountDownLatch LatchParty
  logging : AsyncLogging ι
  /-- A thread has called `append` on members that are gone, or was in it when they went. -/
  misused : Bool

inductive LifeMove (ι : Type) where
  | start
  | stop
  /-- `~AsyncLogging` -/
  | destroy
  /-- The user's next statement; `success` is what `pthread_create` comes to. -/
  | user (success : Bool)
  /-- The logging thread's next statement outside of the loop. -/
  | thread
  /-- A waiter of the latch wakes up by itself. -/
  | wake (p : LatchParty)
  /-- A statement of the loop or of `append`. -/
  | log (e : LogMove ι)

namespace AsyncLoggingLife

variable {R ι : Type} [SharedPtr R Int32]

variable (R ι) in
def new : AsyncLoggingLife R ι where
  user := .idle
  func := .asserting
  m_loggingThread := .new
  m_latch := .new LatchParty 1
  logging := (Launch.constructed ι).logging
  misused := false

/-- `m_running = false`, and then the call of `join`. -/
def stop (s : AsyncLoggingLife R ι) (destructor : Bool) : Option (AsyncLoggingLife R ι) :=
  (s.logging.step .stop).map fun logging =>
    { s with logging := logging, user := .stopping destructor }

/-- What the thread calls its function and itself by makes no difference here. -/
def threadStep (s : AsyncLoggingLife R ι) (tid : Int32) (m : ThreadMove) :
    Option (AsyncLoggingLife R ι) :=
  (s.m_loggingThread.step tid (ascii "LoggingThread") m).map fun thread =>
    { s with m_loggingThread := thread }

def latchStep (s : AsyncLoggingLife R ι) (e : LatchMove LatchParty) : Option (AsyncLoggingLife R ι) :=
  (s.m_latch.step e).map fun latch => { s with m_latch := latch }

def userNext (s : AsyncLoggingLife R ι) (tid : Int32) (success : Bool) :
    Option (AsyncLoggingLife R ι) :=
  match s.user with
  | .idle | .gone => none
  | .starting => { s with user := .creating }.threadStep tid (.call .start)
  | .creating =>
    if s.m_loggingThread.owner = .idle then
      { s with user := .waiting }.latchStep (.call .user .wait)
    else s.threadStep tid (.owner success)
  | .waiting =>
    (s.latchStep (.run .user)).map fun t =>
      if t.m_latch.threads .user = .idle then { t with user := .idle } else t
  | .stopping d => { s with user := .joining d }.threadStep tid (.call .join)
  | .joining d =>
    if s.m_loggingThread.owner = .idle then
      some { s with user := if d then .destroying else .idle }
    else s.threadStep tid (.owner success)
  | .destroying =>
    match s.m_loggingThread.owner with
    | .idle => s.threadStep tid (.call .destroy)
    | .gone => some { s with user := .gone }
    | _ => s.threadStep tid (.owner success)

def threadNext (s : AsyncLoggingLife R ι) (tid : Int32) : Option (AsyncLoggingLife R ι) :=
  if s.m_loggingThread.child = .calling then
    match s.func with
    | .asserting =>
      if s.logging.m_running = true then
        { s with func := .counting }.latchStep (.call .loggingThread .countDown)
      else some { s with logging := { s.logging with fault := some .assertion } }
    | .counting =>
      (s.latchStep (.run .loggingThread)).map fun t =>
        if t.m_latch.threads .loggingThread = .idle then { t with func := .body } else t
    | .body =>
      match s.logging.pc with
      | .finished => s.threadStep tid .child
      | _ => none
  else s.threadStep tid .child

/-- `m_mutex`, `m_cond` and the buffers are gone; they go before `m_loggingThread`. -/
def destroyed (s : AsyncLoggingLife R ι) : Bool :=
  match s.user with
  | .destroying => s.m_loggingThread.owner ≠ .idle
  | .gone => true
  | _ => false

/-- A statement of `append` on members that are gone. -/
def misuses (s : AsyncLoggingLife R ι) : LogMove ι → Bool
  | .lock _ _ => s.destroyed
  | .append => s.destroyed && (s.logging.step .append).isSome
  | .backend | .drop _ _ | .stop => false

/-- The loop runs inside `ThreadFunc`. -/
def admits (s : AsyncLoggingLife R ι) : LogMove ι → Bool
  | .lock _ _ | .append => true
  | .backend | .drop _ _ => s.m_loggingThread.child = .calling && s.func = .body
  | .stop => false

/-- A failed assertion or a fault ends the program; what it does after a misuse is left open. -/
def step (tid : Int32) (s : AsyncLoggingLife R ι) (m : LifeMove ι) : Option (AsyncLoggingLife R ι) :=
  if s.m_loggingThread.assertion = none ∧ s.logging.fault = none ∧ s.misused = false then
    match m with
    | .start =>
      match s.user with
      | .idle => some { s with user := .starting, logging := { s.logging with m_running := true } }
      | _ => none
    | .stop =>
      match s.user with
      | .idle => s.stop false
      | _ => none
    | .destroy =>
      match s.user with
      | .idle =>
        if s.logging.m_running = true then s.stop true else some { s with user := .destroying }
      | _ => none
    | .user success => s.userNext tid success
    | .thread => s.threadNext tid
    | .wake p => s.latchStep (.wake p)
    | .log e =>
      if s.misuses e = true then some { s with misused := true }
      else if s.admits e = true then (s.logging.step e).map fun logging => { s with logging := logging }
      else none
  else none

variable (R ι) in
def lives (tid : Int32) : Machine (AsyncLoggingLife R ι) (LifeMove ι) where
  init s := s = new R ι
  step := step tid

/-- `start` is called once, `stop` after it and once, as the assertions of `Thread` ask. -/
def Proper (s : AsyncLoggingLife R ι) : LifeMove ι → Prop
  | .start => s.m_loggingThread.thread.m_started = false
  | .stop =>
    s.m_loggingThread.thread.m_started = true ∧ s.m_loggingThread.thread.m_joined = false
  | .destroy | .user _ | .thread | .wake _ | .log _ => True

instance (s : AsyncLoggingLife R ι) : (e : LifeMove ι) → Decidable (Proper s e)
  | .start => inferInstanceAs (Decidable (_ = _))
  | .stop => inferInstanceAs (Decidable (_ ∧ _))
  | .destroy | .user _ | .thread | .wake _ | .log _ => inferInstanceAs (Decidable True)

end AsyncLoggingLife

/-! ## One call of each side of the latch -/

/-- In a call of `wait`. -/
def LatchPc.inWait : LatchPc → Bool
  | .locking .wait | .testing | .blocking | .waiting | .leaving => true
  | .idle | .locking .countDown | .decrementing | .comparing | .notifying | .finishing => false

/-- In a call of `countDown`: how often it has decremented. -/
def LatchPc.decrements : LatchPc → Option Nat
  | .locking .countDown | .decrementing => some 0
  | .comparing | .notifying | .finishing => some 1
  | .idle | .locking .wait | .testing | .blocking | .waiting | .leaving => none

theorem LatchPc.decrements_le {pc : LatchPc} {k : Nat} (h : pc.decrements = some k) : k ≤ 1 := by
  cases pc with
  | locking o => cases o <;> cases h; decide
  | decrementing | comparing | notifying | finishing => cases h; decide
  | idle | testing | blocking | waiting | leaving => cases h

namespace CountDownLatch

variable {ι : Type} [DecidableEq ι] {s t : CountDownLatch ι} {i j : ι} {pc : LatchPc} {k : Nat}

theorem lock_frame (hs : s.lock i pc = some t) :
    t.threads = Function.update s.threads i pc ∧ t.decremented = s.decremented ∧
      t.counted = s.counted ∧ t.returns = s.returns := by
  unfold lock at hs
  split at hs
  · obtain rfl := Option.some.inj hs
    exact ⟨rfl, rfl, rfl, rfl⟩
  · cases hs

/-- A call of `wait` counts nothing, and keeps what was counted when it returns. -/
theorem run_wait (hw : (s.threads i).inWait = true) (hs : s.run i = some t) :
    (∃ pc, t.threads = Function.update s.threads i pc ∧
      (pc.inWait = true ∨ pc = .idle ∧ s.counted ∈ t.returns)) ∧
    t.decremented = s.decremented ∧ t.counted = s.counted := by
  have hlock {u : CountDownLatch ι} (hu : u.lock i .testing = some t)
      (hthreads : u.threads = s.threads) (hd : u.decremented = s.decremented)
      (hc : u.counted = s.counted) :
      (∃ pc, t.threads = Function.update s.threads i pc ∧
        (pc.inWait = true ∨ pc = .idle ∧ s.counted ∈ t.returns)) ∧
      t.decremented = s.decremented ∧ t.counted = s.counted := by
    obtain ⟨ht, hd', hc', -⟩ := lock_frame hu
    rw [hthreads] at ht
    exact ⟨⟨_, ht, .inl rfl⟩, hd'.trans hd, hc'.trans hc⟩
  cases hpc : s.threads i with
  | locking o =>
    cases o with
    | wait =>
      simp only [run, hpc] at hs
      exact hlock hs rfl rfl rfl
    | countDown =>
      rw [hpc] at hw
      cases hw
  | waiting =>
    simp only [run, hpc] at hs
    split at hs
    · cases hs
    · exact hlock hs rfl rfl rfl
  | testing =>
    simp only [run, hpc] at hs
    obtain rfl := Option.some.inj hs
    exact ⟨⟨_, rfl, .inl (by split <;> rfl)⟩, rfl, rfl⟩
  | blocking =>
    simp only [run, hpc] at hs
    obtain rfl := Option.some.inj hs
    exact ⟨⟨_, rfl, .inl rfl⟩, rfl, rfl⟩
  | leaving =>
    simp only [run, hpc] at hs
    obtain rfl := Option.some.inj hs
    exact ⟨⟨_, rfl, .inr ⟨rfl, List.mem_append_right _ (List.mem_singleton.mpr rfl)⟩⟩, rfl, rfl⟩
  | idle | decrementing | comparing | notifying | finishing =>
    rw [hpc] at hw
    cases hw

/-- A call of `countDown` decrements once, and has counted when it returns. -/
theorem run_countDown (hk : (s.threads i).decrements = some k) (hs : s.run i = some t) :
    ∃ pc, t.threads = Function.update s.threads i pc ∧
      ((∃ k', pc.decrements = some k' ∧ t.decremented + k = s.decremented + k' ∧
          t.counted = s.counted) ∨
        pc = .idle ∧ k = 1 ∧ t.decremented = s.decremented ∧ t.counted = s.counted + 1) := by
  cases hpc : s.threads i with
  | locking o =>
    cases o with
    | wait =>
      rw [hpc] at hk
      cases hk
    | countDown =>
      rw [hpc] at hk
      obtain rfl := Option.some.inj hk
      simp only [run, hpc] at hs
      obtain ⟨ht, hd, hc, -⟩ := lock_frame hs
      exact ⟨_, ht, .inl ⟨0, rfl, congrArg (· + 0) hd, hc⟩⟩
  | decrementing =>
    rw [hpc] at hk
    obtain rfl := Option.some.inj hk
    simp only [run, hpc] at hs
    obtain rfl := Option.some.inj hs
    exact ⟨_, rfl, .inl ⟨1, rfl, rfl, rfl⟩⟩
  | comparing =>
    rw [hpc] at hk
    obtain rfl := Option.some.inj hk
    simp only [run, hpc] at hs
    obtain rfl := Option.some.inj hs
    exact ⟨_, rfl, .inl ⟨1, by split <;> rfl, rfl, rfl⟩⟩
  | notifying =>
    rw [hpc] at hk
    obtain rfl := Option.some.inj hk
    simp only [run, hpc] at hs
    obtain rfl := Option.some.inj hs
    exact ⟨_, rfl, .inl ⟨1, rfl, rfl, rfl⟩⟩
  | finishing =>
    rw [hpc] at hk
    obtain rfl := Option.some.inj hk
    simp only [run, hpc] at hs
    obtain rfl := Option.some.inj hs
    exact ⟨_, rfl, .inr ⟨rfl, rfl, rfl, rfl⟩⟩
  | idle | testing | blocking | waiting | leaving =>
    rw [hpc] at hk
    cases hk

end CountDownLatch

/-! ## The statements of the two threads -/

namespace ChildPc

/-- Before the call of the thread's function. -/
def early : ChildPc → Bool
  | .unborn | .naming | .locking | .storing | .resetting | .choosing => true
  | .calling | .leaving | .deleting | .ended => false

/-- After it has returned. -/
def late : ChildPc → Bool
  | .leaving | .deleting | .ended => true
  | .unborn | .naming | .locking | .storing | .resetting | .choosing | .calling => false

theorem late_of_early {p : ChildPc} (h : p.early = true) : p.late = false := by
  cases p <;> first | rfl | cases h

end ChildPc

namespace ThreadLife

variable {R : Type} {s t : ThreadLife R} {tid : Int32} {m_name : List UInt8}

/-- What the owner's next statement does to the object and the pthread. -/
inductive OwnerTurn (s : ThreadLife R) (t : ThreadLife R) : Prop
  | create (h : s.owner = .creating) (ho : t.owner = .flagging) (hc : t.child = .naming)
      (ht : t.thread = { s.thread with created := true })
  | fail (h : s.owner = .creating) (ho : t.owner = .deleting) (hc : t.child = s.child)
      (ht : t.thread = s.thread)
  | flag (h : s.owner = .flagging) (ho : t.owner = .idle) (hc : t.child = s.child)
      (ht : t.thread = { s.thread with m_started := true })
  | delete (h : s.owner = .deleting) (ho : t.owner = .idle) (hc : t.child = s.child)
      (ht : t.thread = s.thread)
  | join (h : s.owner = .joining) (hend : s.child = .ended) (ho : t.owner = .idle)
      (hc : t.child = s.child) (ht : t.thread = { s.thread with joins := s.thread.joins + 1 })
  | release (h : s.owner = .releasing) (ho : t.owner = .gone) (hc : t.child = s.child)
      (ht : t.thread = s.thread)

theorem useData_assertion (s : ThreadLife R) (data : Nat) :
    (s.useData data).assertion = s.assertion := by
  unfold useData
  split <;> rfl

variable [SharedPtr R Int32]

theorem ownerTurn_of_next {success : Bool} (hs : s.ownerNext success = some t) :
    OwnerTurn s t ∧ t.assertion = s.assertion := by
  cases howner : s.owner <;> simp only [ownerNext, howner] at hs
  case idle | gone => cases hs
  case creating =>
    split at hs <;> obtain rfl := Option.some.inj hs
    · exact ⟨.create howner rfl rfl rfl, rfl⟩
    · exact ⟨.fail howner rfl rfl rfl, rfl⟩
  case flagging =>
    obtain rfl := Option.some.inj hs
    exact ⟨.flag howner rfl rfl rfl, rfl⟩
  case deleting =>
    obtain rfl := Option.some.inj hs
    obtain ⟨hthread, hidle, hchild⟩ := deleteData_frame { s with owner := .idle } s.thread_data
    refine ⟨.delete howner hidle hchild hthread, ?_⟩
    unfold deleteData
    split <;> rfl
  case joining =>
    split at hs
    · next hchild =>
      obtain rfl := Option.some.inj hs
      exact ⟨.join howner hchild rfl rfl rfl, rfl⟩
    · cases hs
  case releasing =>
    obtain rfl := Option.some.inj hs
    exact ⟨.release howner rfl rfl rfl, rfl⟩

/-- The pthread calls its function once, after the statements before it. -/
theorem childNext_order (hs : s.childNext tid m_name = some t) :
    t.assertion = s.assertion ∧ s.child.early = !t.child.late := by
  have huse {u : ThreadLife R} (hu : u.useData s.td = t) (ha : u.assertion = s.assertion)
      (hlate : s.child.early = !u.child.late) :
      t.assertion = s.assertion ∧ s.child.early = !t.child.late := by
    obtain ⟨-, -, hchild⟩ := useData_frame u s.td
    subst hu
    exact ⟨(useData_assertion u s.td).trans ha, by rwa [hchild]⟩
  cases hchild : s.child <;> simp only [childNext, hchild] at hs <;> rw [hchild] at huse
  case unborn | ended => cases hs
  case naming | choosing | calling => exact huse (Option.some.inj hs) rfl rfl
  case locking => split at hs <;> exact huse (Option.some.inj hs) rfl rfl
  case storing => split at hs <;> obtain rfl := Option.some.inj hs <;> exact ⟨rfl, rfl⟩
  case resetting | leaving =>
    obtain rfl := Option.some.inj hs
    exact ⟨rfl, rfl⟩
  case deleting =>
    obtain rfl := Option.some.inj hs
    obtain ⟨-, -, hended⟩ := deleteData_frame { s with child := .ended } s.td
    refine ⟨?_, by rw [hended]; rfl⟩
    unfold deleteData
    split <;> rfl

end ThreadLife

/-! ## What holds in every run -/

namespace UserPc

/-- The call of `start` has not returned. -/
def inStart : UserPc → Bool
  | .starting | .creating | .waiting => true
  | .idle | .stopping _ | .joining _ | .destroying | .gone => false

/-- How far the calls of the `Thread` are. -/
def At {R : Type} (l : ThreadLife R) : UserPc → Prop
  | .idle => l.owner = .idle
  | .starting => l.owner = .idle ∧ l.thread.m_started = false
  | .creating =>
    (l.owner = .creating ∨ l.owner = .flagging ∨ l.owner = .deleting ∨ l.owner = .idle) ∧
      l.thread.m_joined = false
  | .waiting => l.owner = .idle ∧ l.thread.m_joined = false
  | .stopping _ => l.owner = .idle ∧ l.thread.m_started = true ∧ l.thread.m_joined = false
  | .joining _ => (l.owner = .joining ∨ l.owner = .idle) ∧ l.thread.m_joined = true
  | .destroying =>
    (l.owner = .idle ∨ l.owner = .releasing ∨ l.owner = .gone) ∧
      (l.thread.m_started = true → l.thread.m_joined = true)
  | .gone => l.owner = .gone ∧ (l.thread.m_started = true → l.thread.m_joined = true)

/-- What `m_running` is. -/
def running (thread : Thread) : UserPc → Bool
  | .starting | .creating | .waiting => true
  | .idle => thread.m_started && !thread.m_joined
  | .stopping _ | .joining _ | .destroying | .gone => false

/-- Where the user is in the latch. -/
def Waits (pc : LatchPc) : UserPc → Prop
  | .waiting => pc.inWait = true
  | .idle | .starting | .creating | .stopping _ | .joining _ | .destroying | .gone => pc = .idle

end UserPc

/-- How far the one call of `countDown` is. -/
def FuncPc.Counts (l : CountDownLatch LatchParty) : FuncPc → Prop
  | .asserting => l.threads .loggingThread = .idle ∧ l.decremented = 0 ∧ l.counted = 0
  | .counting => (l.threads .loggingThread).decrements = some l.decremented ∧ l.counted = 0
  | .body => l.threads .loggingThread = .idle ∧ l.decremented = 1 ∧ l.counted = 1

namespace AsyncLoggingLife

variable {R ι : Type} {s t : AsyncLoggingLife R ι} {tid : Int32}

/-- Where the launch is. -/
def startPc (s : AsyncLoggingLife R ι) : StartPc :=
  if s.m_loggingThread.child = .unborn then
    if s.user.inStart = true then .threadStart else .constructed
  else
    match s.func with
    | .asserting => .runningTest
    | .counting => .countDown
    | .body => .looping

def launch (s : AsyncLoggingLife R ι) : Launch ι := ⟨s.startPc, s.logging⟩

theorem startPc_unborn (h : s.m_loggingThread.child = .unborn) :
    s.startPc = if s.user.inStart = true then .threadStart else .constructed :=
  if_pos h

theorem startPc_looping (h : s.m_loggingThread.child ≠ .unborn) (hfunc : s.func = .body) :
    s.startPc = .looping := by
  rw [startPc, if_neg h, hfunc]

theorem startPc_congr (hchild : t.m_loggingThread.child = s.m_loggingThread.child)
    (hstart : t.user.inStart = s.user.inStart) (hfunc : t.func = s.func) :
    t.startPc = s.startPc := by
  unfold startPc
  rw [hchild, hstart, hfunc]

variable [SharedPtr R Int32]

structure Lives (tid : Int32) (s : AsyncLoggingLife R ι) : Prop where
  launch : (launching ι).Reach s.launch
  thread : (ThreadLife.life tid (ascii "LoggingThread")).Reach s.m_loggingThread
  latch : (CountDownLatch.latch LatchParty 1).Reach s.m_latch
  assertion : s.m_loggingThread.assertion = none
  place : s.user.At s.m_loggingThread
  running : s.logging.m_running = s.user.running s.m_loggingThread.thread
  waits : s.user.Waits (s.m_latch.threads .user)
  counts : s.func.Counts s.m_latch
  early : s.m_loggingThread.child.early = true → s.func = .asserting
  late : s.m_loggingThread.child.late = true → s.func = .body ∧ s.logging.pc = .finished
  returned : s.user.inStart = false → s.m_loggingThread.child ≠ .unborn → s.func = .body

theorem Lives.flags (h : s.Lives tid) : s.m_loggingThread.Flags :=
  ((ThreadLife.sound_inductive tid _).reach h.thread).flags

theorem Lives.decremented_le (h : s.Lives tid) : s.m_latch.decremented ≤ 1 := by
  have hcounts := h.counts
  cases hfunc : s.func <;> rw [hfunc] at hcounts
  case asserting => exact hcounts.2.1.le.trans (Nat.zero_le 1)
  case counting => exact LatchPc.decrements_le hcounts.1
  case body => exact hcounts.2.1.le

/-- Once the logging thread is there, the flag of its `Thread` is set before a call returns. -/
theorem Lives.started (h : s.Lives tid) (hborn : s.m_loggingThread.child ≠ .unborn)
    (howner : s.m_loggingThread.owner ≠ .flagging) :
    s.m_loggingThread.thread.m_started = true :=
  (h.flags.unflagged (h.flags.created.mpr hborn)).resolve_right howner

theorem Lives.born (h : s.Lives tid) (hstarted : s.m_loggingThread.thread.m_started = true) :
    s.m_loggingThread.child ≠ .unborn :=
  h.flags.created.mp (h.flags.started hstarted)

theorem Lives.unborn (h : s.Lives tid) (hstarted : s.m_loggingThread.thread.m_started = false)
    (howner : s.m_loggingThread.owner = .idle) : s.m_loggingThread.child = .unborn :=
  ((ThreadLife.sound_inductive tid _).reach h.thread).unborn (by rw [howner]; decide) hstarted

/-- A statement of the launch. -/
theorem Lives.launched (h : s.Lives tid) {e : LaunchMove ι} {p : StartPc}
    (hstep : s.launch.step e = some ⟨p, t.logging⟩) (hpc : t.startPc = p) :
    (launching ι).Reach t.launch := by
  rw [AsyncLoggingLife.launch, hpc]
  exact .step e h.launch trivial hstep

/-- A statement that has nothing to do with it. -/
theorem Lives.unlaunched (h : s.Lives tid) (hlogging : t.logging = s.logging)
    (hpc : t.startPc = s.startPc) : (launching ι).Reach t.launch := by
  rw [AsyncLoggingLife.launch, hpc, hlogging]
  exact h.launch

theorem lives_new : (new R ι).Lives tid where
  launch := .init rfl
  thread := .init rfl
  latch := .init rfl
  assertion := rfl
  place := rfl
  running := rfl
  waits := rfl
  counts := ⟨rfl, rfl, rfl⟩
  early _ := rfl
  late := nofun
  returned _ h := absurd rfl h

end AsyncLoggingLife
end MyNet.Base
