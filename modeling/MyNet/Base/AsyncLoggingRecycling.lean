import MyNet.Base.AsyncLoggingBuffers

/-!
# Recycling the buffers of `AsyncLogging`

A run from the constructor on: lines may be appended before `start()`, and `ThreadFunc` tests
`m_running` before it enters its loop. The relation between `m_nextbuff` and `m_buffs` that the
front end keeps is what pays for the two spares. It is broken for one moment while the backend
holds the mutex: the swap has emptied `m_buffs`, and the missing `m_nextbuff` is not replaced yet.
-/
namespace MyNet.Base.AsyncLogging

open Lib

variable {ι : Type}

/-- Where `start()` is, and then the thread that it starts. -/
inductive StartPc where
  /-- `start()` has not been called. -/
  | constructed
  /-- At `m_loggingThread.start()`. -/
  | threadStart
  /-- `ThreadFunc` at `assert(m_running == true)`. -/
  | runningTest
  /-- `ThreadFunc` at `m_latch.countDown()`, for which `start()` waits. -/
  | countDown
  | looping
  deriving DecidableEq

/-- The local buffers of `ThreadFunc` have their first values from the beginning. -/
structure Launch (ι : Type) where
  pc : StartPc
  logging : AsyncLogging ι

inductive LaunchMove (ι : Type) where
  | start
  | thread
  | log (e : LogMove ι)

namespace Launch

variable (ι) in
def constructed : Launch ι := ⟨.constructed, { AsyncLogging.start ι with m_running := false }⟩

/-- Any thread may append; `ThreadFunc` has to be in its loop, and `stop` comes after `start()`. -/
def admits (s : Launch ι) : LogMove ι → Bool
  | .lock _ _ | .append => true
  | .backend | .drop _ _ | .stop => s.pc = .looping

def step (s : Launch ι) : LaunchMove ι → Option (Launch ι)
  | .start =>
    match s.logging.fault, s.pc with
    | none, .constructed => some ⟨.threadStart, { s.logging with m_running := true }⟩
    | none, .threadStart => some { s with pc := .runningTest }
    | _, _ => none
  | .thread =>
    match s.logging.fault, s.pc with
    | none, .runningTest =>
      if s.logging.m_running = true then some { s with pc := .countDown }
      else some { s with logging := { s.logging with fault := some .assertion } }
    | none, .countDown => some { s with pc := .looping }
    | _, _ => none
  | .log e =>
    if s.admits e = true then (s.logging.step e).map fun t => { s with logging := t } else none

end Launch

variable (ι) in
def launching : Machine (Launch ι) (LaunchMove ι) where
  init s := s = Launch.constructed ι
  step := Launch.step

/-- What a step from the constructor on does. -/
inductive LaunchTurn (s : Launch ι) : Launch ι → Prop
  | setRunning (hp : s.pc = .constructed) :
      LaunchTurn s ⟨.threadStart, { s.logging with m_running := true }⟩
  | spawn (hp : s.pc = .threadStart) : LaunchTurn s { s with pc := .runningTest }
  | tested (hp : s.pc = .runningTest) (hr : s.logging.m_running = true) :
      LaunchTurn s { s with pc := .countDown }
  | notRunning (hp : s.pc = .runningTest) (hr : s.logging.m_running = false) :
      LaunchTurn s { s with logging := { s.logging with fault := some .assertion } }
  | countDown (hp : s.pc = .countDown) : LaunchTurn s { s with pc := .looping }
  | log {e : LogMove ι} {t : AsyncLogging ι} (ha : s.admits e = true)
      (hf : s.logging.fault = none) (ht : Turn s.logging e t) :
      LaunchTurn s { s with logging := t }

theorem launchTurn_of_step {s t : Launch ι} {e : LaunchMove ι} (h : s.step e = some t) :
    LaunchTurn s t := by
  cases e with
  | start =>
    simp only [Launch.step] at h
    split at h
    · next hp => obtain rfl := Option.some.inj h; exact .setRunning hp
    · next hp => obtain rfl := Option.some.inj h; exact .spawn hp
    · cases h
  | thread =>
    simp only [Launch.step] at h
    split at h
    · next hp =>
      by_cases hr : s.logging.m_running = true
      · rw [if_pos hr] at h
        obtain rfl := Option.some.inj h
        exact .tested hp hr
      · rw [if_neg hr] at h
        obtain rfl := Option.some.inj h
        exact .notRunning hp (Bool.eq_false_iff.mpr hr)
    · next hp => obtain rfl := Option.some.inj h; exact .countDown hp
    · cases h
  | log e =>
    simp only [Launch.step] at h
    by_cases ha : s.admits e = true
    · rw [if_pos ha] at h
      obtain ⟨u, hu, rfl⟩ := Option.map_eq_some_iff.mp h
      obtain ⟨hf, ht⟩ := step_turn hu
      exact .log ha hf ht
    · rw [if_neg ha] at h
      cases h

/-! ## What every run keeps -/

/-- `m_running` is set before the thread is there to test it. -/
structure Launched (s : Launch ι) : Prop where
  sound : Sound s.logging
  running : s.pc = .threadStart ∨ s.pc = .runningTest → s.logging.m_running = true

theorem Sound.withRunning {s : AsyncLogging ι} (h : Sound s) (r : Bool) :
    Sound { s with m_running := r } :=
  ⟨⟨h.owned.exclusive, h.owned.front, h.owned.next, h.owned.spares⟩, h.fault⟩

/-- Only `stop` touches `m_running`. -/
theorem running_of_turn {s t : AsyncLogging ι} {e : LogMove ι} (ht : Turn s e t)
    (he : e ≠ .stop) : t.m_running = s.m_running := by
  cases ht with
  | stop => exact absurd rfl he
  | lock | room | full | pushFull | takeNext | resetCur | copy | unlock | noCur | enter | leave
  | lockBuffs | wait | noWait | wake | pushCur | pushNull | moveFirst | swapBuffs | keepNext
  | moveSecond | unlockBuffs | nothing | overload | begin | write | written | resize | takeFirst
  | noFirst | takeSecond | noSecond | clear | drop => rfl

theorem launched_turn {s t : Launch ι} (h : Launched s) (ht : LaunchTurn s t) : Launched t := by
  cases ht with
  | setRunning hp => exact ⟨h.sound.withRunning true, fun _ => rfl⟩
  | spawn hp => exact ⟨h.sound, fun _ => h.running (Or.inl hp)⟩
  | tested hp hr => exact ⟨h.sound, fun _ => hr⟩
  | notRunning hp hr =>
    rw [h.running (Or.inr hp)] at hr
    cases hr
  | countDown hp => exact ⟨h.sound, nofun⟩
  | @log e t ha hf ht =>
    refine ⟨sound_turn h.sound hf ht, ?_⟩
    intro hp
    have he : e ≠ .stop := by
      rintro rfl
      have hlooping : s.pc = .looping := of_decide_eq_true ha
      change s.pc = _ ∨ s.pc = _ at hp
      rw [hlooping] at hp
      exact hp.elim nofun nofun
    change t.m_running = true
    rw [running_of_turn ht he]
    exact h.running hp

theorem launched_inductive : (launching ι).Inductive (fun _ _ => True) Launched where
  init := by
    rintro s rfl
    exact ⟨(Sound.mk owned_start fun _ => rfl).withRunning false, nofun⟩
  step s e t hs _ h := launched_turn hs (launchTurn_of_step h)

/-! ## The buffers -/

/-- There is a buffer, and nothing is in it. -/
def Empty (p : BuffPtr) : Prop := ∃ b, p = some b ∧ b.length = 0

structure Recycled (s : AsyncLogging ι) : Prop where
  /-- At the start of an iteration. -/
  spares : s.pc = .loopTest ∨ s.pc = .locking → Empty s.firstBuffer ∧ Empty s.secondBuffer
  /-- Whoever holds the mutex, and when nobody does, except between the swap and the test of
  `m_nextbuff`. -/
  queued : s.pc ≠ .moveSecond → s.m_nextbuff = none → s.m_buffs ≠ []
  /-- Between them the backend has the buffers. -/
  taken : s.pc = .moveSecond → s.m_nextbuff = none → 2 ≤ s.buffsToWrite.length
  /-- After the swap section, before the mutex is released. -/
  handed : s.pc = .unlock → s.m_curbuff ≠ none ∧ s.m_nextbuff ≠ none
  /-- `pop_back` for the first spare. -/
  first : s.pc = .takeFirst → s.firstBuffer = none → s.buffsToWrite ≠ []
  /-- `pop_back` for the second one. -/
  second : s.pc = .takeSecond → s.secondBuffer = none → s.buffsToWrite ≠ []
  /-- No assertion has failed. -/
  asserts : s.fault = none

theorem empty_new : Empty (some .new) := ⟨.new, rfl, rfl⟩

theorem Front.queued {s : AsyncLogging ι} (h : Front s) (hp : s.pc ≠ .moveSecond)
    (hn : s.m_nextbuff = none) : s.m_buffs ≠ [] := by
  cases hm : s.m_mutex with
  | free => exact (h.free hm).2 hn
  | appender t line pc =>
    by_cases htake : pc = .takeNext
    · subst pc
      exact (h.takeNext hm).2
    · exact (h.appender hm htake).2 hn
  | backend =>
    have hswap := h.backend hm
    cases hpc : s.pc with
    | moveSecond => exact absurd hpc hp
    | unlock =>
      rw [hpc] at hswap
      exact absurd hn hswap.2
    | moveFirst | swapBuffs =>
      rw [hpc] at hswap
      exact hswap.2.1
    | loopTest | locking | emptyTest | waiting | pushCur | sizeTest | dropping | writing | resize
    | takeFirst | takeSecond | clear | finished =>
      rw [hpc] at hswap
      exact hswap.2 hn

theorem recycled_of_sound {s : AsyncLogging ι} (h : Sound s) (hn : s.fault ≠ some .nullPointer) :
    Recycled s where
  spares hp := by
    have hs : Spares s .loopTest := hp.elim h.owned.sparesAt h.owned.sparesAt
    rw [hs.1, hs.2.1]
    exact ⟨empty_new, empty_new⟩
  queued := h.owned.front.queued
  taken hp := (h.owned.swapFront hp rfl).2.2
  handed hp := by
    have hs : SwapFront s .unlock := h.owned.swapFront hp rfl
    rw [hs.1]
    exact ⟨Option.some_ne_none _, hs.2⟩
  first hp _ := (h.owned.sparesAt hp).2.2
  second hp hnone := by
    rcases (h.owned.sparesAt hp).2 with hs | ⟨-, hlength⟩
    · rw [hnone] at hs
      cases hs
    · exact List.length_pos_iff.mp hlength
  asserts := h.fault hn

/-- **The buffers do not run out.** In every state of a run in which no empty pointer has been
dereferenced yet. -/
theorem buffers_recycled {s : Launch ι} (h : (launching ι).Reach s)
    (hn : s.logging.fault ≠ some .nullPointer) : Recycled s.logging :=
  recycled_of_sound (launched_inductive.reach h).sound hn

/-- Nobody appends: the backend waits, times out, and gives its first spare for the empty buffer
it took. -/
theorem buffers_recycled_timeout :
    ∃ s, (launching Bool).run (Launch.constructed Bool)
        ([.start, .start, .thread, .thread] ++ List.replicate 13 (.log .backend)) = some s ∧
      s.logging.pc = .takeFirst ∧ s.logging.firstBuffer = none ∧ Recycled s.logging := by
  have hrun : (launching Bool).run (Launch.constructed Bool)
      ([.start, .start, .thread, .thread] ++ List.replicate 13 (.log .backend)) =
        some ⟨.looping, { start Bool with
          pc := .takeFirst, firstBuffer := none, buffsToWrite := [.new] }⟩ := rfl
  refine ⟨_, hrun, rfl, rfl, ?_⟩
  exact buffers_recycled (Machine.reachIf_of_runIf (.init rfl) hrun) nofun

/-! ## Inside the swap -/

/-- Every state of the loop is one of a run from the constructor on. -/
theorem reach_looping {s : AsyncLogging ι} (h : (logging ι).Reach s) :
    (launching ι).Reach ⟨.looping, s⟩ := by
  induction h with
  | init h =>
    obtain rfl := h
    have hrun : (launching ι).run (Launch.constructed ι) [.start, .start, .thread, .thread] =
        some ⟨.looping, start ι⟩ := rfl
    exact Machine.reachIf_of_runIf (.init rfl) hrun
  | @step s t e _ _ hstep ih =>
    have hadmits : (Launch.mk .looping s).admits e = true := by cases e <;> rfl
    apply Machine.ReachIf.step (.log e) ih trivial
    change (if _ then _ else _) = _
    rw [if_pos hadmits, show s.step e = some t from hstep]
    rfl

theorem not_queued_under_lock :
    ¬ ∀ s, (launching Bool).Reach s → s.logging.fault ≠ some .nullPointer →
      s.logging.m_mutex ≠ .free → s.logging.m_nextbuff = none → s.logging.m_buffs ≠ [] := by
  intro h
  have hl : (List.replicate kLargeBuffer (0 : Byte)).length = kLargeBuffer := List.length_replicate
  exact h _ (reach_looping (reach_justSwapped true hl)) nofun nofun rfl rfl

end MyNet.Base.AsyncLogging
