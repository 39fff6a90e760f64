import MyNet.Base.AsyncLoggingLifeUser

/-!
# The whole life of an `AsyncLogging`

The logging thread's statements, and with them all interleavings: the parts run as they do alone,
and the thread has ended and is joined before a member is gone. The threads that append are not
waited for. `start` does not ask whether there is a thread, and without one it never returns.
-/
namespace MyNet.Base

open Lib AsyncLogging

namespace AsyncLoggingLife

variable {R ι : Type} [SharedPtr R Int32] {s t : AsyncLoggingLife R ι} {tid : Int32}

/-! ## The next statement of the logging thread -/

/-- Outside of `ThreadFunc`; it is called by then, and left when its loop is. -/
theorem lives_child (h : s.Lives tid)
    (hcalling : s.m_loggingThread.child = .calling → s.func = .body ∧ s.logging.pc = .finished)
    (hs : s.threadStep tid .child = some t) : t.Lives tid := by
  obtain ⟨life, hlife, rfl⟩ := Option.map_eq_some_iff.mp hs
  have hnext := hlife
  simp only [ThreadLife.step, h.assertion, if_pos] at hnext
  obtain ⟨hthread, howner, hborn, -, hborn'⟩ := ThreadLife.childNext_frame hnext
  obtain ⟨hassert, horder⟩ := ThreadLife.childNext_order hnext
  have hpc : startPc { s with m_loggingThread := life } = s.startPc := by
    simp only [startPc, if_neg hborn, if_neg hborn']
  refine { h with
    launch := h.unlaunched rfl hpc, thread := .step .child h.thread trivial hlife
    assertion := hassert.trans h.assertion, place := ?_, running := ?_
    early := fun he => ?_, late := fun hl => ?_, returned := fun hr _ => h.returned hr hborn }
  · have hplace := h.place
    change s.user.At life
    cases huser : s.user <;> rw [huser] at hplace <;>
      simpa only [UserPc.At, hthread, howner] using hplace
  · change s.logging.m_running = s.user.running life.thread
    rw [hthread]
    exact h.running
  · refine h.early ?_
    rw [ChildPc.late_of_early he] at horder
    exact horder
  · change life.child.late = true at hl
    rw [hl] at horder
    cases hchild : s.m_loggingThread.child <;> rw [hchild] at horder
    case calling => exact hcalling hchild
    case leaving | deleting | ended => exact h.late (by rw [hchild]; rfl)
    all_goals cases horder

theorem lives_asserting (h : s.Lives tid) (hchild : s.m_loggingThread.child = .calling)
    (hfunc : s.func = .asserting) (hfault : s.logging.fault = none)
    (hs : { s with func := .counting }.latchStep (.call .loggingThread .countDown) = some t)
    (hrunning : s.logging.m_running = true) : t.Lives tid := by
  obtain ⟨latch, hlatch, rfl⟩ := Option.map_eq_some_iff.mp hs
  change s.m_latch.step (.call .loggingThread .countDown) = some latch at hlatch
  have hcounts := h.counts
  rw [hfunc] at hcounts
  obtain ⟨hidle, hd, hc⟩ := hcounts
  have hcall : latch = s.m_latch.goto .loggingThread (.locking .countDown) := by
    simp only [CountDownLatch.step, hidle] at hlatch
    exact (Option.some.inj hlatch).symm
  have hthreads : latch.threads =
      Function.update s.m_latch.threads .loggingThread (.locking .countDown) := by rw [hcall]; rfl
  have hborn : s.m_loggingThread.child ≠ .unborn := by rw [hchild]; decide
  refine { h with
    launch := h.launched (e := .thread) (p := .countDown) ?_ ?_
    latch := .step (.call .loggingThread .countDown) h.latch trivial hlatch
    waits := ?_, counts := ⟨?_, ?_⟩, early := ?_, late := ?_, returned := fun hr _ => ?_ }
  · have hpc : s.startPc = .runningTest := by rw [startPc, if_neg hborn, hfunc]
    rw [launch, hpc]
    simp only [Launch.step, hfault, hrunning, if_pos]
  · exact if_neg hborn
  · have hwaits := h.waits
    have hother : latch.threads .user = s.m_latch.threads .user := by
      rw [hthreads]
      exact Function.update_of_ne (by decide) ..
    change s.user.Waits (latch.threads .user)
    rwa [hother]
  · rw [hthreads, Function.update_self, hcall]
    exact congrArg some hd.symm
  · rw [hcall]
    exact hc
  · intro he
    rw [hchild] at he
    cases he
  · intro hl
    rw [hchild] at hl
    cases hl
  · have hbody := h.returned hr hborn
    rw [hfunc] at hbody
    cases hbody

theorem lives_counting (h : s.Lives tid) (hchild : s.m_loggingThread.child = .calling)
    (hfunc : s.func = .counting) (hfault : s.logging.fault = none)
    {latch : CountDownLatch LatchParty} (hs : s.m_latch.step (.run .loggingThread) = some latch) :
    Lives tid { s with
      func := if latch.threads .loggingThread = .idle then .body else .counting
      m_latch := latch } := by
  have hcounts := h.counts
  rw [hfunc] at hcounts
  obtain ⟨hk, hc⟩ := hcounts
  obtain ⟨pc, hthreads, hmoves⟩ := CountDownLatch.run_countDown hk hs
  have hat : latch.threads .loggingThread = pc := by rw [hthreads, Function.update_self]
  have hother : latch.threads .user = s.m_latch.threads .user := by
    rw [hthreads]
    exact Function.update_of_ne (by decide) ..
  have hborn : s.m_loggingThread.child ≠ .unborn := by rw [hchild]; decide
  have hpc : s.startPc = .countDown := by rw [startPc, if_neg hborn, hfunc]
  have hin : s.user.inStart = false → False := fun hr => by
    have hbody := h.returned hr hborn
    rw [hfunc] at hbody
    cases hbody
  have hcommon (f : FuncPc) (hlaunch : (launching ι).Reach
      (launch { s with func := f, m_latch := latch })) (hf : f.Counts latch) :
      Lives tid { s with func := f, m_latch := latch } :=
    { h with
      launch := hlaunch, latch := .step (.run .loggingThread) h.latch trivial hs
      waits := by
        change s.user.Waits (latch.threads .user)
        rw [hother]
        exact h.waits
      counts := hf
      early := fun he => by rw [hchild] at he; cases he
      late := fun hl => by rw [hchild] at hl; cases hl
      returned := fun hr _ => (hin hr).elim }
  rw [hat]
  rcases hmoves with ⟨k, hk', hd, hc'⟩ | ⟨rfl, hone, hd, hc'⟩
  · have hbusy : pc ≠ .idle := by
      rintro rfl
      cases hk'
    rw [if_neg hbusy]
    refine hcommon .counting (h.unlaunched rfl ?_) ⟨?_, hc'.trans hc⟩
    · rw [hpc]
      exact if_neg hborn
    · rw [hat, hk']
      exact congrArg some (by omega)
  · rw [if_pos rfl]
    refine hcommon .body (h.launched (e := .thread) (p := .looping) ?_ (if_neg hborn))
      ⟨hat, hd.trans hone, by omega⟩
    rw [launch, hpc]
    simp only [Launch.step, hfault]

theorem lives_thread (h : s.Lives tid) (hfault : s.logging.fault = none)
    (hs : s.threadNext tid = some t) : t.Lives tid := by
  unfold threadNext at hs
  split at hs
  · next hchild =>
    cases hfunc : s.func <;> simp only [hfunc] at hs
    case asserting =>
      have hborn : s.m_loggingThread.child ≠ .unborn := by rw [hchild]; decide
      have hrunning : s.logging.m_running = true := by
        have hflag := (launched_inductive.reach h.launch).running
        refine hflag (.inr ?_)
        rw [launch, startPc, if_neg hborn, hfunc]
      rw [if_pos hrunning] at hs
      exact lives_asserting h hchild hfunc hfault hs hrunning
    case counting =>
      obtain ⟨u, hu, rfl⟩ := Option.map_eq_some_iff.mp hs
      obtain ⟨latch, hlatch, rfl⟩ := Option.map_eq_some_iff.mp hu
      have hgo := lives_counting h hchild hfunc hfault hlatch
      by_cases hidle : latch.threads .loggingThread = .idle
      · rw [if_pos hidle] at hgo ⊢
        exact hgo
      · rw [if_neg hidle] at hgo ⊢
        rw [← hfunc] at hgo
        exact hgo
    case body =>
      split at hs
      · next hfinished => exact lives_child h (fun _ => ⟨hfunc, hfinished⟩) hs
      · cases hs
  · next hchild => exact lives_child h (fun hcalling => absurd hcalling hchild) hs

/-! ## All statements -/

theorem lives_wake (h : s.Lives tid) {p : LatchParty} (hs : s.latchStep (.wake p) = some t) :
    t.Lives tid := by
  obtain ⟨latch, hlatch, rfl⟩ := Option.map_eq_some_iff.mp hs
  have hwake := hlatch
  simp only [CountDownLatch.step] at hwake
  split at hwake
  · obtain rfl := Option.some.inj hwake
    exact h.latched_user hlatch rfl rfl rfl h.place (.inl rfl) rfl h.waits
  · cases hwake

/-- Who appends leaves the loop where it is. -/
theorem pc_of_append {l l' : AsyncLogging ι} {e : LogMove ι} (ht : Turn l e l')
    (he : e = .append ∨ ∃ i line, e = .lock i line) : l'.pc = l.pc := by
  cases ht with
  | lock | room | full | pushFull | takeNext | resetCur | copy | unlock | noCur => rfl
  | enter | leave | lockBuffs | wait | noWait | wake | pushCur | pushNull | moveFirst | swapBuffs
  | keepNext | moveSecond | unlockBuffs | nothing | overload | begin | write | written | resize
  | takeFirst | noFirst | takeSecond | noSecond | clear | drop | stop =>
    rcases he with he | ⟨_, _, he⟩ <;> cases he

theorem lives_log (h : s.Lives tid) {e : LogMove ι} (hadmits : s.admits e = true)
    {logging : AsyncLogging ι} (hs : s.logging.step e = some logging) :
    Lives tid { s with logging := logging } := by
  obtain ⟨-, hturn⟩ := step_turn hs
  have hstop : e ≠ .stop := by
    rintro rfl
    cases hadmits
  have hloop (hpart : s.m_loggingThread.child = .calling && s.func = .body) :
      s.m_loggingThread.child = .calling ∧ s.func = .body := by simpa using hpart
  have hlaunch : s.launch.admits e = true := by
    cases e with
    | lock | append => rfl
    | backend | drop =>
      obtain ⟨hchild, hfunc⟩ := hloop hadmits
      exact decide_eq_true (startPc_looping (by rw [hchild]; decide) hfunc)
    | stop => exact absurd rfl hstop
  refine { h with
    launch := ?_, running := (running_of_turn hturn hstop).trans h.running, late := fun hl => ?_ }
  · refine h.launched (e := .log e) (p := s.startPc) ?_ rfl
    change (if s.launch.admits e = true then (s.logging.step e).map _ else _) = _
    rw [if_pos hlaunch, hs]
    rfl
  · obtain ⟨hfunc, hfinished⟩ := h.late hl
    refine ⟨hfunc, (pc_of_append hturn ?_).trans hfinished⟩
    cases e with
    | lock i line => exact .inr ⟨i, line, rfl⟩
    | append => exact .inl rfl
    | backend | drop =>
      rw [(hloop hadmits).1] at hl
      cases hl
    | stop => exact absurd rfl hstop

theorem lives_step (h : s.Lives tid) {e : LifeMove ι} (hproper : Proper s e)
    (hs : s.step tid e = some t) : t.Lives tid := by
  unfold step at hs
  split at hs
  · next hup =>
    obtain ⟨-, hfault, -⟩ := hup
    cases e with
    | start =>
      simp only at hs
      split at hs
      · next huser =>
        obtain rfl := Option.some.inj hs
        exact lives_start h huser hfault hproper
      · cases hs
    | stop =>
      simp only at hs
      split at hs
      · next huser => exact lives_stop h huser hproper.1 hproper.2 hs
      · cases hs
    | destroy =>
      simp only at hs
      split at hs
      · next huser =>
        split at hs
        · next hrunning =>
          have hflags := h.running
          rw [hrunning, huser] at hflags
          obtain ⟨hstarted, hnot⟩ := Bool.and_eq_true_iff.mp hflags.symm
          exact lives_stop h huser hstarted ((Bool.not_eq_true' _).mp hnot) hs
        · next hnot =>
          obtain rfl := Option.some.inj hs
          exact lives_destroy h huser (Bool.eq_false_iff.mpr hnot)
      · cases hs
    | user success => exact lives_user h hfault hs
    | thread => exact lives_thread h hfault hs
    | wake p => exact lives_wake h hs
    | log e =>
      simp only at hs
      split at hs
      · obtain rfl := Option.some.inj hs
        exact { h with }
      · split at hs
        · next hadmits =>
          obtain ⟨logging, hlogging, rfl⟩ := Option.map_eq_some_iff.mp hs
          exact lives_log h hadmits hlogging
        · cases hs
  · cases hs

theorem lives_inductive : (lives R ι tid).Inductive Proper (Lives tid) where
  init := by
    rintro s rfl
    exact lives_new
  step _ _ _ h hproper hs := lives_step h hproper hs

/-! ## The whole life -/

/-- **The parts run as they do alone.** As long as `start` and `stop` are called once and in this
order, in every interleaving the launch of the loop, the `Thread` and the latch are in states they
reach by themselves, and no assertion fails. -/
theorem parts_run_alone (h : (lives R ι tid).ReachIf Proper s) :
    (launching ι).Reach ⟨s.startPc, s.logging⟩ ∧
      (ThreadLife.life tid (ascii "LoggingThread")).Reach s.m_loggingThread ∧
      (CountDownLatch.latch LatchParty 1).Reach s.m_latch ∧
      s.m_loggingThread.assertion = none ∧ s.logging.fault ≠ some .assertion := by
  have hlives := lives_inductive.reach h
  refine ⟨hlives.launch, hlives.thread, hlives.latch, hlives.assertion, fun hfault => ?_⟩
  have hsound := (launched_inductive.reach hlives.launch).sound
  have hnone : s.logging.fault = none := hsound.fault (by
    change s.logging.fault ≠ _
    rw [hfault]
    decide)
  rw [hfault] at hnone
  cases hnone

/-- What `pthread_join` has waited for. -/
theorem Lives.finished (h : s.Lives tid) (hjoined : s.m_loggingThread.thread.m_joined = true)
    (howner : s.m_loggingThread.owner ≠ .joining) :
    s.m_loggingThread.child = .ended ∧ s.logging.pc = .finished := by
  have hended := (h.flags.ended hjoined).resolve_left howner
  exact ⟨hended, (h.late (by rw [hended]; rfl)).2⟩

/-- No thread is left that nobody has joined. -/
theorem Lives.over (h : s.Lives tid)
    (hover : s.m_loggingThread.owner = .releasing ∨ s.m_loggingThread.owner = .gone) :
    s.m_loggingThread.thread.m_started = true → s.m_loggingThread.thread.m_joined = true := by
  have hplace := h.place
  cases huser : s.user <;> rw [huser] at hplace
  case destroying | gone => exact hplace.2
  case idle => rcases hover with ho | ho <;> cases hplace.symm.trans ho
  case starting | waiting | stopping =>
    rcases hover with ho | ho <;> cases hplace.1.symm.trans ho
  case creating | joining =>
    have hat := hplace.1
    rcases hover with ho | ho <;> rw [ho] at hat <;> simp at hat

/-- Where the members go the thread has ended, if there was one. -/
theorem Lives.ended (h : s.Lives tid) (hdestroyed : s.destroyed = true) :
    s.m_loggingThread.owner ≠ .flagging ∧ s.m_loggingThread.owner ≠ .joining ∧
      (s.m_loggingThread.thread.m_started = true → s.m_loggingThread.thread.m_joined = true) ∧
      (s.m_loggingThread.child = .unborn ∨ s.m_loggingThread.child = .ended) := by
  have hplace := h.place
  have hover : (s.m_loggingThread.owner = .releasing ∨ s.m_loggingThread.owner = .gone) ∧
      (s.m_loggingThread.thread.m_started = true → s.m_loggingThread.thread.m_joined = true) := by
    unfold destroyed at hdestroyed
    cases huser : s.user <;> rw [huser] at hplace <;> simp only [huser] at hdestroyed
    case destroying => exact ⟨hplace.1.resolve_left (of_decide_eq_true hdestroyed), hplace.2⟩
    case gone => exact ⟨.inr hplace.1, hplace.2⟩
    all_goals cases hdestroyed
  obtain ⟨howner, hjoined⟩ := hover
  have hflagging : s.m_loggingThread.owner ≠ .flagging := by
    rcases howner with ho | ho <;> rw [ho] <;> decide
  have hjoining : s.m_loggingThread.owner ≠ .joining := by
    rcases howner with ho | ho <;> rw [ho] <;> decide
  refine ⟨hflagging, hjoining, hjoined, ?_⟩
  by_cases hborn : s.m_loggingThread.child = .unborn
  · exact .inl hborn
  · exact .inr (h.finished (hjoined (h.started hborn hflagging)) hjoining).1

/-- **The thread does not outlive the object.** `start` returns with `ThreadFunc` behind its
assertion and its latch at zero. When `join` has returned the loop is left and the thread is over.
It is never detached, and when the members go the thread, if there was one, has ended and was
joined once: only the threads that append have a statement left. -/
theorem thread_ends_before_object (h : (lives R ι tid).ReachIf Proper s) :
    (s.user = .idle → s.m_loggingThread.thread.m_started = true →
      s.func = .body ∧ s.m_latch.counted = 1) ∧
    (s.m_loggingThread.thread.m_joined = true → s.m_loggingThread.owner ≠ .joining →
      s.m_loggingThread.child = .ended ∧ s.logging.pc = .finished) ∧
    s.m_loggingThread.thread.detaches = 0 ∧
    (s.destroyed = true →
      s.m_loggingThread.thread.joins = (if s.m_loggingThread.thread.created then 1 else 0) ∧
        s.threadNext tid = none ∧
        ∀ e, s.admits e = true → e = .append ∨ ∃ i line, e = .lock i line) := by
  have hlives := lives_inductive.reach h
  have hdetaches := hlives.flags.detaches
  refine ⟨fun huser hstarted => ?_, hlives.finished, ?_, fun hdestroyed => ?_⟩
  · have hfunc := hlives.returned (by rw [huser]; rfl) (hlives.born hstarted)
    have hcounts := hlives.counts
    rw [hfunc] at hcounts
    exact ⟨hfunc, hcounts.2.2⟩
  · rw [hdetaches, if_neg]
    rintro ⟨hover, hstarted, hnot⟩
    rw [hlives.over hover hstarted] at hnot
    cases hnot
  · obtain ⟨hflagging, hjoining, hjoined, hchild⟩ := hlives.ended hdestroyed
    have hcalling : s.m_loggingThread.child ≠ .calling := by
      rcases hchild with hchild | hchild <;> rw [hchild] <;> decide
    refine ⟨?_, ?_, fun e he => ?_⟩
    · have hcreated : s.m_loggingThread.thread.created = true ↔
          s.m_loggingThread.thread.m_joined = true :=
        ⟨fun hc => hjoined (hlives.started (hlives.flags.created.mp hc) hflagging),
          fun hj => hlives.flags.started (hlives.flags.joined hj)⟩
      rw [hlives.flags.joins]
      simp only [hcreated, hjoining, ne_eq, not_false_eq_true, and_true]
    · rw [threadNext, if_neg hcalling, threadStep]
      rcases hchild with hchild | hchild <;>
        simp only [ThreadLife.step, ThreadLife.childNext, hchild, hlives.assertion, if_pos,
          Option.map_none]
    · cases e with
      | lock i line => exact .inr ⟨i, line, rfl⟩
      | append => exact .inl rfl
      | backend | drop =>
        simp only [admits, hcalling, decide_false, Bool.false_and] at he
        cases he
      | stop => cases he

/-- Started, appended to, and destroyed with the last line not taken. -/
def startedAndDestroyed : List (LifeMove Bool) :=
  .start :: List.replicate 4 (.user true) ++ List.replicate 11 .thread ++
    List.replicate 3 (.user true) ++
    [.log (.lock true [65]), .log .append, .log .append, .log .append, .destroy, .user true,
      .log .backend] ++ List.replicate 3 .thread ++ List.replicate 5 (.user true)

/-- A thread that appends afterwards is not kept from it. -/
theorem thread_ends_before_object_destroyed :
    ∃ s, (lives (Shared Int32) Bool 4711).runIf Proper (new (Shared Int32) Bool)
        startedAndDestroyed = some s ∧
      s.m_loggingThread.thread.joins = 1 ∧ s.logging.logout = [] ∧ s.threadNext 4711 = none ∧
      (s.step 4711 (.log (.lock true [66]))).map (·.misused) = some true := by
  have hrun : ∃ s, (lives (Shared Int32) Bool 4711).runIf Proper (new (Shared Int32) Bool)
        startedAndDestroyed = some s ∧
      s.destroyed = true ∧ s.m_loggingThread.thread.joins = 1 ∧ s.logging.logout = [] ∧
      (s.step 4711 (.log (.lock true [66]))).map (·.misused) = some true :=
    ⟨_, rfl, rfl, rfl, rfl, rfl⟩
  obtain ⟨s, hs, hdestroyed, hjoins, hlogout, hmisused⟩ := hrun
  have hends := thread_ends_before_object (Machine.reachIf_of_runIf (.init rfl) hs)
  exact ⟨s, hs, hjoins, hlogout, (hends.2.2.2 hdestroyed).2.1, hmisused⟩

theorem parts_run_alone_started :
    ∃ s, (lives (Shared Int32) Bool 4711).runIf Proper (new (Shared Int32) Bool)
        (startedAndDestroyed.take 19) = some s ∧
      s.startPc = .looping ∧ (launching Bool).Reach ⟨s.startPc, s.logging⟩ := by
  have hrun : ∃ s, (lives (Shared Int32) Bool 4711).runIf Proper (new (Shared Int32) Bool)
      (startedAndDestroyed.take 19) = some s ∧ s.startPc = .looping := ⟨_, rfl, rfl⟩
  obtain ⟨s, hs, hpc⟩ := hrun
  exact ⟨s, hs, hpc, (parts_run_alone (Machine.reachIf_of_runIf (.init rfl) hs)).1⟩

/-! ## When no thread could be created -/

/-- `pthread_create` has failed, and `start` goes on to wait. -/
structure Threadless (s : AsyncLoggingLife R ι) : Prop where
  uncreated : s.m_loggingThread.thread.created = false
  user : s.user = .creating ∧
      (s.m_loggingThread.owner = .deleting ∨ s.m_loggingThread.owner = .idle) ∨
    s.user = .waiting

theorem threadless_step (h : s.Lives tid) (hless : s.Threadless) {e : LifeMove ι}
    (hs : s.step tid e = some t) : t.Threadless := by
  have hunborn : s.m_loggingThread.child = .unborn := by
    by_contra hborn
    have hcreated := hless.uncreated
    rw [h.flags.created.mpr hborn] at hcreated
    cases hcreated
  have hidle : s.user ≠ .idle := by
    rcases hless.user with ⟨huser, -⟩ | huser <;> rw [huser] <;> decide
  unfold step at hs
  split at hs
  · cases e with
    | start | stop | destroy =>
      simp only at hs
      cases hs
    | user success =>
      simp only at hs
      rcases hless.user with ⟨huser, howner⟩ | huser
      · simp only [userNext, huser] at hs
        split at hs
        · obtain ⟨latch, -, rfl⟩ := Option.map_eq_some_iff.mp hs
          exact ⟨hless.uncreated, .inr rfl⟩
        · next hbusy =>
          obtain ⟨life, hlife, rfl⟩ := Option.map_eq_some_iff.mp hs
          have hdeleting := howner.resolve_right hbusy
          cases (thread_owner h.assertion hlife).1 with
          | delete _ ho _ ht => exact ⟨by rw [ht]; exact hless.uncreated, .inl ⟨huser, .inr ho⟩⟩
          | create hat | fail hat | flag hat | join hat | release hat =>
            cases hdeleting.symm.trans hat
      · simp only [userNext, huser] at hs
        obtain ⟨u, hu, rfl⟩ := Option.map_eq_some_iff.mp hs
        obtain ⟨latch, hlatch, rfl⟩ := Option.map_eq_some_iff.mp hu
        have hbusy : latch.threads .user ≠ .idle := fun hreturn => by
          have hbody := h.released huser hlatch hreturn
          exact h.called (by rw [hbody]; decide) hunborn
        rw [if_neg hbusy]
        exact ⟨hless.uncreated, .inr huser⟩
    | thread =>
      simp only [threadNext, hunborn, reduceCtorEq, if_false, threadStep, ThreadLife.step,
        ThreadLife.childNext, h.assertion, if_pos, Option.map_none] at hs
    | wake p =>
      obtain ⟨latch, -, rfl⟩ := Option.map_eq_some_iff.mp hs
      exact ⟨hless.uncreated, hless.user⟩
    | log e =>
      simp only at hs
      split at hs
      · obtain rfl := Option.some.inj hs
        exact ⟨hless.uncreated, hless.user⟩
      · split at hs
        · obtain ⟨logging, -, rfl⟩ := Option.map_eq_some_iff.mp hs
          exact ⟨hless.uncreated, hless.user⟩
        · cases hs
  · cases hs

/-- **`start` never returns without a thread.** It does not ask whether the `Thread` was created:
where `pthread_create` fails it waits for a count nobody takes down, in every run from there. -/
theorem start_hangs (h : (lives R ι tid).ReachIf Proper s)
    (hfailed : s.m_loggingThread.owner = .deleting) {es : List (LifeMove ι)}
    (hrun : (lives R ι tid).runIf Proper s es = some t) :
    t.user = .creating ∨ t.user = .waiting := by
  have hlives := lives_inductive.reach h
  have huser : s.user = .creating := by
    have hplace := hlives.place
    cases huser : s.user <;> rw [huser] at hplace
    case idle => cases hfailed.symm.trans hplace
    case starting | waiting | stopping | gone => cases hfailed.symm.trans hplace.1
    case joining | destroying =>
      have hat := hplace.1
      rw [hfailed] at hat
      simp at hat
  have hless : s.Threadless :=
    ⟨hlives.flags.uncreated (by rw [hfailed]; rfl), .inl ⟨huser, .inl hfailed⟩⟩
  have hkept : t.Lives tid ∧ t.Threadless :=
    Machine.runIf_keeps (I := fun u => u.Lives tid ∧ u.Threadless)
      (fun _ _ _ hu hproper hstep =>
        ⟨lives_step hu.1 hproper hstep, threadless_step hu.1 hu.2 hstep⟩) ⟨hlives, hless⟩ hrun
  exact hkept.2.user.imp_left (·.1)

/-- It sleeps, and sleeps again when it is woken for nothing. -/
theorem start_hangs_asleep :
    ∃ s t, (lives (Shared Int32) Bool 4711).runIf Proper (new (Shared Int32) Bool)
        [.start, .user true, .user false] = some s ∧
      (lives (Shared Int32) Bool 4711).runIf Proper s
        [.user true, .user true, .user true, .user true, .user true, .wake .user, .user true,
          .user true, .user true] = some t ∧
      t.m_latch.m_cond.asleep = {.user} ∧ (t.user = .creating ∨ t.user = .waiting) := by
  have hrun : ∃ s t, (lives (Shared Int32) Bool 4711).runIf Proper (new (Shared Int32) Bool)
        [.start, .user true, .user false] = some s ∧
      (lives (Shared Int32) Bool 4711).runIf Proper s
        [.user true, .user true, .user true, .user true, .user true, .wake .user, .user true,
          .user true, .user true] = some t ∧
      t.m_latch.m_cond.asleep = {.user} ∧ s.m_loggingThread.owner = .deleting :=
    ⟨_, _, rfl, rfl, by decide, rfl⟩
  obtain ⟨s, t, hs, ht, hasleep, hfailed⟩ := hrun
  exact ⟨s, t, hs, ht, hasleep,
    start_hangs (Machine.reachIf_of_runIf (.init rfl) hs) hfailed ht⟩

end AsyncLoggingLife
end MyNet.Base
