import MyNet.Base.AsyncLoggingLife

/-!
# The user's statements in the life of an `AsyncLogging`

What the calls of `start`, `stop` and the destructor do, statement by statement, to the launch of
the loop, the `Thread` and the latch.
-/
namespace MyNet.Base

open Lib AsyncLogging

namespace AsyncLoggingLife

variable {R ι : Type} [SharedPtr R Int32] {s t : AsyncLoggingLife R ι} {tid : Int32}

/-! ## The calls of the user -/

theorem lives_start (h : s.Lives tid) (huser : s.user = .idle) (hfault : s.logging.fault = none)
    (hnot : s.m_loggingThread.thread.m_started = false) :
    Lives tid { s with user := .starting, logging := { s.logging with m_running := true } } := by
  have howner := h.place
  have hwaits := h.waits
  rw [huser] at howner hwaits
  have hunborn := h.unborn hnot howner
  refine { h with
    launch := ?_, place := ⟨howner, hnot⟩, running := rfl, waits := hwaits, returned := nofun }
  have hpc : s.startPc = .constructed := by
    rw [startPc_unborn hunborn, huser]
    rfl
  refine h.launched (e := .start) (p := .threadStart) ?_ (startPc_unborn hunborn)
  rw [launch, hpc]
  simp only [Launch.step, hfault]

/-- `stop`, by the user or in the destructor: `ThreadFunc` is in its loop. -/
theorem lives_stop (h : s.Lives tid) (huser : s.user = .idle)
    (hstarted : s.m_loggingThread.thread.m_started = true)
    (hnot : s.m_loggingThread.thread.m_joined = false) {d : Bool} (hs : s.stop d = some t) :
    t.Lives tid := by
  obtain ⟨logging, hstop, rfl⟩ := Option.map_eq_some_iff.mp hs
  have howner := h.place
  have hwaits := h.waits
  rw [huser] at howner hwaits
  have hborn := h.born hstarted
  have hfunc := h.returned (by rw [huser]; rfl) hborn
  have hlaunch : s.launch.step (.log .stop) = some ⟨.looping, logging⟩ := by
    rw [launch, startPc_looping hborn hfunc]
    simp only [Launch.step, Launch.admits, hstop, decide_true, if_pos, Option.map_some]
  obtain ⟨-, hturn⟩ := step_turn hstop
  cases hturn with
  | stop =>
    exact { h with
      launch := h.launched hlaunch (startPc_looping hborn hfunc)
      place := ⟨howner, hstarted, hnot⟩, running := rfl, waits := hwaits
      returned := fun _ _ => hfunc }

theorem lives_destroy (h : s.Lives tid) (huser : s.user = .idle)
    (hnot : s.logging.m_running = false) : Lives tid { s with user := .destroying } := by
  have howner := h.place
  have hwaits := h.waits
  have hrunning := h.running
  rw [huser] at howner hwaits hrunning
  rw [hnot] at hrunning
  refine { h with
    launch := h.unlaunched rfl (startPc_congr rfl (by rw [huser]; rfl) rfl)
    place := ⟨.inl howner, fun hstarted => ?_⟩, running := hnot, waits := hwaits
    returned := fun _ => h.returned (by rw [huser]; rfl) }
  change s.m_loggingThread.thread.m_started = true at hstarted
  simpa only [UserPc.running, hstarted, Bool.true_and, Bool.not_eq_eq_eq_not, Bool.not_false]
    using hrunning.symm

/-! ## The next statement of the user -/

/-- A statement of the `Thread` that the logging thread has no part in: the user goes to `p`, the
object to `life`. -/
theorem Lives.owned (h : s.Lives tid) {m : ThreadMove} {life : ThreadLife R} {p : UserPc}
    (hs : s.m_loggingThread.step tid (ascii "LoggingThread") m = some life)
    (ha : life.assertion = none) (hchild : life.child = s.m_loggingThread.child)
    (hplace : p.At life) (hstart : p.inStart = s.user.inStart)
    (hrunning : p.running life.thread = s.user.running s.m_loggingThread.thread)
    (hwaits : p.Waits (s.m_latch.threads .user)) :
    Lives tid { s with user := p, m_loggingThread := life } where
  launch := h.unlaunched rfl (startPc_congr hchild hstart rfl)
  thread := .step m h.thread trivial hs
  latch := h.latch
  assertion := ha
  place := hplace
  running := h.running.trans hrunning.symm
  waits := hwaits
  counts := h.counts
  early he := h.early (by rwa [← hchild])
  late hl := h.late (by rwa [← hchild])
  returned hr hborn := h.returned (hstart.symm.trans hr) (by rwa [← hchild])

theorem thread_call (ha : s.m_loggingThread.assertion = none)
    (howner : s.m_loggingThread.owner = .idle) {c : OwnerCall} {life : ThreadLife R}
    (hs : s.m_loggingThread.step tid (ascii "LoggingThread") (.call c) = some life) :
    life = s.m_loggingThread.call c := by
  simp only [ThreadLife.step, ha, howner, if_pos] at hs
  exact (Option.some.inj hs).symm

theorem thread_owner (ha : s.m_loggingThread.assertion = none) {success : Bool}
    {life : ThreadLife R}
    (hs : s.m_loggingThread.step tid (ascii "LoggingThread") (.owner success) = some life) :
    ThreadLife.OwnerTurn s.m_loggingThread life ∧ life.assertion = none := by
  simp only [ThreadLife.step, ha, if_pos] at hs
  obtain ⟨hturn, hassert⟩ := ThreadLife.ownerTurn_of_next hs
  exact ⟨hturn, hassert.trans ha⟩

theorem lives_starting (h : s.Lives tid) (huser : s.user = .starting) {success : Bool}
    (hs : s.userNext tid success = some t) : t.Lives tid := by
  have hplace := h.place
  have hwaits := h.waits
  rw [huser] at hplace hwaits
  simp only [userNext, huser] at hs
  obtain ⟨life, hlife, rfl⟩ := Option.map_eq_some_iff.mp hs
  obtain rfl := thread_call (s := s) h.assertion hplace.1 hlife
  have hjoined : s.m_loggingThread.thread.m_joined = false := by
    refine Bool.eq_false_iff.mpr fun hj => ?_
    have hstarted := h.flags.joined hj
    rw [hplace.2] at hstarted
    cases hstarted
  have hcall : s.m_loggingThread.call .start = { s.m_loggingThread with
      owner := .creating
      news := s.m_loggingThread.news + 1
      live := s.m_loggingThread.news :: s.m_loggingThread.live
      thread_data := s.m_loggingThread.news } := by
    rw [ThreadLife.call, ThreadLife.start, hplace.2]
    exact if_neg Bool.false_ne_true
  have hgo := h.owned (p := .creating) hlife
  rw [hcall] at hgo ⊢
  exact hgo h.assertion rfl ⟨.inl rfl, hjoined⟩ (by rw [huser]; rfl) (by rw [huser]; rfl) hwaits

/-- The pthread is there: it is the launch that goes on. -/
theorem lives_created (h : s.Lives tid) (huser : s.user = .creating)
    (howner : s.m_loggingThread.owner = .creating)
    (hnot : s.m_loggingThread.thread.m_joined = false)
    (hfault : s.logging.fault = none) {m : ThreadMove} {life : ThreadLife R}
    (hs : s.m_loggingThread.step tid (ascii "LoggingThread") m = some life)
    (ha : life.assertion = none) (hgoes : life.owner = .flagging) (hchild : life.child = .naming)
    (hthread : life.thread = { s.m_loggingThread.thread with created := true }) :
    Lives tid { s with m_loggingThread := life } := by
  have hunborn : s.m_loggingThread.child = .unborn := by
    by_contra hborn
    have hcreated := h.flags.uncreated (by rw [howner]; rfl)
    rw [h.flags.created.mpr hborn] at hcreated
    cases hcreated
  have hfunc : s.func = .asserting := h.early (by rw [hunborn]; rfl)
  have hplace : UserPc.creating.At life := ⟨.inr (.inl hgoes), by rw [hthread]; exact hnot⟩
  refine { h with
    launch := ?_, thread := .step m h.thread trivial hs, assertion := ha
    place := by rw [huser]; exact hplace
    running := ?_, early := fun _ => hfunc, late := ?_, returned := ?_ }
  · have hpc : s.startPc = .threadStart := by
      rw [startPc_unborn hunborn, huser]
      rfl
    have hpc' : startPc { s with m_loggingThread := life } = .runningTest := by
      simp only [startPc, hchild, reduceCtorEq, if_false, hfunc]
    refine h.launched (e := .start) ?_ hpc'
    rw [launch, hpc]
    simp only [Launch.step, hfault]
  · have hrunning := h.running
    rw [huser] at hrunning ⊢
    exact hrunning
  · intro hlate
    rw [hchild] at hlate
    cases hlate
  · intro hr
    rw [huser] at hr
    cases hr

theorem Lives.called (h : s.Lives tid) (hfunc : s.func ≠ .asserting) :
    s.m_loggingThread.child ≠ .unborn := by
  intro hunborn
  exact hfunc (h.early (by rw [hunborn]; rfl))

/-- A statement in the latch that is not the logging thread's. -/
theorem Lives.latched_user (h : s.Lives tid) {e : LatchMove LatchParty}
    {latch : CountDownLatch LatchParty} {p : UserPc} (hs : s.m_latch.step e = some latch)
    (hthread : latch.threads .loggingThread = s.m_latch.threads .loggingThread)
    (hd : latch.decremented = s.m_latch.decremented) (hc : latch.counted = s.m_latch.counted)
    (hplace : p.At s.m_loggingThread) (hstart : p.inStart = s.user.inStart ∨ s.func = .body)
    (hrunning : p.running s.m_loggingThread.thread = s.user.running s.m_loggingThread.thread)
    (hwaits : p.Waits (latch.threads .user)) :
    Lives tid { s with user := p, m_latch := latch } where
  launch := by
    refine h.unlaunched rfl ?_
    rcases hstart with hstart | hbody
    · exact startPc_congr rfl hstart rfl
    · have hborn := h.called (by rw [hbody]; decide)
      rw [startPc_looping hborn hbody]
      exact startPc_looping hborn hbody
  thread := h.thread
  latch := .step e h.latch trivial hs
  assertion := h.assertion
  place := hplace
  running := h.running.trans hrunning.symm
  waits := hwaits
  counts := by
    have hcounts := h.counts
    change s.func.Counts latch
    cases hfunc : s.func <;> rw [hfunc] at hcounts <;>
      simpa only [FuncPc.Counts, hthread, hd, hc] using hcounts
  early := h.early
  late := h.late
  returned hr hborn := by
    rcases hstart with hstart | hbody
    · exact h.returned (hstart.symm.trans hr) hborn
    · exact hbody

/-- The user calls `wait`. -/
theorem lives_wait (h : s.Lives tid) (huser : s.user = .creating)
    (howner : s.m_loggingThread.owner = .idle)
    (hs : { s with user := .waiting }.latchStep (.call .user .wait) = some t) : t.Lives tid := by
  obtain ⟨latch, hlatch, rfl⟩ := Option.map_eq_some_iff.mp hs
  change s.m_latch.step (.call .user .wait) = some latch at hlatch
  have hplace := h.place
  have hidle := h.waits
  rw [huser] at hplace hidle
  change s.m_latch.threads .user = .idle at hidle
  have hcall : latch = s.m_latch.goto .user (.locking .wait) := by
    simp only [CountDownLatch.step, hidle] at hlatch
    exact (Option.some.inj hlatch).symm
  have hthreads : latch.threads =
      Function.update s.m_latch.threads .user (.locking .wait) := by rw [hcall]; rfl
  refine h.latched_user (p := .waiting) hlatch ?_ ?_ ?_ ⟨howner, hplace.2⟩ (.inl ?_) ?_ ?_
  · rw [hthreads]
    exact Function.update_of_ne (by decide) ..
  · rw [hcall]
    rfl
  · rw [hcall]
    rfl
  · rw [huser]
    rfl
  · rw [huser]
    rfl
  · rw [hthreads, Function.update_self]
    rfl

theorem lives_creating (h : s.Lives tid) (huser : s.user = .creating)
    (hfault : s.logging.fault = none) {success : Bool} (hs : s.userNext tid success = some t) :
    t.Lives tid := by
  have hplace := h.place
  have hwaits := h.waits
  rw [huser] at hplace hwaits
  simp only [userNext, huser] at hs
  split at hs
  · next howner => exact lives_wait h huser howner hs
  · next hbusy =>
    obtain ⟨life, hlife, rfl⟩ := Option.map_eq_some_iff.mp hs
    obtain ⟨hturn, ha⟩ := thread_owner h.assertion hlife
    have hgo := h.owned (p := .creating) hlife ha
    rw [← huser] at hgo
    have hsame {pc : OwnerPc} (hgoes : life.owner = pc)
        (hin : pc = .deleting ∨ pc = .idle) (hchild : life.child = s.m_loggingThread.child)
        (hjoined : life.thread.m_joined = s.m_loggingThread.thread.m_joined) :
        Lives tid { s with m_loggingThread := life } := by
      have hat : UserPc.creating.At life :=
        ⟨.inr (.inr (hin.imp hgoes.trans hgoes.trans)), hjoined.trans hplace.2⟩
      refine hgo hchild (by rw [huser]; exact hat) rfl ?_ (by rw [huser]; exact hwaits)
      rw [huser]
      rfl
    cases hturn with
    | create howner ho hc ht =>
      exact lives_created h huser howner hplace.2 hfault hlife ha ho hc ht
    | fail howner ho hc ht => exact hsame ho (.inl rfl) hc (by rw [ht])
    | flag howner ho hc ht => exact hsame ho (.inr rfl) hc (by rw [ht])
    | delete howner ho hc ht => exact hsame ho (.inr rfl) hc (by rw [ht])
    | join howner | release howner =>
      obtain ⟨(ho | ho | ho | ho), -⟩ := hplace <;> cases howner.symm.trans ho

/-- The user returns from `wait` when `ThreadFunc` has counted down. -/
theorem Lives.released (h : s.Lives tid) (huser : s.user = .waiting)
    {latch : CountDownLatch LatchParty} (hs : s.m_latch.step (.run .user) = some latch)
    (hreturn : latch.threads .user = .idle) : s.func = .body := by
  have hwaits := h.waits
  rw [huser] at hwaits
  obtain ⟨⟨pc, hthreads, hpc⟩, hd, -⟩ := CountDownLatch.run_wait hwaits hs
  have hat : latch.threads .user = pc := by rw [hthreads, Function.update_self]
  have hback := (hpc.resolve_left (by rw [← hat, hreturn]; decide)).2
  have hcounted : 1 ≤ s.m_latch.counted := by
    have hone := h.decremented_le
    have hreach : (CountDownLatch.latch LatchParty 1).Reach latch :=
      .step (.run .user) h.latch trivial hs
    have hlatched := CountDownLatch.latched_reach (by decide) hreach (by omega)
    exact Int.ofNat_le.mp (hlatched.returns _ hback)
  have hcounts := h.counts
  cases hfunc : s.func <;> rw [hfunc] at hcounts
  case asserting => exact absurd hcounts.2.2 (by omega)
  case counting => exact absurd hcounts.2 (by omega)

theorem lives_waiting (h : s.Lives tid) (huser : s.user = .waiting) {success : Bool}
    (hs : s.userNext tid success = some t) : t.Lives tid := by
  have hplace := h.place
  have hwaits := h.waits
  rw [huser] at hplace hwaits
  simp only [userNext, huser] at hs
  obtain ⟨u, hu, rfl⟩ := Option.map_eq_some_iff.mp hs
  obtain ⟨latch, hlatch, rfl⟩ := Option.map_eq_some_iff.mp hu
  obtain ⟨⟨pc, hthreads, hpc⟩, hd, hc⟩ := CountDownLatch.run_wait hwaits hlatch
  have hat : latch.threads .user = pc := by rw [hthreads, Function.update_self]
  have hother : latch.threads .loggingThread = s.m_latch.threads .loggingThread := by
    rw [hthreads]
    exact Function.update_of_ne (by decide) ..
  have hstay (hin : pc.inWait = true) : Lives tid { s with user := .waiting, m_latch := latch } :=
    h.latched_user hlatch hother hd hc hplace (.inl (by rw [huser])) (by rw [huser])
      (by rw [hat]; exact hin)
  by_cases hreturn : latch.threads .user = .idle
  · rw [if_pos hreturn]
    have hfunc := h.released huser hlatch hreturn
    have hborn := h.called (by rw [hfunc]; decide)
    have hstarted := h.started hborn (by rw [hplace.1]; decide)
    refine h.latched_user (p := .idle) hlatch hother hd hc hplace.1 (.inr hfunc) ?_ hreturn
    simp only [huser, UserPc.running, hstarted, hplace.2, Bool.not_false, Bool.and_self]
  · rw [if_neg hreturn]
    have hin := hpc.resolve_right fun hidle => hreturn (hat.trans hidle.1)
    rw [← huser] at hstay
    exact hstay hin

theorem lives_stopping (h : s.Lives tid) {d : Bool} (huser : s.user = .stopping d)
    {success : Bool} (hs : s.userNext tid success = some t) : t.Lives tid := by
  have hplace := h.place
  have hwaits := h.waits
  rw [huser] at hplace hwaits
  obtain ⟨howner, hstarted, hnot⟩ := hplace
  simp only [userNext, huser] at hs
  obtain ⟨life, hlife, rfl⟩ := Option.map_eq_some_iff.mp hs
  obtain rfl := thread_call (s := s) h.assertion howner hlife
  have hcall : s.m_loggingThread.call .join = { s.m_loggingThread with
      owner := .joining, thread := { s.m_loggingThread.thread with m_joined := true } } := by
    rw [ThreadLife.call, ThreadLife.join, hstarted, hnot]
    rfl
  have hgo := h.owned (p := .joining d) hlife
  rw [hcall] at hgo ⊢
  exact hgo h.assertion rfl ⟨.inl rfl, rfl⟩ (by rw [huser]; rfl) (by rw [huser]; rfl) hwaits

/-- A statement of the user outside of `start` that calls nothing. -/
theorem Lives.moved (h : s.Lives tid) {p : UserPc} (hplace : p.At s.m_loggingThread)
    (hstart : p.inStart = s.user.inStart)
    (hrunning : p.running s.m_loggingThread.thread = s.user.running s.m_loggingThread.thread)
    (hwaits : p.Waits (s.m_latch.threads .user)) : Lives tid { s with user := p } :=
  { h with
    launch := h.unlaunched rfl (startPc_congr rfl hstart rfl), place := hplace
    running := h.running.trans hrunning.symm, waits := hwaits
    returned := fun hr => h.returned (hstart.symm.trans hr) }

theorem lives_joining (h : s.Lives tid) {d : Bool} (huser : s.user = .joining d)
    {success : Bool} (hs : s.userNext tid success = some t) : t.Lives tid := by
  have hplace := h.place
  have hwaits := h.waits
  rw [huser] at hplace hwaits
  obtain ⟨hat, hjoined⟩ := hplace
  simp only [userNext, huser] at hs
  split at hs
  · next howner =>
    obtain rfl := Option.some.inj hs
    cases d
    case false =>
      refine h.moved (p := .idle) howner (by rw [huser]; rfl) ?_ hwaits
      simp only [huser, UserPc.running, hjoined, Bool.not_true, Bool.and_false]
    case true =>
      exact h.moved (p := .destroying) ⟨.inl howner, fun _ => hjoined⟩ (by rw [huser]; rfl)
        (by rw [huser]; rfl) hwaits
  · next hbusy =>
    obtain ⟨life, hlife, rfl⟩ := Option.map_eq_some_iff.mp hs
    obtain ⟨hturn, ha⟩ := thread_owner h.assertion hlife
    have howner := hat.resolve_right hbusy
    have hgo := h.owned (p := .joining d) hlife ha
    rw [← huser] at hgo
    cases hturn with
    | join _ _ ho hc ht =>
      have hplace : (UserPc.joining d).At life := ⟨.inr ho, by rw [ht]; exact hjoined⟩
      exact hgo hc (by rw [huser]; exact hplace) rfl (by rw [huser]; rfl)
        (by rw [huser]; exact hwaits)
    | create hat | fail hat | flag hat | delete hat | release hat => cases howner.symm.trans hat

theorem lives_destroying (h : s.Lives tid) (huser : s.user = .destroying) {success : Bool}
    (hs : s.userNext tid success = some t) : t.Lives tid := by
  have hplace := h.place
  have hwaits := h.waits
  rw [huser] at hplace hwaits
  obtain ⟨hat, hjoined⟩ := hplace
  have hgo {m : ThreadMove} {life : ThreadLife R}
      (hlife : s.m_loggingThread.step tid (ascii "LoggingThread") m = some life)
      (ha : life.assertion = none) (hchild : life.child = s.m_loggingThread.child)
      (howner : life.owner = .idle ∨ life.owner = .releasing ∨ life.owner = .gone)
      (hthread : life.thread.m_started = true → life.thread.m_joined = true) :
      Lives tid { s with m_loggingThread := life } := by
    have hgo := h.owned (p := .destroying) hlife ha hchild
    rw [← huser] at hgo
    have hplace : UserPc.destroying.At life := ⟨howner, hthread⟩
    exact hgo (by rw [huser]; exact hplace) rfl (by rw [huser]; rfl) (by rw [huser]; exact hwaits)
  simp only [userNext, huser] at hs
  split at hs
  · next howner =>
    obtain ⟨life, hlife, rfl⟩ := Option.map_eq_some_iff.mp hs
    obtain rfl := thread_call h.assertion howner hlife
    refine hgo hlife h.assertion rfl (.inr (.inl rfl)) ?_
    change s.m_loggingThread.thread.destroy.m_started = true →
      s.m_loggingThread.thread.destroy.m_joined = true
    rw [Thread.destroy]
    split <;> exact hjoined
  · next howner =>
    obtain rfl := Option.some.inj hs
    exact h.moved (p := .gone) ⟨howner, hjoined⟩ (by rw [huser]; rfl) (by rw [huser]; rfl) hwaits
  · next hidle hgone =>
    obtain ⟨life, hlife, rfl⟩ := Option.map_eq_some_iff.mp hs
    obtain ⟨hturn, ha⟩ := thread_owner h.assertion hlife
    have howner := (hat.resolve_left hidle).resolve_right hgone
    cases hturn with
    | release _ ho hc ht =>
      exact hgo hlife ha hc (.inr (.inr ho)) (by rw [ht]; exact hjoined)
    | create hat | fail hat | flag hat | delete hat | join hat => cases howner.symm.trans hat

theorem lives_user (h : s.Lives tid) (hfault : s.logging.fault = none) {success : Bool}
    (hs : s.userNext tid success = some t) : t.Lives tid := by
  cases huser : s.user with
  | idle | gone =>
    simp only [userNext, huser] at hs
    cases hs
  | starting => exact lives_starting h huser hs
  | creating => exact lives_creating h huser hfault hs
  | waiting => exact lives_waiting h huser hs
  | stopping d => exact lives_stopping h huser hs
  | joining d => exact lives_joining h huser hs
  | destroying => exact lives_destroying h huser hs

end AsyncLoggingLife
end MyNet.Base
