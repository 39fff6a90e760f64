import MyNet.Base.AsyncLoggingBytes
import MyNet.Lib.History

/-!
# Stopping `AsyncLogging`

`stop` clears `m_running` and joins the logging thread, which looks at `m_running` only
between two iterations. If it is still before the swap of an iteration it takes
everything appended so far. If it has swapped, or is at the test itself, it leaves
without looking at the front end's buffers again, and the lines in them are lost:
`logout.flush()` after the loop flushes what was handed over and nothing more.
-/
namespace MyNet.Base.AsyncLogging

open Lib Lib.History

variable {ι : Type}

/-- The line of a call that has copied it and not returned yet. -/
def unreturned : Holder ι → List Line
  | .appender _ line .unlock => [line]
  | _ => []

/-- The iteration the backend is in will swap the buffers. -/
def BackendPc.swapAhead : BackendPc → Bool
  | .locking | .emptyTest | .waiting | .pushCur | .moveFirst | .swapBuffs => true
  | _ => false

/-- The log file has been handed lines of the calls made, each whole and at most once, with
every line among them whose call returned before `stop`. -/
def Delivered (s : AsyncLogging ι) : Prop :=
  ∃ ls, s.returned.Sublist ls ∧ ls.Sublist s.acquired ∧ s.logout = ls.flatten

/-- `stop` comes while the backend is before the swap of an iteration, or when the front
end's buffers hold no byte of a call that has returned. -/
def StopSafe (s : AsyncLogging ι) : Prop :=
  s.pc.swapAhead = true ∨
    bytes s.m_buffs ++ curBytes s.m_curbuff = (unreturned s.m_mutex).flatten

/-- The lines that returned after the last swap. -/
def leftBehind (s : AsyncLogging ι) : List Byte := (s.returned.drop s.swapped).flatten

/-- Which calls have returned, while the backend is told to run and after. -/
structure Accounted (s : AsyncLogging ι) : Prop where
  running : s.m_running = true → s.appended = s.returned ++ unreturned s.m_mutex
  swapped : s.m_running = true → s.swapped ≤ s.returned.length
  returned : s.returned <+: s.appended
  finished : s.pc = .finished → s.m_running = false

theorem running_turn {s t : AsyncLogging ι} {e : LogMove ι} (ho : Owned s)
    (h : s.m_running = true → s.appended = s.returned ++ unreturned s.m_mutex)
    (ht : Turn s e t) (hr : t.m_running = true) :
    t.appended = t.returned ++ unreturned t.m_mutex := by
  cases ht with
  | lock hm | room hm | full hm | pushFull hm | takeNext hm | resetCur hm | lockBuffs hp hm
  | wake hp hm =>
    have ha := h hr
    rw [hm] at ha
    exact ha
  | @copy u line b hm hb =>
    have ha := h hr
    rw [hm] at ha
    change s.appended ++ [line] = s.returned ++ [line]
    rw [ha]
    exact congrArg (· ++ [line]) (List.append_nil _)
  | @unlock u line hm =>
    have ha := h hr
    rw [hm] at ha
    have hr' : s.m_running = true := hr
    change s.appended = (if s.m_running then s.returned ++ [line] else s.returned) ++ []
    rw [if_pos hr', List.append_nil]
    exact ha
  | wait hp | unlockBuffs hp =>
    have ha := h hr
    rw [ho.inside hp rfl] at ha
    exact ha
  | stop => cases hr
  | noCur | enter | leave | noWait | pushCur | pushNull | moveFirst | swapBuffs | keepNext
  | moveSecond | nothing | overload | begin | write | written | resize | takeFirst | noFirst
  | takeSecond | noSecond | clear | drop => exact h hr

theorem swapped_turn {s t : AsyncLogging ι} {e : LogMove ι} (ho : Owned s) (h : Accounted s)
    (ht : Turn s e t) (hr : t.m_running = true) : t.swapped ≤ t.returned.length := by
  cases ht with
  | @unlock u line hm =>
    have hr' : s.m_running = true := hr
    have hs := h.swapped hr'
    change s.swapped ≤ (if s.m_running then s.returned ++ [line] else s.returned).length
    rw [if_pos hr', List.length_append]
    omega
  | swapBuffs hp =>
    have ha := h.running hr
    rw [ho.inside hp rfl] at ha
    change s.appended.length ≤ s.returned.length
    rw [ha]
    exact Nat.le_of_eq (congrArg List.length (List.append_nil _))
  | stop => cases hr
  | lock | room | full | pushFull | takeNext | resetCur | copy | noCur | enter | leave | lockBuffs
  | wait | noWait | wake | pushCur | pushNull | moveFirst | keepNext | moveSecond | unlockBuffs
  | nothing | overload | begin | write | written | resize | takeFirst | noFirst | takeSecond
  | noSecond | clear | drop => exact h.swapped hr

theorem returned_turn {s t : AsyncLogging ι} {e : LogMove ι} (h : Accounted s)
    (ht : Turn s e t) : t.returned <+: t.appended := by
  cases ht with
  | copy => exact h.returned.trans (List.prefix_append _ _)
  | @unlock u line hm =>
    change (if s.m_running then s.returned ++ [line] else s.returned) <+: s.appended
    by_cases hr : s.m_running = true
    · have ha := h.running hr
      rw [hm] at ha
      rw [if_pos hr, ha]
      exact List.prefix_refl _
    · rw [if_neg hr]
      exact h.returned
  | lock | room | full | pushFull | takeNext | resetCur | noCur | enter | leave | lockBuffs | wait
  | noWait | wake | pushCur | pushNull | moveFirst | swapBuffs | keepNext | moveSecond | unlockBuffs
  | nothing | overload | begin | write | written | resize | takeFirst | noFirst | takeSecond
  | noSecond | clear | drop | stop => exact h.returned

theorem finished_turn {s t : AsyncLogging ι} {e : LogMove ι}
    (h : s.pc = .finished → s.m_running = false) (ht : Turn s e t) (hp : t.pc = .finished) :
    t.m_running = false := by
  cases ht with
  | leave _ hr => exact hr
  | stop => rfl
  | lock | room | full | pushFull | takeNext | resetCur | copy | unlock | noCur | pushNull
  | nothing | noFirst | noSecond => exact h hp
  | enter | lockBuffs | wait | noWait | wake | pushCur | moveFirst | swapBuffs | keepNext
  | moveSecond | unlockBuffs | overload | begin | write | written | resize | takeFirst | takeSecond
  | clear | drop => cases hp

theorem accounted_turn {s t : AsyncLogging ι} {e : LogMove ι} (ho : Owned s) (h : Accounted s)
    (ht : Turn s e t) : Accounted t :=
  ⟨running_turn ho h.running ht, swapped_turn ho h ht, returned_turn h ht,
    finished_turn h.finished ht⟩

theorem accounted_start : Accounted (start ι) where
  running _ := rfl
  swapped _ := Nat.le_refl 0
  returned := List.prefix_refl _
  finished := nofun

structure Kept (s : AsyncLogging ι) : Prop where
  sound : Sound s
  conserved : Conserved s
  accounted : Accounted s

theorem kept_inductive : (logging ι).Inductive Ordinary (fun s : AsyncLogging ι => Kept s) where
  init s h := by
    have hc := conserved_inductive.init s h
    obtain rfl : s = start ι := h
    exact ⟨hc.1, hc.2, accounted_start⟩
  step s e t h hc hstep := by
    have ht := conserved_inductive.step s e t ⟨h.sound, h.conserved⟩ hc hstep
    exact ⟨ht.1, ht.2, accounted_turn h.sound.owned h.accounted (step_turn hstep).2⟩

/-- Once the backend is gone, all is delivered that returned before the last swap. -/
theorem delivered_iff {s : AsyncLogging ι} (h : Kept s) (hp : s.pc = .finished) :
    Delivered s ↔ leftBehind s = [] := by
  have hlog := h.conserved.backAt hp
  change s.logout ++ [] = _ at hlog
  rw [List.append_nil] at hlog
  have hacq : s.acquired.take s.swapped = s.appended.take s.swapped := by
    rw [h.conserved.order, List.take_append_of_le_length h.conserved.taken]
  have hpre : s.returned <+: s.acquired := by
    rw [h.conserved.order]
    exact h.accounted.returned.trans (List.prefix_append _ _)
  unfold Delivered leftBehind
  rw [hlog, ← hacq]
  exact flatten_covers_iff hpre s.swapped

/-! ## After `stop` -/

/-- What is still open after `stop`: a swap ahead delivers everything that returned, without
one it is what has been left behind. -/
structure Settled (safe : Prop) (s : AsyncLogging ι) : Prop where
  stopped : s.m_running = false
  ahead : s.pc.swapAhead = true → safe
  behind : s.pc.swapAhead = false → (leftBehind s = [] ↔ safe)

theorem stop_settled {s : AsyncLogging ι} (h : Kept s) (hr : s.m_running = true) :
    Settled (StopSafe s) { s with m_running := false } where
  stopped := rfl
  ahead hp := Or.inl hp
  behind hp := by
    have hp' : s.pc.swapAhead = false := hp
    have hsplit : (s.appended.drop s.swapped).flatten =
        leftBehind s ++ (unreturned s.m_mutex).flatten := by
      rw [h.accounted.running hr, List.drop_append_of_le_length (h.accounted.swapped hr),
        List.flatten_append]
      rfl
    unfold StopSafe
    rw [h.conserved.queued, hsplit, hp']
    change leftBehind s = [] ↔ _
    simp

theorem settled_turn {safe : Prop} {s t : AsyncLogging ι} {e : LogMove ι} (ha : Accounted s)
    (h : Settled safe s) (ht : Turn s e t) : Settled safe t := by
  cases ht with
  | swapBuffs hp =>
    refine ⟨h.stopped, nofun, fun _ => iff_of_true ?_ (h.ahead (by rw [hp]; rfl))⟩
    change (s.returned.drop s.appended.length).flatten = []
    rw [List.drop_eq_nil_of_le ha.returned.length_le, List.flatten_nil]
  | enter hp hr =>
    rw [h.stopped] at hr
    cases hr
  | lockBuffs hp | wait hp | noWait hp | wake hp | pushCur hp | moveFirst hp =>
    exact ⟨h.stopped, fun _ => h.ahead (by rw [hp]; rfl), nofun⟩
  | leave hp | keepNext hp | moveSecond hp | unlockBuffs hp | overload hp | begin hp | write hp
  | written hp | resize hp | takeFirst hp | takeSecond hp | clear hp | drop hp =>
    exact ⟨h.stopped, nofun, fun _ => h.behind (by rw [hp]; rfl)⟩
  | @unlock u line hm =>
    have hret : (if s.m_running then s.returned ++ [line] else s.returned) = s.returned :=
      if_neg (by rw [h.stopped]; nofun)
    refine ⟨h.stopped, h.ahead, fun hp => ?_⟩
    unfold leftBehind
    rw [hret]
    exact h.behind hp
  | stop => exact ⟨rfl, h.ahead, h.behind⟩
  | lock | room | full | pushFull | takeNext | resetCur | copy | noCur | pushNull | nothing
  | noFirst | noSecond => exact ⟨h.stopped, h.ahead, h.behind⟩

/-- When `stop` is called in `s` and the backend has left in `t`, every line whose call had
returned before is delivered exactly if the call of `stop` was safe. -/
theorem shutdown_delivers_iff {s s' t : AsyncLogging ι} {es : List (LogMove ι)}
    (h : (logging ι).ReachIf Ordinary s) (hr : s.m_running = true)
    (hstop : (logging ι).step s .stop = some s')
    (hrun : (logging ι).runIf Ordinary s' es = some t) (hp : t.pc = .finished) :
    Delivered t ↔ StopSafe s := by
  have hs := kept_inductive.reach h
  have hs' := kept_inductive.step s .stop s' hs trivial hstop
  have hset : Settled (StopSafe s) s' := by
    have hs'' : s.step .stop = some s' := hstop
    obtain ⟨-, ht⟩ := step_turn hs''
    cases ht
    exact stop_settled hs hr
  have hend := Machine.runIf_keeps (M := logging ι)
    (I := fun u => Kept u ∧ Settled (StopSafe s) u)
    (fun u e v hu hc hv => ⟨kept_inductive.step u e v hu.1 hc hv,
      settled_turn hu.1.accounted hu.2 (step_turn hv).2⟩) ⟨hs', hset⟩ hrun
  rw [delivered_iff hend.1 hp]
  exact hend.2.behind (by rw [hp]; rfl)

/-- One line, and `stop` while the backend waits for lines. -/
theorem shutdown_delivers_iff_waiting :
    ∃ s s' t, (logging Bool).runIf Ordinary (start Bool)
        ([.lock true [65], .append, .append, .append] ++ List.replicate 3 .backend) = some s ∧
      (logging Bool).step s .stop = some s' ∧
      (logging Bool).runIf Ordinary s' (List.replicate 14 .backend) = some t ∧
      t.returned = [[65]] ∧ Delivered t := by
  have key : ∀ s s' t : AsyncLogging Bool, (logging Bool).runIf Ordinary (start Bool)
      ([.lock true [65], .append, .append, .append] ++ List.replicate 3 .backend) = some s →
      s.m_running = true → s.pc.swapAhead = true → (logging Bool).step s .stop = some s' →
      (logging Bool).runIf Ordinary s' (List.replicate 14 .backend) = some t →
      t.pc = .finished → Delivered t := by
    intro s s' t hs hr ha hstop hrun hp
    exact (shutdown_delivers_iff (Machine.reachIf_of_runIf (.init rfl) hs) hr hstop hrun hp).mpr
      (Or.inl ha)
  exact ⟨_, _, _, rfl, rfl, rfl, rfl, key _ _ _ rfl rfl rfl rfl rfl rfl⟩

/-- `stop` right after the line was appended, with the backend at its loop test. -/
theorem stop_loses_line :
    ¬ ∀ (s s' t : AsyncLogging Bool) (es : List (LogMove Bool)),
      (logging Bool).ReachIf Ordinary s → s.m_running = true →
      (logging Bool).step s .stop = some s' → (logging Bool).runIf Ordinary s' es = some t →
      t.pc = .finished → t.fault = none → Delivered t := by
  intro h
  have hs : (logging Bool).runIf Ordinary (start Bool)
      [.lock true [65], .append, .append, .append] = some _ := rfl
  have hreach := Machine.reachIf_of_runIf (.init rfl) hs
  obtain ⟨ls, hls, -, hout⟩ := h _ _ _ [.backend] hreach rfl rfl rfl rfl rfl
  have hlen := hls.flatten.length_le
  rw [← hout] at hlen
  exact absurd hlen (by decide)

end MyNet.Base.AsyncLogging
