import MyNet.Base.TimeText
import MyNet.Lib.Machine
import Mathlib.Logic.Function.Basic

/-!
# The cached time text

Threads log records and change the time zone in any order. A thread's `t_time` is made anew
only when the second differs from its `t_lastSecond`; nothing tells it that the zone has
changed since, or that nothing has been formatted yet.
-/
namespace MyNet.Base

open Lib Lib.FaultState

/-- The time a zone shows; without a zone it is UTC. -/
def LogEnv.localTime (env : LogEnv) (tz : TimeZone) (seconds : Int) : Tm :=
  if tz.valid then env.toLocalTime tz seconds else gmtime seconds

/-- The global zone and every thread's own `t_time` and `t_lastSecond`. -/
structure LogThreads (ι : Type) where
  g_logTimeZone : TimeZone
  times : ι → LogTime

inductive LogEvent (ι : Type) where
  | setTimeZone (tz : TimeZone)
  /-- `formatTime` for a record at `m_time`; its stream starts with an array of garbage. -/
  | record (t : ι) (m_time : Int) (garbage : Vector Byte kSmallBuffer)

namespace LogThreads

variable {ι : Type} [DecidableEq ι]

/-- No zone is set, and the thread-local variables are zero. -/
def start : LogThreads ι := ⟨⟨none⟩, fun _ => ⟨[], 0⟩⟩

def formatTime (env : LogEnv) (s : LogThreads ι) (t : ι) (m_time : Int)
    (garbage : Vector Byte kSmallBuffer) : EStateM.Result Fault LogBuffer LogTime :=
  Logger.formatTime { env with g_logTimeZone := s.g_logTimeZone } m_time (s.times t) (.new garbage)

/-- A failed assertion ends the run. -/
def step (env : LogEnv) (s : LogThreads ι) : LogEvent ι → Option (LogThreads ι)
  | .setTimeZone tz => some { s with g_logTimeZone := tz }
  | .record t m_time garbage =>
    match s.formatTime env t m_time garbage with
    | .ok time _ => some { s with times := Function.update s.times t time }
    | .error _ _ => none

variable (ι) in
def records (env : LogEnv) : Machine (LogThreads ι) (LogEvent ι) where
  init s := s = start
  step := step env

def seconds (m_time : Int) : Int := m_time.tdiv kMicroSecsPerSecond

/-- The record gets a text, and its first 17 bytes are those of its second in the zone. -/
def Shows (env : LogEnv) (s : LogThreads ι) (t : ι) (m_time : Int)
    (garbage : Vector Byte kSmallBuffer) : Prop :=
  ∃ time buf, s.formatTime env t m_time garbage = .ok time buf ∧
    buf.content.take 17 = timeText (env.localTime s.g_logTimeZone (seconds m_time))

end LogThreads

/-! ## What was logged before -/

/-- The zone set last, and for each thread the zone and the second of its last record. -/
structure LogHistory (ι : Type) where
  zone : TimeZone
  last : ι → Option (TimeZone × Int)

namespace LogHistory

variable {ι : Type} [DecidableEq ι]

def next (h : LogHistory ι) : LogEvent ι → LogHistory ι
  | .setTimeZone tz => { h with zone := tz }
  | .record t m_time _ =>
    { h with last := Function.update h.last t (some (h.zone, LogThreads.seconds m_time)) }

def of (events : List (LogEvent ι)) : LogHistory ι := events.foldl next ⟨⟨none⟩, fun _ => none⟩

theorem of_concat (events : List (LogEvent ι)) (e : LogEvent ι) :
    of (events ++ [e]) = (of events).next e := by
  rw [of, List.foldl_append]
  rfl

/-- The thread's text can serve for the second: it is another second than the text's, where
no text counts as second 0, or the zone showed the same time then. -/
def Reusable (env : LogEnv) (h : LogHistory ι) (t : ι) (seconds : Int) : Prop :=
  match h.last t with
  | none => seconds ≠ 0
  | some (zone, last) => last = seconds → env.localTime zone seconds = env.localTime h.zone seconds

/-- The time has 17 characters and the microseconds have 6, as is asserted, and the text the
thread may have is the right one. -/
structure Showable (env : LogEnv) (h : LogHistory ι) (t : ι) (m_time : Int) : Prop where
  fits : (env.localTime h.zone (LogThreads.seconds m_time)).Fits
  micros : -100000 < m_time.tmod kMicroSecsPerSecond
  reusable : h.Reusable env t (LogThreads.seconds m_time)

end LogHistory

/-! ## One record -/

theorem strlen_of_ne_zero {text : List Byte} (h : ∀ c ∈ text, c ≠ 0) :
    strlen text = text.length := by
  rw [strlen, List.takeWhile_eq_self_iff.mpr fun c hc => bne_iff_ne.mpr (h c hc)]

theorem assertThat_ok {p : Prop} [Decidable p] {s s' : LogBuffer} {u : Unit}
    (h : assertThat p s = .ok u s') : p ∧ s' = s := by
  rw [assertThat] at h
  split at h
  · next hp => exact ⟨hp, (EStateM.Result.ok.inj h).2.symm⟩
  · cases h

theorem assertThat_true {p : Prop} [Decidable p] (hp : p) (s : LogBuffer) :
    assertThat p s = .ok () s := by
  rw [assertThat, if_pos hp]
  rfl

theorem insertT_ok {str : List Byte} {len : Nat} {s : LogBuffer} (hs : s.Inside)
    (hstr : strlen str = len) (hroom : len ≤ s.avail) :
    ∃ s', insertT str len s = .ok () s' ∧ Appends (str.take len) s s' := by
  have hlen : (str.take len).length ≤ s.avail := Nat.le_trans (List.length_take_le _ _) hroom
  obtain ⟨s', happend, happends⟩ := append_ok hs hlen
  refine ⟨s', ?_, happends⟩
  simp only [insertT, bind_apply, assertThat_true hstr, LogStream.append, happend, pure_apply]

theorem insertT_requires {str : List Byte} {len : Nat} {s s' : LogBuffer} {u : Unit}
    (h : insertT str len s = .ok u s') : strlen str = len := by
  obtain ⟨_, _, hassert, -⟩ := bind_ok h
  exact (assertThat_ok hassert).1

/-- What both branches of `insertTime` do with their text for the microseconds. -/
def insertPieces (t_time text : List Byte) (n : Nat) : LogM Unit := do
  let us ← fmt text
  assertThat (us.length = n)
  insertT t_time 17
  insertT us n

theorem insertPieces_ok {t_time text : List Byte} {n : Nat} {s : LogBuffer} (hs : s.Inside)
    (hcur : s.m_cur = 0) (ht : strlen t_time = 17) (htext : ∀ c ∈ text, c ≠ 0)
    (hn : text.length = n) (hsmall : n ≤ 9) :
    ∃ s', insertPieces t_time text n s = .ok () s' ∧
      s'.content = t_time.take 17 ++ text.take n := by
  have hroom : s.avail = kSmallBuffer := by
    rw [hs.avail, hcur]
    rfl
  have hstart : s.content = [] := by
    rw [LogBuffer.content, hcur]
    rfl
  obtain ⟨s₁, h₁, happ₁⟩ := insertT_ok hs ht (by rw [hroom]; decide)
  have hcur₁ : s₁.m_cur ≤ 17 := by
    rw [happ₁.cur, hcur, Nat.zero_add]
    exact List.length_take_le _ _
  have hbuf : kSmallBuffer = 4000 := rfl
  obtain ⟨s₂, h₂, happ₂⟩ := insertT_ok happ₁.inside ((strlen_of_ne_zero htext).trans hn)
    (by rw [happ₁.inside.avail]; omega)
  refine ⟨s₂, ?_, ?_⟩
  · simp only [insertPieces, fmt, bind_apply, assertThat_true (show text.length < 32 by omega),
      pure_apply, assertThat_true hn, h₁, h₂]
  · rw [happ₂.content, happ₁.content, hstart, List.nil_append]

theorem insertPieces_requires {t_time text : List Byte} {n : Nat} {s s' : LogBuffer} {u : Unit}
    (h : insertPieces t_time text n s = .ok u s') : text.length = n ∧ strlen t_time = 17 := by
  obtain ⟨us, _, hfmt, h⟩ := bind_ok h
  obtain ⟨_, _, hlen, h⟩ := bind_ok h
  obtain ⟨_, _, htime, -⟩ := bind_ok h
  obtain ⟨_, _, -, hpure⟩ := bind_ok hfmt
  obtain rfl := (EStateM.Result.ok.inj hpure).1
  exact ⟨(assertThat_ok hlen).1, insertT_requires htime⟩

theorem length_sixWide {us : Int} (hus : us < kMicroSecsPerSecond) :
    (zeroPadded 6 us).length = 6 ↔ -100000 < us := by
  have hfits := length_decimal_le 4 us
  have hmicro : kMicroSecsPerSecond = 1000000 := by decide
  rw [length_zeroPadded]
  norm_num at hfits
  omega

theorem micros_ne_zero {us : Int} {tail : List Byte} (htail : ∀ c ∈ tail, c ≠ 0) {c : Byte}
    (h : c ∈ ascii "." ++ zeroPadded 6 us ++ tail) : c ≠ 0 := by
  rcases List.mem_append.mp h with h | h
  · rcases List.mem_append.mp h with h | h
    · rw [List.mem_singleton.mp h]
      decide
    · obtain ⟨k, hk⟩ := zeroPadded_signed 6 us
      rw [hk] at h
      exact (signed_plain h).1
  · exact htail c h

theorem space_ne_zero : ∀ c ∈ ascii " ", c ≠ 0 := by
  intro c hc
  rw [List.mem_singleton.mp hc]
  decide

theorem zulu_ne_zero : ∀ c ∈ ascii "Z ", c ≠ 0 := by
  intro c hc
  rcases List.mem_cons.mp hc with rfl | hc
  · decide
  · exact space_ne_zero c hc

/-- The two branches differ in the last characters and the length they assert. -/
theorem insertTime_pieces (env : LogEnv) (t_time : List Byte) {us : Int}
    (hus : us < kMicroSecsPerSecond) :
    ∃ text n, Logger.insertTime env t_time us = insertPieces t_time text n ∧ n ≤ 9 ∧
      (∀ c ∈ text, c ≠ 0) ∧ (text.length = n ↔ -100000 < us) := by
  have hsix := length_sixWide hus
  by_cases hvalid : env.g_logTimeZone.valid = true
  · refine ⟨ascii "." ++ zeroPadded 6 us ++ ascii " ", 8, ?_, by decide,
      fun c hc => micros_ne_zero space_ne_zero hc, ?_⟩
    · rw [Logger.insertTime, if_pos hvalid]
      rfl
    · have hmarks : (ascii ".").length = 1 ∧ (ascii " ").length = 1 := ⟨rfl, rfl⟩
      rw [List.length_append, List.length_append, hmarks.1, hmarks.2]
      omega
  · refine ⟨ascii "." ++ zeroPadded 6 us ++ ascii "Z ", 9, ?_, by decide,
      fun c hc => micros_ne_zero zulu_ne_zero hc, ?_⟩
    · rw [Logger.insertTime, if_neg hvalid]
      rfl
    · have hmarks : (ascii ".").length = 1 ∧ (ascii "Z ").length = 2 := ⟨rfl, rfl⟩
      rw [List.length_append, List.length_append, hmarks.1, hmarks.2]
      omega

theorem updateTime_same {env : LogEnv} {seconds : Int} {t : LogTime}
    (h : seconds = t.t_lastSecond) (s : LogBuffer) :
    Logger.updateTime env seconds t s = .ok t s := by
  rw [Logger.updateTime, if_neg (not_not.mpr h)]
  rfl

theorem updateTime_renews {env : LogEnv} {seconds : Int} {t : LogTime}
    (h : seconds ≠ t.t_lastSecond) (hfits : (env.localTime env.g_logTimeZone seconds).Fits)
    (s : LogBuffer) :
    Logger.updateTime env seconds t s =
      .ok ⟨timeText (env.localTime env.g_logTimeZone seconds), seconds⟩ s := by
  rw [Logger.updateTime, if_pos h]
  change (assertThat ((timeText (env.localTime env.g_logTimeZone seconds)).length = 17) >>= _) s = _
  rw [bind_apply, assertThat_true ((length_timeText _).mpr hfits)]
  rfl

theorem updateTime_keeps {env : LogEnv} {seconds : Int} {t t' : LogTime} {s s' : LogBuffer}
    (h : Logger.updateTime env seconds t s = .ok t' s') : s' = s := by
  rw [Logger.updateTime] at h
  split at h
  · obtain ⟨_, _, hassert, hpure⟩ := bind_ok h
    rw [← (EStateM.Result.ok.inj hpure).2]
    exact (assertThat_ok hassert).2
  · exact (EStateM.Result.ok.inj h).2.symm

theorem tmod_lt_micros (m_time : Int) :
    m_time.tmod kMicroSecsPerSecond < kMicroSecsPerSecond :=
  Int.tmod_lt_of_pos m_time (by decide)

/-- With a text of 17 characters to show, the record begins with it. -/
theorem formatTime_ok {env : LogEnv} {m_time : Int} {t time : LogTime} {s : LogBuffer}
    (hs : s.Inside) (hcur : s.m_cur = 0)
    (hup : Logger.updateTime env (LogThreads.seconds m_time) t s = .ok time s)
    (htext : strlen time.t_time = 17) (hus : -100000 < m_time.tmod kMicroSecsPerSecond) :
    ∃ buf, Logger.formatTime env m_time t s = .ok time buf ∧
      buf.content.take 17 = time.t_time.take 17 := by
  obtain ⟨text, n, heq, hsmall, hplain, hlen⟩ :=
    insertTime_pieces env time.t_time (tmod_lt_micros m_time)
  obtain ⟨buf, hbuf, hcontent⟩ := insertPieces_ok hs hcur htext hplain (hlen.mpr hus) hsmall
  have hlong : (time.t_time.take 17).length = 17 := by
    have hle : strlen time.t_time ≤ time.t_time.length := (List.takeWhile_prefix _).length_le
    rw [List.length_take]
    omega
  refine ⟨buf, ?_, ?_⟩
  · simp only [Logger.formatTime, bind_apply]
    simp only [LogThreads.seconds] at hup
    simp only [hup, heq, hbuf, pure_apply]
  · rw [hcontent, List.take_left' hlong]

theorem formatTime_requires {env : LogEnv} {m_time : Int} {t time : LogTime}
    {s buf : LogBuffer} (h : Logger.formatTime env m_time t s = .ok time buf) :
    Logger.updateTime env (LogThreads.seconds m_time) t s = .ok time s ∧
      strlen time.t_time = 17 ∧ -100000 < m_time.tmod kMicroSecsPerSecond := by
  obtain ⟨t', s', hup, h⟩ := bind_ok h
  obtain ⟨_, _, hinsert, hpure⟩ := bind_ok h
  obtain rfl := (EStateM.Result.ok.inj hpure).1
  obtain rfl := updateTime_keeps hup
  obtain ⟨text, n, heq, -, -, hlen⟩ := insertTime_pieces env t'.t_time (tmod_lt_micros m_time)
  rw [heq] at hinsert
  obtain ⟨hn, hstr⟩ := insertPieces_requires hinsert
  exact ⟨hup, hstr, hlen.mp hn⟩

/-! ## The cache and the history -/

namespace LogThreads

variable {ι : Type} [DecidableEq ι] {env : LogEnv} {s : LogThreads ι} {h : LogHistory ι}

/-- A thread's text is that of its last record; before the first it is empty. -/
def Cached (env : LogEnv) : Option (TimeZone × Int) → LogTime → Prop
  | none, time => time = ⟨[], 0⟩
  | some (zone, last), time =>
    (env.localTime zone last).Fits ∧ time = ⟨timeText (env.localTime zone last), last⟩

structure Keeps (env : LogEnv) (h : LogHistory ι) (s : LogThreads ι) : Prop where
  zone : s.g_logTimeZone = h.zone
  cached : ∀ t, Cached env (h.last t) (s.times t)

theorem strlen_timeText {tm : Tm} (hfits : tm.Fits) : strlen (timeText tm) = 17 := by
  rw [strlen_of_ne_zero fun _ => timeText_ne_zero]
  exact (length_timeText tm).mpr hfits

theorem take_timeText {tm : Tm} (hfits : tm.Fits) : (timeText tm).take 17 = timeText tm :=
  List.take_of_length_le (Nat.le_of_eq ((length_timeText tm).mpr hfits))

omit [DecidableEq ι] in
/-- When the record is showable, the text is that of its second, and stays for the next. -/
theorem formatTime_shows (hk : Keeps env h s) {t : ι} {m_time : Int}
    (hshow : h.Showable env t m_time) (garbage : Vector Byte kSmallBuffer) :
    ∃ time buf, s.formatTime env t m_time garbage = .ok time buf ∧
      Cached env (some (h.zone, seconds m_time)) time ∧
      buf.content.take 17 = timeText (env.localTime h.zone (seconds m_time)) := by
  have hfits := hshow.fits
  suffices hup : Logger.updateTime { env with g_logTimeZone := s.g_logTimeZone } (seconds m_time)
      (s.times t) (.new garbage) =
        .ok ⟨timeText (env.localTime h.zone (seconds m_time)), seconds m_time⟩ (.new garbage) by
    obtain ⟨buf, hok, htake⟩ := formatTime_ok (LogBuffer.new_inside garbage) rfl hup
      (strlen_timeText hfits) hshow.micros
    exact ⟨_, buf, hok, ⟨hfits, rfl⟩, htake.trans (take_timeText hfits)⟩
  have hcached := hk.cached t
  have hreuse := hshow.reusable
  by_cases hsame : seconds m_time = (s.times t).t_lastSecond
  · -- the thread's own text is used again, and the history says it is the same
    rw [updateTime_same hsame]
    suffices htimes : s.times t =
        ⟨timeText (env.localTime h.zone (seconds m_time)), seconds m_time⟩ by rw [htimes]
    unfold LogHistory.Reusable at hreuse
    cases hlast : h.last t with
    | none =>
      rw [hlast] at hcached hreuse
      rw [hcached] at hsame
      exact absurd hsame hreuse
    | some p =>
      obtain ⟨zone, last⟩ := p
      rw [hlast] at hcached hreuse
      obtain ⟨-, htime⟩ := hcached
      rw [htime] at hsame ⊢
      obtain rfl : seconds m_time = last := hsame
      rw [hreuse rfl]
  · rw [← hk.zone] at hfits ⊢
    exact updateTime_renews hsame hfits _

omit [DecidableEq ι] in
/-- A record that shows its time was showable. -/
theorem showable_of_shows (hk : Keeps env h s) {t : ι} {m_time : Int}
    {garbage : Vector Byte kSmallBuffer} (hs : Shows env s t m_time garbage) :
    h.Showable env t m_time := by
  obtain ⟨time, buf, hok, htake⟩ := hs
  rw [hk.zone] at htake
  obtain ⟨hup, hstr, hus⟩ := formatTime_requires hok
  obtain ⟨buf', hok', htake'⟩ := formatTime_ok (LogBuffer.new_inside garbage) rfl hup hstr hus
  obtain rfl : buf' = buf := (EStateM.Result.ok.inj (hok'.symm.trans hok)).2
  have htext : time.t_time.take 17 = timeText (env.localTime h.zone (seconds m_time)) :=
    htake'.symm.trans htake
  have hfits : (env.localTime h.zone (seconds m_time)).Fits := by
    have hle : strlen time.t_time ≤ time.t_time.length := (List.takeWhile_prefix _).length_le
    rw [← length_timeText, ← htext, List.length_take]
    omega
  refine ⟨hfits, hus, ?_⟩
  have hcached := hk.cached t
  unfold LogHistory.Reusable
  cases hlast : h.last t with
  | none =>
    intro hzero
    rw [hlast] at hcached
    rw [updateTime_same (by rw [hcached, hzero]), hcached] at hup
    obtain rfl := (EStateM.Result.ok.inj hup).1
    exact absurd hstr (by decide)
  | some p =>
    obtain ⟨zone, last⟩ := p
    intro hsame
    rw [hlast] at hcached
    obtain ⟨hold, htime⟩ := hcached
    rw [updateTime_same (by rw [htime, hsame]), htime] at hup
    obtain rfl := (EStateM.Result.ok.inj hup).1
    subst hsame
    rw [take_timeText hold] at htext
    exact timeText_inj hold hfits htext

/-! ## Runs -/

theorem keeps_start : Keeps env (LogHistory.of []) (start : LogThreads ι) :=
  ⟨rfl, fun _ => rfl⟩

theorem keeps_setTimeZone (hk : Keeps env h s) (tz : TimeZone) :
    Keeps env (h.next (.setTimeZone tz)) { s with g_logTimeZone := tz } :=
  ⟨rfl, hk.cached⟩

theorem keeps_record (hk : Keeps env h s) {t : ι} {m_time : Int} {time : LogTime}
    (garbage : Vector Byte kSmallBuffer) (hc : Cached env (some (h.zone, seconds m_time)) time) :
    Keeps env (h.next (.record t m_time garbage))
      { s with times := Function.update s.times t time } where
  zone := hk.zone
  cached u := by
    change Cached env (Function.update h.last t _ u) (Function.update s.times t time u)
    by_cases hu : u = t
    · subst u
      rw [Function.update_self, Function.update_self]
      exact hc
    · rw [Function.update_of_ne hu, Function.update_of_ne hu]
      exact hk.cached u

/-- Every record of the run is showable after what came before it. -/
def AllShowable (env : LogEnv) (events : List (LogEvent ι)) : Prop :=
  ∀ es t m_time garbage, es ++ [.record t m_time garbage] <+: events →
    (LogHistory.of es).Showable env t m_time

theorem AllShowable.front {es fs : List (LogEvent ι)} (ha : AllShowable env fs) (hp : es <+: fs) :
    AllShowable env es :=
  fun gs t m_time garbage hg => ha gs t m_time garbage (hg.trans hp)

/-- A run of showable records goes through, and every thread's text is that of its last one. -/
theorem run_keeps (events : List (LogEvent ι)) (ha : AllShowable env events) :
    ∃ s, (records ι env).run start events = some s ∧ Keeps env (LogHistory.of events) s := by
  induction events using List.reverseRecOn with
  | nil => exact ⟨start, rfl, keeps_start⟩
  | append_singleton events e ih =>
    obtain ⟨s, hrun, hk⟩ := ih (ha.front (List.prefix_append _ _))
    rw [LogHistory.of_concat]
    cases e with
    | setTimeZone tz =>
      exact ⟨_, Machine.runIf_concat.mpr ⟨s, hrun, trivial, rfl⟩, keeps_setTimeZone hk tz⟩
    | record t m_time garbage =>
      obtain ⟨time, buf, hok, hc, -⟩ :=
        formatTime_shows hk (ha events t m_time garbage (List.prefix_refl _)) garbage
      refine ⟨{ s with times := Function.update s.times t time },
        Machine.runIf_concat.mpr ⟨s, hrun, trivial, ?_⟩, keeps_record hk garbage hc⟩
      simp only [records, step, hok]

/-- Every record of the run begins with the time of its second in the zone in force. -/
def AllShow (env : LogEnv) (events : List (LogEvent ι)) : Prop :=
  ∀ es t m_time garbage, es ++ [.record t m_time garbage] <+: events →
    ∃ s, (records ι env).run start es = some s ∧ Shows env s t m_time garbage

theorem allShowable_of_allShow {events : List (LogEvent ι)} (h : AllShow env events)
    (es : List (LogEvent ι)) (hp : es <+: events) : AllShowable env es := by
  induction es using List.reverseRecOn with
  | nil =>
    intro fs t m_time garbage hf
    exact absurd (List.prefix_nil.mp hf) (List.append_ne_nil_of_right_ne_nil fs nofun)
  | append_singleton es e ih =>
    have hfront := ih ((List.prefix_append _ _).trans hp)
    intro fs t m_time garbage hf
    rcases List.prefix_concat_iff.mp hf with heq | hbefore
    · obtain ⟨rfl, hlast⟩ := List.append_inj' heq rfl
      obtain ⟨s, hrun, hk⟩ := run_keeps fs hfront
      obtain ⟨s', hrun', hshows⟩ := h fs t m_time garbage (hf.trans hp)
      obtain rfl : s = s' := Option.some.inj (hrun.symm.trans hrun')
      exact showable_of_shows hk hshows
    · exact hfront fs t m_time garbage hbefore

/-- **When the cached text is right.** In a run of records and zone changes every record
begins with the date and time of its second in the zone then in force, exactly when each
record is showable after what came before it. -/
theorem records_show_iff (env : LogEnv) (events : List (LogEvent ι)) :
    AllShow env events ↔ AllShowable env events := by
  constructor
  · intro h
    exact allShowable_of_allShow h events (List.prefix_refl _)
  · intro h es t m_time garbage hp
    obtain ⟨s, hrun, hk⟩ := run_keeps es (h.front ((List.prefix_append _ _).trans hp))
    obtain ⟨time, buf, hok, -, htake⟩ :=
      formatTime_shows hk (h es t m_time garbage hp) garbage
    refine ⟨s, hrun, time, buf, hok, ?_⟩
    rw [hk.zone]
    exact htake

/-- A zone eight hours east of Greenwich. -/
def eastZone : TimeZone := ⟨some ⟨[], [⟨28800, false, 0⟩], []⟩⟩

theorem no_text_short : ∀ _ : Float, ([] : List Byte).length < kMaxNumericSize :=
  fun _ => by decide

def eastEnv : LogEnv :=
  ⟨⟨fun _ => [], no_text_short⟩, ⟨none⟩, fun _ seconds => gmtime (seconds + 28800),
    fun _ => [], 4711⟩

def zeros : Vector Byte kSmallBuffer := Vector.replicate kSmallBuffer 0

/-- The zone is set between two records of one second. -/
def sameSecond : List (LogEvent Unit) :=
  [.record () 1425302400100000 zeros, .setTimeZone eastZone]

/-- The second record still shows the hour of Greenwich. -/
theorem records_show_same_second :
    ¬ AllShow eastEnv (sameSecond ++ [.record () 1425302400200000 zeros]) := by
  intro h
  have hshowable := allShowable_of_allShow h _ (List.prefix_refl _) sameSecond () 1425302400200000
    zeros (List.prefix_refl _)
  exact absurd (hshowable.reusable (by decide)) (by decide)

end LogThreads
end MyNet.Base
