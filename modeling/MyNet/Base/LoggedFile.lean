import MyNet.Base.LogFileOrder
import MyNet.Base.LogPipelineFiles
import MyNet.Base.RecordText
import MyNet.Base.Timestamp

/-!
# Records in log files

`g_output` appends to a thread-safe `LogFile` and `g_flush` flushes it, as the test of `LogFile`
sets them. The threads keep their time texts, the file is shared. Stdio writes out what it has
accepted when it likes, but all of it when the file is flushed or closed, and `abort` writes
nothing out. A fatal record ends the process, but `g_output`, `g_flush` and `abort` are three
steps, between which the other threads may log.
-/
namespace MyNet.Base

open Lib LogFile
open LogStream (Call)

/-- A statement that logs: what its `Logger` is constructed from and what is inserted. -/
structure LoggedRecord (ι : Type) where
  thread : ι
  m_time : Timestamp
  m_level : LogLevel
  savedErrno : Int32
  m_basename : SourceFile
  m_line : Int32
  calls : List Call
  garbage : Vector Byte kSmallBuffer
  i : AppendInput
  /-- What stdio writes out of the file in the append, if it has to write nothing. -/
  pushed : Nat

def LoggedRecord.logger {ι : Type} (r : LoggedRecord ι) : Logger :=
  ⟨r.m_time.micros, r.m_level, r.savedErrno, r.m_basename, r.m_line⟩

/-- Where a thread is in the destructor of the `Logger` of a fatal record. -/
inductive FatalPc where
  /-- In none. -/
  | running
  /-- Before `g_flush()`. -/
  | flushing
  /-- Before `abort()`; so many records were logged when `g_flush()` returned. -/
  | aborting (n : Nat)
  deriving DecidableEq

structure LoggedFile (ι : Type) where
  times : ι → LogTime
  g_logfile : LogFileRun
  /-- How much of the current file is written out. -/
  synced : Nat
  /-- An append has opened the current file and not yet closed the one before it, of which so
  much is written out. -/
  closing : Option Nat
  /-- A thread waits in `append` for the mutex it has. -/
  blocked : Bool
  pcs : ι → FatalPc
  /-- The thread that has called `abort()`. -/
  aborted : Option ι
  /-- The records that were logged. -/
  records : List (LoggedRecord ι)

inductive LoggedMove (ι : Type) where
  /-- A statement, up to the return of `g_output` or, where the append rolls, up to the call of
  `fclose`. -/
  | record (r : LoggedRecord ι)
  /-- The file that an append has replaced is closed. -/
  | close
  | flush (t : ι)
  | abort (t : ι)

/-- What all threads log with, and their ids. No time zone is set. -/
structure LogSetup (ι : Type) where
  env : LogEnv
  tid : ι → Int32
  host : Host
  config : Config

namespace LoggedFile

variable {ι : Type} [DecidableEq ι]

def logEnv (e : LogSetup ι) (t : ι) : LogEnv :=
  { e.env with g_logTimeZone := ⟨none⟩, tid := e.tid t }

def start (e : LogSetup ι) (g : Garbage) (i : RollInput) : LoggedFile ι where
  times _ := ⟨[], 0⟩
  g_logfile := LogFileRun.start e.host true e.config g true i
  synced := 0
  closing := none
  blocked := false
  pcs _ := .running
  aborted := none
  records := []

/-- What a record prints as it stands. -/
def text (e : LogSetup ι) (s : LoggedFile ι) (r : LoggedRecord ι) : Option (LogTime × List Byte) :=
  r.logger.text (logEnv e r.thread) (s.times r.thread) r.calls r.garbage

/-- Where the threads are when `g_output` has returned, if it has: a fatal record goes on. -/
def returned (s : LoggedFile ι) (r : LoggedRecord ι) (due : Bool) : ι → FatalPc :=
  if !due && r.m_level = .fatal then Function.update s.pcs r.thread .flushing else s.pcs

/-- `g_output` with the bytes of a record. -/
def output (e : LogSetup ι) (s : LoggedFile ι) (r : LoggedRecord ι) (time : LogTime)
    (msg : List Byte) : Option (LoggedFile ι) :=
  (s.g_logfile.step e.host (.append msg r.i)).map fun g_logfile =>
    let due := s.g_logfile.file.flushDue msg.length r.i.now
    let rolled : Bool := g_logfile.retired.length ≠ s.g_logfile.retired.length
    let size := g_logfile.file.m_scpFile.accepted.length
    { s with
      times := Function.update s.times r.thread time
      g_logfile := g_logfile
      synced := if rolled then 0 else max s.synced (min r.pushed size)
      closing := if rolled then some (max s.synced r.pushed) else none
      blocked := due
      pcs := s.returned r due
      records := s.records ++ [r] }

/-- When `g_flush` has returned in this thread. -/
def flushed (s : LoggedFile ι) (t : ι) (g_logfile : LogFileRun) : LoggedFile ι :=
  { s with
    g_logfile := g_logfile
    synced := g_logfile.file.m_scpFile.accepted.length
    pcs := Function.update s.pcs t (.aborting s.records.length) }

def step (e : LogSetup ι) (s : LoggedFile ι) (m : LoggedMove ι) : Option (LoggedFile ι) :=
  if s.aborted.isSome then none
  else match m with
  | .record r =>
    if s.blocked || s.closing.isSome || s.pcs r.thread ≠ .running then none
    else (s.text e r).bind fun p => s.output e r p.1 p.2
  | .close => if s.closing.isSome then some { s with closing := none } else none
  | .flush t =>
    if s.blocked || s.closing.isSome || s.pcs t ≠ .flushing then none
    else (s.g_logfile.step e.host .flush).map (s.flushed t)
  | .abort t =>
    match s.pcs t with
    | .aborting _ => some { s with aborted := some t }
    | _ => none

/-- What the files that were replaced hold on disk. -/
def closed (s : LoggedFile ι) : List (List Byte) :=
  match s.closing with
  | none => s.g_logfile.retired.map (·.accepted)
  | some n =>
    s.g_logfile.retired.dropLast.map (·.accepted) ++
      (s.g_logfile.retired.getLast?.map (·.accepted.take n)).toList

/-- What the files hold if the process ends now. -/
def onDisk (s : LoggedFile ι) : List (List Byte) :=
  s.closed ++ [s.g_logfile.file.m_scpFile.accepted.take s.synced]

/-- The clock is in the years up to 9999, stdio takes every record whole and every file can be
opened. -/
def KeptRecord (e : LogSetup ι) (s : LoggedFile ι) (r : LoggedRecord ι) : Prop :=
  (1000000 ≤ r.m_time.micros ∧ r.m_time.micros < 253402300800000000) ∧
    Years r.i.roll.now ∧ r.i.roll.opened = true ∧
    (s.text e r).elim True fun p => WriteFile.writeLoop r.i.writes p.2 = some p.2

instance (e : LogSetup ι) (s : LoggedFile ι) (r : LoggedRecord ι) : Decidable (KeptRecord e s r) :=
  match h : s.text e r with
  | none =>
    decidable_of_iff ((1000000 ≤ r.m_time.micros ∧ r.m_time.micros < 253402300800000000) ∧
      Years r.i.roll.now ∧ r.i.roll.opened = true) (by simp [KeptRecord, h])
  | some p =>
    decidable_of_iff ((1000000 ≤ r.m_time.micros ∧ r.m_time.micros < 253402300800000000) ∧
      Years r.i.roll.now ∧ r.i.roll.opened = true ∧
      WriteFile.writeLoop r.i.writes p.2 = some p.2) (by simp [KeptRecord, h])

def Kept (e : LogSetup ι) (s : LoggedFile ι) : LoggedMove ι → Prop
  | .record r => KeptRecord e s r
  | .close | .flush _ | .abort _ => True

instance (e : LogSetup ι) (s : LoggedFile ι) : (m : LoggedMove ι) → Decidable (Kept e s m)
  | .record r => inferInstanceAs (Decidable (KeptRecord e s r))
  | .close | .flush _ | .abort _ => inferInstanceAs (Decidable True)

/-- What a step does: its guard and its result. -/
inductive Turn (e : LogSetup ι) (s : LoggedFile ι) : LoggedMove ι → LoggedFile ι → Prop
  | record {r : LoggedRecord ι} {time : LogTime} {msg : List Byte} {t : LoggedFile ι}
      (hc : s.closing = none) (hp : s.pcs r.thread = .running)
      (htext : s.text e r = some (time, msg)) (ht : s.output e r time msg = some t) :
      Turn e s (.record r) t
  | close (hc : s.closing.isSome = true) : Turn e s .close { s with closing := none }
  | flush {t : ι} (hc : s.closing = none) (hp : s.pcs t = .flushing) :
      Turn e s (.flush t) (s.flushed t s.g_logfile)
  | abort {t : ι} {n : Nat} (hp : s.pcs t = .aborting n) :
      Turn e s (.abort t) { s with aborted := some t }

theorem step_turn {e : LogSetup ι} {s t : LoggedFile ι} {m : LoggedMove ι}
    (h : s.step e m = some t) : s.aborted = none ∧ Turn e s m t := by
  unfold step at h
  split at h
  · cases h
  · next ha =>
    refine ⟨Option.not_isSome_iff_eq_none.mp ha, ?_⟩
    cases m with
    | record r =>
      simp only at h
      split at h
      · cases h
      · next hg =>
        simp only [ne_eq, Bool.or_eq_true, decide_eq_true_eq, not_or, Decidable.not_not] at hg
        obtain ⟨⟨time, msg⟩, htext, ht⟩ := Option.bind_eq_some_iff.mp h
        exact .record (Option.not_isSome_iff_eq_none.mp hg.1.2) hg.2 htext ht
    | close =>
      simp only at h
      split at h
      · next hc => obtain rfl := Option.some.inj h; exact .close hc
      · cases h
    | flush t =>
      simp only at h
      split at h
      · cases h
      · next hg =>
        simp only [ne_eq, Bool.or_eq_true, decide_eq_true_eq, not_or, Decidable.not_not] at hg
        obtain ⟨g_logfile, hstep, rfl⟩ := Option.map_eq_some_iff.mp h
        obtain rfl := Option.some.inj hstep
        exact .flush (Option.not_isSome_iff_eq_none.mp hg.1.2) hg.2
    | abort t =>
      simp only at h
      split at h
      · next hp => obtain rfl := Option.some.inj h; exact .abort hp
      · cases h

/-! ## What holds in every run -/

/-- What a record printed: behind the time text of its thread and its own text. -/
def Prints (e : LogSetup ι) (r : LoggedRecord ι) (msg : List Byte) : Prop :=
  ∃ t time, r.logger.text (logEnv e r.thread) t r.calls r.garbage = some (time, msg) ∧
    r.logger.Printed (logEnv e r.thread) t r.calls r.garbage
      (r.m_time.toFormatedString ++ ascii "Z ") msg

/-- The time texts are those of a history of records in UTC. -/
def Cached (e : LogSetup ι) (s : LoggedFile ι) : Prop :=
  ∃ events : List (LogEvent ι), LogThreads.Greenwich events ∧
    LogThreads.Keeps e.env (LogHistory.of events) ⟨⟨none⟩, s.times⟩

/-- The thread has logged a fatal record, which is one of the first `n`. -/
def FatalIn (s : LoggedFile ι) (t : ι) (n : Nat) : Prop :=
  ∃ r ∈ s.records.take n, r.thread = t ∧ r.m_level = .fatal

/-- Its records up to the return of `g_flush` are on disk, where a thread is about to abort. -/
def Flushed (s : LoggedFile ι) (t : ι) : FatalPc → Prop
  | .running => True
  | .flushing => s.FatalIn t s.records.length
  | .aborting n =>
    s.FatalIn t n ∧ n ≤ s.records.length ∧
      ((s.g_logfile.lines.map (·.2)).take n).flatten <+: s.onDisk.flatten

variable {e : LogSetup ι} {s t : LoggedFile ι} {r : LoggedRecord ι}

omit [DecidableEq ι] in
theorem safe_formatTime (env : LogEnv) (m_time : Int) (t : LogTime) :
    Safe (Logger.formatTime env m_time t) := by
  apply Safe.bind (safe_updateTime env _ t)
  intro t
  exact Safe.bind (safe_insertTime env t.t_time _) fun _ => Safe.pure t

/-- A record at a time that has a text is printed, behind that text. -/
theorem Cached.text (h : s.Cached e) (hlow : 1000000 ≤ r.m_time.micros)
    (hup : r.m_time.micros < 253402300800000000) :
    ∃ time msg, s.text e r = some (time, msg) ∧ Prints e r msg ∧
      ∀ u : LoggedFile ι, u.times = Function.update s.times r.thread time → u.Cached e := by
  obtain ⟨events, hgreen, hkeeps⟩ := h
  have hgreen' : LogThreads.Greenwich (events ++ [.record r.thread r.m_time.micros r.garbage]) := by
    intro e he
    rcases List.mem_append.mp he with hold | hnew
    · exact hgreen e hold
    · obtain rfl := List.mem_singleton.mp hnew
      exact ⟨hlow, hup⟩
  obtain ⟨time, buf, hok, hcontent, hkeeps'⟩ := LogThreads.formatTime_front hgreen' hkeeps
  have htime : Logger.formatTime (logEnv e r.thread) r.logger.m_time (s.times r.thread)
      (.new r.garbage) = .ok time buf := hok
  have hinside : buf.Inside := by
    rcases safe_formatTime (logEnv e r.thread) r.logger.m_time (s.times r.thread) _
      (LogBuffer.new_inside r.garbage) with ⟨time', buf', hok', hins⟩ | ⟨buf', herror⟩
    · obtain rfl := (EStateM.Result.ok.inj (htime.symm.trans hok')).2
      exact hins
    · rw [htime] at herror
      cases herror
  have hlength := (Timestamp.toFormatedString_whole (t := r.m_time) ⟨by omega, hup⟩).2
  have hshort : buf.content.length ≤ 100 := by
    rw [hcontent, List.length_append, hlength]
    decide
  obtain ⟨msg, hmsg, hprinted⟩ := Logger.text_printed htime hinside hshort r.calls
  rw [hcontent] at hprinted
  refine ⟨time, msg, hmsg, ⟨_, _, hmsg, hprinted⟩, fun u hu => ⟨_, hgreen', ?_⟩⟩
  rw [hu]
  exact hkeeps'

omit [DecidableEq ι] in
theorem FatalIn.grow {u : LoggedFile ι} {t : ι} {m n : Nat} (h : s.FatalIn t m)
    (hr : s.records <+: u.records) (hmn : m ≤ n) : u.FatalIn t n := by
  obtain ⟨r, hmem, hthread, hfatal⟩ := h
  have htake := (hr.take m).trans (List.take_prefix_take_left hmn)
  exact ⟨r, htake.subset hmem, hthread, hfatal⟩

omit [DecidableEq ι] in
/-- What is logged and written out later takes nothing from what was flushed. -/
theorem Flushed.grow {u : LoggedFile ι} {t : ι} {p : FatalPc} (h : s.Flushed t p)
    (hlines : (s.g_logfile.lines.map (·.2)).length = s.records.length)
    (hr : s.records <+: u.records)
    (hl : s.g_logfile.lines.map (·.2) <+: u.g_logfile.lines.map (·.2))
    (hd : s.onDisk.flatten <+: u.onDisk.flatten) : u.Flushed t p := by
  cases p with
  | running => trivial
  | flushing => exact FatalIn.grow h hr hr.length_le
  | aborting n =>
    obtain ⟨hfatal, hn, hdisk⟩ := h
    refine ⟨hfatal.grow hr le_rfl, hn.trans hr.length_le, ?_⟩
    obtain ⟨more, hmore⟩ := hl
    rw [← hmore, List.take_append_of_le_length (hlines ▸ hn)]
    exact hdisk.trans hd

/-- A record of 52 bytes, of which stdio writes out 10 when it need not write anything. -/
def record (thread : Bool) (m_level : LogLevel) (now : Int) : LoggedRecord Bool where
  thread := thread
  m_time := ⟨1425302400100000⟩
  m_level := m_level
  savedErrno := 0
  m_basename := ⟨ascii "main.cc"⟩
  m_line := 42
  calls := [.insert (.string (ascii "up"))]
  garbage := LogThreads.zeros
  i := ⟨[⟨52, false⟩], now, ⟨now, true⟩⟩
  pushed := 10

end LoggedFile
end MyNet.Base
