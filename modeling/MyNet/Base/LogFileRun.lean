import MyNet.Base.LogFile
import MyNet.Lib.Machine

/-!
# Runs of a `LogFile`

One call after the other on a `LogFile`, from its constructor on. Beside the object the state
keeps what a run has done: the files that were closed, the times of the rolls, and which file
every line was meant for. That an `append` of a thread-safe `LogFile` which goes the way to
`flush()` does not return is left out here; runs that go on after it are covered too.
-/
namespace MyNet.Base

open Lib LogFile

namespace LogFile

/-! ## The branches of `append_unlocked` -/

inductive Branch where
  /-- The file has its size; `rollFile()`. -/
  | full
  /-- The check finds another period; `rollFile()`. -/
  | period
  /-- The check finds the flush interval over. -/
  | flush
  | checked
  | counted
  deriving DecidableEq

/-- The branch taken once the line is written. -/
def branch (now : Int) (f : LogFile) : Branch :=
  if f.m_rollSize ≤ f.m_scpFile.m_nBytesWritten then .full
  else if f.m_checkEveryN ≤ incInt f.m_appendCount then
    if periodStart now ≠ f.m_startPeriod then .period
    else if f.m_flushInterval ≤ now - f.m_lastFlush then .flush
    else .checked
  else .counted

/-- The branches with the check of the period and the flush interval. -/
def Branch.checks : Branch → Bool
  | .period | .flush | .checked => true
  | .full | .counted => false

def Branch.rolls : Branch → Bool
  | .full | .period => true
  | .flush | .checked | .counted => false

theorem rollOrFlush_branch (host : Host) (i : AppendInput) (f : LogFile) :
    (rollOrFlush host i f).1 = match f.branch i.now with
      | .full => (rollFile host i.roll f).2
      | .period => (rollFile host i.roll { f with m_appendCount := 0 }).2
      | .flush => { f with m_appendCount := 0, m_lastFlush := i.now }
      | .checked => { f with m_appendCount := 0 }
      | .counted => { f with m_appendCount := incInt f.m_appendCount } := by
  unfold rollOrFlush branch
  split
  · rfl
  · split
    · simp only
      split
      · rfl
      · split <;> rfl
    · rfl

end LogFile

/-! ## Runs -/

inductive LogFileEvent where
  | append (line : List Byte) (i : AppendInput)
  | flush
  | rollFile (i : RollInput)

structure LogFileRun where
  file : LogFile
  /-- The files that a roll has replaced, the oldest first. -/
  retired : List WriteFile
  /-- When `rollFile` returned true. -/
  rolls : List Int
  /-- Every appended line, with the number of the file that was current when `append` was
  entered. -/
  lines : List (Nat × List Byte)
  /-- The latest reading of the clock. -/
  clock : Int
  /-- The appends since the last check or new file. -/
  unchecked : Nat
  /-- Those since the last check that did not call `rollFile`. -/
  counted : Nat
  /-- Whether an append found its file full and the clock still at the last roll. -/
  stalled : Bool

namespace LogFileRun

/-- All files, in the order they were opened. -/
def files (s : LogFileRun) : List WriteFile := s.retired ++ [s.file.m_scpFile]

/-- The lines meant for the file of this number. -/
def linesOf (s : LogFileRun) (k : Nat) : List (List Byte) :=
  (s.lines.filter (·.1 = k)).map (·.2)

/-- The object before the constructor calls `rollFile`. -/
def unrolled (threadsafe : Bool) (c : Config) (g : Garbage) (opened : Bool) : LogFile :=
  { m_mutexLock := threadsafe
    m_scpFile := .new c.basename opened
    m_startPeriod := g.m_startPeriod
    m_lastFlush := g.m_lastFlush
    m_lastRoll := g.m_lastRoll
    m_appendCount := g.m_appendCount
    m_rollSize := c.rollsize
    m_basename := c.basename
    m_flushInterval := c.flushInterval
    m_checkEveryN := c.checkEveryN }

/-- A call of `rollFile`; `f` is the object it is called on. -/
def roll (host : Host) (i : RollInput) (f : LogFile) (s : LogFileRun) : LogFileRun :=
  let opens := (rollFile host i f).1
  { s with
    file := (rollFile host i f).2
    retired := if opens then s.retired ++ [f.m_scpFile] else s.retired
    rolls := if opens then s.rolls ++ [i.now] else s.rolls
    clock := i.now
    unchecked := if opens then 0 else s.unchecked }

/-- The constructor. -/
def start (host : Host) (threadsafe : Bool) (c : Config) (g : Garbage) (opened : Bool)
    (i : RollInput) : LogFileRun :=
  roll host i (unrolled threadsafe c g opened)
    ⟨unrolled threadsafe c g opened, [], [], [], i.now, 0, 0, false⟩

/-- What `append_unlocked` does once the line is written to the file of `f`. -/
def written (host : Host) (i : AppendInput) (f : LogFile) (s : LogFileRun) : LogFileRun :=
  match f.branch i.now with
  | .full =>
    let u := roll host i.roll f { s with unchecked := s.unchecked + 1 }
    { u with stalled := s.stalled || !(rollFile host i.roll f).1 }
  | .period =>
    roll host i.roll { f with m_appendCount := 0 } { s with unchecked := 0, counted := 0 }
  | .flush =>
    { s with
      file := { f with m_appendCount := 0, m_lastFlush := i.now }
      clock := i.now
      unchecked := 0
      counted := 0 }
  | .checked =>
    { s with
      file := { f with m_appendCount := 0 }
      clock := i.now
      unchecked := 0
      counted := 0 }
  | .counted =>
    { s with
      file := { f with m_appendCount := incInt f.m_appendCount }
      unchecked := s.unchecked + 1
      counted := s.counted + 1 }

def step (host : Host) (s : LogFileRun) : LogFileEvent → Option LogFileRun
  | .append line i =>
    (s.file.m_scpFile.writeLine i.writes line).map fun w =>
      written host i { s.file with m_scpFile := w.2 }
        { s with lines := s.lines ++ [(s.retired.length, line)] }
  | .flush => some s
  | .rollFile i => some (roll host i s.file s)

def calls (host : Host) (threadsafe : Bool) (c : Config) (g : Garbage) :
    Machine LogFileRun LogFileEvent where
  init s := ∃ opened i, s = start host threadsafe c g opened i
  step := step host

/-! ## The object in a run is the object of the code -/

theorem start_file (host : Host) (threadsafe : Bool) (c : Config) (g : Garbage) (opened : Bool)
    (i : RollInput) : (start host threadsafe c g opened i).file = .new host threadsafe c g opened i :=
  rfl

theorem written_file (host : Host) (i : AppendInput) (f : LogFile) (s : LogFileRun) :
    (written host i f s).file = (rollOrFlush host i f).1 := by
  rw [rollOrFlush_branch, written]
  cases f.branch i.now <;> rfl

theorem step_append_file (host : Host) (s : LogFileRun) (line : List Byte) (i : AppendInput) :
    (s.step host (.append line i)).map file =
      (append_unlocked host i line s.file).map Prod.fst := by
  simp only [step, append_unlocked, Option.map_map]
  congr 1
  exact funext fun w => written_file host i _ _

end LogFileRun
end MyNet.Base
