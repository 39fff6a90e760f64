import MyNet.Base.Gmtime
import MyNet.Base.WriteFile

/-!
# `LogFile`

A log that rolls over to a new file when the current one is large enough or, checked
every `m_checkEveryN` appends, when a new day has begun. The readings of the clock, the
results of `fwrite_unlocked` and whether a file could be opened are inputs of the
operations, as are the values of the members that the constructor leaves uninitialised.
-/
namespace MyNet.Base

/-- `ProcInfo::hostname()` and `ProcInfo::pid()`. -/
structure Host where
  hostname : List Byte
  pid : Int

structure LogFile where
  /-- Whether there is a `m_mutexLock`. -/
  m_mutexLock : Bool
  m_scpFile : WriteFile
  m_startPeriod : Int
  m_lastFlush : Int
  m_lastRoll : Int
  m_appendCount : Int
  m_rollSize : Nat
  m_basename : List Byte
  m_flushInterval : Int
  m_checkEveryN : Int

namespace LogFile

def m_rollPeriod : Int := 24 * 60 * 60

/-- What a caller passes to the constructor. -/
structure Config where
  rollsize : Nat
  basename : List Byte
  flushInterval : Int := 3
  checkEveryN : Int := 1024

/-- The members without an initialiser. -/
structure Garbage where
  m_startPeriod : Int
  m_lastFlush : Int
  m_lastRoll : Int
  m_appendCount : Int

/-- What a call of `rollFile` learns from outside. -/
structure RollInput where
  now : Int
  opened : Bool

/-- What a call of `append_unlocked` learns from outside. -/
structure AppendInput where
  writes : List FwriteResult
  now : Int
  roll : RollInput

def getLogFileName (host : Host) (basename : List Byte) (now : Int) : List Byte :=
  basename ++ strftime (gmtime now) ++ host.hostname ++ ascii "." ++ ascii (toString host.pid) ++
    ascii ".log"

/-- The start of the period `now` is in; division rounds towards zero. -/
def periodStart (now : Int) : Int := now.tdiv m_rollPeriod * m_rollPeriod

def rollFile (host : Host) (i : RollInput) (f : LogFile) : Bool × LogFile :=
  let filename := getLogFileName host f.m_basename i.now
  let start := periodStart i.now
  if f.m_lastRoll < i.now then
    (true,
      { f with
        m_lastRoll := i.now
        m_lastFlush := i.now
        m_startPeriod := start
        m_scpFile := .new filename i.opened })
  else (false, f)

/-- The constructor; `opened` is for the file named `basename`. -/
def new (host : Host) (threadsafe : Bool) (c : Config) (g : Garbage) (opened : Bool)
    (i : RollInput) : LogFile :=
  (rollFile host i
    { m_mutexLock := threadsafe
      m_scpFile := .new c.basename opened
      m_startPeriod := g.m_startPeriod
      m_lastFlush := g.m_lastFlush
      m_lastRoll := g.m_lastRoll
      m_appendCount := g.m_appendCount
      m_rollSize := c.rollsize
      m_basename := c.basename
      m_flushInterval := c.flushInterval
      m_checkEveryN := c.checkEveryN }).2

/-- `append_unlocked` once the line is written, up to its end or to its call of `flush()`,
which the flag says. -/
def rollOrFlush (host : Host) (i : AppendInput) (f : LogFile) : LogFile × Bool :=
  if f.m_rollSize ≤ f.m_scpFile.m_nBytesWritten then ((rollFile host i.roll f).2, false)
  else if f.m_checkEveryN ≤ incInt f.m_appendCount then
    let f := { f with m_appendCount := 0 }
    let thisPeriod := periodStart i.now
    if thisPeriod ≠ f.m_startPeriod then ((rollFile host i.roll f).2, false)
    else if f.m_flushInterval ≤ i.now - f.m_lastFlush then
      ({ f with m_lastFlush := i.now }, true)
    else (f, false)
  else ({ f with m_appendCount := incInt f.m_appendCount }, false)

def append_unlocked (host : Host) (i : AppendInput) (line : List Byte) (f : LogFile) :
    Option (LogFile × Bool) :=
  (f.m_scpFile.writeLine i.writes line).map fun w =>
    rollOrFlush host i { f with m_scpFile := w.2 }

/-- An append of `n` bytes with the clock at `now` goes the way to `flush()`. -/
def flushDue (f : LogFile) (n : Nat) (now : Int) : Bool :=
  f.m_scpFile.writenAfter n < f.m_rollSize ∧ f.m_checkEveryN ≤ incInt f.m_appendCount ∧
    periodStart now = f.m_startPeriod ∧ f.m_flushInterval ≤ now - f.m_lastFlush

theorem rollOrFlush_flushes (host : Host) (i : AppendInput) (f : LogFile) :
    (rollOrFlush host i f).2 = true ↔
      f.m_scpFile.m_nBytesWritten < f.m_rollSize ∧ f.m_checkEveryN ≤ incInt f.m_appendCount ∧
        periodStart i.now = f.m_startPeriod ∧ f.m_flushInterval ≤ i.now - f.m_lastFlush := by
  unfold rollOrFlush
  split
  · next hs => exact iff_of_false nofun fun h => absurd h.1 (Nat.not_lt.mpr hs)
  · next hs =>
    split
    · next hc =>
      simp only
      split
      · next hp => exact iff_of_false nofun fun h => hp h.2.2.1
      · next hp =>
        split
        · next hf => exact iff_of_true rfl ⟨Nat.lt_of_not_le hs, hc, Decidable.not_not.mp hp, hf⟩
        · next hf => exact iff_of_false nofun fun h => hf h.2.2.2
    · next hc => exact iff_of_false nofun fun h => hc h.2.1

theorem append_unlocked_flushes {host : Host} {i : AppendInput} {line : List Byte}
    {f f' : LogFile} {flushes : Bool} (h : append_unlocked host i line f = some (f', flushes)) :
    flushes = true ↔ f.flushDue line.length i.now = true := by
  obtain ⟨⟨n, file⟩, hw, he⟩ := Option.map_eq_some_iff.mp h
  have hiff := rollOrFlush_flushes host i { f with m_scpFile := file }
  rw [he, WriteFile.writeLine_writen hw] at hiff
  rw [hiff]
  exact decide_eq_true_iff.symm

theorem append_unlocked_whole (host : Host) (now : Int) (roll : RollInput) (line : List Byte)
    (f : LogFile) :
    ∃ p, append_unlocked host ⟨[⟨line.length, false⟩], now, roll⟩ line f = some p := by
  obtain ⟨p, hp⟩ := f.m_scpFile.writeLine_whole line
  unfold append_unlocked
  rw [hp]
  exact ⟨_, rfl⟩

end LogFile
end MyNet.Base
