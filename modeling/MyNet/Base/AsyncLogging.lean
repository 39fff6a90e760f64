import MyNet.Base.FixedBuffer
import MyNet.Lib.ListStore
import MyNet.Lib.Machine

/-!
# `AsyncLogging`

Any number of threads call `append`; the logging thread runs `ThreadFunc`. Between
taking and releasing `m_mutex` each statement that moves a buffer is a step of its own,
and so is every statement of `ThreadFunc` on its local buffers, so that a state may be
anywhere inside an `append` or an iteration. `notify` has no effect beyond ending a
wait, and a wait with a time-out may end at any time.

`logout` is what has been handed to `LogFile::append`; flushing the log file hands over
nothing. The histories below it are written and never read.
-/
namespace MyNet.Base

open Lib

abbrev Line := List Byte

namespace AsyncLogging

abbrev Buffer := FixedBuffer kLargeBuffer

abbrev BuffPtr := Option Buffer

/-- Where the holder of `m_mutex` is in `append`. -/
inductive AppendPc where
  /-- At `m_curbuff->avail() > length`. -/
  | roomTest
  /-- At `m_buffs.push_back(m_curbuff.release())`. -/
  | pushCur
  /-- At `if (m_nextbuff)`. -/
  | takeNext
  /-- At `m_curbuff->append(logline, length)`. -/
  | copy
  | unlock
  deriving DecidableEq

inductive Holder (ι : Type) where
  | free
  | appender (t : ι) (line : Line) (pc : AppendPc)
  | backend

/-- Where the logging thread is in `ThreadFunc`; from `emptyTest` to `unlock`, but not in
`waiting`, it holds `m_mutex`. -/
inductive BackendPc where
  | loopTest
  | locking
  | emptyTest
  | waiting
  | pushCur
  | moveFirst
  | swapBuffs
  | moveSecond
  | unlock
  | sizeTest
  | dropping
  | writing (i : Nat)
  | resize
  | takeFirst
  | takeSecond
  | clear
  | finished

end AsyncLogging

open AsyncLogging in
structure AsyncLogging (ι : Type) where
  m_running : Bool
  m_mutex : Holder ι
  m_curbuff : BuffPtr
  m_nextbuff : BuffPtr
  m_buffs : List Buffer
  pc : BackendPc
  firstBuffer : BuffPtr
  secondBuffer : BuffPtr
  buffsToWrite : List Buffer
  logout : List Byte
  /-- The lines in the order in which their calls acquired `m_mutex`. -/
  acquired : List Line
  /-- Those already handed to the current buffer. -/
  appended : List Line
  /-- Those whose call returned before `stop` was called. -/
  returned : List Line
  /-- How many were appended before the backend last took the buffers. -/
  swapped : Nat
  fault : Option Fault

inductive LogMove (ι : Type) where
  | lock (t : ι) (line : Line)
  | append
  | backend
  /-- `now` is the formatted time and `temp` what the stack held in `temp[256]`. -/
  | drop (now : List Byte) (temp : Vector Byte 256)
  | stop

namespace AsyncLogging

variable {ι : Type}

variable (ι) in
/-- The state in which `start()` returns. -/
def start : AsyncLogging ι where
  m_running := true
  m_mutex := .free
  m_curbuff := some .new
  m_nextbuff := some .new
  m_buffs := []
  pc := .loopTest
  firstBuffer := some .new
  secondBuffer := some .new
  buffsToWrite := []
  logout := []
  acquired := []
  appended := []
  returned := []
  swapped := 0
  fault := none

/-- One statement of `append`, called with `line` by thread `t`. -/
def append (s : AsyncLogging ι) (t : ι) (line : Line) : AppendPc → AsyncLogging ι
  | .roomTest =>
    match s.m_curbuff with
    | some b =>
      { s with m_mutex := .appender t line (if line.length < b.avail then .copy else .pushCur) }
    | none => { s with fault := some .nullPointer }
  | .pushCur =>
    match s.m_curbuff with
    | some b =>
      { s with m_buffs := s.m_buffs ++ [b], m_curbuff := none, m_mutex := .appender t line .takeNext }
    | none => { s with fault := some .nullPointer }
  | .takeNext =>
    match s.m_nextbuff with
    | some b =>
      { s with m_curbuff := some b, m_nextbuff := none, m_mutex := .appender t line .copy }
    | none =>
      match s.m_curbuff with
      | some b => { s with m_curbuff := some b.reset, m_mutex := .appender t line .copy }
      -- `m_curbuff` was released two statements above
      | none => { s with fault := some .nullPointer }
  | .copy =>
    match s.m_curbuff with
    | some b =>
      { s with
        m_curbuff := some (b.append line).2
        m_mutex := .appender t line .unlock
        appended := s.appended ++ [line] }
    | none => { s with fault := some .nullPointer }
  | .unlock =>
    { s with
      m_mutex := .free
      returned := if s.m_running then s.returned ++ [line] else s.returned }

/-- `snprintf` into an array: as much as fits, a NUL, and the rest as it was. -/
def snprintf (temp : List Byte) (text : List Byte) : List Byte :=
  ListStore.overwrite temp 0 (text.take (temp.length - 1) ++ [0])

/-- The 256 bytes announcing that `size - 2` buffers are dropped. -/
def announcement (now : List Byte) (temp : Vector Byte 256) (size : Nat) : List Byte :=
  snprintf temp.toList
    (ascii "Drop some log at " ++ now ++ ascii ", " ++ ascii (toString (size - 2)))

/-- `pop_back` and `reset`, for a spare that was handed to the front end. -/
def takeBack (s : AsyncLogging ι) (spare : BuffPtr) : Option (BuffPtr × List Buffer) :=
  match spare with
  | some b => some (some b, s.buffsToWrite)
  | none => s.buffsToWrite.getLast?.map fun b => (some b.reset, s.buffsToWrite.dropLast)

/-- One statement of `ThreadFunc`. -/
def threadFunc (s : AsyncLogging ι) : Option (AsyncLogging ι) :=
  match s.pc with
  | .loopTest => some { s with pc := if s.m_running then .locking else .finished }
  | .locking =>
    match s.m_mutex with
    | .free => some { s with m_mutex := .backend, pc := .emptyTest }
    | _ => none
  | .emptyTest =>
    match s.m_buffs with
    | [] => some { s with m_mutex := .free, pc := .waiting }
    | _ :: _ => some { s with pc := .pushCur }
  | .waiting =>
    match s.m_mutex with
    | .free => some { s with m_mutex := .backend, pc := .pushCur }
    | _ => none
  | .pushCur =>
    match s.m_curbuff with
    | some b =>
      some { s with m_buffs := s.m_buffs ++ [b], m_curbuff := none, pc := .moveFirst }
    | none => some { s with fault := some .nullPointer }
  | .moveFirst =>
    some { s with m_curbuff := s.firstBuffer, firstBuffer := none, pc := .swapBuffs }
  | .swapBuffs =>
    some { s with
      buffsToWrite := s.m_buffs
      m_buffs := s.buffsToWrite
      swapped := s.appended.length
      pc := .moveSecond }
  | .moveSecond =>
    match s.m_nextbuff with
    | some _ => some { s with pc := .unlock }
    | none => some { s with m_nextbuff := s.secondBuffer, secondBuffer := none, pc := .unlock }
  | .unlock => some { s with m_mutex := .free, pc := .sizeTest }
  | .sizeTest =>
    if s.buffsToWrite = [] then some { s with fault := some .assertion }
    else some { s with pc := if 25 < s.buffsToWrite.length then .dropping else .writing 0 }
  | .dropping => none
  | .writing i =>
    match s.buffsToWrite[i]? with
    | some b => some { s with logout := s.logout ++ b.data, pc := .writing (i + 1) }
    | none => some { s with pc := .resize }
  | .resize =>
    some { s with
      buffsToWrite := if 2 < s.buffsToWrite.length then s.buffsToWrite.take 2 else s.buffsToWrite
      pc := .takeFirst }
  | .takeFirst =>
    match s.takeBack s.firstBuffer with
    | some (p, rest) =>
      some { s with firstBuffer := p, buffsToWrite := rest, pc := .takeSecond }
    | none => some { s with fault := some .assertion }
  | .takeSecond =>
    match s.takeBack s.secondBuffer with
    | some (p, rest) => some { s with secondBuffer := p, buffsToWrite := rest, pc := .clear }
    | none => some { s with fault := some .assertion }
  | .clear => some { s with buffsToWrite := [], pc := .loopTest }
  | .finished => none

/-- After a fault the process is gone. -/
def step (s : AsyncLogging ι) (e : LogMove ι) : Option (AsyncLogging ι) :=
  match s.fault with
  | some _ => none
  | none =>
    match e with
    | .lock t line =>
      match s.m_mutex with
      | .free =>
        some { s with m_mutex := .appender t line .roomTest, acquired := s.acquired ++ [line] }
      | _ => none
    | .append =>
      match s.m_mutex with
      | .appender t line pc => some (s.append t line pc)
      | _ => none
    | .backend => s.threadFunc
    | .drop now temp =>
      match s.pc with
      | .dropping =>
        some { s with
          logout := s.logout ++ announcement now temp s.buffsToWrite.length
          buffsToWrite := s.buffsToWrite.take 2
          pc := .writing 0 }
      | _ => none
    | .stop => some { s with m_running := false }

variable (ι) in
def logging : Machine (AsyncLogging ι) (LogMove ι) where
  init s := s = start ι
  step := step

end AsyncLogging
end MyNet.Base
