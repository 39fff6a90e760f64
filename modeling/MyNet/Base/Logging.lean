import MyNet.Base.Gmtime
import MyNet.Base.LogStreamInsert
import MyNet.Base.TimeZone

/-!
# `Logger`

A logger writes the time, the thread and the level into its stream, the user inserts what
the record says, and the destructor adds the place and hands the bytes to `g_output`. The
time text is kept in thread-local variables and made anew when the second has changed.
-/
namespace MyNet.Base

open LogStream (Insertion Call)

inductive LogLevel where
  | trace
  | debug
  | info
  | warn
  | error
  | fatal
  deriving DecidableEq

def LogLevelName : LogLevel → List Byte
  | .trace => ascii "TRACE "
  | .debug => ascii "DEBUG "
  | .info => ascii "INFO  "
  | .warn => ascii "WARN  "
  | .error => ascii "ERROR "
  | .fatal => ascii "FATAL "

/-- `Logger::SourceFile`: the `m_size` characters at `m_data`. -/
structure SourceFile where
  m_data : List Byte

/-- The thread-local text of the last second that was logged. -/
structure LogTime where
  t_time : List Byte
  t_lastSecond : Int

/-- What a logger takes from its surroundings. -/
structure LogEnv where
  printf : Printf
  g_logTimeZone : TimeZone
  toLocalTime : TimeZone → Int → Tm
  strerror_tl : Int32 → List Byte
  /-- The cached thread id. -/
  tid : Int32

/-- The arguments of `Logger::Impl::Impl`, with the time it reads. -/
structure Logger where
  m_time : Int
  m_level : LogLevel
  savedErrno : Int32
  m_basename : SourceFile
  m_line : Int32

def kMicroSecsPerSecond : Int := 1000 * 1000

/-- `%d` with a width, filled up with blanks. -/
def blankPadded (width : Nat) (value : Int) : List Byte :=
  List.replicate (width - (decimal value).length) ' '.toUInt8 ++ decimal value

/-- `%d` with a width, filled up with zeros behind the sign. -/
def zeroPadded (width : Nat) (value : Int) : List Byte :=
  let sign := if value < 0 then ['-'.toUInt8] else []
  let number := decimal value.natAbs
  sign ++ List.replicate (width - sign.length - number.length) '0'.toUInt8 ++ number

/-- `%4d%02d%02d %02d:%02d:%02d` -/
def timeText (tm : Tm) : List Byte :=
  blankPadded 4 tm.year ++ zeroPadded 2 tm.month ++ zeroPadded 2 tm.day ++ ascii " " ++
    zeroPadded 2 tm.hour ++ ascii ":" ++ zeroPadded 2 tm.minute ++ ascii ":" ++
    zeroPadded 2 tm.second

def tidString (tid : Int32) : List Byte := blankPadded 5 tid.toInt ++ ascii " "

def assertThat (p : Prop) [Decidable p] : LogM Unit := if p then return () else throw .assertion

def strlen (str : List Byte) : Nat := (str.takeWhile (· != 0)).length

/-- The inserter of `T`, whose constructor has the assertion. -/
def insertT (str : List Byte) (len : Nat) : LogM Unit := do
  assertThat (strlen str = len)
  let _ ← LogStream.append (str.take len)
  return ()

def insertSourceFile (v : SourceFile) : LogM Unit := do
  let _ ← LogStream.append v.m_data
  return ()

/-- `Fmt`: what `snprintf` prints has to fit its 32 characters. -/
def fmt (text : List Byte) : LogM (List Byte) := do
  assertThat (text.length < 32)
  return text

namespace Logger

/-- The time text is made when the second is not the last one. -/
def updateTime (env : LogEnv) (seconds : Int) (t : LogTime) : LogM LogTime :=
  if seconds ≠ t.t_lastSecond then do
    let tm_time :=
      if env.g_logTimeZone.valid then env.toLocalTime env.g_logTimeZone seconds
      else gmtime seconds
    assertThat ((timeText tm_time).length = 17)
    return ⟨timeText tm_time, seconds⟩
  else return t

def insertTime (env : LogEnv) (t_time : List Byte) (microseconds : Int) : LogM Unit :=
  if env.g_logTimeZone.valid then do
    let us ← fmt (ascii "." ++ zeroPadded 6 microseconds ++ ascii " ")
    assertThat (us.length = 8)
    insertT t_time 17
    insertT us 8
  else do
    let us ← fmt (ascii "." ++ zeroPadded 6 microseconds ++ ascii "Z ")
    assertThat (us.length = 9)
    insertT t_time 17
    insertT us 9

def formatTime (env : LogEnv) (m_time : Int) (t : LogTime) : LogM LogTime := do
  let seconds := m_time.tdiv kMicroSecsPerSecond
  let microseconds := m_time.tmod kMicroSecsPerSecond
  let t ← updateTime env seconds t
  insertTime env t.t_time microseconds
  return t

def insertErrno (env : LogEnv) (savedErrno : Int32) : LogM Unit :=
  if savedErrno ≠ 0 then do
    LogStream.insertCString (env.strerror_tl savedErrno)
    LogStream.insertCString (ascii "(errno=")
    LogStream.insertInt savedErrno
    LogStream.insertCString (ascii ")")
  else return ()

/-- `Impl::Impl` -/
def construct (env : LogEnv) (l : Logger) (t : LogTime) : LogM LogTime := do
  let t ← formatTime env l.m_time t
  insertT (tidString env.tid) (tidString env.tid).length
  insertT (LogLevelName l.m_level) 6
  insertErrno env l.savedErrno
  return t

def finish (l : Logger) : LogM Unit := do
  LogStream.insertCString (ascii "-")
  insertSourceFile l.m_basename
  LogStream.insertCString (ascii ":")
  LogStream.insertInt l.m_line
  LogStream.insertCString (ascii "\n")

/-- `~Logger`: the bytes passed to `g_output`. -/
def destroy (l : Logger) : LogM (List Byte) := do
  finish l
  let buf ← get
  return buf.content

/-- What happens to the stream before the destructor. -/
def fill (env : LogEnv) (l : Logger) (t : LogTime) (calls : List Call) : LogM LogTime := do
  let t ← construct env l t
  LogStream.run env.printf calls
  return t

end Logger
end MyNet.Base
