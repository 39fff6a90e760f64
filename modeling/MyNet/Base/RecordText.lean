import MyNet.Base.LoggingRecord
import MyNet.Base.LoggingTime
import MyNet.Base.ThreadOp

/-!
# The text of a record

The constructor of `Logger` writes the front, which always fits. Nothing but `resetBuffer`
takes back what is in the stream, so the front is still there when the destructor passes the
text on.
-/
namespace MyNet.Base

open Lib.FaultState
open LogStream (Insertion Call)

/-! ## Nothing is taken back -/

theorem offer_begins (content : List Byte) (room : Nat) (text : List Byte) :
    content <+: offer content room text := by
  unfold offer
  split
  · exact List.prefix_append _ _
  · exact List.prefix_refl _

theorem finishText_begins (content : List Byte) (l : Logger) :
    content <+: finishText content l := by
  unfold finishText finishPlace
  exact (offer_begins _ _ _).trans ((offer_begins _ _ _).trans ((offer_begins _ _ _).trans
    ((offer_begins _ _ _).trans (offer_begins _ _ _))))

/-- The program returns, and what was in the stream stays. -/
def Extends (program : LogM Unit) : Prop :=
  ∀ s : LogBuffer, s.Inside → ∃ s', program s = .ok () s' ∧ s'.Inside ∧ s.content <+: s'.content

theorem Puts.extends {program : LogM Unit} {room : Nat} {text : List Byte}
    (h : Puts program room text) : Extends program := by
  intro s hs
  obtain ⟨s', hprogram, hs', hcontent⟩ := h.offer hs
  exact ⟨s', hprogram, hs', hcontent ▸ offer_begins _ _ _⟩

theorem Extends.pure : Extends (pure ()) := fun s hs => ⟨s, rfl, hs, List.prefix_refl _⟩

theorem Extends.bind {first second : LogM Unit} (h : Extends first) (h' : Extends second) :
    Extends (do first; second) := by
  intro s hs
  obtain ⟨s₁, h₁, hs₁, hprefix₁⟩ := h s hs
  obtain ⟨s₂, h₂, hs₂, hprefix₂⟩ := h' s₁ hs₁
  refine ⟨s₂, ?_, hs₂, hprefix₁.trans hprefix₂⟩
  rw [bind_apply, h₁]
  exact h₂

theorem extends_insertErrno (env : LogEnv) (savedErrno : Int32) :
    Extends (Logger.insertErrno env savedErrno) := by
  unfold Logger.insertErrno
  split
  · exact (puts_append _).extends.bind ((puts_append _).extends.bind
      ((puts_int savedErrno).extends.bind (puts_append _).extends))
  · exact Extends.pure

theorem extends_run (printf : Printf) {calls : List Call} (h : ∀ c ∈ calls, c ≠ .resetBuffer) :
    Extends (LogStream.run printf calls) := by
  induction calls with
  | nil => exact Extends.pure
  | cons c calls ih =>
    obtain ⟨hfirst, hrest⟩ := List.forall_mem_cons.mp h
    refine Extends.bind ?_ (ih hrest)
    cases c with
    | insert i => exact (LogStream.insert_puts printf i).extends
    | resetBuffer => exact absurd rfl hfirst

/-- Whatever the user calls returns. -/
theorem run_inside (printf : Printf) (calls : List Call) {s : LogBuffer} (hs : s.Inside) :
    ∃ s', LogStream.run printf calls s = .ok () s' ∧ s'.Inside := by
  induction calls generalizing s with
  | nil => exact ⟨s, rfl, hs⟩
  | cons c calls ih =>
    obtain ⟨s₁, h₁, hs₁⟩ : ∃ s₁, LogStream.call printf c s = .ok () s₁ ∧ s₁.Inside := by
      cases c with
      | insert i =>
        obtain ⟨s₁, h₁, hs₁, -⟩ := (LogStream.insert_puts printf i).offer hs
        exact ⟨s₁, h₁, hs₁⟩
      | resetBuffer => exact ⟨_, rfl, hs.size, Nat.zero_le _⟩
    obtain ⟨s₂, h₂, hs₂⟩ := ih hs₁
    refine ⟨s₂, ?_, hs₂⟩
    rw [LogStream.run, bind_apply, h₁]
    exact h₂

/-! ## The front -/

/-- What `T` is given whole it writes whole, when there is room. -/
theorem insertT_whole {text : List Byte} {s : LogBuffer} (hs : s.Inside)
    (hplain : strlen text = text.length) (hroom : s.content.length + text.length ≤ kSmallBuffer) :
    ∃ s', insertT text text.length s = .ok () s' ∧ s'.Inside ∧ s'.content = s.content ++ text := by
  have hlength := hs.length_content
  obtain ⟨s', hinsert, happends⟩ := insertT_ok hs hplain (by rw [hs.avail]; omega)
  refine ⟨s', hinsert, happends.inside, ?_⟩
  rw [happends.content, List.take_length]

theorem logLevelName_plain (level : LogLevel) :
    strlen (LogLevelName level) = (LogLevelName level).length ∧
      (LogLevelName level).length = 6 := by
  cases level <;> decide

namespace Logger

/-- Behind the time stand the thread and the level, and the user's text comes after them. -/
theorem fill_front {env : LogEnv} {l : Logger} {t time : LogTime}
    {garbage : Vector Byte kSmallBuffer} {buf : LogBuffer}
    (htime : formatTime env l.m_time t (.new garbage) = .ok time buf)
    (hs : buf.Inside) (hshort : buf.content.length ≤ 100) (calls : List Call) :
    ∃ buf', l.fill env t calls (.new garbage) = .ok time buf' ∧ buf'.Inside ∧
      ((∀ c ∈ calls, c ≠ .resetBuffer) →
        buf.content ++ tidString env.tid ++ LogLevelName l.m_level <+: buf'.content) := by
  have htid := length_tidString env.tid
  obtain ⟨hplain, hsix⟩ := logLevelName_plain l.m_level
  obtain ⟨s₁, h₁, hs₁, hc₁⟩ := insertT_whole hs (strlen_of_ne_zero (tidString_ne_zero env.tid))
    (by rw [show kSmallBuffer = 4000 from rfl]; omega)
  obtain ⟨s₂, h₂, hs₂, hc₂⟩ := insertT_whole hs₁ hplain (by
    rw [hc₁, List.length_append, show kSmallBuffer = 4000 from rfl]
    omega)
  rw [hsix] at h₂
  obtain ⟨s₃, h₃, hs₃, hprefix₃⟩ := extends_insertErrno env l.savedErrno s₂ hs₂
  obtain ⟨s₄, h₄, hs₄⟩ := run_inside env.printf calls hs₃
  refine ⟨s₄, ?_, hs₄, fun hnone => ?_⟩
  · simp only [fill, construct, bind_apply, htime, h₁, h₂, h₃, h₄, pure_apply]
  · obtain ⟨s₅, h₅, -, hprefix₅⟩ := extends_run env.printf hnone s₃ hs₃
    obtain rfl : s₅ = s₄ := (EStateM.Result.ok.inj (h₅.symm.trans h₄)).2
    rw [← hc₁, ← hc₂]
    exact hprefix₃.trans hprefix₅

/-- The bytes passed to `g_output`, and the text the thread keeps for its next record. -/
def text (env : LogEnv) (l : Logger) (t : LogTime) (calls : List Call)
    (garbage : Vector Byte kSmallBuffer) : Option (LogTime × List Byte) :=
  match l.fill env t calls (.new garbage) with
  | .ok time buf =>
    match l.destroy buf with
    | .ok msg _ => some (time, msg)
    | .error _ _ => none
  | .error _ _ => none

/-- The bytes are no more than the stream has. They begin with the front unless the user has reset
the stream, and end the line where `EndsLine` says so. -/
structure Printed (env : LogEnv) (l : Logger) (t : LogTime) (calls : List Call)
    (garbage : Vector Byte kSmallBuffer) (front msg : List Byte) : Prop where
  length : msg.length ≤ kSmallBuffer
  front : (∀ c ∈ calls, c ≠ .resetBuffer) →
    front ++ tidString env.tid ++ LogLevelName l.m_level <+: msg
  newline : ∀ time buf, l.fill env t calls (.new garbage) = .ok time buf →
    (msg.getLast? = some newline ↔ EndsLine buf l.m_basename.m_data)

theorem text_printed {env : LogEnv} {l : Logger} {t time : LogTime}
    {garbage : Vector Byte kSmallBuffer} {buf : LogBuffer}
    (htime : formatTime env l.m_time t (.new garbage) = .ok time buf)
    (hs : buf.Inside) (hshort : buf.content.length ≤ 100) (calls : List Call) :
    ∃ msg, l.text env t calls garbage = some (time, msg) ∧
      l.Printed env t calls garbage buf.content msg := by
  obtain ⟨buf', hfill, hs', hfront⟩ := fill_front htime hs hshort calls
  obtain ⟨s, hfinish, hins, hcontent⟩ := finish_content l hs'
  have hdestroy : l.destroy buf' = .ok s.content s := by
    simp only [destroy, bind_apply, hfinish, get_apply, pure_apply]
  refine ⟨s.content, by simp only [text, hfill, hdestroy], ?_, fun hnone => ?_, ?_⟩
  · exact hins.length_content ▸ hins.cur
  · rw [hcontent]
    exact (hfront hnone).trans (finishText_begins _ l)
  · intro time' buf'' hfill'
    obtain rfl := (EStateM.Result.ok.inj (hfill.symm.trans hfill')).2
    rw [hcontent]
    exact finishText_newline l hs'

end Logger
end MyNet.Base
