import MyNet.Base.Logging

/-!
# Does a record end its line?

`finish` offers its five pieces one after the other, and each is dropped by itself when it
does not fit. The newline comes last and needs one character; what the pieces before it
leave depends on how full the user left the stream.
-/
namespace MyNet.Base

open Lib.FaultState
open LogStream (Insertion Call)

def newline : Byte := '\n'.toUInt8

/-! ## Pieces offered to a content -/

/-- The content after a piece that is kept whole when there is room. -/
def offer (content : List Byte) (room : Nat) (text : List Byte) : List Byte :=
  if room ≤ kSmallBuffer - content.length then content ++ text else content

theorem Puts.offer {program : LogM Unit} {room : Nat} {text : List Byte}
    (h : Puts program room text) {s : LogBuffer} (hs : s.Inside) :
    ∃ s', program s = .ok () s' ∧ s'.Inside ∧ s'.content = offer s.content room text := by
  obtain ⟨s', hprogram, hputs⟩ := h s hs
  refine ⟨s', hprogram, ?_⟩
  rw [hs.avail, ← hs.length_content] at hputs
  rw [MyNet.Base.offer]
  by_cases hroom : room ≤ kSmallBuffer - s.content.length
  · rw [if_pos hroom] at hputs ⊢
    exact ⟨hputs.inside, hputs.content⟩
  · rw [if_neg hroom] at hputs ⊢
    rw [hputs]
    exact ⟨hs, rfl⟩

theorem offer_fits {content text : List Byte} {room : Nat}
    (h : content.length + room ≤ kSmallBuffer) : offer content room text = content ++ text :=
  if_pos (by omega)

theorem offer_full {content text : List Byte} {room : Nat} (hroom : 0 < room)
    (h : content.length = kSmallBuffer) : offer content room text = content :=
  if_neg (by omega)

/-- A full buffer takes nothing, not even by taking an empty text. -/
theorem offer_whole_full {content text : List Byte} (h : content.length = kSmallBuffer) :
    offer content text.length text = content := by
  rw [offer]
  split
  · have hnil : text = [] := List.length_eq_zero_iff.mp (by omega)
    rw [hnil, List.append_nil]
  · rfl

/-- A text below its room never fills the buffer. -/
theorem length_offer {content text : List Byte} {room : Nat} (htext : text.length < room)
    (h : content.length < kSmallBuffer) : (offer content room text).length < kSmallBuffer := by
  by_cases hroom : content.length + room ≤ kSmallBuffer
  · rw [offer_fits hroom, List.length_append]
    omega
  · rw [offer, if_neg (by omega)]
    exact h

/-- The last three pieces: the colon, the line number and the newline. -/
def finishPlace (content : List Byte) (line : Int32) : List Byte :=
  offer (offer (offer content 1 (ascii ":")) kMaxNumericSize (decimal line.toInt)) 1 [newline]

def finishText (content : List Byte) (l : Logger) : List Byte :=
  finishPlace (offer (offer content 1 (ascii "-")) l.m_basename.m_data.length l.m_basename.m_data)
    l.m_line

theorem finish_content (l : Logger) {s : LogBuffer} (h : s.Inside) :
    ∃ s', l.finish s = .ok () s' ∧ s'.Inside ∧ s'.content = finishText s.content l := by
  have hdash : Puts (LogStream.insertCString (ascii "-")) 1 (ascii "-") := puts_append _
  have hname : Puts (insertSourceFile l.m_basename) l.m_basename.m_data.length
      l.m_basename.m_data := puts_append _
  have hcolon : Puts (LogStream.insertCString (ascii ":")) 1 (ascii ":") := puts_append _
  have hnewline : Puts (LogStream.insertCString (ascii "\n")) 1 [newline] := puts_append _
  obtain ⟨s₁, h₁, hs₁, hc₁⟩ := hdash.offer h
  obtain ⟨s₂, h₂, hs₂, hc₂⟩ := hname.offer hs₁
  obtain ⟨s₃, h₃, hs₃, hc₃⟩ := hcolon.offer hs₂
  obtain ⟨s₄, h₄, hs₄, hc₄⟩ := (puts_int l.m_line).offer hs₃
  obtain ⟨s₅, h₅, hs₅, hc₅⟩ := hnewline.offer hs₄
  refine ⟨s₅, ?_, hs₅, ?_⟩
  · simp only [Logger.finish, bind_apply, h₁, h₂, h₃, h₄, h₅]
  · rw [hc₅, hc₄, hc₃, hc₂, hc₁]
    rfl

/-- Below the colon the record ends with a newline when two characters are left, or when
none is and the content ends with one already. -/
theorem finishPlace_newline {content : List Byte} (line : Int32)
    (h : content.length ≤ kSmallBuffer) :
    (finishPlace content line).getLast? = some newline ↔
      content.length + 2 ≤ kSmallBuffer ∨
        (content.length = kSmallBuffer ∧ content.getLast? = some newline) := by
  have hnumber : (decimal line.toInt).length < kMaxNumericSize := by
    have hlow := line.le_toInt
    have hup := line.toInt_lt
    have hlength : (decimal line.toInt).length ≤ 20 := length_decimal (by omega) (by omega)
    unfold kMaxNumericSize
    omega
  have hcolon : (ascii ":").length = 1 := rfl
  by_cases hfull : content.length = kSmallBuffer
  · rw [finishPlace, offer_full (by decide) hfull, offer_full (by decide) hfull,
      offer_full (by decide) hfull]
    constructor
    · intro hlast
      exact .inr ⟨hfull, hlast⟩
    · rintro (hroom | ⟨-, hlast⟩)
      · omega
      · exact hlast
  have hkept : offer content 1 (ascii ":") = content ++ ascii ":" := offer_fits (by omega)
  rw [finishPlace, hkept]
  by_cases hone : content.length + 1 = kSmallBuffer
  · have hfilled : (content ++ ascii ":").length = kSmallBuffer := by
      rw [List.length_append, hcolon, hone]
    rw [offer_full (by decide) hfilled, offer_full (by decide) hfilled]
    constructor
    · intro hlast
      have hbyte : (content ++ ascii ":").getLast? = some ':'.toUInt8 := List.getLast?_concat
      rw [hbyte] at hlast
      exact absurd hlast (by decide)
    · rintro (hroom | ⟨hlength, -⟩) <;> omega
  · have hleft : (content ++ ascii ":").length < kSmallBuffer := by
      rw [List.length_append, hcolon]
      omega
    have hplace := length_offer hnumber hleft
    rw [offer_fits (by omega), List.getLast?_concat]
    exact ⟨fun _ => .inl (by omega), fun _ => rfl⟩

/-- What the stream is like when the destructor takes over, for the record to end with a
newline: it is full and ends with one, or the "-", the base name and two more characters
fit, or just the "-" and a base name that ends with a newline, or no base name and three
characters. -/
def EndsLine (s : LogBuffer) (basename : List Byte) : Prop :=
  (s.avail = 0 ∧ s.content.getLast? = some newline) ∨
    basename.length + 3 ≤ s.avail ∨
    (basename.length + 1 = s.avail ∧ basename.getLast? = some newline) ∨
    (s.avail ≤ basename.length ∧ 3 ≤ s.avail)

theorem finishText_newline (l : Logger) {s : LogBuffer} (h : s.Inside) :
    (finishText s.content l).getLast? = some newline ↔ EndsLine s l.m_basename.m_data := by
  have hcur : s.content.length ≤ kSmallBuffer := h.length_content ▸ h.cur
  have hdash : (ascii "-").length = 1 := rfl
  rw [EndsLine, h.avail, ← h.length_content, finishText]
  generalize l.m_basename.m_data = name
  generalize s.content = content at hcur
  by_cases hfull : content.length = kSmallBuffer
  · rw [offer_full (by decide) hfull, offer_whole_full hfull, finishPlace_newline l.m_line hcur]
    constructor
    · rintro (hroom | ⟨-, hlast⟩)
      · omega
      · exact .inl ⟨by omega, hlast⟩
    · rintro (⟨-, hlast⟩ | hroom | ⟨hroom, -⟩ | ⟨-, hroom⟩)
      · exact .inr ⟨hfull, hlast⟩
      all_goals omega
  have hkept : offer content 1 (ascii "-") = content ++ ascii "-" := offer_fits (by omega)
  have hlength : (content ++ ascii "-").length = content.length + 1 := by
    rw [List.length_append, hdash]
  have hlast : (content ++ ascii "-").getLast? = some '-'.toUInt8 := List.getLast?_concat
  rw [hkept]
  by_cases hname : content.length + 1 + name.length ≤ kSmallBuffer
  · rw [offer_fits (by omega), finishPlace_newline l.m_line (by rw [List.length_append]; omega),
      List.length_append, hlength]
    have hbyte : (content ++ ascii "-" ++ name).getLast? = some newline ↔
        name.getLast? = some newline := by
      rw [List.getLast?_append, hlast]
      cases name.getLast? with
      | none => decide
      | some c => rfl
    rw [hbyte]
    constructor
    · rintro (hroom | ⟨hexact, hend⟩)
      · exact .inr (.inl (by omega))
      · exact .inr (.inr (.inl ⟨by omega, hend⟩))
    · rintro (⟨hroom, -⟩ | hroom | ⟨hexact, hend⟩ | ⟨hroom, -⟩)
      · omega
      · exact .inl (by omega)
      · exact .inr ⟨by omega, hend⟩
      · omega
  · rw [offer, if_neg (by omega), finishPlace_newline l.m_line (by omega), hlength, hlast]
    constructor
    · rintro (hroom | ⟨-, hbyte⟩)
      · exact .inr (.inr (.inr ⟨by omega, by omega⟩))
      · exact absurd hbyte (by decide)
    · rintro (⟨hroom, -⟩ | hroom | ⟨hroom, -⟩ | ⟨-, hroom⟩)
      · omega
      · omega
      · omega
      · exact .inl (by omega)

/-! ## Up to the destructor -/

/-- From inside the array the program ends inside it or at a failed assertion. -/
def Safe {α : Type} (program : LogM α) : Prop :=
  ∀ s : LogBuffer, s.Inside → (∃ a s', program s = .ok a s' ∧ s'.Inside) ∨
    ∃ s', program s = .error .assertion s'

theorem Safe.pure {α : Type} (a : α) : Safe (pure a : LogM α) :=
  fun s h => .inl ⟨a, s, rfl, h⟩

theorem Safe.bind {α β : Type} {x : LogM α} {f : α → LogM β} (hx : Safe x)
    (hf : ∀ a, Safe (f a)) : Safe (x >>= f) := by
  intro s h
  rcases hx s h with ⟨a, t, hok, ht⟩ | ⟨t, herror⟩
  · rw [bind_apply, hok]
    exact hf a t ht
  · rw [bind_apply, herror]
    exact .inr ⟨t, rfl⟩

theorem safe_assertThat (p : Prop) [Decidable p] : Safe (assertThat p) := by
  intro s h
  by_cases hp : p
  · rw [assertThat, if_pos hp]
    exact .inl ⟨(), s, rfl, h⟩
  · rw [assertThat, if_neg hp]
    exact .inr ⟨s, rfl⟩

theorem Puts.safe {program : LogM Unit} {room : Nat} {text : List Byte}
    (h : Puts program room text) : Safe program := by
  intro s hs
  obtain ⟨s', hprogram, hs', -⟩ := h.offer hs
  exact .inl ⟨(), s', hprogram, hs'⟩

theorem safe_insertT (str : List Byte) (len : Nat) : Safe (insertT str len) := by
  apply Safe.bind (safe_assertThat _)
  intro _
  exact (puts_append (str.take len)).safe

theorem safe_insertTime (env : LogEnv) (t_time : List Byte) (microseconds : Int) :
    Safe (Logger.insertTime env t_time microseconds) := by
  have hfmt (text : List Byte) : Safe (fmt text) :=
    Safe.bind (safe_assertThat _) fun _ => Safe.pure text
  have hpieces (us : List Byte) (len : Nat) : Safe (do
      assertThat (us.length = len)
      insertT t_time 17
      insertT us len) := by
    apply Safe.bind (safe_assertThat _)
    intro _
    apply Safe.bind (safe_insertT t_time 17)
    intro _
    exact safe_insertT us len
  rw [Logger.insertTime]
  split
  · exact Safe.bind (hfmt _) fun us => hpieces us 8
  · exact Safe.bind (hfmt _) fun us => hpieces us 9

theorem safe_updateTime (env : LogEnv) (seconds : Int) (t : LogTime) :
    Safe (Logger.updateTime env seconds t) := by
  rw [Logger.updateTime]
  split
  · exact Safe.bind (safe_assertThat _) fun _ => Safe.pure _
  · exact Safe.pure t

theorem safe_insertErrno (env : LogEnv) (savedErrno : Int32) :
    Safe (Logger.insertErrno env savedErrno) := by
  rw [Logger.insertErrno]
  split
  · apply Safe.bind (puts_append _).safe
    intro _
    apply Safe.bind (puts_append _).safe
    intro _
    apply Safe.bind (puts_int savedErrno).safe
    intro _
    exact (puts_append _).safe
  · exact Safe.pure ()

theorem safe_construct (env : LogEnv) (l : Logger) (t : LogTime) :
    Safe (l.construct env t) := by
  have htime : Safe (Logger.formatTime env l.m_time t) := by
    apply Safe.bind (safe_updateTime env _ t)
    intro t
    exact Safe.bind (safe_insertTime env t.t_time _) fun _ => Safe.pure t
  apply Safe.bind htime
  intro t
  apply Safe.bind (safe_insertT _ _)
  intro _
  apply Safe.bind (safe_insertT _ _)
  intro _
  exact Safe.bind (safe_insertErrno env l.savedErrno) fun _ => Safe.pure t

theorem safe_run (printf : Printf) (calls : List Call) : Safe (LogStream.run printf calls) := by
  induction calls with
  | nil => exact Safe.pure ()
  | cons c cs ih =>
    apply Safe.bind _ fun _ => ih
    cases c with
    | insert i => exact (LogStream.insert_puts printf i).safe
    | resetBuffer => exact fun s h => .inl ⟨(), _, rfl, ⟨h.size, Nat.zero_le _⟩⟩

/-- **When a record ends its line.** Unless an assertion fails in the constructor, the bytes
the destructor passes on end with a newline exactly in the states `EndsLine` describes. -/
theorem record_ends_line_iff (env : LogEnv) (l : Logger) (t : LogTime)
    (garbage : Vector Byte kSmallBuffer) (calls : List Call) :
    (∃ s, l.fill env t calls (.new garbage) = .error .assertion s) ∨
    ∃ t' s msg s', l.fill env t calls (.new garbage) = .ok t' s ∧ l.destroy s = .ok msg s' ∧
      (msg.getLast? = some newline ↔ EndsLine s l.m_basename.m_data) := by
  have hfill : Safe (l.fill env t calls) := by
    apply Safe.bind (safe_construct env l t)
    intro t
    exact Safe.bind (safe_run env.printf calls) fun _ => Safe.pure t
  rcases hfill _ (LogBuffer.new_inside garbage) with ⟨t', s, hok, hs⟩ | herror
  · obtain ⟨s', hfinish, -, hcontent⟩ := finish_content l hs
    refine .inr ⟨t', s, s'.content, s', hok, ?_, ?_⟩
    · simp only [Logger.destroy, bind_apply, hfinish, get_apply, pure_apply]
    · rw [hcontent]
      exact finishText_newline l hs
  · exact .inl herror

/-- A thread with id 4711 that logs in UTC. -/
def utcEnv : LogEnv :=
  ⟨⟨fun _ => [], fun _ => by decide⟩, ⟨none⟩, fun _ => gmtime, fun _ => [], 4711⟩

def mainLogger : Logger := ⟨1425302400123456, .info, 0, ⟨ascii "main.cc"⟩, 42⟩

/-- All that the time, the thread and the level leave of the stream. -/
def fillingLine : List Byte := List.replicate 3962 'x'.toUInt8

/-- A user fills the stream to its last character: the whole suffix is dropped. -/
theorem record_ends_line_full :
    ∃ t' s msg s', mainLogger.fill utcEnv ⟨[], 0⟩ [.insert (.string fillingLine)]
        (.new (Vector.replicate kSmallBuffer 0)) = .ok t' s ∧
      mainLogger.destroy s = .ok msg s' ∧ msg.getLast? ≠ some newline := by
  have hrun : (match mainLogger.fill utcEnv ⟨[], 0⟩ [.insert (.string fillingLine)]
      (.new (Vector.replicate kSmallBuffer 0)) with
    | .ok _ s =>
      match mainLogger.destroy s with
      | .ok msg _ => msg.getLast?
      | .error _ _ => none
    | .error _ _ => none) = some 'x'.toUInt8 := by
    decide +kernel
  split at hrun
  · next t' s hfill =>
      split at hrun
      · next msg s' hdestroy =>
          refine ⟨t', s, msg, s', hfill, hdestroy, ?_⟩
          rw [hrun]
          decide
      · cases hrun
  · cases hrun

end MyNet.Base
