import MyNet.Base.AsyncLogging

/-!
# The buffers of `AsyncLogging`

`Turn` lists what one step can do. `Owned` says where every buffer is, place by place in
`append` and in `ThreadFunc`: the backend starts each iteration with two empty spares and
finds a buffer in `buffsToWrite` for each spare it gave away. The front end has no such
luck. A swap leaves it a current and a next buffer; the second buffer it fills before the
next swap is released with nothing to put in its place, and `m_curbuff->reset()` is
called on an empty pointer.
-/
namespace MyNet.Base.AsyncLogging

open Lib

variable {ι : Type}

/-- What a step does: its guard and its result. -/
inductive Turn (s : AsyncLogging ι) : LogMove ι → AsyncLogging ι → Prop
  | lock {t : ι} {line : Line} (hm : s.m_mutex = .free) :
      Turn s (.lock t line)
        { s with m_mutex := .appender t line .roomTest, acquired := s.acquired ++ [line] }
  | room {t : ι} {line : Line} {b : Buffer} (hm : s.m_mutex = .appender t line .roomTest)
      (hb : s.m_curbuff = some b) (hl : line.length < b.avail) :
      Turn s .append { s with m_mutex := .appender t line .copy }
  | full {t : ι} {line : Line} {b : Buffer} (hm : s.m_mutex = .appender t line .roomTest)
      (hb : s.m_curbuff = some b) (hl : b.avail ≤ line.length) :
      Turn s .append { s with m_mutex := .appender t line .pushCur }
  | pushFull {t : ι} {line : Line} {b : Buffer} (hm : s.m_mutex = .appender t line .pushCur)
      (hb : s.m_curbuff = some b) :
      Turn s .append
        { s with
          m_buffs := s.m_buffs ++ [b], m_curbuff := none, m_mutex := .appender t line .takeNext }
  | takeNext {t : ι} {line : Line} {b : Buffer} (hm : s.m_mutex = .appender t line .takeNext)
      (hb : s.m_nextbuff = some b) :
      Turn s .append
        { s with m_curbuff := some b, m_nextbuff := none, m_mutex := .appender t line .copy }
  | resetCur {t : ι} {line : Line} {b : Buffer} (hm : s.m_mutex = .appender t line .takeNext)
      (hn : s.m_nextbuff = none) (hb : s.m_curbuff = some b) :
      Turn s .append { s with m_curbuff := some b.reset, m_mutex := .appender t line .copy }
  | copy {t : ι} {line : Line} {b : Buffer} (hm : s.m_mutex = .appender t line .copy)
      (hb : s.m_curbuff = some b) :
      Turn s .append
        { s with
          m_curbuff := some (b.append line).2
          m_mutex := .appender t line .unlock
          appended := s.appended ++ [line] }
  | unlock {t : ι} {line : Line} (hm : s.m_mutex = .appender t line .unlock) :
      Turn s .append
        { s with
          m_mutex := .free
          returned := if s.m_running then s.returned ++ [line] else s.returned }
  | noCur {t : ι} {line : Line} {pc : AppendPc} (hm : s.m_mutex = .appender t line pc)
      (hb : s.m_curbuff = none) (hn : pc = .takeNext → s.m_nextbuff = none)
      (hu : pc ≠ .unlock) :
      Turn s .append { s with fault := some .nullPointer }
  | enter (hp : s.pc = .loopTest) (hr : s.m_running = true) :
      Turn s .backend { s with pc := .locking }
  | leave (hp : s.pc = .loopTest) (hr : s.m_running = false) :
      Turn s .backend { s with pc := .finished }
  | lockBuffs (hp : s.pc = .locking) (hm : s.m_mutex = .free) :
      Turn s .backend { s with m_mutex := .backend, pc := .emptyTest }
  | wait (hp : s.pc = .emptyTest) (he : s.m_buffs = []) :
      Turn s .backend { s with m_mutex := .free, pc := .waiting }
  | noWait (hp : s.pc = .emptyTest) (he : s.m_buffs ≠ []) :
      Turn s .backend { s with pc := .pushCur }
  | wake (hp : s.pc = .waiting) (hm : s.m_mutex = .free) :
      Turn s .backend { s with m_mutex := .backend, pc := .pushCur }
  | pushCur {b : Buffer} (hp : s.pc = .pushCur) (hb : s.m_curbuff = some b) :
      Turn s .backend
        { s with m_buffs := s.m_buffs ++ [b], m_curbuff := none, pc := .moveFirst }
  | pushNull (hp : s.pc = .pushCur) (hb : s.m_curbuff = none) :
      Turn s .backend { s with fault := some .nullPointer }
  | moveFirst (hp : s.pc = .moveFirst) :
      Turn s .backend
        { s with m_curbuff := s.firstBuffer, firstBuffer := none, pc := .swapBuffs }
  | swapBuffs (hp : s.pc = .swapBuffs) :
      Turn s .backend
        { s with
          buffsToWrite := s.m_buffs
          m_buffs := s.buffsToWrite
          swapped := s.appended.length
          pc := .moveSecond }
  | keepNext {b : Buffer} (hp : s.pc = .moveSecond) (hb : s.m_nextbuff = some b) :
      Turn s .backend { s with pc := .unlock }
  | moveSecond (hp : s.pc = .moveSecond) (hb : s.m_nextbuff = none) :
      Turn s .backend
        { s with m_nextbuff := s.secondBuffer, secondBuffer := none, pc := .unlock }
  | unlockBuffs (hp : s.pc = .unlock) :
      Turn s .backend { s with m_mutex := .free, pc := .sizeTest }
  | nothing (hp : s.pc = .sizeTest) (he : s.buffsToWrite = []) :
      Turn s .backend { s with fault := some .assertion }
  | overload (hp : s.pc = .sizeTest) (he : s.buffsToWrite ≠ []) (hl : 25 < s.buffsToWrite.length) :
      Turn s .backend { s with pc := .dropping }
  | begin (hp : s.pc = .sizeTest) (he : s.buffsToWrite ≠ []) (hl : s.buffsToWrite.length ≤ 25) :
      Turn s .backend { s with pc := .writing 0 }
  | write {i : Nat} {b : Buffer} (hp : s.pc = .writing i) (hb : s.buffsToWrite[i]? = some b) :
      Turn s .backend { s with logout := s.logout ++ b.data, pc := .writing (i + 1) }
  | written {i : Nat} (hp : s.pc = .writing i) (hi : s.buffsToWrite.length ≤ i) :
      Turn s .backend { s with pc := .resize }
  | resize (hp : s.pc = .resize) :
      Turn s .backend
        { s with
          buffsToWrite := if 2 < s.buffsToWrite.length then s.buffsToWrite.take 2 else s.buffsToWrite
          pc := .takeFirst }
  | takeFirst {p : BuffPtr} {rest : List Buffer} (hp : s.pc = .takeFirst)
      (ht : s.takeBack s.firstBuffer = some (p, rest)) :
      Turn s .backend { s with firstBuffer := p, buffsToWrite := rest, pc := .takeSecond }
  | noFirst (hp : s.pc = .takeFirst) (ht : s.takeBack s.firstBuffer = none) :
      Turn s .backend { s with fault := some .assertion }
  | takeSecond {p : BuffPtr} {rest : List Buffer} (hp : s.pc = .takeSecond)
      (ht : s.takeBack s.secondBuffer = some (p, rest)) :
      Turn s .backend { s with secondBuffer := p, buffsToWrite := rest, pc := .clear }
  | noSecond (hp : s.pc = .takeSecond) (ht : s.takeBack s.secondBuffer = none) :
      Turn s .backend { s with fault := some .assertion }
  | clear (hp : s.pc = .clear) :
      Turn s .backend { s with buffsToWrite := [], pc := .loopTest }
  | drop {now : List Byte} {temp : Vector Byte 256} (hp : s.pc = .dropping) :
      Turn s (.drop now temp)
        { s with
          logout := s.logout ++ announcement now temp s.buffsToWrite.length
          buffsToWrite := s.buffsToWrite.take 2
          pc := .writing 0 }
  | stop : Turn s .stop { s with m_running := false }

theorem append_turn {s : AsyncLogging ι} {t : ι} {line : Line} {pc : AppendPc}
    (hm : s.m_mutex = .appender t line pc) : Turn s .append (s.append t line pc) := by
  cases pc with
  | roomTest =>
    simp only [append]
    split
    · next b hb =>
      by_cases hl : line.length < b.avail
      · rw [if_pos hl]
        exact .room hm hb hl
      · rw [if_neg hl]
        exact .full hm hb (Nat.not_lt.mp hl)
    · next hb => exact .noCur hm hb nofun nofun
  | pushCur =>
    simp only [append]
    split
    · next b hb => exact .pushFull hm hb
    · next hb => exact .noCur hm hb nofun nofun
  | takeNext =>
    simp only [append]
    split
    · next b hb => exact .takeNext hm hb
    · next hn =>
      split
      · next b hb => exact .resetCur hm hn hb
      · next hb => exact .noCur hm hb (fun _ => hn) nofun
  | copy =>
    simp only [append]
    split
    · next b hb => exact .copy hm hb
    · next hb => exact .noCur hm hb nofun nofun
  | unlock => exact .unlock hm

theorem threadFunc_turn {s t : AsyncLogging ι} (h : s.threadFunc = some t) :
    Turn s .backend t := by
  unfold threadFunc at h
  split at h
  · next hp =>
    obtain rfl := Option.some.inj h
    by_cases hr : s.m_running = true
    · rw [if_pos hr]
      exact .enter hp hr
    · rw [if_neg hr]
      exact .leave hp (Bool.eq_false_iff.mpr hr)
  · next hp =>
    split at h
    · next hm => obtain rfl := Option.some.inj h; exact .lockBuffs hp hm
    · cases h
  · next hp =>
    split at h
    · next he => obtain rfl := Option.some.inj h; exact .wait hp he
    · next b bs he =>
      obtain rfl := Option.some.inj h
      exact .noWait hp (he ▸ List.cons_ne_nil b bs)
  · next hp =>
    split at h
    · next hm => obtain rfl := Option.some.inj h; exact .wake hp hm
    · cases h
  · next hp =>
    split at h
    · next b hb => obtain rfl := Option.some.inj h; exact .pushCur hp hb
    · next hb => obtain rfl := Option.some.inj h; exact .pushNull hp hb
  · next hp => obtain rfl := Option.some.inj h; exact .moveFirst hp
  · next hp => obtain rfl := Option.some.inj h; exact .swapBuffs hp
  · next hp =>
    split at h
    · next b hb => obtain rfl := Option.some.inj h; exact .keepNext hp hb
    · next hb => obtain rfl := Option.some.inj h; exact .moveSecond hp hb
  · next hp => obtain rfl := Option.some.inj h; exact .unlockBuffs hp
  · next hp =>
    split at h
    · next he => obtain rfl := Option.some.inj h; exact .nothing hp he
    · next he =>
      obtain rfl := Option.some.inj h
      by_cases hl : 25 < s.buffsToWrite.length
      · rw [if_pos hl]
        exact .overload hp he hl
      · rw [if_neg hl]
        exact .begin hp he (Nat.not_lt.mp hl)
  · cases h
  · next i hp =>
    split at h
    · next b hb => obtain rfl := Option.some.inj h; exact .write hp hb
    · next hb =>
      obtain rfl := Option.some.inj h
      exact .written hp (List.getElem?_eq_none_iff.mp hb)
  · next hp => obtain rfl := Option.some.inj h; exact .resize hp
  · next hp =>
    split at h
    · next p rest ht => obtain rfl := Option.some.inj h; exact .takeFirst hp ht
    · next ht => obtain rfl := Option.some.inj h; exact .noFirst hp ht
  · next hp =>
    split at h
    · next p rest ht => obtain rfl := Option.some.inj h; exact .takeSecond hp ht
    · next ht => obtain rfl := Option.some.inj h; exact .noSecond hp ht
  · next hp => obtain rfl := Option.some.inj h; exact .clear hp
  · cases h

theorem step_turn {s t : AsyncLogging ι} {e : LogMove ι} (h : s.step e = some t) :
    s.fault = none ∧ Turn s e t := by
  unfold step at h
  split at h
  · cases h
  · next hf =>
    refine ⟨hf, ?_⟩
    split at h
    · split at h
      · next hm => obtain rfl := Option.some.inj h; exact .lock hm
      · cases h
    · split at h
      · next hm => obtain rfl := Option.some.inj h; exact append_turn hm
      · cases h
    · exact threadFunc_turn h
    · split at h
      · next hp => obtain rfl := Option.some.inj h; exact .drop hp
      · cases h
    · obtain rfl := Option.some.inj h; exact .stop

/-! ## Where the buffers are -/

/-- The statements of `ThreadFunc` before which it holds `m_mutex`. -/
def BackendPc.holds : BackendPc → Bool
  | .emptyTest | .pushCur | .moveFirst | .swapBuffs | .moveSecond | .unlock => true
  | _ => false

/-- There is a current buffer, and if the next one is gone then a full one is queued. -/
def Ready (s : AsyncLogging ι) : Prop :=
  s.m_curbuff ≠ none ∧ (s.m_nextbuff = none → s.m_buffs ≠ [])

/-- The backend is about to take `bs`: the buffer that was current and, if the next one is
gone, another one. -/
def Collected (s : AsyncLogging ι) (bs : List Buffer) : Prop :=
  bs ≠ [] ∧ (s.m_nextbuff = none → 2 ≤ bs.length)

/-- The front end's buffers while the backend holds the mutex, at `p`. -/
def SwapFront (s : AsyncLogging ι) (p : BackendPc) : Prop :=
  match p with
  | .moveFirst => s.m_curbuff = none ∧ Collected s s.m_buffs
  | .swapBuffs => s.m_curbuff = some .new ∧ Collected s s.m_buffs
  | .moveSecond => s.m_curbuff = some .new ∧ Collected s s.buffsToWrite
  | .unlock => s.m_curbuff = some .new ∧ s.m_nextbuff ≠ none
  | _ => Ready s

def Front (s : AsyncLogging ι) : Prop :=
  match s.m_mutex with
  | .free => Ready s
  | .appender _ _ pc =>
    match pc with
    | .takeNext => s.m_curbuff = none ∧ s.m_buffs ≠ []
    | _ => Ready s
  | .backend => SwapFront s s.pc

/-- The second spare is at hand, or it was given away and `n` buffers are left. -/
def Owed (s : AsyncLogging ι) (n : Nat) : Prop :=
  s.secondBuffer = some .new ∨ (s.secondBuffer = none ∧ n ≤ s.buffsToWrite.length)

/-- The backend's own buffers at `p`. -/
def Spares (s : AsyncLogging ι) (p : BackendPc) : Prop :=
  match p with
  | .loopTest | .locking | .emptyTest | .waiting | .pushCur | .moveFirst | .finished =>
    s.firstBuffer = some .new ∧ s.secondBuffer = some .new ∧ s.buffsToWrite = []
  | .swapBuffs => s.firstBuffer = none ∧ s.secondBuffer = some .new ∧ s.buffsToWrite = []
  | .moveSecond => s.firstBuffer = none ∧ s.secondBuffer = some .new
  | .unlock | .sizeTest | .dropping | .writing _ | .resize | .takeFirst =>
    s.firstBuffer = none ∧ Owed s 2 ∧ s.buffsToWrite ≠ []
  | .takeSecond => s.firstBuffer = some .new ∧ Owed s 1
  | .clear => s.firstBuffer = some .new ∧ s.secondBuffer = some .new

structure Owned (s : AsyncLogging ι) : Prop where
  exclusive : s.pc.holds = true ↔ s.m_mutex = .backend
  front : Front s
  /-- The next buffer is an unused one. -/
  next : ∀ b, s.m_nextbuff = some b → b = .new
  spares : Spares s s.pc

theorem Front.free {s : AsyncLogging ι} (h : Front s) (hm : s.m_mutex = .free) : Ready s := by
  unfold Front at h
  rw [hm] at h
  exact h

theorem Front.appender {s : AsyncLogging ι} {t : ι} {line : Line} {pc : AppendPc} (h : Front s)
    (hm : s.m_mutex = .appender t line pc) (hp : pc ≠ .takeNext) : Ready s := by
  unfold Front at h
  rw [hm] at h
  cases pc with
  | takeNext => exact absurd rfl hp
  | roomTest | pushCur | copy | unlock => exact h

theorem Front.takeNext {s : AsyncLogging ι} {t : ι} {line : Line} (h : Front s)
    (hm : s.m_mutex = .appender t line .takeNext) : s.m_curbuff = none ∧ s.m_buffs ≠ [] := by
  unfold Front at h
  rw [hm] at h
  exact h

theorem Front.backend {s : AsyncLogging ι} (h : Front s) (hm : s.m_mutex = .backend) :
    SwapFront s s.pc := by
  unfold Front at h
  rw [hm] at h
  exact h

theorem front_of_swap {s : AsyncLogging ι} {p : BackendPc} (hm : s.m_mutex = .backend)
    (hp : s.pc = p) (h : SwapFront s p) : Front s := by
  unfold Front
  rw [hm, hp]
  exact h

/-- What the backend does without the mutex does not concern the front end. -/
theorem Front.frame {s t : AsyncLogging ι} (h : Front s) (hb : s.m_mutex ≠ .backend)
    (hm : t.m_mutex = s.m_mutex) (hc : t.m_curbuff = s.m_curbuff)
    (hn : t.m_nextbuff = s.m_nextbuff) (hq : t.m_buffs = s.m_buffs) : Front t := by
  unfold Front Ready at h ⊢
  rw [hm, hc, hn, hq]
  cases hs : s.m_mutex with
  | free => rw [hs] at h; exact h
  | appender u line pc => rw [hs] at h; exact h
  | backend => exact absurd hs hb

theorem Owned.inside {s : AsyncLogging ι} (h : Owned s) {p : BackendPc} (hp : s.pc = p)
    (hh : p.holds = true) : s.m_mutex = .backend :=
  h.exclusive.mp (hp ▸ hh)

theorem Owned.outside {s : AsyncLogging ι} (h : Owned s) {p : BackendPc} (hp : s.pc = p)
    (hh : p.holds = false) : s.m_mutex ≠ .backend := by
  intro hm
  have ht := h.exclusive.mpr hm
  rw [hp, hh] at ht
  cases ht

theorem Owned.notHolding {s : AsyncLogging ι} (h : Owned s) {m : Holder ι}
    (hs : s.m_mutex = m) (hm : m ≠ .backend) : s.pc.holds = false :=
  Bool.eq_false_iff.mpr fun ht => hm (hs ▸ h.exclusive.mp ht)

theorem Owned.swapFront {s : AsyncLogging ι} (h : Owned s) {p : BackendPc} (hp : s.pc = p)
    (hh : p.holds = true) : SwapFront s p :=
  hp ▸ h.front.backend (h.inside hp hh)

theorem Owned.sparesAt {s : AsyncLogging ι} (h : Owned s) {p : BackendPc} (hp : s.pc = p) :
    Spares s p :=
  hp ▸ h.spares

theorem takeBack_none {s : AsyncLogging ι} (h : s.buffsToWrite ≠ []) :
    s.takeBack none = some (some .new, s.buffsToWrite.dropLast) := by
  unfold takeBack
  rw [List.getLast?_eq_some_getLast h]
  rfl

/-- Cutting `buffsToWrite` to two leaves what is owed. -/
theorem owed_cut {s : AsyncLogging ι} {bs : List Buffer}
    (hl : bs.length = min 2 s.buffsToWrite.length)
    (h : Owed s 2 ∧ s.buffsToWrite ≠ []) :
    Owed { s with buffsToWrite := bs } 2 ∧ bs ≠ [] := by
  have hpos := List.length_pos_iff.mpr h.2
  constructor
  · rcases h.1 with hs | ⟨hs, hn⟩
    · exact Or.inl hs
    · refine Or.inr ⟨hs, ?_⟩
      change 2 ≤ bs.length
      omega
  · apply List.length_pos_iff.mp
    omega

theorem exclusive_turn {s t : AsyncLogging ι} {e : LogMove ι} (h : Owned s) (ht : Turn s e t) :
    t.pc.holds = true ↔ t.m_mutex = .backend := by
  have hout : ∀ {p : BackendPc} {m : Holder ι}, p.holds = false → m ≠ .backend →
      (p.holds = true ↔ m = .backend) := by
    intro p m hp hm
    rw [hp]
    exact iff_of_false nofun hm
  cases ht with
  | lock hm | unlock hm | room hm | full hm | pushFull hm | takeNext hm | resetCur hm
  | copy hm => exact hout (h.notHolding hm nofun) nofun
  | enter hp | leave hp | overload hp | begin hp | write hp | written hp | resize hp
  | takeFirst hp | takeSecond hp | clear hp | drop hp => exact hout rfl (h.outside hp rfl)
  | lockBuffs | wake => exact iff_of_true rfl rfl
  | wait | unlockBuffs => exact hout rfl nofun
  | noWait hp | pushCur hp | moveFirst hp | swapBuffs hp | keepNext hp | moveSecond hp =>
    exact iff_of_true rfl (h.inside hp rfl)
  | noCur | pushNull | nothing | noFirst | noSecond | stop => exact h.exclusive

theorem front_turn {s t : AsyncLogging ι} {e : LogMove ι} (h : Owned s) (ht : Turn s e t) :
    Front t := by
  have hf := h.front
  cases ht with
  | lock hm => exact hf.free hm
  | room hm | full hm | unlock hm => exact hf.appender hm nofun
  | pushFull hm => exact ⟨rfl, List.append_ne_nil_of_right_ne_nil _ (List.cons_ne_nil _ _)⟩
  | takeNext hm | resetCur hm => exact ⟨Option.some_ne_none _, fun _ => (hf.takeNext hm).2⟩
  | copy hm => exact ⟨Option.some_ne_none _, (hf.appender hm nofun).2⟩
  | enter hp | leave hp | overload hp | begin hp | write hp | written hp | resize hp
  | takeFirst hp | takeSecond hp | clear hp | drop hp =>
    exact hf.frame (h.outside hp rfl) rfl rfl rfl rfl
  | lockBuffs hp hm | wake hp hm => exact hf.free hm
  | wait hp =>
    have hready : Ready s := h.swapFront hp rfl
    exact hready
  | noWait hp =>
    have hready : Ready s := h.swapFront hp rfl
    exact front_of_swap (h.inside hp rfl) rfl hready
  | @pushCur b hp hb =>
    have hready : Ready s := h.swapFront hp rfl
    refine front_of_swap (h.inside hp rfl) rfl ⟨rfl, ?_, fun hn => ?_⟩
    · exact List.append_ne_nil_of_right_ne_nil _ (List.cons_ne_nil _ _)
    · have hpos := List.length_pos_iff.mpr (hready.2 hn)
      change 2 ≤ (s.m_buffs ++ [b]).length
      rw [List.length_append, List.length_singleton]
      omega
  | moveFirst hp =>
    have hswap := h.swapFront hp rfl
    have hspares := h.sparesAt hp
    exact front_of_swap (h.inside hp rfl) rfl ⟨hspares.1, hswap.2⟩
  | swapBuffs hp =>
    have hswap := h.swapFront hp rfl
    exact front_of_swap (h.inside hp rfl) rfl hswap
  | keepNext hp hb =>
    have hswap := h.swapFront hp rfl
    refine front_of_swap (h.inside hp rfl) rfl ⟨hswap.1, ?_⟩
    rw [hb]
    exact Option.some_ne_none _
  | moveSecond hp hb =>
    have hswap := h.swapFront hp rfl
    have hspares := h.sparesAt hp
    refine front_of_swap (h.inside hp rfl) rfl ⟨hswap.1, ?_⟩
    rw [hspares.2]
    exact Option.some_ne_none _
  | unlockBuffs hp =>
    have hswap := h.swapFront hp rfl
    refine ⟨?_, fun hn => absurd hn hswap.2⟩
    rw [hswap.1]
    exact Option.some_ne_none _
  | noCur | pushNull | nothing | noFirst | noSecond | stop => exact hf

theorem next_turn {s t : AsyncLogging ι} {e : LogMove ι} (h : Owned s) (ht : Turn s e t) :
    ∀ b, t.m_nextbuff = some b → b = .new := by
  cases ht with
  | takeNext => exact nofun
  | moveSecond hp =>
    intro b hb
    exact Option.some.inj (hb.symm.trans (h.sparesAt hp).2)
  | lock | room | full | pushFull | resetCur | copy | unlock | noCur | enter | leave | lockBuffs
  | wait | noWait | wake | pushCur | pushNull | moveFirst | swapBuffs | keepNext | unlockBuffs
  | nothing | overload | begin | write | written | resize | takeFirst | noFirst | takeSecond
  | noSecond | clear | drop | stop => exact h.next

theorem spares_turn {s t : AsyncLogging ι} {e : LogMove ι} (h : Owned s) (ht : Turn s e t) :
    Spares t t.pc := by
  cases ht with
  | enter hp | leave hp | lockBuffs hp | wait hp | noWait hp | wake hp | pushCur hp
  | unlockBuffs hp | overload hp | begin hp | write hp | written hp => exact h.sparesAt hp
  | moveFirst hp =>
    have hs := h.sparesAt hp
    exact ⟨rfl, hs.2⟩
  | swapBuffs hp =>
    have hs := h.sparesAt hp
    exact ⟨hs.1, hs.2.1⟩
  | keepNext hp =>
    have hs := h.sparesAt hp
    have hswap := h.swapFront hp rfl
    exact ⟨hs.1, Or.inl hs.2, hswap.2.1⟩
  | moveSecond hp hb =>
    have hs := h.sparesAt hp
    have hswap := h.swapFront hp rfl
    exact ⟨hs.1, Or.inr ⟨rfl, hswap.2.2 hb⟩, hswap.2.1⟩
  | resize hp =>
    have hs := h.sparesAt hp
    refine ⟨hs.1, owed_cut ?_ hs.2⟩
    split
    · exact List.length_take
    · omega
  | drop hp =>
    have hs := h.sparesAt hp
    exact ⟨hs.1, owed_cut List.length_take hs.2⟩
  | takeFirst hp ht =>
    have hs := h.sparesAt hp
    rw [hs.1, takeBack_none hs.2.2] at ht
    obtain ⟨rfl, rfl⟩ := Prod.mk.inj (Option.some.inj ht)
    refine ⟨rfl, hs.2.1.imp_right fun ⟨hn, hl⟩ => ⟨hn, ?_⟩⟩
    change 1 ≤ s.buffsToWrite.dropLast.length
    rw [List.length_dropLast]
    omega
  | takeSecond hp ht =>
    have hs := h.sparesAt hp
    rcases hs.2 with hn | ⟨hn, hl⟩
    · rw [hn] at ht
      obtain ⟨rfl, rfl⟩ := Prod.mk.inj (Option.some.inj ht)
      exact ⟨hs.1, rfl⟩
    · rw [hn, takeBack_none (List.length_pos_iff.mp hl)] at ht
      obtain ⟨rfl, rfl⟩ := Prod.mk.inj (Option.some.inj ht)
      exact ⟨hs.1, rfl⟩
  | clear hp =>
    have hs := h.sparesAt hp
    exact ⟨hs.1, hs.2, rfl⟩
  | lock | room | full | pushFull | takeNext | resetCur | copy | unlock | noCur | pushNull
  | nothing | noFirst | noSecond | stop => exact h.spares

theorem owned_turn {s t : AsyncLogging ι} {e : LogMove ι} (h : Owned s) (ht : Turn s e t) :
    Owned t :=
  ⟨exclusive_turn h ht, front_turn h ht, next_turn h ht, spares_turn h ht⟩

theorem owned_start : Owned (start ι) where
  exclusive := iff_of_false nofun nofun
  front := ⟨Option.some_ne_none _, nofun⟩
  next _ hb := (Option.some.inj hb).symm
  spares := ⟨rfl, rfl, rfl⟩

/-- The only fault there is: an `append` that released the current buffer and has no next. -/
theorem fault_turn {s t : AsyncLogging ι} {e : LogMove ι} (h : Owned s) (hf : s.fault = none)
    (ht : Turn s e t) (hc : t.fault ≠ none) :
    t.fault = some .nullPointer ∧ s.m_nextbuff = none ∧
      ∃ u line, s.m_mutex = .appender u line .takeNext := by
  cases ht with
  | @noCur u line pc hm hb hn hu =>
    by_cases hp : pc = .takeNext
    · subst pc
      exact ⟨rfl, hn rfl, u, line, hm⟩
    · exact absurd hb (h.front.appender hm hp).1
  | pushNull hp hb =>
    have hready : Ready s := h.swapFront hp rfl
    exact absurd hb hready.1
  | nothing hp he => exact absurd he (h.sparesAt hp).2.2
  | noFirst hp ht =>
    have hs := h.sparesAt hp
    rw [hs.1, takeBack_none hs.2.2] at ht
    cases ht
  | noSecond hp ht =>
    have hs := h.sparesAt hp
    rcases hs.2 with hn | ⟨hn, hl⟩
    · rw [hn] at ht
      cases ht
    · rw [hn, takeBack_none (List.length_pos_iff.mp hl)] at ht
      cases ht
  | lock | room | full | pushFull | takeNext | resetCur | copy | unlock | enter | leave | lockBuffs
  | wait | noWait | wake | pushCur | moveFirst | swapBuffs | keepNext | moveSecond | unlockBuffs
  | overload | begin | write | written | resize | takeFirst | takeSecond | clear | drop
  | stop => exact absurd hf hc

/-- Owned states that have not failed an assertion: what every run keeps. -/
structure Sound (s : AsyncLogging ι) : Prop where
  owned : Owned s
  fault : s.fault ≠ some .nullPointer → s.fault = none

theorem sound_turn {s t : AsyncLogging ι} {e : LogMove ι} (h : Sound s) (hf : s.fault = none)
    (ht : Turn s e t) : Sound t where
  owned := owned_turn h.owned ht
  fault hn := by
    by_contra hc
    exact hn (fault_turn h.owned hf ht hc).1

theorem sound_inductive (C : AsyncLogging ι → LogMove ι → Prop) :
    (logging ι).Inductive C Sound where
  init := by
    rintro s rfl
    exact ⟨owned_start, fun _ => rfl⟩
  step s e t hs _ h := by
    obtain ⟨hf, ht⟩ := step_turn h
    exact sound_turn hs hf ht

/-! ## Whether the front end has a buffer -/

/-- When `m_mutex` is free there is a current buffer, and no empty one was dereferenced. -/
def FrontServed (s : AsyncLogging ι) : Prop :=
  (s.m_mutex = .free → s.m_curbuff ≠ none) ∧ s.fault ≠ some .nullPointer

/-- An `append` is about to find the current buffer too full for its line. -/
def overflows (s : AsyncLogging ι) : Bool :=
  match s.m_mutex, s.m_curbuff with
  | .appender _ line .roomTest, some b => decide (b.avail ≤ line.length)
  | _, _ => false

/-- Whenever an `append` finds the current buffer too full, there is a next one. -/
def NextAtHand (s : AsyncLogging ι) : LogMove ι → Prop
  | .append => s.overflows = true → s.m_nextbuff.isSome = true
  | _ => True

instance (s : AsyncLogging ι) : (e : LogMove ι) → Decidable (NextAtHand s e)
  | .append => inferInstanceAs (Decidable (_ → _))
  | .lock _ _ | .backend | .drop _ _ | .stop => inferInstanceAs (Decidable True)

/-- An `append` past the test that found no room has a next buffer to take. -/
def Refillable (s : AsyncLogging ι) : Prop :=
  match s.m_mutex with
  | .appender _ _ .pushCur | .appender _ _ .takeNext => s.m_nextbuff.isSome = true
  | _ => True

theorem refillable_backend {s : AsyncLogging ι} (hm : s.m_mutex = .backend) : Refillable s := by
  unfold Refillable
  rw [hm]
  exact trivial

theorem refillable_turn {s t : AsyncLogging ι} {e : LogMove ι} (ho : Owned s) (h : Refillable s)
    (hc : NextAtHand s e) (ht : Turn s e t) : Refillable t := by
  cases ht with
  | lock | room | takeNext | resetCur | copy | unlock | lockBuffs | wait | wake | unlockBuffs =>
    exact trivial
  | full hm hb hl =>
    refine hc ?_
    unfold overflows
    rw [hm, hb]
    exact decide_eq_true hl
  | pushFull hm =>
    unfold Refillable at h
    rw [hm] at h
    exact h
  | noWait hp | pushCur hp | moveFirst hp | swapBuffs hp | keepNext hp | moveSecond hp =>
    exact refillable_backend (ho.inside hp rfl)
  | noCur | enter | leave | pushNull | nothing | overload | begin | write | written | resize
  | takeFirst | noFirst | takeSecond | noSecond | clear | drop | stop => exact h

theorem served_inductive :
    (logging ι).Inductive NextAtHand
      (fun s => Sound s ∧ Refillable s ∧ s.fault = none) := by
  refine (sound_inductive NextAtHand).and ?_ ?_
  · rintro s rfl
    exact ⟨trivial, rfl⟩
  · intro s e t hs hr hc h
    obtain ⟨hf, ht⟩ := step_turn h
    refine ⟨refillable_turn hs.owned hr.1 hc ht, ?_⟩
    by_contra hfault
    obtain ⟨-, hn, u, line, hm⟩ := fault_turn hs.owned hf ht hfault
    have hnext := hr.1
    unfold Refillable at hnext
    rw [hm, hn] at hnext
    cases hnext

/-- The state after a line as long as a whole buffer. -/
def filled (line : Line) : AsyncLogging ι :=
  { start ι with
    m_buffs := [.new]
    m_curbuff := some ((FixedBuffer.new : Buffer).append line).2
    m_nextbuff := none
    acquired := [line]
    appended := [line]
    returned := [line] }

/-- The line finds the next buffer in its place. -/
theorem runIf_filled {line : Line} (t : ι) (hl : line.length = kLargeBuffer) :
    (logging ι).runIf NextAtHand (start ι)
      [.lock t line, .append, .append, .append, .append, .append] = some (filled line) := by
  have hroom : ¬ line.length < (FixedBuffer.new : Buffer).avail := by
    rw [hl]
    exact Nat.lt_irrefl _
  have hnext : (some (FixedBuffer.new : Buffer)).isSome = true := rfl
  simp only [Machine.runIf, NextAtHand, overflows, Bool.false_eq_true, false_implies, if_true,
    logging, step, start, append, if_neg hroom, Option.bind_some, List.nil_append, filled, hnext,
    implies_true]

theorem run_filled {line : Line} (t : ι) (hl : line.length = kLargeBuffer) :
    (logging ι).run (start ι) [.lock t line, .append, .append, .append, .append, .append] =
      some (filled line) :=
  Machine.run_of_runIf (runIf_filled t hl)

/-- The line that fills a buffer has taken the next one, and the backend has just swapped. -/
def justSwapped (line : Line) : AsyncLogging ι :=
  { (filled line : AsyncLogging ι) with
    m_mutex := .backend
    pc := .moveSecond
    m_curbuff := some .new
    m_buffs := []
    firstBuffer := none
    buffsToWrite := [.new, ((FixedBuffer.new : Buffer).append line).2]
    swapped := 1 }

theorem runIf_justSwapped (line : Line) :
    (logging ι).runIf NextAtHand (filled line) (List.replicate 6 .backend) =
      some (justSwapped line) := rfl

theorem reach_justSwapped {line : Line} (t : ι) (hl : line.length = kLargeBuffer) :
    (logging ι).Reach (justSwapped line) := by
  have hfilled := Machine.reachIf_of_runIf (.init rfl) (runIf_filled t hl)
  have hswapped := Machine.reachIf_of_runIf hfilled (runIf_justSwapped line)
  exact hswapped.mono fun _ _ _ => trivial

/-- In every run in which each `append` that finds the current buffer too full finds a next
buffer, the front end always has one to write to. -/
theorem front_served {s : AsyncLogging ι} (h : (logging ι).ReachIf NextAtHand s) :
    FrontServed s := by
  obtain ⟨hs, -, hf⟩ := served_inductive.reach h
  refine ⟨fun hm => (hs.owned.front.free hm).1, ?_⟩
  rw [hf]
  exact nofun

/-- A line takes the next buffer, the backend swaps and gives its spare for it, and the line
after that has the whole current buffer. -/
theorem front_served_swap :
    ∃ s, (logging Bool).ReachIf NextAtHand s ∧ s.m_mutex = .free ∧ s.m_nextbuff = some .new ∧
      s.appended = [List.replicate kLargeBuffer 0, [65]] ∧ FrontServed s := by
  have hl : (List.replicate kLargeBuffer (0 : Byte)).length = kLargeBuffer := List.length_replicate
  have hfilled := Machine.reachIf_of_runIf (.init rfl) (runIf_filled true hl)
  have hswapped := Machine.reachIf_of_runIf hfilled (runIf_justSwapped _)
  have hrest : ∃ s, (logging Bool).runIf NextAtHand (justSwapped (List.replicate kLargeBuffer 0))
      [.backend, .backend, .lock false [65], .append, .append, .append] = some s ∧
      s.m_mutex = .free ∧ s.m_nextbuff = some .new ∧
      s.appended = [List.replicate kLargeBuffer 0, [65]] := ⟨_, rfl, rfl, rfl, rfl⟩
  obtain ⟨s, hrun, hfree, hnext, happended⟩ := hrest
  have hreach := Machine.reachIf_of_runIf hswapped hrun
  exact ⟨s, hreach, hfree, hnext, happended, front_served hreach⟩

/-- The condition is exact: an `append` that finds neither room nor a next buffer goes on to
dereference the buffer it has just released. -/
theorem overflow_faults {s : AsyncLogging ι} {t : ι} {line : Line} {b : Buffer}
    (hf : s.fault = none) (hm : s.m_mutex = .appender t line .roomTest)
    (hb : s.m_curbuff = some b) (hl : b.avail ≤ line.length) (hn : s.m_nextbuff = none) :
    ∃ u, (logging ι).run s [.append, .append, .append] = some u ∧
      u.fault = some .nullPointer := by
  have hroom : ¬ line.length < b.avail := Nat.not_lt.mpr hl
  refine ⟨{ s with
    m_buffs := s.m_buffs ++ [b]
    m_curbuff := none
    m_mutex := .appender t line .takeNext
    fault := some .nullPointer }, ?_, rfl⟩
  simp only [Machine.run, Machine.runIf, if_true, logging, step, hf, hm, append, hb, hn,
    if_neg hroom, Option.bind_some]

/-- A line as long as a whole buffer uses up the next buffer and fills it. -/
theorem fills_next {line : Line} (t : ι) (hl : line.length = kLargeBuffer) :
    ∃ s, (logging ι).run (start ι) [.lock t line, .append, .append, .append, .append, .append] =
        some s ∧
      s.m_mutex = .free ∧ s.fault = none ∧ s.m_nextbuff = none ∧
      ∃ b, s.m_curbuff = some b ∧ b.avail = 0 :=
  ⟨filled line, run_filled t hl, rfl, rfl, rfl, _, rfl, FixedBuffer.append_exact hl⟩

/-- Two such lines between two swaps: the second one has no buffer to go to. -/
theorem second_overflow_faults : ¬ ∀ s, (logging Bool).Reach s → FrontServed s := by
  intro h
  have hl : (List.replicate kLargeBuffer (0 : Byte)).length = kLargeBuffer := List.length_replicate
  obtain ⟨s, hs, hm, hf, hn, b, hb, ha⟩ := fills_next true hl
  obtain ⟨s', hlock, hf', hm', hb', hn'⟩ : ∃ s', (logging Bool).step s (.lock false []) = some s' ∧
      s'.fault = none ∧ s'.m_mutex = .appender false [] .roomTest ∧ s'.m_curbuff = some b ∧
      s'.m_nextbuff = none := by
    simp only [logging, step, hf, hm]
    exact ⟨_, rfl, rfl, rfl, hb, hn⟩
  have hfull : b.avail ≤ ([] : Line).length := Nat.le_of_eq ha
  obtain ⟨u, hu, hfault⟩ := overflow_faults hf' hm' hb' hfull hn'
  have hreach := Machine.reachIf_of_runIf (.init rfl) hs
  exact (h u (Machine.reachIf_of_runIf (.step _ hreach trivial hlock) hu)).2 hfault

end MyNet.Base.AsyncLogging
