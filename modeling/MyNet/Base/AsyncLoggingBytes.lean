import MyNet.Base.AsyncLoggingBuffers

/-!
# The bytes of `AsyncLogging`

What the log file has been handed, followed by what is still in the buffers of the
backend and of the front end, is the appended lines one after the other, in the order
in which their calls acquired `m_mutex`. The last swap splits the lines: those before it
are the backend's, those after it the front end's.
-/
namespace MyNet.Base.AsyncLogging

open Lib

variable {ι : Type}

def bytes (bs : List Buffer) : List Byte := bs.flatMap FixedBuffer.data

def curBytes : BuffPtr → List Byte
  | some b => b.data
  | none => []

/-- The buffers of `buffsToWrite` that have not been written at `p`. -/
def unwritten (bs : List Buffer) : BackendPc → List Buffer
  | .moveSecond | .unlock | .sizeTest | .dropping => bs
  | .writing i => bs.drop i
  | _ => []

/-- The line of a call that holds the mutex and has not copied it yet. -/
def inFlight : Holder ι → List Line
  | .appender _ line pc =>
    match pc with
    | .unlock => []
    | _ => [line]
  | _ => []

@[simp] theorem bytes_nil : bytes [] = [] := rfl

@[simp] theorem bytes_append (bs cs : List Buffer) : bytes (bs ++ cs) = bytes bs ++ bytes cs :=
  List.flatMap_append

@[simp] theorem bytes_cons (b : Buffer) (bs : List Buffer) :
    bytes (b :: bs) = b.data ++ bytes bs := rfl

/-- Lines no longer than a buffer, and no overload drop. -/
def Ordinary (_ : AsyncLogging ι) : LogMove ι → Prop
  | .lock _ line => line.length ≤ kLargeBuffer
  | .drop _ _ => False
  | _ => True

instance (s : AsyncLogging ι) : (e : LogMove ι) → Decidable (Ordinary s e)
  | .lock _ _ => inferInstanceAs (Decidable (_ ≤ _))
  | .drop _ _ => inferInstanceAs (Decidable False)
  | .append | .backend | .stop => inferInstanceAs (Decidable True)

/-- A line fits an empty buffer; at the copy it fits the current one. -/
def HasRoom (s : AsyncLogging ι) : Prop :=
  match s.m_mutex with
  | .appender _ line pc =>
    line.length ≤ kLargeBuffer ∧
      (pc = .copy → ∀ b, s.m_curbuff = some b → line.length ≤ b.avail)
  | _ => True

structure Conserved (s : AsyncLogging ι) : Prop where
  room : HasRoom s
  order : s.acquired = s.appended ++ inFlight s.m_mutex
  taken : s.swapped ≤ s.appended.length
  back : s.logout ++ bytes (unwritten s.buffsToWrite s.pc) = (s.appended.take s.swapped).flatten
  queued : bytes s.m_buffs ++ curBytes s.m_curbuff = (s.appended.drop s.swapped).flatten

theorem HasRoom.appender {s : AsyncLogging ι} {t : ι} {line : Line} {pc : AppendPc}
    (h : HasRoom s) (hm : s.m_mutex = .appender t line pc) :
    line.length ≤ kLargeBuffer ∧
      (pc = .copy → ∀ b, s.m_curbuff = some b → line.length ≤ b.avail) := by
  unfold HasRoom at h
  rw [hm] at h
  exact h

theorem hasRoom_backend {s : AsyncLogging ι} (hm : s.m_mutex = .backend) : HasRoom s := by
  unfold HasRoom
  rw [hm]
  exact trivial

theorem hasRoom_turn {s t : AsyncLogging ι} {e : LogMove ι} (ho : Owned s) (h : HasRoom s)
    (hc : Ordinary s e) (ht : Turn s e t) : HasRoom t := by
  cases ht with
  | lock => exact ⟨hc, nofun⟩
  | @room u line b hm hb hl =>
    refine ⟨(h.appender hm).1, fun _ b' hb' => ?_⟩
    obtain rfl := Option.some.inj (hb.symm.trans hb')
    exact Nat.le_of_lt hl
  | full hm | pushFull hm | copy hm => exact ⟨(h.appender hm).1, nofun⟩
  | @takeNext u line b hm hb =>
    refine ⟨(h.appender hm).1, fun _ b' hb' => ?_⟩
    obtain rfl := Option.some.inj hb'
    rw [ho.next b hb, FixedBuffer.avail_new]
    exact (h.appender hm).1
  | resetCur hm =>
    refine ⟨(h.appender hm).1, fun _ b' hb' => ?_⟩
    obtain rfl := Option.some.inj hb'
    exact (h.appender hm).1
  | unlock | lockBuffs | wait | wake | unlockBuffs => exact trivial
  | noWait hp | pushCur hp | moveFirst hp | swapBuffs hp | keepNext hp | moveSecond hp =>
    exact hasRoom_backend (ho.inside hp rfl)
  | noCur | enter | leave | pushNull | nothing | overload | begin | write | written | resize
  | takeFirst | noFirst | takeSecond | noSecond | clear | drop | stop => exact h

theorem order_turn {s t : AsyncLogging ι} {e : LogMove ι} (ho : Owned s)
    (h : s.acquired = s.appended ++ inFlight s.m_mutex) (ht : Turn s e t) :
    t.acquired = t.appended ++ inFlight t.m_mutex := by
  cases ht with
  | @lock u line hm =>
    rw [hm] at h
    change s.acquired ++ [line] = s.appended ++ [line]
    rw [h]
    exact congrArg (· ++ [line]) (List.append_nil _)
  | room hm | full hm | pushFull hm | takeNext hm | resetCur hm | unlock hm | lockBuffs hp hm
  | wake hp hm =>
    rw [hm] at h
    exact h
  | copy hm =>
    rw [hm] at h
    exact h.trans (List.append_nil _).symm
  | wait hp | unlockBuffs hp =>
    rw [ho.inside hp rfl] at h
    exact h
  | noCur | enter | leave | noWait | pushCur | pushNull | moveFirst | swapBuffs | keepNext
  | moveSecond | nothing | overload | begin | write | written | resize | takeFirst | noFirst
  | takeSecond | noSecond | clear | drop | stop => exact h

theorem taken_turn {s t : AsyncLogging ι} {e : LogMove ι} (h : s.swapped ≤ s.appended.length)
    (ht : Turn s e t) : t.swapped ≤ t.appended.length := by
  cases ht with
  | @copy u line b hm hb =>
    change s.swapped ≤ (s.appended ++ [line]).length
    rw [List.length_append]
    omega
  | swapBuffs => exact Nat.le_refl _
  | lock | room | full | pushFull | takeNext | resetCur | unlock | noCur | enter | leave
  | lockBuffs | wait | noWait | wake | pushCur | pushNull | moveFirst | keepNext | moveSecond
  | unlockBuffs | nothing | overload | begin | write | written | resize | takeFirst | noFirst
  | takeSecond | noSecond | clear | drop | stop => exact h

theorem queued_turn {s t : AsyncLogging ι} {e : LogMove ι} (ho : Owned s) (h : Conserved s)
    (ht : Turn s e t) :
    bytes t.m_buffs ++ curBytes t.m_curbuff = (t.appended.drop t.swapped).flatten := by
  have hq := h.queued
  cases ht with
  | @pushFull u line b hm hb =>
    change bytes (s.m_buffs ++ [b]) ++ [] = _
    rw [hb] at hq
    rw [bytes_append, bytes_cons, bytes_nil, List.append_nil, List.append_nil]
    exact hq
  | @takeNext u line b hm hb =>
    rw [(ho.front.takeNext hm).1] at hq
    change bytes s.m_buffs ++ b.data = _
    rw [ho.next b hb]
    exact hq
  | resetCur hm hn hb =>
    rw [(ho.front.takeNext hm).1] at hb
    cases hb
  | @copy u line b hm hb =>
    change bytes s.m_buffs ++ (b.append line).2.data = ((s.appended ++ [line]).drop s.swapped).flatten
    rw [hb] at hq
    rw [FixedBuffer.append_data ((h.room.appender hm).2 rfl b hb),
      List.drop_append_of_le_length h.taken, List.flatten_append, List.flatten_singleton,
      ← List.append_assoc]
    exact congrArg (· ++ line) hq
  | @pushCur b hp hb =>
    change bytes (s.m_buffs ++ [b]) ++ [] = _
    rw [hb] at hq
    rw [bytes_append, bytes_cons, bytes_nil, List.append_nil, List.append_nil]
    exact hq
  | moveFirst hp =>
    rw [(ho.swapFront hp rfl).1] at hq
    change bytes s.m_buffs ++ curBytes s.firstBuffer = _
    rw [(ho.sparesAt hp).1]
    exact hq
  | swapBuffs hp =>
    change bytes s.buffsToWrite ++ curBytes s.m_curbuff =
      (s.appended.drop s.appended.length).flatten
    rw [(ho.sparesAt hp).2.2, (ho.swapFront hp rfl).1, List.drop_length]
    rfl
  | lock | room | full | unlock | noCur | enter | leave | lockBuffs | wait | noWait | wake
  | pushNull | keepNext | moveSecond | unlockBuffs | nothing | overload | begin | write | written
  | resize | takeFirst | noFirst | takeSecond | noSecond | clear | drop | stop => exact hq

theorem Conserved.backAt {s : AsyncLogging ι} (h : Conserved s) {p : BackendPc} (hp : s.pc = p) :
    s.logout ++ bytes (unwritten s.buffsToWrite p) = (s.appended.take s.swapped).flatten :=
  hp ▸ h.back

theorem back_turn {s t : AsyncLogging ι} {e : LogMove ι} (ho : Owned s) (h : Conserved s)
    (hc : Ordinary s e) (ht : Turn s e t) :
    t.logout ++ bytes (unwritten t.buffsToWrite t.pc) = (t.appended.take t.swapped).flatten := by
  cases ht with
  | @copy u line b hm hb =>
    change _ = ((s.appended ++ [line]).take s.swapped).flatten
    rw [List.take_append_of_le_length h.taken]
    exact h.back
  | swapBuffs hp =>
    have hb := h.backAt hp
    have hq := h.queued
    rw [(ho.swapFront hp rfl).1] at hq
    change s.logout ++ bytes s.m_buffs = (s.appended.take s.appended.length).flatten
    rw [List.take_length]
    calc s.logout ++ bytes s.m_buffs
        = (s.logout ++ []) ++ (bytes s.m_buffs ++ []) := by simp only [List.append_nil]
      _ = (s.appended.take s.swapped).flatten ++ (s.appended.drop s.swapped).flatten :=
          congrArg₂ (· ++ ·) hb hq
      _ = s.appended.flatten := by rw [← List.flatten_append, List.take_append_drop]
  | @write i b hp hb =>
    have hw := h.backAt hp
    obtain ⟨hi, hget⟩ := List.getElem?_eq_some_iff.mp hb
    change (s.logout ++ b.data) ++ bytes (s.buffsToWrite.drop (i + 1)) = _
    rw [← hw, unwritten, List.drop_eq_getElem_cons hi, hget, bytes_cons, List.append_assoc]
  | @written i hp hi =>
    have hw := h.backAt hp
    rw [unwritten, List.drop_eq_nil_of_le hi] at hw
    exact hw
  | drop => exact hc.elim
  | enter hp | leave hp | lockBuffs hp | wait hp | noWait hp | wake hp | pushCur hp | moveFirst hp
  | keepNext hp | moveSecond hp | unlockBuffs hp | overload hp | begin hp | resize hp
  | takeFirst hp | takeSecond hp | clear hp =>
    have hb := h.backAt hp
    exact hb
  | lock | room | full | pushFull | takeNext | resetCur | unlock | noCur | pushNull | nothing
  | noFirst | noSecond | stop => exact h.back

theorem conserved_start : Conserved (start ι) where
  room := trivial
  order := rfl
  taken := Nat.le_refl 0
  back := rfl
  queued := rfl

theorem conserved_inductive :
    (logging ι).Inductive Ordinary (fun s => Sound s ∧ Conserved s) := by
  refine (sound_inductive Ordinary).and ?_ ?_
  · rintro s rfl
    exact conserved_start
  · intro s e t hs h hc hstep
    obtain ⟨-, ht⟩ := step_turn hstep
    exact ⟨hasRoom_turn hs.owned h.room hc ht, order_turn hs.owned h.order ht,
      taken_turn h.taken ht, back_turn hs.owned h hc ht, queued_turn hs.owned h ht⟩

/-- A buffer that is there is empty. -/
def Unused (p : BuffPtr) : Prop := ∀ b, p = some b → b.data = []

theorem unused_new {p : BuffPtr} (h : p = none ∨ p = some .new) : Unused p := by
  intro b hb
  rcases h with h | h
  · rw [h] at hb
    cases hb
  · obtain rfl := Option.some.inj (h.symm.trans hb)
    rfl

theorem Spares.unused {s : AsyncLogging ι} {p : BackendPc} (h : Spares s p) :
    Unused s.firstBuffer ∧ Unused s.secondBuffer := by
  have howed : ∀ n, Owed s n → Unused s.secondBuffer := by
    intro n ho
    exact unused_new (ho.symm.imp_left And.left)
  cases p with
  | loopTest | locking | emptyTest | waiting | pushCur | moveFirst | finished =>
    exact ⟨unused_new (Or.inr h.1), unused_new (Or.inr h.2.1)⟩
  | swapBuffs => exact ⟨unused_new (Or.inl h.1), unused_new (Or.inr h.2.1)⟩
  | moveSecond => exact ⟨unused_new (Or.inl h.1), unused_new (Or.inr h.2)⟩
  | unlock | sizeTest | dropping | writing | resize | takeFirst =>
    exact ⟨unused_new (Or.inl h.1), howed 2 h.2.1⟩
  | takeSecond => exact ⟨unused_new (Or.inr h.1), howed 1 h.2⟩
  | clear => exact ⟨unused_new (Or.inr h.1), unused_new (Or.inr h.2)⟩

/-- In every state the bytes in the log file and in the buffers are the appended lines in the
order of their calls, and the buffers waiting to be reused are empty. -/
theorem bytes_conserved {s : AsyncLogging ι} (h : (logging ι).ReachIf Ordinary s) :
    s.logout ++ bytes (unwritten s.buffsToWrite s.pc) ++ bytes s.m_buffs ++
        curBytes s.m_curbuff = s.appended.flatten ∧
      s.acquired = s.appended ++ inFlight s.m_mutex ∧
      Unused s.m_nextbuff ∧ Unused s.firstBuffer ∧ Unused s.secondBuffer := by
  obtain ⟨hs, hc⟩ := conserved_inductive.reach h
  refine ⟨?_, hc.order, ?_, hs.owned.spares.unused⟩
  · rw [hc.back, List.append_assoc, hc.queued, ← List.flatten_append, List.take_append_drop]
  · intro b hb
    rw [hs.owned.next b hb]
    rfl

/-- One line written by the backend, another one appended meanwhile. -/
theorem bytes_conserved_two :
    ∃ s, (logging Bool).runIf Ordinary (start Bool)
        ([.lock true [65], .append, .append, .append] ++ List.replicate 11 .backend ++
          [.lock false [66], .append, .append, .append]) = some s ∧
      s.logout = [65] ∧ s.acquired = [[65], [66]] ∧
      s.logout ++ bytes (unwritten s.buffsToWrite s.pc) ++ bytes s.m_buffs ++
        curBytes s.m_curbuff = s.appended.flatten := by
  have hrun : (logging Bool).runIf Ordinary (start Bool)
      ([.lock true [65], .append, .append, .append] ++ List.replicate 11 .backend ++
        [.lock false [66], .append, .append, .append]) = some _ := rfl
  exact ⟨_, hrun, rfl, rfl, (bytes_conserved (Machine.reachIf_of_runIf (.init rfl) hrun)).1⟩

end MyNet.Base.AsyncLogging
