import MyNet.Base.AsyncLoggingBytes

/-!
# What an iteration of `AsyncLogging` writes

From the swap to the end of the iteration the list that the backend took is its own, so the
appends of other threads do not change what is written. Up to 25 buffers are written as they
are. From 26 on the array of the announcement is handed over whole: its text, the NUL that
ends it, and what the stack held behind it, before the first two buffers.

Up to there the lists are any lists. An `append` that finds no next buffer does not allocate
one, so the front end never queues more than two, and the announcement never comes up.
-/
namespace MyNet.Base.AsyncLogging

open Lib

variable {ι : Type}

def BackendPc.isLoopTest : BackendPc → Bool
  | .loopTest => true
  | _ => false

/-- The backend does not enter the next iteration. The other threads go on. -/
def SameIteration (s : AsyncLogging ι) : LogMove ι → Prop
  | .backend => s.pc.isLoopTest = false
  | _ => True

instance (s : AsyncLogging ι) : (e : LogMove ι) → Decidable (SameIteration s e)
  | .backend => inferInstanceAs (Decidable (_ = _))
  | .lock _ _ | .append | .drop _ _ | .stop => inferInstanceAs (Decidable True)

/-- The announcement that `n` buffers are dropped, without the NUL. -/
def dropText (now : List Byte) (n : Nat) : List Byte :=
  ascii "Drop some log at " ++ now ++ ascii ", " ++ ascii (toString n)

/-- The output `out` is what the buffers `taken` call for: all of them, or the announcement,
which counts the discarded ones, and the first two. -/
def Exact (taken : List Buffer) (out : List Byte) : Prop :=
  if taken.length ≤ 25 then out = bytes taken
  else ∃ now, 0 ∉ now ∧ out = dropText now (taken.drop 2).length ++ bytes (taken.take 2)

/-- What stands in front of the buffers that are kept. -/
def Headed (taken kept : List Buffer) (head : List Byte) : Prop :=
  taken.length ≤ 25 ∧ kept = taken ∧ head = [] ∨
    25 < taken.length ∧ kept = taken.take 2 ∧
      ∃ now temp, head = announcement now temp taken.length

/-- What has been written at `p` after `log`, in the iteration that took `taken`. -/
def Written (log : List Byte) (taken : List Buffer) (s : AsyncLogging ι) (p : BackendPc) : Prop :=
  match p with
  | .moveSecond | .unlock | .sizeTest => s.logout = log ∧ s.buffsToWrite = taken
  | .dropping => s.logout = log ∧ s.buffsToWrite = taken ∧ 25 < taken.length
  | .writing i =>
    ∃ head, Headed taken s.buffsToWrite head ∧
      s.logout = log ++ (head ++ bytes (s.buffsToWrite.take i))
  | .resize | .takeFirst | .takeSecond | .clear | .loopTest =>
    ∃ kept head, Headed taken kept head ∧ s.logout = log ++ (head ++ bytes kept)
  | .locking | .emptyTest | .waiting | .pushCur | .moveFirst | .swapBuffs | .finished => False

section Iteration

variable {log : List Byte} {taken : List Buffer}

theorem written_turn {s t : AsyncLogging ι} {e : LogMove ι} (h : Written log taken s s.pc)
    (hc : SameIteration s e) (ht : Turn s e t) : Written log taken t t.pc := by
  have hat : ∀ {p : BackendPc}, s.pc = p → Written log taken s p := fun hp => hp ▸ h
  cases ht with
  | enter hp | leave hp =>
    change s.pc.isLoopTest = false at hc
    rw [hp] at hc
    cases hc
  | lockBuffs hp | wait hp | noWait hp | wake hp | pushCur hp | moveFirst hp | swapBuffs hp =>
    exact (hat hp).elim
  | keepNext hp | moveSecond hp | unlockBuffs hp =>
    have hw := hat hp
    exact hw
  | overload hp he hl =>
    obtain ⟨hlog, rfl⟩ := hat hp
    exact ⟨hlog, rfl, hl⟩
  | begin hp he hl =>
    obtain ⟨hlog, rfl⟩ := hat hp
    refine ⟨[], Or.inl ⟨hl, rfl, rfl⟩, ?_⟩
    change s.logout = log ++ []
    rw [List.append_nil]
    exact hlog
  | @drop now temp hp =>
    obtain ⟨rfl, rfl, hl⟩ := hat hp
    refine ⟨_, Or.inr ⟨hl, rfl, now, temp, rfl⟩, ?_⟩
    change s.logout ++ announcement now temp s.buffsToWrite.length =
      s.logout ++ (announcement now temp s.buffsToWrite.length ++ [])
    rw [List.append_nil]
  | @write i b hp hb =>
    obtain ⟨head, hhead, hlog⟩ := hat hp
    refine ⟨head, hhead, ?_⟩
    change s.logout ++ b.data = log ++ (head ++ bytes (s.buffsToWrite.take (i + 1)))
    rw [List.take_add_one, hb, bytes_append, hlog, List.append_assoc, List.append_assoc]
    exact congrArg (fun c => log ++ (head ++ (_ ++ c))) (List.append_nil b.data).symm
  | @written i hp hi =>
    obtain ⟨head, hhead, hlog⟩ := hat hp
    refine ⟨s.buffsToWrite, head, hhead, ?_⟩
    rw [List.take_of_length_le hi] at hlog
    exact hlog
  | resize hp | takeFirst hp | takeSecond hp | clear hp =>
    have hw := hat hp
    exact hw
  | lock | room | full | pushFull | takeNext | resetCur | copy | unlock | noCur | pushNull | nothing
  | noFirst | noSecond | stop => exact h

theorem written_run {s t : AsyncLogging ι} {es : List (LogMove ι)}
    (h : Written log taken s s.pc) (hrun : (logging ι).runIf SameIteration s es = some t) :
    Written log taken t t.pc :=
  Machine.runIf_keeps (I := fun s => Written log taken s s.pc)
    (fun _ _ _ hs hc hstep => written_turn hs hc (step_turn hstep).2) h hrun

end Iteration

/-! ## The NUL of the announcement -/

theorem zero_mem_announcement (now : List Byte) (temp : Vector Byte 256) (size : Nat) :
    0 ∈ announcement now temp size := by
  rw [announcement, snprintf, ListStore.overwrite, List.take_zero, List.nil_append]
  apply List.mem_append_left
  exact List.mem_append_right _ (List.mem_singleton.mpr rfl)

theorem zero_notMem_toString (n : Nat) : 0 ∉ ascii (toString n) := by
  intro hz
  obtain ⟨c, hc, hzero⟩ := List.mem_map.mp hz
  rw [Nat.toString_eq_repr, Nat.toList_repr] at hc
  have hdigit := Nat.isDigit_of_mem_toDigits (by decide) (by decide) hc
  have hrange : 48 ≤ c.toNat ∧ c.toNat ≤ 57 := by
    simpa [Char.isDigit, UInt32.le_iff_toNat_le] using hdigit
  have hmod : c.toNat % 256 = 0 := congrArg UInt8.toNat hzero
  omega

theorem zero_notMem_dropText {now : List Byte} (hnow : 0 ∉ now) (n : Nat) :
    0 ∉ dropText now n := by
  have hfront : (0 : Byte) ∉ ascii "Drop some log at " := by decide
  have hcomma : (0 : Byte) ∉ ascii ", " := by decide
  intro hz
  rcases List.mem_append.mp hz with hz | hz
  · rcases List.mem_append.mp hz with hz | hz
    · exact (List.mem_append.mp hz).elim hfront hnow
    · exact hcomma hz
  · exact zero_notMem_toString n hz

theorem exact_iff {taken kept : List Buffer} {head : List Byte} (h : Headed taken kept head) :
    Exact taken (head ++ bytes kept) ↔ taken.length ≤ 25 := by
  rcases h with ⟨hl, rfl, rfl⟩ | ⟨hl, rfl, now, temp, rfl⟩
  · refine iff_of_true ?_ hl
    rw [Exact, if_pos hl]
    rfl
  · refine iff_of_false ?_ (Nat.not_le.mpr hl)
    rw [Exact, if_neg (Nat.not_le.mpr hl)]
    rintro ⟨clock, hclock, hout⟩
    have htext := List.append_cancel_right hout
    have hzero := zero_mem_announcement now temp taken.length
    rw [htext] at hzero
    exact zero_notMem_dropText hclock _ hzero

theorem iteration_output {s t : AsyncLogging ι} {es : List (LogMove ι)}
    (hp : s.pc = .moveSecond) (h : (logging ι).runIf SameIteration s es = some t)
    (ht : t.pc = .loopTest) :
    ∃ kept head, Headed s.buffsToWrite kept head ∧
      t.logout = s.logout ++ (head ++ bytes kept) := by
  have hstart : Written s.logout s.buffsToWrite s s.pc := by
    rw [hp]
    exact ⟨rfl, rfl⟩
  have hend := written_run hstart h
  rw [ht] at hend
  exact hend

/-! ## The iteration comes to its end -/

/-- An upper bound on the statements before the end of the iteration, at `p`. -/
def left (s : AsyncLogging ι) : BackendPc → Nat
  | .moveSecond => s.buffsToWrite.length + 9
  | .unlock => s.buffsToWrite.length + 8
  | .sizeTest => s.buffsToWrite.length + 7
  | .dropping => s.buffsToWrite.length + 6
  | .writing i => (s.buffsToWrite.length - i) + 5
  | .resize => 4
  | .takeFirst => 3
  | .takeSecond => 2
  | .clear => 1
  | _ => 0

/-- Inside an iteration the backend has a move that brings it closer to the end. -/
theorem iteration_step {s : AsyncLogging ι} (h : Owned s) (hf : s.fault = none)
    (hl : 0 < left s s.pc) :
    ∃ e t, SameIteration s e ∧ s.step e = some t ∧ t.fault = none ∧
      left t t.pc < left s s.pc ∧ (t.pc = .loopTest ∨ 0 < left t t.pc) := by
  have hspares := h.spares
  have hback : s.step .backend = s.threadFunc := by rw [step, hf]
  cases hp : s.pc with
  | loopTest | locking | emptyTest | waiting | pushCur | moveFirst | swapBuffs | finished =>
    rw [hp] at hl
    exact absurd hl (Nat.lt_irrefl 0)
  | moveSecond =>
    refine ⟨.backend, ?_⟩
    simp only [SameIteration, hback, threadFunc, hp]
    cases hn : s.m_nextbuff with
    | some b => exact ⟨_, rfl, rfl, hf, Nat.lt_succ_self _, Or.inr (Nat.succ_pos _)⟩
    | none => exact ⟨_, rfl, rfl, hf, Nat.lt_succ_self _, Or.inr (Nat.succ_pos _)⟩
  | unlock =>
    refine ⟨.backend, ?_⟩
    simp only [SameIteration, hback, threadFunc, hp]
    exact ⟨_, rfl, rfl, hf, Nat.lt_succ_self _, Or.inr (Nat.succ_pos _)⟩
  | sizeTest =>
    rw [hp] at hspares
    refine ⟨.backend, ?_⟩
    simp only [SameIteration, hback, threadFunc, hp, if_neg hspares.2.2]
    by_cases hlong : 25 < s.buffsToWrite.length
    · rw [if_pos hlong]
      exact ⟨_, rfl, rfl, hf, Nat.lt_succ_self _, Or.inr (Nat.succ_pos _)⟩
    · rw [if_neg hlong]
      refine ⟨_, rfl, rfl, hf, ?_, Or.inr (Nat.succ_pos _)⟩
      change s.buffsToWrite.length - 0 + 5 < s.buffsToWrite.length + 7
      omega
  | dropping =>
    refine ⟨.drop [] (Vector.replicate 256 0), ?_⟩
    simp only [SameIteration, step, hf, hp]
    refine ⟨_, trivial, rfl, rfl, ?_, Or.inr (Nat.succ_pos _)⟩
    change (s.buffsToWrite.take 2).length - 0 + 5 < s.buffsToWrite.length + 6
    rw [List.length_take]
    omega
  | writing i =>
    refine ⟨.backend, ?_⟩
    simp only [SameIteration, hback, threadFunc, hp]
    cases hb : s.buffsToWrite[i]? with
    | some b =>
      obtain ⟨hi, -⟩ := List.getElem?_eq_some_iff.mp hb
      refine ⟨_, rfl, rfl, hf, ?_, Or.inr (Nat.succ_pos _)⟩
      change s.buffsToWrite.length - (i + 1) + 5 < s.buffsToWrite.length - i + 5
      omega
    | none =>
      refine ⟨_, rfl, rfl, hf, ?_, Or.inr (Nat.succ_pos _)⟩
      change 4 < s.buffsToWrite.length - i + 5
      omega
  | resize =>
    refine ⟨.backend, ?_⟩
    simp only [SameIteration, hback, threadFunc, hp]
    exact ⟨_, rfl, rfl, hf, Nat.lt_succ_self _, Or.inr (Nat.succ_pos _)⟩
  | takeFirst =>
    rw [hp] at hspares
    refine ⟨.backend, ?_⟩
    simp only [SameIteration, hback, threadFunc, hp, hspares.1, takeBack_none hspares.2.2]
    exact ⟨_, rfl, rfl, hf, Nat.lt_succ_self _, Or.inr (Nat.succ_pos _)⟩
  | takeSecond =>
    rw [hp] at hspares
    refine ⟨.backend, ?_⟩
    simp only [SameIteration, hback, threadFunc, hp]
    rcases hspares.2 with hs | ⟨hs, hlength⟩
    · rw [hs]
      exact ⟨_, rfl, rfl, hf, Nat.lt_succ_self _, Or.inr (Nat.succ_pos _)⟩
    · rw [hs, takeBack_none (List.length_pos_iff.mp hlength)]
      exact ⟨_, rfl, rfl, hf, Nat.lt_succ_self _, Or.inr (Nat.succ_pos _)⟩
  | clear =>
    refine ⟨.backend, ?_⟩
    simp only [SameIteration, hback, threadFunc, hp]
    exact ⟨_, rfl, rfl, hf, Nat.lt_succ_self _, Or.inl rfl⟩

/-- Whatever list it took, the backend can finish the iteration. -/
theorem iteration_completes {s : AsyncLogging ι} (h : Owned s) (hf : s.fault = none)
    (hp : s.pc = .loopTest ∨ 0 < left s s.pc) :
    ∃ es t, (logging ι).runIf SameIteration s es = some t ∧ t.pc = .loopTest := by
  induction hn : left s s.pc using Nat.strong_induction_on generalizing s with
  | _ n ih =>
    rcases hp with hp | hp
    · exact ⟨[], s, rfl, hp⟩
    · obtain ⟨e, u, hc, hstep, hfault, hless, hpc⟩ := iteration_step h hf hp
      have howned := owned_turn h (step_turn hstep).2
      rw [hn] at hless
      obtain ⟨es, t, hrun, ht⟩ := ih _ hless howned hfault hpc rfl
      refine ⟨e :: es, t, ?_, ht⟩
      rw [Machine.runIf, if_pos hc, show (logging ι).step s e = some u from hstep]
      exact hrun

/-- The backend has just taken `bs`. -/
def taking (bs : List Buffer) : AsyncLogging ι :=
  { start ι with m_mutex := .backend, pc := .moveSecond, firstBuffer := none, buffsToWrite := bs }

theorem owned_taking {bs : List Buffer} (h : bs ≠ []) : Owned (taking bs : AsyncLogging ι) where
  exclusive := iff_of_true rfl rfl
  front := front_of_swap rfl rfl ⟨rfl, h, nofun⟩
  next _ hb := (Option.some.inj hb).symm
  spares := ⟨rfl, rfl⟩

/-- There is an iteration for every list. -/
theorem taking_completes {bs : List Buffer} (h : bs ≠ []) :
    ∃ es t, (logging ι).runIf SameIteration (taking bs) es = some t ∧ t.pc = .loopTest :=
  iteration_completes (owned_taking h) rfl (Or.inr (Nat.succ_pos _))

/-! ## The bytes -/

/-- What an iteration writes is what the buffers it took call for exactly if they are no more
than 25, whatever other threads do meanwhile. -/
theorem iteration_exact_iff {s t : AsyncLogging ι} {es : List (LogMove ι)}
    (hp : s.pc = .moveSecond) (h : (logging ι).runIf SameIteration s es = some t)
    (ht : t.pc = .loopTest) :
    ∃ out, t.logout = s.logout ++ out ∧
      (Exact s.buffsToWrite out ↔ s.buffsToWrite.length ≤ 25) := by
  obtain ⟨kept, head, hhead, hlog⟩ := iteration_output hp h ht
  exact ⟨_, hlog, exact_iff hhead⟩

/-- `sizeof(temp)` is not the length of the text: more than 25 buffers would be announced with the
NUL and what the stack held behind it. -/
theorem overload_hands_array {bs : List Buffer} (h : 25 < bs.length) :
    ∃ es t out, (logging ι).runIf SameIteration (taking bs) es = some t ∧ t.pc = .loopTest ∧
      t.logout = out ∧ ¬ Exact bs out := by
  have hne : bs ≠ [] := List.ne_nil_of_length_pos (Nat.zero_lt_of_lt h)
  obtain ⟨es, t, hrun, ht⟩ := taking_completes (ι := ι) hne
  obtain ⟨out, hlog, hexact⟩ := iteration_exact_iff rfl hrun ht
  exact ⟨es, t, out, hrun, ht, hlog, fun he => absurd (hexact.mp he) (Nat.not_le_of_lt h)⟩

/-! ## How many buffers there are -/

def missing : BuffPtr → Nat
  | some _ => 0
  | none => 1

/-- Between these statements the current buffer is queued and has not been replaced yet. -/
def BackendPc.pushed : BackendPc → Nat
  | .moveFirst | .swapBuffs => 1
  | _ => 0

/-- The same for whoever holds the mutex. -/
def pushed : Holder ι → BackendPc → Nat
  | .appender _ _ .takeNext, _ => 1
  | .appender _ _ _, _ | .free, _ => 0
  | .backend, p => p.pushed

/-- Apart from the current buffer, what is queued has been paid for with the next one. -/
structure Few (s : AsyncLogging ι) : Prop where
  queued : s.m_buffs.length ≤ missing s.m_nextbuff + pushed s.m_mutex s.pc
  swapped : s.pc = .moveSecond ∨ s.pc = .unlock → s.m_buffs = []
  taken : s.buffsToWrite.length ≤ 2

theorem missing_le_one (p : BuffPtr) : missing p ≤ 1 := by
  cases p with
  | some b => exact Nat.zero_le 1
  | none => exact Nat.le_refl 1

/-- Without the mutex, where the backend is does not matter. -/
theorem pushed_frame {m : Holder ι} (hm : m ≠ .backend) (p q : BackendPc) :
    pushed m p = pushed m q := by
  cases m with
  | free => rfl
  | appender t line pc => cases pc <;> rfl
  | backend => exact absurd rfl hm

theorem takeBack_length {s : AsyncLogging ι} {spare p : BuffPtr} {rest : List Buffer}
    (h : s.takeBack spare = some (p, rest)) : rest.length ≤ s.buffsToWrite.length := by
  unfold takeBack at h
  split at h
  · obtain ⟨-, rfl⟩ := Prod.mk.inj (Option.some.inj h)
    exact Nat.le_refl _
  · obtain ⟨b, -, hb⟩ := Option.map_eq_some_iff.mp h
    obtain ⟨-, rfl⟩ := Prod.mk.inj hb
    rw [List.length_dropLast]
    exact Nat.sub_le _ 1

/-- The backend moves without the mutex and does not take buffers. -/
theorem Few.outside {s t : AsyncLogging ι} (h : Few s) (hb : s.m_mutex ≠ .backend)
    (hm : t.m_mutex = s.m_mutex) (hn : t.m_nextbuff = s.m_nextbuff) (hq : t.m_buffs = s.m_buffs)
    (hp : t.pc ≠ .moveSecond ∧ t.pc ≠ .unlock)
    (hl : t.buffsToWrite.length ≤ s.buffsToWrite.length) : Few t where
  queued := by
    rw [hq, hn, hm, pushed_frame hb t.pc s.pc]
    exact h.queued
  swapped hs := hs.elim (absurd · hp.1) (absurd · hp.2)
  taken := Nat.le_trans hl h.taken

theorem Few.inside {s : AsyncLogging ι} (h : Few s) (ho : Owned s) {p : BackendPc}
    (hp : s.pc = p) (hh : p.holds = true) :
    s.m_buffs.length ≤ missing s.m_nextbuff + p.pushed := by
  have hq := h.queued
  rw [ho.inside hp hh, hp] at hq
  exact hq

theorem few_inside {s : AsyncLogging ι} (hm : s.m_mutex = .backend)
    (hq : s.m_buffs.length ≤ missing s.m_nextbuff + s.pc.pushed)
    (hs : s.pc = .moveSecond ∨ s.pc = .unlock → s.m_buffs = [])
    (hl : s.buffsToWrite.length ≤ 2) : Few s := by
  refine ⟨?_, hs, hl⟩
  rw [hm]
  exact hq

theorem few_turn {s t : AsyncLogging ι} {e : LogMove ι} (ho : Owned s) (h : Few s)
    (ht : Turn s e t) : Few t := by
  have hq := h.queued
  cases ht with
  | lock hm | room hm | full hm | copy hm | unlock hm =>
    rw [hm] at hq
    exact ⟨hq, h.swapped, h.taken⟩
  | @pushFull u line b hm =>
    have hholds := ho.notHolding hm nofun
    rw [hm] at hq
    refine ⟨?_, fun hp => ?_, h.taken⟩
    · change (s.m_buffs ++ [b]).length ≤ missing s.m_nextbuff + 1
      rw [List.length_append]
      exact Nat.add_le_add_right hq 1
    · rcases hp with hp | hp
      · rw [show s.pc = .moveSecond from hp] at hholds
        cases hholds
      · rw [show s.pc = .unlock from hp] at hholds
        cases hholds
  | takeNext hm hb =>
    rw [hm, hb] at hq
    exact ⟨hq, h.swapped, h.taken⟩
  | resetCur hm hn hb =>
    rw [(ho.front.takeNext hm).1] at hb
    cases hb
  | lockBuffs hp hm | wake hp hm =>
    rw [hm] at hq
    exact ⟨hq, nofun, h.taken⟩
  | wait hp =>
    have hin := h.inside ho hp rfl
    exact ⟨hin, nofun, h.taken⟩
  | noWait hp =>
    have hin := h.inside ho hp rfl
    exact few_inside (ho.inside hp rfl) hin nofun h.taken
  | @pushCur b hp =>
    have hin := h.inside ho hp rfl
    refine few_inside (ho.inside hp rfl) ?_ nofun h.taken
    change (s.m_buffs ++ [b]).length ≤ missing s.m_nextbuff + 1
    rw [List.length_append]
    exact Nat.add_le_add_right hin 1
  | moveFirst hp =>
    have hin := h.inside ho hp rfl
    exact few_inside (ho.inside hp rfl) hin nofun h.taken
  | swapBuffs hp =>
    have hin := h.inside ho hp rfl
    have hnone := (ho.sparesAt hp).2.2
    refine few_inside (ho.inside hp rfl) ?_ (fun _ => hnone) ?_
    · change s.buffsToWrite.length ≤ _
      rw [hnone]
      exact Nat.zero_le _
    · exact Nat.le_trans hin (Nat.add_le_add_right (missing_le_one _) 1)
  | keepNext hp | moveSecond hp =>
    have hnone := h.swapped (Or.inl hp)
    refine few_inside (ho.inside hp rfl) ?_ (fun _ => hnone) h.taken
    change s.m_buffs.length ≤ _
    rw [hnone]
    exact Nat.zero_le _
  | unlockBuffs hp =>
    refine ⟨?_, nofun, h.taken⟩
    change s.m_buffs.length ≤ _
    rw [h.swapped (Or.inr hp)]
    exact Nat.zero_le _
  | enter hp | leave hp | overload hp | begin hp | write hp | written hp =>
    exact h.outside (ho.outside hp rfl) rfl rfl rfl ⟨nofun, nofun⟩ (Nat.le_refl _)
  | resize hp =>
    refine h.outside (ho.outside hp rfl) rfl rfl rfl ⟨nofun, nofun⟩ ?_
    change (if _ then _ else _ : List Buffer).length ≤ _
    split
    · exact List.length_take_le' _ _
    · exact Nat.le_refl _
  | drop hp =>
    exact h.outside (ho.outside hp rfl) rfl rfl rfl ⟨nofun, nofun⟩ (List.length_take_le' _ _)
  | takeFirst hp ht | takeSecond hp ht =>
    exact h.outside (ho.outside hp rfl) rfl rfl rfl ⟨nofun, nofun⟩ (takeBack_length ht)
  | clear hp =>
    exact h.outside (ho.outside hp rfl) rfl rfl rfl ⟨nofun, nofun⟩ (Nat.zero_le _)
  | noCur | pushNull | nothing | noFirst | noSecond | stop =>
    exact ⟨h.queued, h.swapped, h.taken⟩

theorem few_inductive (C : AsyncLogging ι → LogMove ι → Prop) :
    (logging ι).Inductive C (fun s => Sound s ∧ Few s) := by
  refine (sound_inductive C).and ?_ ?_
  · rintro s rfl
    exact ⟨Nat.zero_le _, fun _ => rfl, Nat.zero_le 2⟩
  · intro s e t hs h _ hstep
    exact few_turn hs.owned h (step_turn hstep).2

/-- As long as `append` has nothing to put in the place of a missing next buffer, the backend
never finds more than two buffers, and no overload. -/
theorem taken_le_two {s : AsyncLogging ι} (h : (logging ι).Reach s) :
    s.buffsToWrite.length ≤ 2 :=
  ((few_inductive _).reach h).2.taken

/-- **What an iteration writes.** From the state after the swap, whatever other threads do until
the loop test, the bytes handed to the log file are exactly what the buffers taken call for; there
is such a run to the loop test. -/
theorem iteration_exact {s : AsyncLogging ι} (h : (logging ι).Reach s) (hp : s.pc = .moveSecond) :
    s.buffsToWrite ≠ [] ∧
    (∀ es t, (logging ι).runIf SameIteration s es = some t → t.pc = .loopTest →
      ∃ out, t.logout = s.logout ++ out ∧ Exact s.buffsToWrite out) ∧
    (s.fault = none → ∃ es t, (logging ι).runIf SameIteration s es = some t ∧ t.pc = .loopTest) := by
  have howned := ((few_inductive _).reach h).1.owned
  have hfew : s.buffsToWrite.length ≤ 25 := (taken_le_two h).trans (by decide)
  refine ⟨(howned.swapFront hp rfl).2.1, fun es t hrun ht => ?_, fun hf => ?_⟩
  · obtain ⟨out, hlog, hexact⟩ := iteration_exact_iff hp hrun ht
    exact ⟨out, hlog, hexact.mpr hfew⟩
  · refine iteration_completes howned hf (Or.inr ?_)
    rw [hp]
    exact Nat.succ_pos _

/-- A line has filled the next buffer; meanwhile another one comes in. -/
theorem iteration_exact_full :
    ∃ t, (logging Bool).runIf SameIteration (justSwapped (List.replicate kLargeBuffer 0))
        ([.backend, .backend, .lock false [65]] ++ List.replicate 8 .backend) = some t ∧
      ∃ out, t.logout = [] ++ out ∧
        Exact [.new, ((FixedBuffer.new : Buffer).append (List.replicate kLargeBuffer 0)).2] out := by
  have hl : (List.replicate kLargeBuffer (0 : Byte)).length = kLargeBuffer := List.length_replicate
  have hrun : (logging Bool).runIf SameIteration (justSwapped (List.replicate kLargeBuffer 0))
      ([.backend, .backend, .lock false [65]] ++ List.replicate 8 .backend) = some _ := rfl
  have hexact := (iteration_exact (reach_justSwapped true hl) rfl).2.1 _ _ hrun rfl
  exact ⟨_, hrun, hexact⟩

end MyNet.Base.AsyncLogging
