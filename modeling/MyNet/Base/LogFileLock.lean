import MyNet.Base.LogFileRun
import Mathlib.Logic.Function.Basic

/-!
# The mutex of a thread-safe `LogFile`

Any number of threads call `append` and `flush`. `append` holds `m_mutexLock` while it
runs `append_unlocked`, and `append_unlocked` calls the public `flush()`, which takes
`m_mutexLock` again. The mutex is a default one, so a thread that gets there waits for
itself, and every other thread waits for it.
-/
namespace MyNet.Base

open Lib LogFile

inductive LogCall where
  | append (line : List Byte)
  | flush

/-- Where a thread is in a call. -/
inductive CallPc where
  | idle
  /-- At the `MutexLockGuard` of the call. -/
  | locking (c : LogCall)
  | inside (c : LogCall)
  /-- At the `MutexLockGuard` of the `flush()` that `append_unlocked` calls. -/
  | relocking
  | reflushing
  /-- Before the destructor of the guard. -/
  | leaving

structure SharedLogFile (ι : Type) where
  file : LogFile
  /-- The thread that has locked `m_mutexLock`. -/
  owner : Option ι
  threads : ι → CallPc

inductive CallMove (ι : Type) where
  | call (t : ι) (c : LogCall)
  | lock (t : ι)
  | body (t : ι) (i : AppendInput)
  | unlock (t : ι)

namespace SharedLogFile

variable {ι : Type} [DecidableEq ι]

def setThread (s : SharedLogFile ι) (t : ι) (pc : CallPc) : SharedLogFile ι :=
  { s with threads := Function.update s.threads t pc }

def step (host : Host) (s : SharedLogFile ι) : CallMove ι → Option (SharedLogFile ι)
  | .call t c =>
    match s.threads t with
    | .idle => some (s.setThread t (.locking c))
    | _ => none
  | .lock t =>
    match s.owner with
    | some _ => none
    | none =>
      match s.threads t with
      | .locking c => some ({ s with owner := some t }.setThread t (.inside c))
      | .relocking => some ({ s with owner := some t }.setThread t .reflushing)
      | _ => none
  | .body t i =>
    match s.threads t with
    | .inside (.append line) =>
      (append_unlocked host i line s.file).map fun r =>
        { s with file := r.1 }.setThread t (if r.2 then .relocking else .leaving)
    | .inside .flush => some (s.setThread t .leaving)
    | _ => none
  | .unlock t =>
    match s.threads t with
    | .leaving => some ({ s with owner := none }.setThread t .idle)
    | .reflushing => some ({ s with owner := none }.setThread t .leaving)
    | _ => none

variable (ι) in
/-- The calls on one `LogFile`, constructed with `threadsafe = true`. -/
def calls (host : Host) (c : Config) : Machine (SharedLogFile ι) (CallMove ι) where
  init s := ∃ g opened i, s = ⟨.new host true c g opened i, none, fun _ => .idle⟩
  step := step host

/-- What a step does: its guard and its result. -/
inductive Turn (host : Host) (s : SharedLogFile ι) : CallMove ι → SharedLogFile ι → Prop
  | call {t : ι} {c : LogCall} (h : s.threads t = .idle) :
      Turn host s (.call t c) (s.setThread t (.locking c))
  | lock {t : ι} {c : LogCall} (ho : s.owner = none) (h : s.threads t = .locking c) :
      Turn host s (.lock t) ({ s with owner := some t }.setThread t (.inside c))
  | relock {t : ι} (ho : s.owner = none) (h : s.threads t = .relocking) :
      Turn host s (.lock t) ({ s with owner := some t }.setThread t .reflushing)
  | append {t : ι} {i : AppendInput} {line : List Byte} {f : LogFile} {flushes : Bool}
      (h : s.threads t = .inside (.append line))
      (ha : append_unlocked host i line s.file = some (f, flushes)) :
      Turn host s (.body t i)
        ({ s with file := f }.setThread t (if flushes then .relocking else .leaving))
  | flush {t : ι} {i : AppendInput} (h : s.threads t = .inside .flush) :
      Turn host s (.body t i) (s.setThread t .leaving)
  | unlock {t : ι} (h : s.threads t = .leaving) :
      Turn host s (.unlock t) ({ s with owner := none }.setThread t .idle)
  | reunlock {t : ι} (h : s.threads t = .reflushing) :
      Turn host s (.unlock t) ({ s with owner := none }.setThread t .leaving)

theorem step_turn {host : Host} {s u : SharedLogFile ι} {e : CallMove ι}
    (h : s.step host e = some u) : Turn host s e u := by
  cases e with
  | call t c =>
    simp only [step] at h
    split at h
    · next ht => obtain rfl := Option.some.inj h; exact .call ht
    · cases h
  | lock t =>
    simp only [step] at h
    split at h
    · cases h
    · next ho =>
      split at h
      · next ht => obtain rfl := Option.some.inj h; exact .lock ho ht
      · next ht => obtain rfl := Option.some.inj h; exact .relock ho ht
      · cases h
  | body t i =>
    simp only [step] at h
    split at h
    · next ht =>
      obtain ⟨⟨f, flushes⟩, ha, rfl⟩ := Option.map_eq_some_iff.mp h
      exact .append ht ha
    · next ht => obtain rfl := Option.some.inj h; exact .flush ht
    · cases h
  | unlock t =>
    simp only [step] at h
    split at h
    · next ht => obtain rfl := Option.some.inj h; exact .unlock ht
    · next ht => obtain rfl := Option.some.inj h; exact .reunlock ht
    · cases h

/-- The mutex puts the calls one after the other: the object is that of a run of `LogFileRun`. -/
theorem calls_in_turn {host : Host} {c : Config} {s : SharedLogFile ι}
    (h : (calls ι host c).Reach s) :
    ∃ g f, (LogFileRun.calls host true c g).Reach f ∧ f.file = s.file := by
  refine Machine.Inductive.reach (C := fun _ _ => True) (I := fun s : SharedLogFile ι =>
    ∃ g f, (LogFileRun.calls host true c g).Reach f ∧ f.file = s.file) ⟨?_, ?_⟩ h
  · rintro s ⟨g, opened, i, rfl⟩
    exact ⟨g, _, .init ⟨opened, i, rfl⟩, LogFileRun.start_file host true c g opened i⟩
  · rintro s m u ⟨g, f, hf, hfile⟩ - hstep
    cases step_turn hstep with
    | @append t i line file flushes _ ha =>
      have happend := LogFileRun.step_append_file host f line i
      rw [hfile, ha] at happend
      obtain ⟨f', hf', hfile'⟩ := Option.map_eq_some_iff.mp happend
      exact ⟨g, f', .step (.append line i) hf trivial hf', hfile'⟩
    | call | lock | relock | flush | unlock | reunlock => exact ⟨g, f, hf, hfile⟩

/-! ## Mutual exclusion -/

/-- The thread has the mutex. -/
def holds : CallPc → Bool
  | .inside _ | .relocking | .reflushing | .leaving => true
  | .idle | .locking _ => false

/-- Exactly the owner is past a `MutexLockGuard`, and never past two. -/
structure Exclusive (s : SharedLogFile ι) : Prop where
  holder : ∀ t, holds (s.threads t) = true ↔ s.owner = some t
  once : ∀ t, s.threads t ≠ .reflushing

theorem threads_update {s : SharedLogFile ι} {P : ι → CallPc → Prop} {t : ι} {pc : CallPc}
    (ht : P t pc) (h : ∀ u, u ≠ t → P u (s.threads u)) (u : ι) :
    P u ((s.setThread t pc).threads u) := by
  change P u (Function.update s.threads t pc u)
  by_cases hu : u = t
  · subst u
    rw [Function.update_self]
    exact ht
  · rw [Function.update_of_ne hu]
    exact h u hu

theorem Exclusive.stay {s : SharedLogFile ι} (h : Exclusive s) {t : ι} {pc : CallPc}
    (hp : holds pc = holds (s.threads t)) (ho : pc ≠ .reflushing) :
    Exclusive (s.setThread t pc) where
  holder := by
    refine threads_update (P := fun u p => holds p = true ↔ s.owner = some u) ?_
      fun u _ => h.holder u
    rw [hp]
    exact h.holder t
  once := threads_update (P := fun _ p => p ≠ .reflushing) ho fun u _ => h.once u

theorem exclusive_turn {host : Host} {s u : SharedLogFile ι} {e : CallMove ι} (h : Exclusive s)
    (ht : Turn host s e u) : Exclusive u := by
  cases ht with
  | call hc => exact h.stay (by rw [hc]; rfl) nofun
  | @lock t c ho hc =>
    refine ⟨threads_update (P := fun u p => holds p = true ↔ some t = some u) ?_ ?_,
      threads_update (P := fun _ p => p ≠ .reflushing) nofun fun u _ => h.once u⟩
    · exact iff_of_true rfl rfl
    · intro u hu
      refine iff_of_false ?_ fun he => hu (Option.some.inj he).symm
      rw [h.holder u, ho]
      exact nofun
  | @relock t ho hc =>
    have hown := (h.holder t).mp (by rw [hc]; rfl)
    rw [ho] at hown
    cases hown
  | @append t i line f flushes hc ha =>
    have hsame : Exclusive { s with file := f } := ⟨h.holder, h.once⟩
    refine hsame.stay ?_ ?_
    · change _ = holds (s.threads t)
      rw [hc]
      split <;> rfl
    · split <;> exact nofun
  | flush hc => exact h.stay (by rw [hc]; rfl) nofun
  | @unlock t hc =>
    have hown := (h.holder t).mp (by rw [hc]; rfl)
    refine ⟨threads_update (P := fun u p => holds p = true ↔ none = some u) ?_ ?_,
      threads_update (P := fun _ p => p ≠ .reflushing) nofun fun u _ => h.once u⟩
    · exact iff_of_false nofun nofun
    · intro u hu
      refine iff_of_false ?_ nofun
      rw [h.holder u, hown]
      exact fun he => hu (Option.some.inj he).symm
  | reunlock hc => exact absurd hc (h.once _)

theorem exclusive_inductive (host : Host) (c : Config)
    (C : SharedLogFile ι → CallMove ι → Prop) :
    (calls ι host c).Inductive C Exclusive where
  init := by
    rintro s ⟨g, opened, i, rfl⟩
    exact ⟨fun _ => iff_of_false nofun nofun, fun _ => nofun⟩
  step _ _ _ h _ hs := exclusive_turn h (step_turn hs)

/-! ## Waiting for oneself -/

/-- The thread is about to lock the mutex it has. -/
def SelfBlocked (s : SharedLogFile ι) (t : ι) : Prop :=
  s.owner = some t ∧ ((∃ c, s.threads t = .locking c) ∨ s.threads t = .relocking)

/-- The step is an `append_unlocked` that goes the way to `flush()`. -/
def reachesFlush (s : SharedLogFile ι) : CallMove ι → Bool
  | .body t i =>
    match s.threads t with
    | .inside (.append line) => s.file.flushDue line.length i.now
    | _ => false
  | _ => false

def NoFlushDue (s : SharedLogFile ι) (e : CallMove ι) : Prop := s.reachesFlush e = false

instance (s : SharedLogFile ι) (e : CallMove ι) : Decidable (NoFlushDue s e) :=
  inferInstanceAs (Decidable (_ = _))

/-- Whoever has the mutex can go on, and one or two of its own steps later has released it,
whatever stdio and the clock answer within `C`. -/
def Releases (host : Host) (C : SharedLogFile ι → CallMove ι → Prop) (s : SharedLogFile ι) :
    Prop :=
  ∀ t, s.owner = some t →
    (∃ u, s.step host (.unlock t) = some u ∧ u.owner = none) ∨
    ((∃ i u, s.step host (.body t i) = some u) ∧
      ∀ i u, C s (.body t i) → s.step host (.body t i) = some u →
        ∃ v, u.step host (.unlock t) = some v ∧ v.owner = none)

theorem noRelock_turn {host : Host} {s u : SharedLogFile ι} {e : CallMove ι}
    (h : ∀ t, s.threads t ≠ .relocking) (hc : NoFlushDue s e) (ht : Turn host s e u) :
    ∀ t, u.threads t ≠ .relocking := by
  cases ht with
  | call | lock | flush | unlock | reunlock =>
    exact threads_update (P := fun _ p => p ≠ .relocking) nofun fun u _ => h u
  | relock _ hr => exact absurd hr (h _)
  | @append t i line f flushes hin ha =>
    refine threads_update (P := fun _ p => p ≠ .relocking) ?_ fun u _ => h u
    have hdue : s.file.flushDue line.length i.now = false := by
      simp only [NoFlushDue, reachesFlush, hin] at hc
      exact hc
    cases flushes with
    | false => exact nofun
    | true =>
      rw [(append_unlocked_flushes ha).mp rfl] at hdue
      cases hdue

theorem leaving_unlocks (host : Host) {s : SharedLogFile ι} {t : ι} (h : s.threads t = .leaving) :
    ∃ u, s.step host (.unlock t) = some u ∧ u.owner = none := by
  refine ⟨{ s with owner := none }.setThread t .idle, ?_, rfl⟩
  simp only [step, h]

theorem inside_goesOn (host : Host) {s : SharedLogFile ι} {t : ι} {c : LogCall}
    (h : s.threads t = .inside c) : ∃ i u, s.step host (.body t i) = some u := by
  cases c with
  | append line =>
    obtain ⟨r, hr⟩ := append_unlocked_whole host 0 ⟨0, true⟩ line s.file
    refine ⟨⟨[⟨line.length, false⟩], 0, ⟨0, true⟩⟩,
      { s with file := r.1 }.setThread t (if r.2 then .relocking else .leaving), ?_⟩
    simp only [step, h, hr, Option.map_some]
  | flush =>
    refine ⟨⟨[], 0, ⟨0, true⟩⟩, s.setThread t .leaving, ?_⟩
    simp only [step, h]

theorem inside_leaves {host : Host} {s u : SharedLogFile ι} {t : ι} {i : AppendInput}
    (hn : ∀ t, u.threads t ≠ .relocking) (h : s.step host (.body t i) = some u) :
    u.threads t = .leaving := by
  have ht := step_turn h
  cases ht with
  | @append _ _ line f flushes hin ha =>
    have hself := hn t
    change Function.update s.threads t _ t ≠ _ at hself
    change Function.update s.threads t _ t = _
    rw [Function.update_self] at hself ⊢
    cases flushes with
    | false => rfl
    | true => exact absurd rfl hself
  | flush => exact Function.update_self t _ s.threads

/-- In every run in which no append goes the way to `flush()`, no thread locks the mutex it
has, and the mutex is released by everyone who gets it. -/
theorem never_self_blocked {host : Host} {c : Config} {s : SharedLogFile ι}
    (h : (calls ι host c).ReachIf NoFlushDue s) :
    (∀ t, ¬ SelfBlocked s t) ∧ Releases host NoFlushDue s := by
  have hboth := ((exclusive_inductive host c NoFlushDue).and
    (J := fun s : SharedLogFile ι => ∀ t, s.threads t ≠ .relocking)
    (by rintro s ⟨g, opened, i, rfl⟩; exact fun _ => nofun)
    (fun s e u _ hj hc hs => noRelock_turn hj hc (step_turn hs))).reach h
  obtain ⟨hx, hn⟩ := hboth
  constructor
  · rintro t ⟨ho, ⟨c, hc⟩ | hr⟩
    · have hh := (hx.holder t).mpr ho
      rw [hc] at hh
      cases hh
    · exact hn t hr
  · intro t ho
    have hh := (hx.holder t).mpr ho
    cases hp : s.threads t with
    | leaving => exact Or.inl (leaving_unlocks host hp)
    | inside c =>
      refine Or.inr ⟨inside_goesOn host hp, fun i u hc hs => ?_⟩
      exact leaving_unlocks host (inside_leaves (noRelock_turn hn hc (step_turn hs)) hs)
    | relocking => exact absurd hp (hn t)
    | reflushing => exact absurd hp (hx.once t)
    | idle | locking =>
      rw [hp] at hh
      cases hh

/-- Thread `true` appends one byte when the clock shows `now`. -/
def firstAppend (now : Int) : List (CallMove Bool) :=
  [.call true (.append [65]), .lock true, .body true ⟨[⟨1, false⟩], now, ⟨now, true⟩⟩]

def plainConfig : Config := { rollsize := 10240, basename := ascii "log", checkEveryN := 1 }

def plainHost : Host := ⟨ascii "host", 7⟩

/-- The file rolled at second 100, before anybody used it. -/
def rolledAt100 : SharedLogFile Bool :=
  ⟨.new plainHost true plainConfig ⟨0, 0, 0, 0⟩ true ⟨100, true⟩, none, fun _ => .idle⟩

theorem never_self_blocked_early :
    ∃ s, (calls Bool plainHost plainConfig).runIf NoFlushDue rolledAt100 (firstAppend 101) = some s ∧
      s.owner = some true ∧ (∀ t, ¬ SelfBlocked s t) ∧ Releases plainHost NoFlushDue s := by
  have hrun : (calls Bool plainHost plainConfig).runIf NoFlushDue rolledAt100 (firstAppend 101) =
      some _ := rfl
  exact ⟨_, hrun, rfl, never_self_blocked (Machine.reachIf_of_runIf (.init ⟨_, _, _, rfl⟩) hrun)⟩

/-- Three seconds after the roll the append flushes, and waits for its own mutex. -/
theorem third_second_blocks :
    ¬ ∀ (host : Host) (c : Config), 1 ≤ c.checkEveryN →
      ∀ s, (calls Bool host c).Reach s → ∀ t, ¬ SelfBlocked s t := by
  intro h
  have hrun : (calls Bool plainHost plainConfig).run rolledAt100 (firstAppend 103) = some _ := rfl
  exact h plainHost plainConfig (by decide) _
    (Machine.reachIf_of_runIf (.init ⟨_, _, _, rfl⟩) hrun) true ⟨rfl, Or.inr rfl⟩

/-- The condition is exact: an append on its way to `flush()` ends up waiting for itself. -/
theorem flushDue_blocks {host : Host} {s u : SharedLogFile ι} {t : ι} {i : AppendInput}
    {line : List Byte} (hx : Exclusive s) (hin : s.threads t = .inside (.append line))
    (hdue : s.file.flushDue line.length i.now = true)
    (hs : s.step host (.body t i) = some u) : SelfBlocked u t := by
  simp only [step, hin] at hs
  obtain ⟨⟨f, flushes⟩, ha, rfl⟩ := Option.map_eq_some_iff.mp hs
  obtain rfl : flushes = true := (append_unlocked_flushes ha).mpr hdue
  exact ⟨(hx.holder t).mp (by rw [hin]; rfl), Or.inr (Function.update_self t _ s.threads)⟩

/-- A thread that waits for itself waits forever. -/
theorem relocking_stays {host : Host} {s u : SharedLogFile ι} {e : CallMove ι} {t : ι}
    (hx : Exclusive s) (hr : s.threads t = .relocking) (hs : s.step host e = some u) :
    u.threads t = .relocking ∧ u.owner = some t := by
  have ho := (hx.holder t).mp (by rw [hr]; rfl)
  have hother : ∀ {v : ι} {pc : CallPc}, s.threads v = pc → pc ≠ .relocking → v ≠ t := by
    rintro v pc hv hpc rfl
    exact hpc (hv.symm.trans hr)
  have hkeep : ∀ {v : ι} (pc : CallPc), v ≠ t →
      Function.update s.threads v pc t = .relocking := by
    intro v pc hv
    rw [Function.update_of_ne hv.symm]
    exact hr
  have ht := step_turn hs
  cases ht with
  | call h => exact ⟨hkeep _ (hother h nofun), ho⟩
  | lock hfree | relock hfree =>
    rw [ho] at hfree
    cases hfree
  | append h => exact ⟨hkeep _ (hother h nofun), ho⟩
  | flush h => exact ⟨hkeep _ (hother h nofun), ho⟩
  | @unlock v h =>
    have hv := (hx.holder v).mp (by rw [h]; rfl)
    rw [ho] at hv
    exact absurd (Option.some.inj hv).symm (hother h nofun)
  | reunlock h => exact absurd h (hx.once _)

end SharedLogFile
end MyNet.Base
