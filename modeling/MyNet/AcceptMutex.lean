import Mathlib.Logic.Function.Basic

/-!
# The accept mutexes

`time-sem.c` has five implementations of one mutex between processes, one of them chosen when
it is compiled. Processes are numbered, 0 the parent. Beside the call that locks, what differs
is what a child inherits: with `flock` the open file, and the lock with it, so that it has to
open the file again. And it differs what becomes of the mutex when a process exits that has it,
because a call has failed.
-/
namespace MyNet

/-- The macro the program is compiled with. -/
inductive MutexKind where
  | USE_FCNTL_SERIALIZED_ACCEPT
  | USE_FLOCK_SERIALIZED_ACCEPT
  | USE_SYSVSEM_SERIALIZED_ACCEPT
  | USE_PTHREAD_SERIALIZED_ACCEPT
  | USE_USLOCK_SERIALIZED_ACCEPT
  deriving DecidableEq

structure AcceptMutex where
  /-- The process that has the record lock, the `pthread_mutex_t` or the `ulock_t`. -/
  holder : Option Nat
  semval : Nat
  /-- What `SEM_UNDO` adds to the semaphore when the process exits. -/
  semadj : Nat → Int
  /-- The open file a process's `flock_fd` refers to. -/
  flock_fd : Nat → Nat
  opened : Nat
  /-- The open file that is locked. -/
  flocked : Option Nat

namespace AcceptMutex

def accept_mutex_init : AcceptMutex := ⟨none, 1, fun _ => 0, fun _ => 0, 1, none⟩

/-- A child has its parent's variables; neither a record lock nor an undo is inherited. -/
def fork (m : AcceptMutex) (child : Nat) : AcceptMutex :=
  { m with flock_fd := Function.update m.flock_fd child (m.flock_fd 0) }

def accept_mutex_child_init (kind : MutexKind) (m : AcceptMutex) (process : Nat) : AcceptMutex :=
  match kind with
  | .USE_FLOCK_SERIALIZED_ACCEPT =>
    { m with
      flock_fd := Function.update m.flock_fd process m.opened
      opened := m.opened + 1 }
  | _ => m

/-- The call of `process` that succeeds; `none` while it blocks. -/
def accept_mutex_on (kind : MutexKind) (m : AcceptMutex) (process : Nat) : Option AcceptMutex :=
  match kind with
  | .USE_FCNTL_SERIALIZED_ACCEPT =>
    match m.holder with
    | none => some { m with holder := some process }
    | some p => if p = process then some m else none
  | .USE_FLOCK_SERIALIZED_ACCEPT =>
    match m.flocked with
    | none => some { m with flocked := some (m.flock_fd process) }
    | some file => if file = m.flock_fd process then some m else none
  | .USE_SYSVSEM_SERIALIZED_ACCEPT =>
    if 0 < m.semval then
      some { m with
        semval := m.semval - 1
        semadj := Function.update m.semadj process (m.semadj process + 1) }
    else none
  | .USE_PTHREAD_SERIALIZED_ACCEPT | .USE_USLOCK_SERIALIZED_ACCEPT =>
    match m.holder with
    | none => some { m with holder := some process }
    | some _ => none

def accept_mutex_off (kind : MutexKind) (m : AcceptMutex) (process : Nat) : AcceptMutex :=
  match kind with
  | .USE_FCNTL_SERIALIZED_ACCEPT => if m.holder = some process then { m with holder := none } else m
  | .USE_FLOCK_SERIALIZED_ACCEPT =>
    if m.flocked = some (m.flock_fd process) then { m with flocked := none } else m
  | .USE_SYSVSEM_SERIALIZED_ACCEPT =>
    { m with
      semval := m.semval + 1
      semadj := Function.update m.semadj process (m.semadj process - 1) }
  | .USE_PTHREAD_SERIALIZED_ACCEPT | .USE_USLOCK_SERIALIZED_ACCEPT => { m with holder := none }

/-- `accept_mutex_off` where it calls `exit`. With `pthread` it is `sigprocmask` that has failed
if the mutex is `unlocked`. -/
def accept_mutex_off_failed (kind : MutexKind) (m : AcceptMutex) (process : Nat)
    (unlocked : Bool) : AcceptMutex :=
  match kind with
  | .USE_PTHREAD_SERIALIZED_ACCEPT => if unlocked then accept_mutex_off kind m process else m
  | .USE_FCNTL_SERIALIZED_ACCEPT | .USE_FLOCK_SERIALIZED_ACCEPT | .USE_SYSVSEM_SERIALIZED_ACCEPT
  | .USE_USLOCK_SERIALIZED_ACCEPT => m

theorem off_failed_locked (kind : MutexKind) (m : AcceptMutex) (process : Nat) :
    accept_mutex_off_failed kind m process false = m := by
  cases kind <;> rfl

/-- The process has exited. A record lock goes with it, a lock of `flock` with the last process
that has the file open; `shared` says whether there is another one. -/
def exit (kind : MutexKind) (m : AcceptMutex) (process : Nat) (shared : Bool) : AcceptMutex :=
  match kind with
  | .USE_FCNTL_SERIALIZED_ACCEPT => if m.holder = some process then { m with holder := none } else m
  | .USE_FLOCK_SERIALIZED_ACCEPT =>
    if m.flocked = some (m.flock_fd process) ∧ shared = false then { m with flocked := none } else m
  | .USE_SYSVSEM_SERIALIZED_ACCEPT =>
    { m with
      semval := (m.semval + m.semadj process).toNat
      semadj := Function.update m.semadj process 0 }
  | .USE_PTHREAD_SERIALIZED_ACCEPT | .USE_USLOCK_SERIALIZED_ACCEPT => m

/-- Whether a mutex may outlive the process that has it. -/
def lasts : MutexKind → Bool
  | .USE_FCNTL_SERIALIZED_ACCEPT | .USE_SYSVSEM_SERIALIZED_ACCEPT => false
  | .USE_FLOCK_SERIALIZED_ACCEPT | .USE_PTHREAD_SERIALIZED_ACCEPT
  | .USE_USLOCK_SERIALIZED_ACCEPT => true

/-- The mutex is still taken when the process that had it has exited. -/
def kept (kind : MutexKind) (unlocked shared : Bool) : Bool :=
  match kind with
  | .USE_FCNTL_SERIALIZED_ACCEPT | .USE_SYSVSEM_SERIALIZED_ACCEPT => false
  | .USE_FLOCK_SERIALIZED_ACCEPT => shared
  | .USE_PTHREAD_SERIALIZED_ACCEPT => !unlocked
  | .USE_USLOCK_SERIALIZED_ACCEPT => true

/-- `owner` has the mutex, and the processes that are `ready` may ask for it. -/
structure Serves (kind : MutexKind) (m : AcceptMutex) (owner : Option Nat) (ready : Nat → Bool) :
    Prop where
  holder : kind ≠ .USE_FLOCK_SERIALIZED_ACCEPT → kind ≠ .USE_SYSVSEM_SERIALIZED_ACCEPT →
    m.holder = owner
  semaphore : kind = .USE_SYSVSEM_SERIALIZED_ACCEPT →
    (m.semval = if owner = none then 1 else 0) ∧
      ∀ p, m.semadj p = if owner = some p then 1 else 0
  flocked : kind = .USE_FLOCK_SERIALIZED_ACCEPT → m.flocked = owner.map m.flock_fd
  files : kind = .USE_FLOCK_SERIALIZED_ACCEPT → ∀ p q, ready p = true → ready q = true →
    m.flock_fd p = m.flock_fd q → p = q
  opened : kind = .USE_FLOCK_SERIALIZED_ACCEPT → ∀ p, ready p = true → m.flock_fd p < m.opened
  owner : ∀ p, owner = some p → ready p = true

variable {kind : MutexKind} {m : AcceptMutex} {owner : Option Nat} {ready : Nat → Bool} {p q : Nat}

theorem serves_init (kind : MutexKind) :
    Serves kind accept_mutex_init none (fun p => p = 0) where
  holder _ _ := rfl
  semaphore _ := ⟨rfl, fun _ => rfl⟩
  flocked _ := rfl
  files _ _ _ hp hq _ := (of_decide_eq_true hp).trans (of_decide_eq_true hq).symm
  opened _ _ _ := Nat.zero_lt_one
  owner _ h := nomatch h

/-- A process that nobody waits for may change its variables. -/
theorem Serves.fork (h : Serves kind m owner ready) (hp : ready p = false) :
    Serves kind (m.fork p) owner ready := by
  have hsame (q : Nat) (hq : ready q = true) : (m.fork p).flock_fd q = m.flock_fd q := by
    refine Function.update_of_ne (fun he => ?_) _ _
    rw [he, hp] at hq
    cases hq
  refine ⟨h.holder, h.semaphore, fun hk => ?_, fun hk a b ha hb he => ?_, fun hk a ha => ?_,
    h.owner⟩
  · rw [show (m.fork p).flocked = m.flocked from rfl, h.flocked hk]
    cases howner : owner with
    | none => rfl
    | some q => exact congrArg some (hsame q (h.owner q howner)).symm
  · rw [hsame a ha, hsame b hb] at he
    exact h.files hk a b ha hb he
  · rw [hsame a ha]
    exact h.opened hk a ha

/-- After `accept_mutex_child_init` the child may ask for the mutex too. -/
theorem Serves.child_init (h : Serves kind m owner ready) (hp : ready p = false) :
    Serves kind (accept_mutex_child_init kind m p) owner (Function.update ready p true) := by
  have hready (q : Nat) (hne : q ≠ p) (hq : Function.update ready p true q = true) :
      ready q = true := by
    rwa [Function.update_of_ne hne] at hq
  have howner (q : Nat) (hq : owner = some q) : q ≠ p ∧ Function.update ready p true q = true := by
    have hmem := h.owner q hq
    have hne : q ≠ p := fun he => by
      rw [he, hp] at hmem
      cases hmem
    exact ⟨hne, by rw [Function.update_of_ne hne, hmem]⟩
  by_cases hk : kind = .USE_FLOCK_SERIALIZED_ACCEPT
  · subst hk
    have hfile (q : Nat) (hne : q ≠ p) :
        (accept_mutex_child_init .USE_FLOCK_SERIALIZED_ACCEPT m p).flock_fd q = m.flock_fd q :=
      Function.update_of_ne hne _ _
    have hnew : (accept_mutex_child_init .USE_FLOCK_SERIALIZED_ACCEPT m p).flock_fd p = m.opened :=
      Function.update_self _ _ _
    refine ⟨fun hne => absurd rfl hne, nofun, fun _ => ?_, fun _ a b ha hb he => ?_,
      fun _ a ha => ?_, fun q hq => (howner q hq).2⟩
    · have hsame : (accept_mutex_child_init .USE_FLOCK_SERIALIZED_ACCEPT m p).flocked = m.flocked :=
        rfl
      rw [hsame, h.flocked rfl]
      cases hq : owner with
      | none => rfl
      | some q => exact congrArg some (hfile q (howner q hq).1).symm
    · -- the new file is none of those in use
      by_cases hpa : a = p
      · by_cases hpb : b = p
        · exact hpa.trans hpb.symm
        · subst hpa
          rw [hnew, hfile b hpb] at he
          exact absurd he (Nat.ne_of_gt (h.opened rfl b (hready b hpb hb)))
      · by_cases hpb : b = p
        · subst hpb
          rw [hnew, hfile a hpa] at he
          exact absurd he (Nat.ne_of_lt (h.opened rfl a (hready a hpa ha)))
        · rw [hfile a hpa, hfile b hpb] at he
          exact h.files rfl a b (hready a hpa ha) (hready b hpb hb) he
    · by_cases hpa : a = p
      · subst hpa
        rw [hnew]
        exact Nat.lt_succ_self _
      · rw [hfile a hpa]
        exact Nat.lt_succ_of_lt (h.opened rfl a (hready a hpa ha))
  · have hsame : accept_mutex_child_init kind m p = m := by
      cases kind <;> first | rfl | exact absurd rfl hk
    rw [hsame]
    exact ⟨h.holder, h.semaphore, fun he => absurd he hk, fun he => absurd he hk,
      fun he => absurd he hk, fun q hq => (howner q hq).2⟩

/-- A free mutex is given to whoever asks first. -/
theorem Serves.on_free (h : Serves kind m none ready) (hp : ready p = true) :
    ∃ m', accept_mutex_on kind m p = some m' ∧ Serves kind m' (some p) ready := by
  have howner : ∀ q, some p = some q → ready q = true := fun q hq => Option.some.inj hq ▸ hp
  cases kind with
  | USE_FCNTL_SERIALIZED_ACCEPT | USE_PTHREAD_SERIALIZED_ACCEPT | USE_USLOCK_SERIALIZED_ACCEPT =>
    refine ⟨{ m with holder := some p }, ?_, fun _ _ => rfl, nofun, nofun, nofun, nofun, howner⟩
    rw [accept_mutex_on, h.holder (by decide) (by decide)]
  | USE_FLOCK_SERIALIZED_ACCEPT =>
    refine ⟨{ m with flocked := some (m.flock_fd p) }, ?_, fun hne => absurd rfl hne, nofun,
      fun _ => rfl, h.files, h.opened, howner⟩
    rw [accept_mutex_on, h.flocked rfl]
    rfl
  | USE_SYSVSEM_SERIALIZED_ACCEPT =>
    obtain ⟨hval, hadj⟩ := h.semaphore rfl
    have hone : m.semval = 1 := hval
    refine ⟨{ m with
      semval := m.semval - 1
      semadj := Function.update m.semadj p (m.semadj p + 1) }, ?_, fun _ hne => absurd rfl hne,
      fun _ => ⟨?_, fun q => ?_⟩, nofun, nofun, nofun, howner⟩
    · rw [accept_mutex_on, if_pos (by omega)]
    · show m.semval - 1 = 0
      omega
    · change Function.update m.semadj p (m.semadj p + 1) q = _
      by_cases hq : q = p
      · rw [hq, Function.update_self, hadj p]
        exact (if_pos rfl).symm
      · rw [Function.update_of_ne hq, hadj q]
        exact (if_neg fun he => hq (Option.some.inj he).symm).symm

/-- Another process has to wait. -/
theorem Serves.on_held (h : Serves kind m (some q) ready) (hp : ready p = true) (hne : q ≠ p) :
    accept_mutex_on kind m p = none := by
  cases kind with
  | USE_FCNTL_SERIALIZED_ACCEPT =>
    rw [accept_mutex_on, h.holder (by decide) (by decide)]
    exact if_neg hne
  | USE_PTHREAD_SERIALIZED_ACCEPT | USE_USLOCK_SERIALIZED_ACCEPT =>
    rw [accept_mutex_on, h.holder (by decide) (by decide)]
  | USE_FLOCK_SERIALIZED_ACCEPT =>
    rw [accept_mutex_on, h.flocked rfl]
    exact if_neg fun he => hne (h.files rfl q p (h.owner q rfl) hp he)
  | USE_SYSVSEM_SERIALIZED_ACCEPT =>
    have hzero : m.semval = 0 := (h.semaphore rfl).1
    rw [accept_mutex_on, if_neg (by omega)]

/-- The semaphore is back at one, and the process that had it has nothing to undo. -/
theorem Serves.raised (h : Serves .USE_SYSVSEM_SERIALIZED_ACCEPT m (some p) ready) {semadj : Int}
    (hzero : semadj = 0) {semval : Nat} (hone : semval = 1) :
    Serves .USE_SYSVSEM_SERIALIZED_ACCEPT
      { m with semval := semval, semadj := Function.update m.semadj p semadj } none ready := by
  refine ⟨fun _ hne => absurd rfl hne, fun _ => ⟨hone, fun q => ?_⟩, nofun, nofun, nofun, nofun⟩
  change Function.update m.semadj p semadj q = 0
  by_cases hq : q = p
  · rw [hq, Function.update_self, hzero]
  · rw [Function.update_of_ne hq, (h.semaphore rfl).2 q]
    exact if_neg fun he => hq (Option.some.inj he).symm

theorem Serves.off (h : Serves kind m (some p) ready) :
    Serves kind (accept_mutex_off kind m p) none ready := by
  cases kind with
  | USE_FCNTL_SERIALIZED_ACCEPT =>
    rw [accept_mutex_off, if_pos (h.holder (by decide) (by decide))]
    exact ⟨fun _ _ => rfl, nofun, nofun, nofun, nofun, nofun⟩
  | USE_PTHREAD_SERIALIZED_ACCEPT | USE_USLOCK_SERIALIZED_ACCEPT =>
    exact ⟨fun _ _ => rfl, nofun, nofun, nofun, nofun, nofun⟩
  | USE_FLOCK_SERIALIZED_ACCEPT =>
    have hlocked : m.flocked = some (m.flock_fd p) := h.flocked rfl
    rw [accept_mutex_off, if_pos hlocked]
    exact ⟨fun hne => absurd rfl hne, nofun, fun _ => rfl, h.files, h.opened, nofun⟩
  | USE_SYSVSEM_SERIALIZED_ACCEPT =>
    obtain ⟨hval, hadj⟩ := h.semaphore rfl
    have hone : m.semadj p = 1 := (hadj p).trans (if_pos rfl)
    exact h.raised (by rw [hone]; rfl) (congrArg (· + 1) hval)

/-- The process that has the mutex exits, because a call has failed. -/
theorem Serves.exit (h : Serves kind m (some p) ready) (unlocked shared : Bool) :
    Serves kind (AcceptMutex.exit kind (accept_mutex_off_failed kind m p unlocked) p shared)
      (if kept kind unlocked shared then some p else none) ready := by
  cases kind with
  | USE_FCNTL_SERIALIZED_ACCEPT => exact h.off
  | USE_PTHREAD_SERIALIZED_ACCEPT =>
    cases unlocked with
    | false => exact h
    | true => exact h.off
  | USE_USLOCK_SERIALIZED_ACCEPT => exact h
  | USE_FLOCK_SERIALIZED_ACCEPT =>
    have hlocked : m.flocked = some (m.flock_fd p) := h.flocked rfl
    cases shared with
    | false =>
      have hoff := h.off
      rw [accept_mutex_off, if_pos hlocked] at hoff
      rw [AcceptMutex.exit, accept_mutex_off_failed, if_pos ⟨hlocked, rfl⟩]
      exact hoff
    | true =>
      rw [AcceptMutex.exit, accept_mutex_off_failed, if_neg fun he => Bool.noConfusion he.2]
      exact h
  | USE_SYSVSEM_SERIALIZED_ACCEPT =>
    obtain ⟨hval, hadj⟩ := h.semaphore rfl
    have hzero : m.semval = 0 := hval
    have hone : m.semadj p = 1 := (hadj p).trans (if_pos rfl)
    exact h.raised rfl (by rw [accept_mutex_off_failed, hzero, hone]; rfl)

/-- A process that does not have the mutex has exited. -/
theorem Serves.gone (h : Serves kind m owner ready) (hp : owner ≠ some p) :
    Serves kind m owner (Function.update ready p false) := by
  have hready (q : Nat) (hq : Function.update ready p false q = true) : ready q = true := by
    by_cases hqp : q = p
    · rw [hqp, Function.update_self] at hq
      cases hq
    · rwa [Function.update_of_ne hqp] at hq
  refine ⟨h.holder, h.semaphore, h.flocked, fun hk a b ha hb => h.files hk a b (hready a ha)
    (hready b hb), fun hk a ha => h.opened hk a (hready a ha), fun q hq => ?_⟩
  have hne : q ≠ p := fun he => hp (hq.trans (congrArg some he))
  rw [Function.update_of_ne hne]
  exact h.owner q hq

end AcceptMutex
end MyNet
