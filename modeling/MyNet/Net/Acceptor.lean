import MyNet.Lib.Machine
import Mathlib.Data.List.Range
import Mathlib.Logic.Function.Basic

/-!
# `Acceptor::handleRead`

The descriptor table of the process is shared with other threads, which open and close their
own descriptors between any two calls of `handleRead`. Every open descriptor has one owner;
those from `accept` are numbered. The address of the peer is in `AcceptPeer`; `-1` is `none`.
-/
namespace MyNet.Net

open Lib

inductive FdOwner where
  | acceptor
  /-- Whoever `newConnectionCallback_` passed it to. -/
  | connection
  | other
  deriving DecidableEq

structure Descriptor where
  owner : FdOwner
  /-- Opened as `/dev/null`. -/
  devNull : Bool
  /-- Its number among the descriptors from `accept`. -/
  serial : Option Nat
  deriving DecidableEq

inductive Disposal where
  | passed
  | closed
  deriving DecidableEq

def EMFILE : Nat := 24

/-- The next call of `handleRead`. -/
inductive AcceptPc where
  | outside
  | accepting
  | accepted (connfd : Nat)
  /-- `accept` failed, with `errno` kept by the logging. -/
  | failed (errno : Nat)
  | closingIdle
  | reaccepting
  | closingAccepted
  | reopening
  deriving DecidableEq

structure Acceptor where
  acceptSocket_ : Nat
  idleFd_ : Option Nat
  newConnectionCallback_ : Bool
  pc : AcceptPc
  table : Nat → Option Descriptor
  /-- The descriptors of the process are below it. -/
  limit : Nat
  /-- How many descriptors `accept` has returned. -/
  count : Nat
  /-- What became of them. -/
  disposed : List (Nat × Disposal)
  /-- The descriptors closed by `handleRead`, as they were. -/
  closes : List Descriptor

inductive AcceptMove where
  | setNewConnectionCallback (cb : Bool)
  | handleRead
  /-- `accept` returns: a descriptor or `errno`. -/
  | accept (r : Except Nat Nat)
  /-- The next statement that is no `accept` and no `open`. -/
  | next
  /-- `open("/dev/null")` returns. -/
  | reopen (r : Option Nat)
  | otherOpens (fd : Nat)
  | otherCloses (fd : Nat)

/-- Another thread opens a descriptor. -/
def AcceptMove.opens : AcceptMove → Bool
  | .otherOpens _ => true
  | _ => false

namespace Acceptor

/-- A descriptor that is not open, and may be. -/
def Free (s : Acceptor) (fd : Nat) : Prop := fd < s.limit ∧ s.table fd = none

instance (s : Acceptor) (fd : Nat) : Decidable (s.Free fd) := inferInstanceAs (Decidable (_ ∧ _))

def Full (s : Acceptor) : Prop := ∀ fd < s.limit, s.table fd ≠ none

instance (s : Acceptor) : Decidable s.Full := inferInstanceAs (Decidable (∀ fd < s.limit, _))

/-- `accept` returns a free descriptor, and the Acceptor owns it. -/
def obtain (s : Acceptor) (fd : Nat) : Acceptor :=
  { s with
    table := Function.update s.table fd (some ⟨.acceptor, false, some s.count⟩)
    count := s.count + 1 }

/-- `::close(fd)`; a descriptor that is not open is left alone with `EBADF`. -/
def close (s : Acceptor) (fd : Option Nat) : Acceptor :=
  match fd with
  | none => s
  | some fd =>
    match s.table fd with
    | none => s
    | some d =>
      { s with
        table := Function.update s.table fd none
        disposed := s.disposed ++ (d.serial.map fun k => (k, Disposal.closed)).toList
        closes := s.closes ++ [d] }

/-- `newConnectionCallback_(connfd, peerAddr)` -/
def pass (s : Acceptor) (connfd : Nat) : Acceptor :=
  match s.table connfd with
  | none => s
  | some d =>
    { s with
      table := Function.update s.table connfd (some { d with owner := .connection })
      disposed := s.disposed ++ (d.serial.map fun k => (k, Disposal.passed)).toList }

def next (s : Acceptor) : Option Acceptor :=
  match s.pc with
  | .accepted connfd =>
    if s.newConnectionCallback_ then some { s.pass connfd with pc := .outside }
    else some { s.close (some connfd) with pc := .outside }
  | .failed errno =>
    if errno = EMFILE then some { s with pc := .closingIdle } else some { s with pc := .outside }
  | .closingIdle => some { s.close s.idleFd_ with pc := .reaccepting }
  | .closingAccepted => some { s.close s.idleFd_ with pc := .reopening }
  | .outside | .accepting | .reaccepting | .reopening => none

def step (s : Acceptor) : AcceptMove → Option Acceptor
  | .setNewConnectionCallback cb => some { s with newConnectionCallback_ := cb }
  | .handleRead =>
    match s.pc with
    | .outside => some { s with pc := .accepting }
    | _ => none
  | .accept r =>
    match s.pc, r with
    | .accepting, .ok connfd =>
      if s.Free connfd then some { s.obtain connfd with pc := .accepted connfd } else none
    | .accepting, .error errno => some { s with pc := .failed errno }
    | .reaccepting, .ok fd =>
      if s.Free fd then some { s.obtain fd with idleFd_ := some fd, pc := .closingAccepted } else none
    | .reaccepting, .error _ => some { s with idleFd_ := none, pc := .closingAccepted }
    | _, _ => none
  | .next => s.next
  | .reopen r =>
    match s.pc, r with
    | .reopening, some fd =>
      if s.Free fd then
        some { s with
          table := Function.update s.table fd (some ⟨.acceptor, true, none⟩)
          idleFd_ := some fd
          pc := .outside }
      else none
    | .reopening, none =>
      if s.Full then some { s with idleFd_ := none, pc := .outside } else none
    | _, _ => none
  | .otherOpens fd =>
    if s.Free fd then
      some { s with table := Function.update s.table fd (some ⟨.other, false, none⟩) }
    else none
  | .otherCloses fd =>
    match s.table fd with
    | some d =>
      if d.owner = .acceptor then none else some { s with table := Function.update s.table fd none }
    | none => none

/-- The Acceptor owns the descriptor, and it is not the one it listens on. -/
def Owns (s : Acceptor) (fd : Nat) (d : Descriptor) : Prop :=
  s.table fd = some d ∧ d.owner = .acceptor ∧ fd < s.limit ∧ fd ≠ s.acceptSocket_

/-- After the constructor, whose assertion says that `/dev/null` could be opened. -/
structure Constructed (s : Acceptor) : Prop where
  pc : s.pc = .outside
  listening : ∃ d, s.table s.acceptSocket_ = some d ∧ d.owner = .acceptor
  idle : ∃ i, s.idleFd_ = some i ∧ s.Owns i ⟨.acceptor, true, none⟩
  count : s.count = 0
  disposed : s.disposed = []
  closes : s.closes = []

def reads : Machine Acceptor AcceptMove where
  init := Constructed
  step := step

/-- What a step does: its guard and its result. -/
inductive Turn (s : Acceptor) : AcceptMove → Acceptor → Prop
  | setCallback {cb : Bool} :
      Turn s (.setNewConnectionCallback cb) { s with newConnectionCallback_ := cb }
  | enter (hpc : s.pc = .outside) : Turn s .handleRead { s with pc := .accepting }
  | accepted {connfd : Nat} (hpc : s.pc = .accepting) (hfree : s.Free connfd) :
      Turn s (.accept (.ok connfd)) { s.obtain connfd with pc := .accepted connfd }
  | failed {errno : Nat} (hpc : s.pc = .accepting) :
      Turn s (.accept (.error errno)) { s with pc := .failed errno }
  | reaccepted {fd : Nat} (hpc : s.pc = .reaccepting) (hfree : s.Free fd) :
      Turn s (.accept (.ok fd)) { s.obtain fd with idleFd_ := some fd, pc := .closingAccepted }
  | refailed {errno : Nat} (hpc : s.pc = .reaccepting) :
      Turn s (.accept (.error errno)) { s with idleFd_ := none, pc := .closingAccepted }
  | pass {connfd : Nat} (hpc : s.pc = .accepted connfd) (hset : s.newConnectionCallback_ = true) :
      Turn s .next { s.pass connfd with pc := .outside }
  | drop {connfd : Nat} (hpc : s.pc = .accepted connfd) (hset : s.newConnectionCallback_ = false) :
      Turn s .next { s.close (some connfd) with pc := .outside }
  | exhausted (hpc : s.pc = .failed EMFILE) : Turn s .next { s with pc := .closingIdle }
  | leave {errno : Nat} (hpc : s.pc = .failed errno) (hother : errno ≠ EMFILE) :
      Turn s .next { s with pc := .outside }
  | closeIdle (hpc : s.pc = .closingIdle) :
      Turn s .next { s.close s.idleFd_ with pc := .reaccepting }
  | closeAccepted (hpc : s.pc = .closingAccepted) :
      Turn s .next { s.close s.idleFd_ with pc := .reopening }
  | reopened {fd : Nat} (hpc : s.pc = .reopening) (hfree : s.Free fd) :
      Turn s (.reopen (some fd)) { s with
        table := Function.update s.table fd (some ⟨.acceptor, true, none⟩)
        idleFd_ := some fd
        pc := .outside }
  | unopened (hpc : s.pc = .reopening) (hfull : s.Full) :
      Turn s (.reopen none) { s with idleFd_ := none, pc := .outside }
  | otherOpens {fd : Nat} (hfree : s.Free fd) :
      Turn s (.otherOpens fd)
        { s with table := Function.update s.table fd (some ⟨.other, false, none⟩) }
  | otherCloses {fd : Nat} {d : Descriptor} (hd : s.table fd = some d) (hother : d.owner ≠ .acceptor) :
      Turn s (.otherCloses fd) { s with table := Function.update s.table fd none }

theorem next_turn {s t : Acceptor} (hs : s.next = some t) : Turn s .next t := by
  unfold next at hs
  cases hpc : s.pc with
  | accepted connfd =>
    simp only [hpc] at hs
    split at hs
    · next hset =>
      obtain rfl := Option.some.inj hs
      exact .pass hpc hset
    · next hset =>
      obtain rfl := Option.some.inj hs
      exact .drop hpc (Bool.eq_false_iff.mpr hset)
  | failed errno =>
    simp only [hpc] at hs
    split at hs
    · next hexhausted =>
      obtain rfl := Option.some.inj hs
      exact .exhausted (hexhausted ▸ hpc)
    · next hother =>
      obtain rfl := Option.some.inj hs
      exact .leave hpc hother
  | closingIdle =>
    simp only [hpc] at hs
    obtain rfl := Option.some.inj hs
    exact .closeIdle hpc
  | closingAccepted =>
    simp only [hpc] at hs
    obtain rfl := Option.some.inj hs
    exact .closeAccepted hpc
  | outside | accepting | reaccepting | reopening =>
    simp only [hpc] at hs
    cases hs

theorem accept_turn {s t : Acceptor} {r : Except Nat Nat} (hs : s.step (.accept r) = some t) :
    Turn s (.accept r) t := by
  simp only [step] at hs
  cases hpc : s.pc with
  | accepting =>
    rw [hpc] at hs
    cases r with
    | ok connfd =>
      simp only at hs
      split at hs
      · next hfree =>
        obtain rfl := Option.some.inj hs
        exact .accepted hpc hfree
      · cases hs
    | error errno =>
      obtain rfl := Option.some.inj hs
      exact .failed hpc
  | reaccepting =>
    rw [hpc] at hs
    cases r with
    | ok connfd =>
      simp only at hs
      split at hs
      · next hfree =>
        obtain rfl := Option.some.inj hs
        exact .reaccepted hpc hfree
      · cases hs
    | error errno =>
      obtain rfl := Option.some.inj hs
      exact .refailed hpc
  | outside | accepted | failed | closingIdle | closingAccepted | reopening =>
    rw [hpc] at hs
    cases hs

theorem reopen_turn {s t : Acceptor} {r : Option Nat} (hs : s.step (.reopen r) = some t) :
    Turn s (.reopen r) t := by
  simp only [step] at hs
  cases hpc : s.pc with
  | reopening =>
    rw [hpc] at hs
    cases r with
    | some fd =>
      simp only at hs
      split at hs
      · next hfree =>
        obtain rfl := Option.some.inj hs
        exact .reopened hpc hfree
      · cases hs
    | none =>
      simp only at hs
      split at hs
      · next hfull =>
        obtain rfl := Option.some.inj hs
        exact .unopened hpc hfull
      · cases hs
  | outside | accepting | accepted | failed | closingIdle | reaccepting | closingAccepted =>
    rw [hpc] at hs
    cases hs

theorem step_turn {s t : Acceptor} {e : AcceptMove} (hs : s.step e = some t) : Turn s e t := by
  cases e with
  | setNewConnectionCallback cb =>
    obtain rfl := Option.some.inj hs
    exact .setCallback
  | handleRead =>
    simp only [step] at hs
    split at hs
    · next hpc =>
      obtain rfl := Option.some.inj hs
      exact .enter hpc
    · cases hs
  | accept r => exact accept_turn hs
  | next => exact next_turn hs
  | reopen r => exact reopen_turn hs
  | otherOpens fd =>
    simp only [step] at hs
    split at hs
    · next hfree =>
      obtain rfl := Option.some.inj hs
      exact .otherOpens hfree
    · cases hs
  | otherCloses fd =>
    simp only [step] at hs
    split at hs
    · next d hd =>
      split at hs
      · cases hs
      · next hother =>
        obtain rfl := Option.some.inj hs
        exact .otherCloses hd hother
    · cases hs

end Acceptor
end MyNet.Net
