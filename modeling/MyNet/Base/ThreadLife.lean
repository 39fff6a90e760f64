import MyNet.Base.ThreadPoolThreads
import MyNet.Lib.Machine
import MyNet.Lib.SharedPtr

/-!
# The life of a `Thread`

The owner of a `Thread` object and the pthread it starts, statement by statement in any
order. They share the `ThreadData`, which the one allocates and the other deletes, and the
`pid_t` of `m_sharedtid`, to which the pthread has a weak reference only: the object may be
destroyed before the pthread has stored its id.
-/
namespace MyNet.Base

open Lib

/-- Where the owner is; `idle` is between two calls. -/
inductive OwnerPc where
  | idle
  /-- In `start`, with the `ThreadData`, before `pthread_create`. -/
  | creating
  /-- `pthread_create` has returned 0. -/
  | flagging
  /-- It has failed. -/
  | deleting
  | joining
  /-- In the destructor, before the members go. -/
  | releasing
  | gone
  deriving DecidableEq

/-- Where the pthread is, in `startThread` and `runInThread`. -/
inductive ChildPc where
  | unborn
  | naming
  /-- `m_wktid.lock()` -/
  | locking
  /-- `*ptid = tid` -/
  | storing
  /-- `ptid.reset()` -/
  | resetting
  /-- `t_threadname = m_name.empty() ? ...` -/
  | choosing
  /-- `m_func()` -/
  | calling
  | leaving
  /-- `delete td` -/
  | deleting
  | ended
  deriving DecidableEq

/-- What `t_threadname` points to. -/
inductive ThreadName where
  | default
  /-- `m_name.c_str()`, inside the `ThreadData`. -/
  | m_name
  | myNetThread
  | finished
  deriving DecidableEq

structure ThreadLife (R : Type) where
  thread : Thread
  owner : OwnerPc
  child : ChildPc
  m_sharedtid : R
  /-- How many `ThreadData` have been allocated; they are numbered by it. -/
  news : Nat
  /-- Those not deleted yet. -/
  live : List Nat
  thread_data : Nat
  td : Nat
  t_threadname : ThreadName
  /-- The assertion that has failed. -/
  assertion : Option ThreadAssertion
  /-- Something that is not there was used or deleted. -/
  misuse : Bool

inductive OwnerCall where
  | start
  | join
  /-- `~Thread` -/
  | destroy
  deriving DecidableEq

inductive ThreadMove where
  | call (c : OwnerCall)
  /-- The owner's next statement; `success` is what `pthread_create` comes to. -/
  | owner (success : Bool)
  | child
  deriving DecidableEq

namespace ThreadLife

variable {R : Type} [SharedPtr R Int32]

def new : ThreadLife R where
  thread := .new
  owner := .idle
  child := .unborn
  m_sharedtid := SharedPtr.new 0
  news := 0
  live := []
  thread_data := 0
  td := 0
  t_threadname := .default
  assertion := none
  misuse := false

def useData (s : ThreadLife R) (data : Nat) : ThreadLife R :=
  if data ∈ s.live then s else { s with misuse := true }

def deleteData (s : ThreadLife R) (data : Nat) : ThreadLife R :=
  if data ∈ s.live then { s with live := s.live.erase data } else { s with misuse := true }

def start (s : ThreadLife R) : ThreadLife R :=
  if s.thread.m_started then { s with assertion := some .notStarted }
  else
    { s with
      owner := .creating
      news := s.news + 1
      live := s.news :: s.live
      thread_data := s.news }

def join (s : ThreadLife R) : ThreadLife R :=
  if s.thread.m_started then
    if s.thread.m_joined then { s with assertion := some .notJoined }
    else { s with owner := .joining, thread := { s.thread with m_joined := true } }
  else { s with assertion := some .started }

def destroy (s : ThreadLife R) : ThreadLife R :=
  { s with owner := .releasing, thread := s.thread.destroy }

def call (s : ThreadLife R) : OwnerCall → ThreadLife R
  | .start => s.start
  | .join => s.join
  | .destroy => s.destroy

def ownerNext (s : ThreadLife R) (success : Bool) : Option (ThreadLife R) :=
  match s.owner with
  | .idle | .gone => none
  | .creating =>
    if success then
      some { s with
        owner := .flagging
        thread := { s.thread with created := true }
        child := .naming
        td := s.thread_data }
    else some { s with owner := .deleting }
  | .flagging => some { s with owner := .idle, thread := { s.thread with m_started := true } }
  | .deleting => some ({ s with owner := .idle }.deleteData s.thread_data)
  | .joining =>
    -- `pthread_join` waits for the end of the pthread
    if s.child = .ended then
      some { s with owner := .idle, thread := { s.thread with joins := s.thread.joins + 1 } }
    else none
  | .releasing => some { s with owner := .gone, m_sharedtid := SharedPtr.reset s.m_sharedtid }

def childNext (tid : Int32) (m_name : List UInt8) (s : ThreadLife R) : Option (ThreadLife R) :=
  match s.child with
  | .unborn | .ended => none
  | .naming => some ({ s with child := .locking, t_threadname := .m_name }.useData s.td)
  | .locking =>
    match SharedPtr.lock s.m_sharedtid with
    | some ptid => some ({ s with child := .storing, m_sharedtid := ptid }.useData s.td)
    | none => some ({ s with child := .choosing }.useData s.td)
  | .storing =>
    match SharedPtr.store s.m_sharedtid tid with
    | some ptid => some { s with child := .resetting, m_sharedtid := ptid }
    | none => some { s with misuse := true }
  | .resetting => some { s with child := .choosing, m_sharedtid := SharedPtr.reset s.m_sharedtid }
  | .choosing =>
    let name := if m_name = [] then ThreadName.myNetThread else .m_name
    some ({ s with child := .calling, t_threadname := name }.useData s.td)
  | .calling => some ({ s with child := .leaving }.useData s.td)
  | .leaving => some { s with child := .deleting, t_threadname := .finished }
  | .deleting => some ({ s with child := .ended }.deleteData s.td)

/-- A failed assertion ends the program. -/
def step (tid : Int32) (m_name : List UInt8) (s : ThreadLife R) (m : ThreadMove) :
    Option (ThreadLife R) :=
  if s.assertion = none then
    match m with
    | .call c => if s.owner = .idle then some (s.call c) else none
    | .owner success => s.ownerNext success
    | .child => s.childNext tid m_name
  else none

def life (tid : Int32) (m_name : List UInt8) : Machine (ThreadLife R) ThreadMove where
  init s := s = new
  step := step tid m_name

/-! ## Who has what -/

end ThreadLife

/-- The owner has a `ThreadData` that no pthread has. -/
def OwnerPc.hasData : OwnerPc → Bool
  | .creating | .deleting => true
  | .idle | .flagging | .joining | .releasing | .gone => false

namespace ChildPc

def hasData : ChildPc → Bool
  | .unborn | .ended => false
  | .naming | .locking | .storing | .resetting | .choosing | .calling | .leaving | .deleting => true

/-- The pthread has a reference to the `pid_t`. -/
def holdsTid : ChildPc → Bool
  | .storing | .resetting => true
  | .unborn | .naming | .locking | .choosing | .calling | .leaving | .deleting | .ended => false

/-- The pthread has stored its id, if the `pid_t` was still there. -/
def stored : ChildPc → Bool
  | .unborn | .naming | .locking | .storing => false
  | .resetting | .choosing | .calling | .leaving | .deleting | .ended => true

/-- `t_threadname` may point into the `ThreadData`. -/
def named : ChildPc → Bool
  | .locking | .storing | .resetting | .choosing | .calling | .leaving => true
  | .unborn | .naming | .deleting | .ended => false

end ChildPc

namespace ThreadLife

/-- The flags of the object and how far its pthread is. -/
structure Flags {R : Type} (s : ThreadLife R) : Prop where
  created : s.thread.created = true ↔ s.child ≠ .unborn
  started : s.thread.m_started = true → s.thread.created = true
  unflagged : s.thread.created = true → s.thread.m_started = true ∨ s.owner = .flagging
  flagging : s.owner = .flagging → s.thread.created = true
  starting : s.owner.hasData = true ∨ s.owner = .flagging → s.thread.m_started = false
  uncreated : s.owner.hasData = true → s.thread.created = false
  joined : s.thread.m_joined = true → s.thread.m_started = true
  joining : s.owner = .joining → s.thread.m_joined = true
  ended : s.thread.m_joined = true → s.owner = .joining ∨ s.child = .ended
  joins : s.thread.joins = if s.thread.m_joined = true ∧ s.owner ≠ .joining then 1 else 0
  detaches : s.thread.detaches =
    if (s.owner = .releasing ∨ s.owner = .gone) ∧ s.thread.m_started = true ∧
      s.thread.m_joined = false then 1 else 0

variable {R : Type} {tid : Int32} {m_name : List UInt8} {s t : ThreadLife R}

theorem useData_frame (s : ThreadLife R) (data : Nat) :
    (s.useData data).thread = s.thread ∧ (s.useData data).owner = s.owner ∧
      (s.useData data).child = s.child := by
  unfold useData
  split <;> exact ⟨rfl, rfl, rfl⟩

theorem deleteData_frame (s : ThreadLife R) (data : Nat) :
    (s.deleteData data).thread = s.thread ∧ (s.deleteData data).owner = s.owner ∧
      (s.deleteData data).child = s.child := by
  unfold deleteData
  split <;> exact ⟨rfl, rfl, rfl⟩

/-- Only the object, where the owner is and how far the pthread is make a difference. -/
theorem Flags.congr (h : s.Flags) (hthread : t.thread = s.thread) (howner : t.owner = s.owner)
    (hborn : t.child = .unborn ↔ s.child = .unborn) (hended : s.child = .ended → t.child = .ended) :
    t.Flags := by
  constructor <;> rw [hthread]
  case created => exact h.created.trans (not_congr hborn.symm)
  case started => exact h.started
  case unflagged => exact howner ▸ h.unflagged
  case flagging => exact howner ▸ h.flagging
  case starting => exact howner ▸ h.starting
  case uncreated => exact howner ▸ h.uncreated
  case joined => exact h.joined
  case joining => exact howner ▸ h.joining
  case ended => exact fun hj => (h.ended hj).imp (howner.trans ·) hended
  case joins => exact howner ▸ h.joins
  case detaches => exact howner ▸ h.detaches

/-- The owner moves where no call and no `pthread_create` succeeds or ends. -/
theorem Flags.setOwner (h : s.Flags) {pc : OwnerPc} (hflagging : s.owner ≠ .flagging)
    (hflagging' : pc ≠ .flagging) (hjoining : s.owner ≠ .joining) (hjoining' : pc ≠ .joining)
    (hdata : pc.hasData = true → s.thread.m_started = false)
    (hover : pc = .releasing ∨ pc = .gone ↔ s.owner = .releasing ∨ s.owner = .gone) :
    { s with owner := pc }.Flags where
  created := h.created
  started := h.started
  unflagged hc := .inl ((h.unflagged hc).resolve_right hflagging)
  flagging he := absurd he hflagging'
  starting he := hdata (he.resolve_right hflagging')
  uncreated he := by
    refine Bool.eq_false_iff.mpr fun hc => ?_
    have hstarted := (h.unflagged hc).resolve_right hflagging
    rw [hdata he] at hstarted
    cases hstarted
  joined := h.joined
  joining he := absurd he hjoining'
  ended hj := .inr ((h.ended hj).resolve_left hjoining)
  joins := by
    rw [h.joins]
    simp only [ne_eq, hjoining, hjoining', not_false_eq_true, and_true]
  detaches := by
    rw [h.detaches]
    simp only [hover]

theorem flags_start (h : s.Flags) (howner : s.owner = .idle) : s.start.Flags := by
  by_cases hstarted : s.thread.m_started = true
  · rw [start, if_pos hstarted]
    exact h.congr rfl rfl Iff.rfl id
  · rw [start, if_neg hstarted]
    have hmoved : ({ s with owner := .creating } : ThreadLife R).Flags :=
      h.setOwner (by rw [howner]; decide) (by decide) (by rw [howner]; decide) (by decide)
        (fun _ => Bool.eq_false_iff.mpr hstarted) (by rw [howner]; decide)
    exact hmoved.congr rfl rfl Iff.rfl id

theorem flags_join (h : s.Flags) (howner : s.owner = .idle) : s.join.Flags := by
  by_cases hstarted : s.thread.m_started = true
  · by_cases hjoined : s.thread.m_joined = true
    · rw [join, if_pos hstarted, if_pos hjoined]
      exact h.congr rfl rfl Iff.rfl id
    · rw [join, if_pos hstarted, if_neg hjoined]
      have hjoins := h.joins
      have hdetaches := h.detaches
      rw [if_neg fun hj => hjoined hj.1] at hjoins
      rw [howner, if_neg (by simp)] at hdetaches
      refine ⟨h.created, h.started, fun _ => .inl hstarted, nofun, ?_, nofun, fun _ => hstarted,
        fun _ => rfl, fun _ => .inl rfl, ?_, ?_⟩
      · rintro (he | he) <;> cases he
      · exact hjoins.trans (if_neg fun hj => hj.2 rfl).symm
      · exact hdetaches.trans (if_neg (by simp)).symm
  · rw [join, if_neg hstarted]
    exact h.congr rfl rfl Iff.rfl id

theorem flags_destroy (h : s.Flags) (howner : s.owner = .idle) : s.destroy.Flags := by
  have hdetaches := h.detaches
  rw [howner, if_neg (by simp)] at hdetaches
  have hjoins := h.joins
  simp only [howner, ne_eq, reduceCtorEq, not_false_eq_true, and_true] at hjoins
  have hstarted (hc : s.thread.created = true) : s.thread.m_started = true :=
    (h.unflagged hc).resolve_right (by rw [howner]; decide)
  have hended (hj : s.thread.m_joined = true) : s.child = .ended :=
    (h.ended hj).resolve_left (by rw [howner]; decide)
  unfold destroy Thread.destroy
  by_cases hdue : (s.thread.m_started && !s.thread.m_joined) = true
  · rw [if_pos hdue]
    obtain ⟨hs, hj⟩ := Bool.and_eq_true_iff.mp hdue
    refine ⟨h.created, h.started, fun hc => .inl (hstarted hc), nofun, ?_, nofun, h.joined, nofun,
      fun hj => .inr (hended hj), ?_, ?_⟩
    · rintro (he | he) <;> cases he
    · exact hjoins.trans (by simp)
    · change s.thread.detaches + 1 = _
      rw [hdetaches, if_pos ⟨.inl rfl, hs, Bool.not_eq_true' _ ▸ hj⟩]
  · rw [if_neg hdue]
    refine ⟨h.created, h.started, fun hc => .inl (hstarted hc), nofun, ?_, nofun, h.joined, nofun,
      fun hj => .inr (hended hj), ?_, ?_⟩
    · rintro (he | he) <;> cases he
    · exact hjoins.trans (by simp)
    · refine hdetaches.trans (if_neg fun hd => hdue ?_).symm
      rw [hd.2.1, hd.2.2]
      rfl

theorem flags_call (h : s.Flags) (howner : s.owner = .idle) (c : OwnerCall) : (s.call c).Flags := by
  cases c with
  | start => exact flags_start h howner
  | join => exact flags_join h howner
  | destroy => exact flags_destroy h howner

/-- `pthread_create` has made the pthread. -/
theorem flags_created (h : s.Flags) (howner : s.owner = .creating) :
    { s with
      owner := .flagging
      thread := { s.thread with created := true }
      child := .naming
      td := s.thread_data }.Flags := by
  have hflag := h.starting (.inl (by rw [howner]; rfl))
  have hunjoined : s.thread.m_joined = false := by
    refine Bool.eq_false_iff.mpr fun hj => ?_
    rw [h.joined hj] at hflag
    cases hflag
  have hjoins := h.joins
  have hdetaches := h.detaches
  rw [hunjoined, if_neg (by simp)] at hjoins
  rw [howner, if_neg (by simp)] at hdetaches
  refine ⟨?_, fun _ => rfl, fun _ => .inr rfl, fun _ => rfl, fun _ => hflag, nofun, h.joined, nofun,
    fun hj => ?_, ?_, ?_⟩
  · exact iff_of_true rfl nofun
  · rw [show s.thread.m_joined = true from hj] at hunjoined
    cases hunjoined
  · exact hjoins.trans (if_neg fun hj => by rw [hunjoined] at hj; cases hj.1).symm
  · exact hdetaches.trans (if_neg (by simp)).symm

theorem flags_flagged (h : s.Flags) (howner : s.owner = .flagging) :
    { s with owner := .idle, thread := { s.thread with m_started := true } }.Flags := by
  have hflag := h.starting (.inr howner)
  have hunjoined : s.thread.m_joined = false := by
    refine Bool.eq_false_iff.mpr fun hj => ?_
    rw [h.joined hj] at hflag
    cases hflag
  have hjoins := h.joins
  have hdetaches := h.detaches
  rw [hunjoined, if_neg (by simp)] at hjoins
  rw [howner, if_neg (by simp)] at hdetaches
  refine ⟨h.created, fun _ => h.flagging howner, fun _ => .inl rfl, nofun, ?_, nofun, fun _ => rfl,
    nofun, fun hj => ?_, ?_, ?_⟩
  · rintro (he | he) <;> cases he
  · rw [show s.thread.m_joined = true from hj] at hunjoined
    cases hunjoined
  · exact hjoins.trans (if_neg fun hj => by rw [hunjoined] at hj; cases hj.1).symm
  · exact hdetaches.trans (if_neg (by simp)).symm

/-- `pthread_join` returns. -/
theorem flags_joined (h : s.Flags) (howner : s.owner = .joining) (hchild : s.child = .ended) :
    { s with owner := .idle, thread := { s.thread with joins := s.thread.joins + 1 } }.Flags := by
  have hjoined := h.joining howner
  have hstarted := h.joined hjoined
  have hjoins := h.joins
  have hdetaches := h.detaches
  rw [if_neg fun hj => hj.2 howner] at hjoins
  rw [howner, if_neg (by simp)] at hdetaches
  refine ⟨h.created, h.started, fun _ => .inl hstarted, nofun, ?_, nofun, h.joined, nofun,
    fun _ => .inr hchild, ?_, ?_⟩
  · rintro (he | he) <;> cases he
  · change s.thread.joins + 1 = _
    rw [hjoins, if_pos ⟨hjoined, nofun⟩]
  · exact hdetaches.trans (if_neg (by simp)).symm

/-- To delete the only `ThreadData` leaves none. -/
theorem deleteData_only {data : Nat} (h : s.live = [data]) :
    s.deleteData data = { s with live := [] } := by
  rw [deleteData, h, if_pos List.mem_cons_self, List.erase_cons_head]

theorem useData_only {data : Nat} (h : s.live = [data]) : s.useData data = s := by
  rw [useData, h, if_pos List.mem_cons_self]

variable [SharedPtr R Int32]

theorem flags_owner (h : s.Flags) {success : Bool} (hs : s.ownerNext success = some t) :
    t.Flags := by
  have hstay {pc : OwnerPc} (hflagging : s.owner ≠ .flagging) (hjoining : s.owner ≠ .joining)
      (hflagging' : pc ≠ .flagging) (hjoining' : pc ≠ .joining) (hdata : s.owner.hasData = true)
      (hover : pc = .releasing ∨ pc = .gone ↔ s.owner = .releasing ∨ s.owner = .gone) :
      ({ s with owner := pc } : ThreadLife R).Flags :=
    h.setOwner hflagging hflagging' hjoining hjoining' (fun _ => h.starting (.inl hdata)) hover
  cases howner : s.owner <;> simp only [ownerNext, howner] at hs <;> rw [howner] at hstay
  case idle | gone => cases hs
  case creating =>
    split at hs <;> obtain rfl := Option.some.inj hs
    · exact flags_created h howner
    · exact hstay nofun nofun nofun nofun rfl (by decide)
  case flagging =>
    obtain rfl := Option.some.inj hs
    exact flags_flagged h howner
  case deleting =>
    obtain rfl := Option.some.inj hs
    obtain ⟨hthread, hidle, hchild⟩ := deleteData_frame { s with owner := .idle } s.thread_data
    have hmoved : ({ s with owner := .idle } : ThreadLife R).Flags :=
      hstay nofun nofun nofun nofun rfl (by decide)
    exact hmoved.congr hthread hidle (by rw [hchild]) hchild.trans
  case joining =>
    split at hs
    · next hchild =>
      obtain rfl := Option.some.inj hs
      exact flags_joined h howner hchild
    · cases hs
  case releasing =>
    obtain rfl := Option.some.inj hs
    have hmoved : ({ s with owner := .gone } : ThreadLife R).Flags :=
      h.setOwner (by rw [howner]; decide) nofun (by rw [howner]; decide) nofun nofun
        (by rw [howner]; decide)
    exact hmoved.congr rfl rfl Iff.rfl id

/-- The pthread changes nothing of the object but, through its reference, the `pid_t`. -/
theorem childNext_frame (hs : s.childNext tid m_name = some t) :
    t.thread = s.thread ∧ t.owner = s.owner ∧ s.child ≠ .unborn ∧ s.child ≠ .ended ∧
      t.child ≠ .unborn := by
  have huse {u : ThreadLife R} (hu : u.useData s.td = t) (hthread : u.thread = s.thread)
      (howner : u.owner = s.owner) (hchild : u.child ≠ .unborn) :
      t.thread = s.thread ∧ t.owner = s.owner ∧ t.child ≠ .unborn := by
    obtain ⟨hthread', howner', hchild'⟩ := useData_frame u s.td
    subst hu
    exact ⟨hthread'.trans hthread, howner'.trans howner, hchild' ▸ hchild⟩
  have hmoves : (s.child ≠ .unborn ∧ s.child ≠ .ended) ∧
      t.thread = s.thread ∧ t.owner = s.owner ∧ t.child ≠ .unborn := by
    cases hchild : s.child <;> simp only [childNext, hchild] at hs
    case unborn | ended => cases hs
    case naming | choosing | calling =>
      exact ⟨⟨nofun, nofun⟩, huse (Option.some.inj hs) rfl rfl nofun⟩
    case locking =>
      split at hs <;> exact ⟨⟨nofun, nofun⟩, huse (Option.some.inj hs) rfl rfl nofun⟩
    case storing =>
      split at hs <;> obtain rfl := Option.some.inj hs <;>
        exact ⟨⟨nofun, nofun⟩, rfl, rfl, nofun⟩
    case resetting | leaving =>
      obtain rfl := Option.some.inj hs
      exact ⟨⟨nofun, nofun⟩, rfl, rfl, nofun⟩
    case deleting =>
      obtain rfl := Option.some.inj hs
      obtain ⟨hthread, howner, hended⟩ := deleteData_frame { s with child := .ended } s.td
      exact ⟨⟨nofun, nofun⟩, hthread, howner, by rw [hended]; exact nofun⟩
  exact ⟨hmoves.2.1, hmoves.2.2.1, hmoves.1.1, hmoves.1.2, hmoves.2.2.2⟩

theorem flags_child (h : s.Flags) (hs : s.childNext tid m_name = some t) : t.Flags := by
  obtain ⟨hthread, howner, hborn, hended, hborn'⟩ := childNext_frame hs
  exact h.congr hthread howner (iff_of_false hborn' hborn) fun he => absurd he hended

/-- Everything that is used is there, and everything that is there will be let go once. -/
structure Sound (tid : Int32) (s : ThreadLife R) : Prop where
  flags : s.Flags
  misuse : s.misuse = false
  live : s.live =
    if s.owner.hasData then [s.thread_data] else if s.child.hasData then [s.td] else []
  sharedtid : SharedPtr.Counts s.m_sharedtid
    ((if s.owner = .gone then 0 else 1) + if s.child.holdsTid then 1 else 0)
    (if s.child.stored then tid else 0)
  name : s.t_threadname = .m_name → s.child.named = true

theorem Sound.unborn (h : s.Sound tid) (hidle : s.owner ≠ .flagging)
    (hflag : s.thread.m_started = false) : s.child = .unborn := by
  by_contra hborn
  rcases h.flags.unflagged (h.flags.created.mpr hborn) with hstarted | hflagging
  · rw [hflag] at hstarted
    cases hstarted
  · exact hidle hflagging

theorem sound_call (h : s.Sound tid) (howner : s.owner = .idle) (c : OwnerCall) :
    (s.call c).Sound tid := by
  have hflags := flags_call h.flags howner c
  have hlive := h.live
  have htid := h.sharedtid
  rw [howner] at hlive htid
  cases c with
  | start =>
    by_cases hstarted : s.thread.m_started = true
    · rw [call, start, if_pos hstarted] at hflags ⊢
      exact ⟨hflags, h.misuse, h.live, h.sharedtid, h.name⟩
    · have hunborn := h.unborn (by rw [howner]; decide) (Bool.eq_false_iff.mpr hstarted)
      rw [hunborn] at hlive
      rw [call, start, if_neg hstarted] at hflags ⊢
      exact ⟨hflags, h.misuse, congrArg (s.news :: ·) hlive, htid, h.name⟩
  | join =>
    by_cases hstarted : s.thread.m_started = true
    · by_cases hjoined : s.thread.m_joined = true
      · rw [call, join, if_pos hstarted, if_pos hjoined] at hflags ⊢
        exact ⟨hflags, h.misuse, h.live, h.sharedtid, h.name⟩
      · rw [call, join, if_pos hstarted, if_neg hjoined] at hflags ⊢
        exact ⟨hflags, h.misuse, hlive, htid, h.name⟩
    · rw [call, join, if_neg hstarted] at hflags ⊢
      exact ⟨hflags, h.misuse, h.live, h.sharedtid, h.name⟩
  | destroy => exact ⟨hflags, h.misuse, hlive, htid, h.name⟩

theorem sound_owner (h : s.Sound tid) {success : Bool} (hs : s.ownerNext success = some t) :
    t.Sound tid := by
  have hflags := flags_owner h.flags hs
  have hlive := h.live
  have htid := h.sharedtid
  cases howner : s.owner <;> rw [howner] at hlive htid <;> simp only [ownerNext, howner] at hs
  case idle | gone => cases hs
  case creating =>
    have hunborn :=
      h.unborn (by rw [howner]; decide) (h.flags.starting (.inl (by rw [howner]; rfl)))
    cases success with
    | true =>
      obtain rfl := Option.some.inj hs
      rw [hunborn] at htid
      refine ⟨hflags, h.misuse, hlive, htid, fun hname => ?_⟩
      exact absurd (h.name hname) (by rw [hunborn]; decide)
    | false =>
      obtain rfl := Option.some.inj hs
      exact ⟨hflags, h.misuse, hlive, htid, h.name⟩
  case flagging =>
    obtain rfl := Option.some.inj hs
    exact ⟨hflags, h.misuse, hlive, htid, h.name⟩
  case deleting =>
    have hunborn :=
      h.unborn (by rw [howner]; decide) (h.flags.starting (.inl (by rw [howner]; rfl)))
    rw [deleteData_only (s := { s with owner := .idle }) hlive] at hs
    obtain rfl := Option.some.inj hs
    refine ⟨hflags, h.misuse, ?_, htid, h.name⟩
    rw [hunborn]
    rfl
  case joining =>
    split at hs
    · obtain rfl := Option.some.inj hs
      exact ⟨hflags, h.misuse, hlive, htid, h.name⟩
    · cases hs
  case releasing =>
    obtain rfl := Option.some.inj hs
    refine ⟨hflags, h.misuse, hlive, ?_, h.name⟩
    rw [if_neg (by decide), Nat.add_comm] at htid
    have hreset := htid.reset
    rw [← Nat.zero_add (if s.child.holdsTid then 1 else 0)] at hreset
    exact hreset

theorem sound_child (h : s.Sound tid) (hs : s.childNext tid m_name = some t) : t.Sound tid := by
  have hflags := flags_child h.flags hs
  obtain ⟨-, -, hborn, hended, -⟩ := childNext_frame hs
  have howner : s.owner.hasData = false := by
    by_contra hdata
    have hcreated := h.flags.uncreated (Bool.eq_true_of_not_eq_false hdata)
    rw [h.flags.created.mpr hborn] at hcreated
    cases hcreated
  have hlive := h.live
  have htid := h.sharedtid
  rw [if_neg (by rw [howner]; decide)] at hlive
  unfold childNext at hs
  have hkeep (hdata : s.live = [s.td]) :
      s.live = if s.owner.hasData then [s.thread_data] else [s.td] := by
    rw [howner]
    exact hdata
  cases hchild : s.child <;> rw [hchild] at hlive htid <;> simp only [hchild] at hs
  case unborn => exact absurd hchild hborn
  case ended => exact absurd hchild hended
  case naming =>
    rw [useData_only (s := { s with child := .locking, t_threadname := .m_name }) hlive] at hs
    obtain rfl := Option.some.inj hs
    exact ⟨hflags, h.misuse, hkeep hlive, htid, fun _ => rfl⟩
  case locking =>
    by_cases hgone : s.owner = .gone
    · rw [if_pos hgone] at htid
      rw [htid.lock_none] at hs
      simp only at hs
      rw [useData_only (s := { s with child := .choosing }) hlive] at hs
      obtain rfl := Option.some.inj hs
      refine ⟨hflags, h.misuse, hkeep hlive, ?_, fun _ => rfl⟩
      rw [if_pos hgone]
      exact htid.gone tid
    · obtain ⟨ptid, hlock, hcounts⟩ := htid.lock_some (by rw [if_neg hgone]; decide)
      rw [hlock] at hs
      simp only at hs
      rw [useData_only (s := { s with child := .storing, m_sharedtid := ptid }) hlive] at hs
      obtain rfl := Option.some.inj hs
      exact ⟨hflags, h.misuse, hkeep hlive, hcounts, fun _ => rfl⟩
  case storing =>
    obtain ⟨ptid, hstore, hcounts⟩ := htid.store (Nat.succ_ne_zero _) tid
    rw [hstore] at hs
    obtain rfl := Option.some.inj hs
    exact ⟨hflags, h.misuse, hkeep hlive, hcounts, fun _ => rfl⟩
  case resetting =>
    obtain rfl := Option.some.inj hs
    exact ⟨hflags, h.misuse, hkeep hlive, htid.reset, fun _ => rfl⟩
  case choosing =>
    rw [useData_only (s := { s with
      child := .calling
      t_threadname := if m_name = [] then .myNetThread else .m_name }) hlive] at hs
    obtain rfl := Option.some.inj hs
    exact ⟨hflags, h.misuse, hkeep hlive, htid, fun _ => rfl⟩
  case calling =>
    rw [useData_only (s := { s with child := .leaving }) hlive] at hs
    obtain rfl := Option.some.inj hs
    exact ⟨hflags, h.misuse, hkeep hlive, htid, fun _ => rfl⟩
  case leaving =>
    obtain rfl := Option.some.inj hs
    exact ⟨hflags, h.misuse, hkeep hlive, htid, nofun⟩
  case deleting =>
    rw [deleteData_only (s := { s with child := .ended }) hlive] at hs
    obtain rfl := Option.some.inj hs
    refine ⟨hflags, h.misuse, ?_, htid, fun hname => ?_⟩
    · rw [howner]
      rfl
    · exact absurd (h.name hname) (by rw [hchild]; decide)

theorem sound_inductive (tid : Int32) (m_name : List UInt8) :
    (life (R := R) tid m_name).Inductive (fun _ _ => True) (Sound tid) where
  init s hs := by
    obtain rfl : s = new := hs
    refine ⟨⟨?_, ?_, ?_, ?_, ?_, ?_, ?_, ?_, ?_, rfl, rfl⟩, rfl, rfl, SharedPtr.counts_new 0, ?_⟩ <;>
      simp [new, Thread.new, OwnerPc.hasData]
  step s m t h _ hs := by
    simp only [life, step] at hs
    split at hs
    · cases m with
      | call c =>
        simp only at hs
        split at hs
        · next howner =>
          obtain rfl := Option.some.inj hs
          exact sound_call h howner c
        · cases hs
      | owner success => exact sound_owner h hs
      | child => exact sound_child h hs
    · cases hs

/-- **Nothing is used after it is gone, and everything goes once.** In whatever order the owner
and the pthread go on, whatever `pthread_create` comes to and whether or not the object is
destroyed first: no `ThreadData` or `pid_t` is used or deleted that is not there, and the
thread's name does not outlive the `ThreadData` it points into. When the object is gone and the
pthread, if there was one, has ended, every `ThreadData` has been deleted, the `pid_t` has been
destroyed once, and the pthread has been joined or detached, once. -/
theorem everything_goes_once (h : (life tid m_name).Reach s) :
    s.misuse = false ∧ (s.t_threadname = .m_name → s.td ∈ s.live) ∧
      SharedPtr.destroyed s.m_sharedtid ≤ 1 ∧
      (s.owner = .gone → s.child = .unborn ∨ s.child = .ended →
        s.live = [] ∧ SharedPtr.destroyed s.m_sharedtid = 1 ∧
          SharedPtr.object s.m_sharedtid = none ∧ s.thread.Released) := by
  have hsound := (sound_inductive tid m_name).reach h
  have hlive := hsound.live
  have hcounts := hsound.sharedtid
  refine ⟨hsound.misuse, fun hname => ?_, ?_, fun hgone hchild => ?_⟩
  · have hnamed := hsound.name hname
    have hborn : s.child ≠ .unborn := fun hunborn => by
      rw [hunborn] at hnamed
      cases hnamed
    have howner : s.owner.hasData = false := by
      by_contra hdata
      have hcreated := hsound.flags.uncreated (Bool.eq_true_of_not_eq_false hdata)
      rw [hsound.flags.created.mpr hborn] at hcreated
      cases hcreated
    have hdata : s.child.hasData = true := by
      cases hchild : s.child <;> rw [hchild] at hnamed <;> first | rfl | cases hnamed
    rw [hlive, howner, hdata]
    exact List.mem_singleton.mpr rfl
  · exact hcounts.destroyed_le
  · have hend : s.child.hasData = false ∧ s.child.holdsTid = false := by
      rcases hchild with hchild | hchild <;> rw [hchild] <;> decide
    rw [hgone, hend.1] at hlive
    rw [hgone, hend.2] at hcounts
    refine ⟨hlive, hcounts.destroyed, hcounts.object, ?_⟩
    have hjoins := hsound.flags.joins
    have hdetaches := hsound.flags.detaches
    have hstarted : s.thread.created = true → s.thread.m_started = true := fun hcreated =>
      (hsound.flags.unflagged hcreated).resolve_right (by rw [hgone]; decide)
    have hcreated := hsound.flags.started
    have hjoined := hsound.flags.joined
    unfold Thread.Released
    rw [hjoins, hdetaches, hgone]
    cases hm : s.thread.m_started <;> cases hj : s.thread.m_joined <;>
      cases hc : s.thread.created <;> simp_all

/-- Destroyed while the pthread still had to store its id. -/
def destroyedFirst : List ThreadMove :=
  [.call .start, .owner true, .owner true, .call .destroy, .owner true] ++ List.replicate 6 .child

theorem everything_goes_once_detached :
    ∃ s, (life (R := Shared Int32) 4711 []).run new destroyedFirst = some s ∧
      SharedPtr.destroyed s.m_sharedtid = 1 ∧ s.thread.detaches = 1 ∧ s.misuse = false := by
  have hrun : ∃ s, (life (R := Shared Int32) 4711 []).run new destroyedFirst = some s ∧
      SharedPtr.destroyed s.m_sharedtid = 1 ∧ s.thread.detaches = 1 := ⟨_, rfl, rfl, rfl⟩
  obtain ⟨s, hrun, hdestroyed, hdetaches⟩ := hrun
  exact ⟨s, hrun, hdestroyed, hdetaches,
    (everything_goes_once (Machine.reachIf_of_runIf (.init rfl) hrun)).1⟩

/-- **What `join` returns to.** As long as the object is there its `tid()` is 0 or the id of the
pthread; and when `join` has returned, the pthread has run its function to the end, its
`ThreadData` is deleted and `tid()` is its id. -/
theorem join_returns_to_end (h : (life tid m_name).Reach s) (hthere : s.owner ≠ .gone) :
    (SharedPtr.object s.m_sharedtid = some 0 ∨ SharedPtr.object s.m_sharedtid = some tid) ∧
      (s.thread.m_joined = true → s.owner ≠ .joining →
        s.child = .ended ∧ s.live = [] ∧ SharedPtr.object s.m_sharedtid = some tid) := by
  have hsound := (sound_inductive tid m_name).reach h
  have hobject := hsound.sharedtid.object
  rw [if_neg hthere, if_neg (by omega)] at hobject
  refine ⟨?_, fun hjoined hreturned => ?_⟩
  · rw [hobject]
    split
    · exact .inr rfl
    · exact .inl rfl
  · have hended := (hsound.flags.ended hjoined).resolve_left hreturned
    have hstarted := hsound.flags.joined hjoined
    have howner : s.owner.hasData = false := by
      by_contra hdata
      have hnot := hsound.flags.starting (.inl (Bool.eq_true_of_not_eq_false hdata))
      rw [hstarted] at hnot
      cases hnot
    have hlive := hsound.live
    rw [howner, hended] at hlive
    rw [hended] at hobject
    exact ⟨hended, hlive, hobject⟩

theorem join_returns_to_end_joined :
    ∃ s, (life (R := Shared Int32) 4711 []).run new
        ([.call .start, .owner true, .owner true, .call .join] ++ List.replicate 8 .child ++
          [.owner true]) = some s ∧
      SharedPtr.object s.m_sharedtid = some 4711 := by
  have hrun : ∃ s, (life (R := Shared Int32) 4711 []).run new
      ([.call .start, .owner true, .owner true, .call .join] ++ List.replicate 8 .child ++
        [.owner true]) = some s ∧ s.owner = .idle ∧ s.thread.m_joined = true := ⟨_, rfl, rfl, rfl⟩
  obtain ⟨s, hrun, howner, hjoined⟩ := hrun
  exact ⟨s, hrun, ((join_returns_to_end (Machine.reachIf_of_runIf (.init rfl) hrun)
    (by rw [howner]; decide)).2 hjoined (by rw [howner]; decide)).2.2⟩

end ThreadLife
end MyNet.Base
