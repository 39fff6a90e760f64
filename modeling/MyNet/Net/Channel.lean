import MyNet.Lib.History
import MyNet.Lib.Machine
import Mathlib.Data.List.Infix

/-!
# The interest mask of `Channel`

`events_` is the `int` handed to the poller. The specification of it is "the last
request per direction wins". `disableReading` and `disableWriting` compute
`events_ |= ~mask`, where clearing a direction takes `events_ &= ~mask`; every other
request does what the specification says, and the last theorem tells the runs that
follow it from those that do not.

The event loop is a parameter. Its two entry points see the channel and change only
the loop.
-/
namespace MyNet.Net

open Lib Lib.History

def POLLIN : BitVec 32 := 0x001
def POLLPRI : BitVec 32 := 0x002
def POLLOUT : BitVec 32 := 0x004

structure Channel where
  fd_ : Int
  index_ : Int
  events_ : BitVec 32
  revents_ : BitVec 32
  logHup_ : Bool
  tied_ : Bool
  eventHandling_ : Bool
  addedToLoop_ : Bool
  deriving DecidableEq

structure EventLoop (σ : Type) where
  updateChannel : Channel → σ → σ
  removeChannel : Channel → σ → σ

namespace Channel

def kNoneEvent : BitVec 32 := 0
def kReadEvent : BitVec 32 := POLLIN ||| POLLPRI
def kWriteEvent : BitVec 32 := POLLOUT

def new (fd : Int) : Channel where
  fd_ := fd
  index_ := -1
  events_ := 0
  revents_ := 0
  logHup_ := true
  tied_ := false
  eventHandling_ := false
  addedToLoop_ := false

def isNoneEvent (c : Channel) : Bool := c.events_ == kNoneEvent
def isWriting (c : Channel) : Bool := c.events_ &&& kWriteEvent != 0

section Requests

variable {σ : Type} (loop_ : EventLoop σ)

def update (s : Channel × σ) : Channel × σ :=
  let c := { s.1 with addedToLoop_ := true }
  (c, loop_.updateChannel c s.2)

def enableReading (s : Channel × σ) : Channel × σ :=
  update loop_ ({ s.1 with events_ := s.1.events_ ||| kReadEvent }, s.2)

def disableReading (s : Channel × σ) : Channel × σ :=
  update loop_ ({ s.1 with events_ := s.1.events_ ||| ~~~kReadEvent }, s.2)

def enableWriting (s : Channel × σ) : Channel × σ :=
  update loop_ ({ s.1 with events_ := s.1.events_ ||| kWriteEvent }, s.2)

def disableWriting (s : Channel × σ) : Channel × σ :=
  update loop_ ({ s.1 with events_ := s.1.events_ ||| ~~~kWriteEvent }, s.2)

def disableAll (s : Channel × σ) : Channel × σ :=
  update loop_ ({ s.1 with events_ := kNoneEvent }, s.2)

/-- `none` is the failed `assert(isNoneEvent())`. -/
def remove (s : Channel × σ) : Option (Channel × σ) :=
  if s.1.isNoneEvent then
    let c := { s.1 with addedToLoop_ := false }
    some (c, loop_.removeChannel c s.2)
  else none

inductive Request where
  | enableReading
  | disableReading
  | enableWriting
  | disableWriting
  | disableAll
  | remove
  deriving DecidableEq

def requests (fd : Int) (l : σ) : Machine (Channel × σ) Request where
  init s := s = (new fd, l)
  step s
    | .enableReading => some (enableReading loop_ s)
    | .disableReading => some (disableReading loop_ s)
    | .enableWriting => some (enableWriting loop_ s)
    | .disableWriting => some (disableWriting loop_ s)
    | .disableAll => some (disableAll loop_ s)
    | .remove => remove loop_ s

end Requests

/-! ## The last request wins -/

def Request.onRead : Request → Bool
  | .enableReading | .disableReading | .disableAll => true
  | _ => false

def Request.onWrite : Request → Bool
  | .enableWriting | .disableWriting | .disableAll => true
  | _ => false

/-- The last of `enableReading`, `disableReading` and `disableAll` was `enableReading`. -/
def reads (rs : List Request) : Bool := lastOf Request.onRead rs = some .enableReading

/-- The last of `enableWriting`, `disableWriting` and `disableAll` was `enableWriting`. -/
def writes (rs : List Request) : Bool := lastOf Request.onWrite rs = some .enableWriting

/-- The last request reached the loop through `update()`, not through `remove()`. -/
def added (rs : List Request) : Bool := rs.getLast?.any (· ≠ .remove)

def interest (reading writing : Bool) : BitVec 32 :=
  (if reading then kReadEvent else 0) ||| (if writing then kWriteEvent else 0)

/-- What the channel shows after the requests `rs`. -/
structure Follows (rs : List Request) (c : Channel) : Prop where
  events : c.events_ = interest (reads rs) (writes rs)
  writing : c.isWriting = writes rs
  none : c.isNoneEvent = (!reads rs && !writes rs)
  added : c.addedToLoop_ = added rs

theorem follows_of {rs : List Request} {c : Channel}
    (he : c.events_ = interest (reads rs) (writes rs)) (ha : c.addedToLoop_ = Channel.added rs) :
    Follows rs c := by
  refine ⟨he, ?_, ?_, ha⟩
  · rw [isWriting, he]
    cases reads rs <;> cases writes rs <;> rfl
  · rw [isNoneEvent, he]
    cases reads rs <;> cases writes rs <;> rfl

theorem reads_concat (rs : List Request) (r : Request) :
    reads (rs ++ [r]) = if r.onRead then decide (r = .enableReading) else reads rs := by
  unfold reads
  rw [lastOf_concat]
  split <;> simp

theorem writes_concat (rs : List Request) (r : Request) :
    writes (rs ++ [r]) = if r.onWrite then decide (r = .enableWriting) else writes rs := by
  unfold writes
  rw [lastOf_concat]
  split <;> simp

theorem added_concat (rs : List Request) (r : Request) :
    added (rs ++ [r]) = decide (r ≠ .remove) := by
  rw [added, List.getLast?_concat, Option.any_some]

/-- Setting the bits of a direction requests it and leaves the other one alone. -/
theorem interest_read (r w : Bool) : interest r w ||| kReadEvent = interest true w := by
  cases r <;> cases w <;> decide

theorem interest_write (r w : Bool) : interest r w ||| kWriteEvent = interest r true := by
  cases r <;> cases w <;> decide

theorem interest_and_write (r w : Bool) :
    interest r w &&& kWriteEvent = if w then kWriteEvent else 0 := by
  cases r <;> cases w <;> decide

theorem interest_and_read (r w : Bool) :
    interest r w &&& kReadEvent = if r then kReadEvent else 0 := by
  cases r <;> cases w <;> decide

/-- No request of the specification ever sets the sign bit; `|= ~mask` always does. -/
theorem interest_sign (r w : Bool) : (interest r w).getLsbD 31 = false := by
  cases r <;> cases w <;> decide

section Runs

variable {σ : Type} {loop_ : EventLoop σ} {fd : Int} {l : σ}

theorem follows_step {rs : List Request} {r : Request} {s t : Channel × σ}
    (h : Follows rs s.1) (hr : r ≠ .disableReading) (hw : r ≠ .disableWriting)
    (hs : (requests loop_ fd l).step s r = some t) : Follows (rs ++ [r]) t.1 := by
  have he := h.events
  cases r with
  | enableReading =>
    obtain rfl := Option.some.inj hs
    refine follows_of ?_ (added_concat rs .enableReading).symm
    rw [reads_concat, writes_concat]
    exact (congrArg (· ||| kReadEvent) he).trans (interest_read _ _)
  | disableReading => exact absurd rfl hr
  | enableWriting =>
    obtain rfl := Option.some.inj hs
    refine follows_of ?_ (added_concat rs .enableWriting).symm
    rw [reads_concat, writes_concat]
    exact (congrArg (· ||| kWriteEvent) he).trans (interest_write _ _)
  | disableWriting => exact absurd rfl hw
  | disableAll =>
    obtain rfl := Option.some.inj hs
    refine follows_of ?_ (added_concat rs .disableAll).symm
    rw [reads_concat, writes_concat]
    exact (show kNoneEvent = interest false false by decide)
  | remove =>
    by_cases hn : s.1.isNoneEvent = true
    · obtain rfl := Option.some.inj ((if_pos hn).symm.trans hs)
      refine follows_of ?_ (added_concat rs .remove).symm
      rw [reads_concat, writes_concat]
      exact he
    · cases (if_neg hn).symm.trans hs

theorem follows_run {rs : List Request} {s : Channel × σ}
    (hr : ∀ r ∈ rs, r ≠ .disableReading ∧ r ≠ .disableWriting)
    (h : (requests loop_ fd l).run (new fd, l) rs = some s) : Follows rs s.1 := by
  induction rs using List.reverseRecOn generalizing s with
  | nil =>
    obtain rfl := Option.some.inj h
    exact follows_of rfl rfl
  | append_singleton rs r ih =>
    obtain ⟨u, hu, -, hs⟩ := Machine.runIf_concat.mp h
    have hlast := hr r (by simp)
    exact follows_step (ih (fun q hq => hr q (by simp [hq])) hu) hlast.1 hlast.2 hs

variable (loop_ fd l) in
/-- In every state along the run the mask follows the requests so far, and a request on
one direction leaves the bits of the other one alone. -/
structure InterestHolds (rs : List Request) : Prop where
  follows : ∀ p, p <+: rs →
    ∃ s, (requests loop_ fd l).run (new fd, l) p = some s ∧ Follows p s.1
  frame : ∀ p r s t, p ++ [r] <+: rs → (requests loop_ fd l).run (new fd, l) p = some s →
    (requests loop_ fd l).run (new fd, l) (p ++ [r]) = some t →
    (r = .enableReading ∨ r = .disableReading →
      t.1.events_ &&& kWriteEvent = s.1.events_ &&& kWriteEvent) ∧
    (r = .enableWriting ∨ r = .disableWriting →
      t.1.events_ &&& kReadEvent = s.1.events_ &&& kReadEvent)

theorem interestHolds_of {rs : List Request} {s : Channel × σ}
    (hrun : (requests loop_ fd l).run (new fd, l) rs = some s)
    (hr : ∀ r ∈ rs, r ≠ .disableReading ∧ r ≠ .disableWriting) :
    InterestHolds loop_ fd l rs := by
  have hclean : ∀ p, p <+: rs → ∀ r ∈ p, r ≠ .disableReading ∧ r ≠ .disableWriting :=
    fun p hp r hmem => hr r (hp.subset hmem)
  constructor
  · intro p hp
    obtain ⟨u, hu⟩ := Machine.runIf_prefix hp hrun
    exact ⟨u, hu, follows_run (hclean p hp) hu⟩
  · intro p r s t hp hs ht
    have hpre : p <+: rs := (List.prefix_append p [r]).trans hp
    have he := (follows_run (hclean p hpre) hs).events
    have he' := (follows_run (hclean _ hp) ht).events
    have hlast := hclean _ hp r (by simp)
    rw [he, he', reads_concat, writes_concat]
    constructor
    · rintro (rfl | rfl)
      · rw [interest_and_write, interest_and_write]
        rfl
      · exact absurd rfl hlast.1
    · rintro (rfl | rfl)
      · rw [interest_and_read, interest_and_read]
        rfl
      · exact absurd rfl hlast.2

theorem sign_of_or_not (x mask : BitVec 32) (hm : mask.getLsbD 31 = false) :
    (x ||| ~~~mask).getLsbD 31 = true := by
  rw [BitVec.getLsbD_or, BitVec.getLsbD_not, hm]
  simp

/-- After `|= ~mask` the mask is none the specification knows. -/
theorem disable_not_follows {p : List Request} {r : Request} {s t : Channel × σ}
    (hr : r = .disableReading ∨ r = .disableWriting)
    (hs : (requests loop_ fd l).step s r = some t) : ¬ Follows (p ++ [r]) t.1 := by
  intro h
  have hsign := congrArg (fun e => e.getLsbD 31) h.events
  rw [interest_sign] at hsign
  rcases hr with rfl | rfl
  · obtain rfl := Option.some.inj hs
    have hset : (disableReading loop_ s).1.events_.getLsbD 31 = true :=
      sign_of_or_not s.1.events_ kReadEvent (by decide)
    rw [hset] at hsign
    cases hsign
  · obtain rfl := Option.some.inj hs
    have hset : (disableWriting loop_ s).1.events_.getLsbD 31 = true :=
      sign_of_or_not s.1.events_ kWriteEvent (by decide)
    rw [hset] at hsign
    cases hsign

/-- A run (with `remove` only where its assertion holds) follows the last request per
direction in every state exactly if it never asks to disable a single direction. -/
theorem interest_follows_iff {rs : List Request} {s : Channel × σ}
    (hrun : (requests loop_ fd l).run (new fd, l) rs = some s) :
    InterestHolds loop_ fd l rs ↔ ∀ r ∈ rs, r ≠ .disableReading ∧ r ≠ .disableWriting := by
  refine ⟨fun h => ?_, interestHolds_of hrun⟩
  have hno : ∀ r ∈ rs, ¬ (r = .disableReading ∨ r = .disableWriting) := by
    intro r hmem hr
    obtain ⟨p, q, rfl⟩ := List.append_of_mem hmem
    have hp : p ++ [r] <+: p ++ r :: q := ⟨q, by simp⟩
    obtain ⟨u, hu, -⟩ := h.follows p (List.prefix_append p (r :: q))
    obtain ⟨t, ht, hf⟩ := h.follows (p ++ [r]) hp
    obtain ⟨u', hu', -, hs⟩ := Machine.runIf_concat.mp ht
    obtain rfl := Option.some.inj (hu.symm.trans hu')
    exact disable_not_follows hr hs hf
  exact fun r hmem => not_or.mp (hno r hmem)

end Runs

/-- Enabling, then `disableAll`, then `remove`: all of it follows the requests. -/
theorem interest_follows_iff_remove :
    InterestHolds (σ := Unit) ⟨fun _ l => l, fun _ l => l⟩ 5 ()
      [.enableReading, .enableWriting, .disableAll, .remove] :=
  (interest_follows_iff (s := ({ new 5 with addedToLoop_ := false }, ())) rfl).mpr (by decide)

/-- Reading enabled and disabled again: the channel still reports both directions, and
`remove` is refused. -/
theorem disableReading_keeps_interest :
    ¬ ∀ (rs : List Request) (s : Channel × Unit),
      (requests ⟨fun _ l => l, fun _ l => l⟩ 5 ()).run (new 5, ()) rs = some s →
      InterestHolds (σ := Unit) ⟨fun _ l => l, fun _ l => l⟩ 5 () rs := by
  intro h
  obtain ⟨s, hs, hf⟩ := (h [.enableReading, .disableReading] _ rfl).follows _ (List.prefix_refl _)
  obtain rfl := Option.some.inj hs
  exact absurd hf.none (by decide)

end Channel
end MyNet.Net
