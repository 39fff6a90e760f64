import MyNet.Net.Channel

/-!
# `handleEvent` of a tied `Channel`

The owner of the channel is destroyed with its last reference, and destroys the channel. A
tied channel takes a reference of its own before it dispatches, the `guard`, and gives it
back when `handleEventWithGuard` has returned. The callbacks, and other threads, drop and
copy references as they like; a callback also changes the interest.
-/
namespace MyNet.Net

open Lib

def POLLERR : BitVec 32 := 0x008
def POLLHUP : BitVec 32 := 0x010
def POLLNVAL : BitVec 32 := 0x020
def POLLRDHUP : BitVec 32 := 0x2000

/-- Which of the four callbacks is set. -/
structure Callbacks where
  readCallback_ : Bool
  writeCallback_ : Bool
  closeCallback_ : Bool
  errorCallback_ : Bool

inductive DestructorAssert where
  | eventHandling
  | addedToLoop
  | hasChannel
  deriving DecidableEq

/-- What the loop answers to the destructor. -/
structure LoopAnswers where
  isInLoopThread : Bool
  hasChannel : Bool

/-- The callbacks in the order of `handleEventWithGuard`. -/
inductive Dispatch where
  | close
  | error
  | read
  | write
  deriving DecidableEq

namespace Channel

/-- The assertion of `~Channel` that fails, if one does. -/
def destroy (c : Channel) (loop : LoopAnswers) : Option DestructorAssert :=
  if c.eventHandling_ then some .eventHandling
  else if c.addedToLoop_ then some .addedToLoop
  else if loop.isInLoopThread && loop.hasChannel then some .hasChannel
  else none

def tie (c : Channel) : Channel := { c with tied_ := true }

/-- The condition on `revents_` in front of a callback. -/
def due (c : Channel) : Dispatch → Bool
  | .close => c.revents_ &&& POLLHUP != 0 && c.revents_ &&& POLLIN == 0
  | .error => c.revents_ &&& (POLLERR ||| POLLNVAL) != 0
  | .read => c.revents_ &&& (POLLIN ||| POLLPRI ||| POLLRDHUP) != 0
  | .write => c.revents_ &&& POLLOUT != 0

end Channel

def Callbacks.has (cb : Callbacks) : Dispatch → Bool
  | .close => cb.closeCallback_
  | .error => cb.errorCallback_
  | .read => cb.readCallback_
  | .write => cb.writeCallback_

/-- Where the loop thread is in `handleEvent`. -/
inductive HandlePc where
  | outside
  /-- Before `tied_` is tested and `tie_` locked. -/
  | entered
  /-- Before `eventHandling_ = true`. -/
  | starting
  /-- Before the test in front of a callback. -/
  | testing (d : Dispatch)
  | calling (d : Dispatch)
  /-- Before `eventHandling_ = false`. -/
  | ending
  /-- `handleEventWithGuard` has returned; `guard` is still there. -/
  | returned

/-- The place behind a callback. -/
def Dispatch.after : Dispatch → HandlePc
  | .close => .testing .error
  | .error => .testing .read
  | .read => .testing .write
  | .write => .ending

structure ChannelOwner (σ : Type) where
  channel : Channel
  callbacks : Callbacks
  loop : σ
  pc : HandlePc
  /-- The references to the owner that are held outside the channel. -/
  outside : Nat
  guard : Bool
  /-- Once the owner is destroyed: what came of the destructor of the channel. -/
  destroyed : Option (Option DestructorAssert)
  /-- The callbacks called so far. -/
  called : List Dispatch

inductive HandleMove where
  | handleEvent
  /-- The next statement of the loop thread; the answers are for a destructor it may run. -/
  | next (loop : LoopAnswers)
  /-- A request of the callback that is running. -/
  | request (r : Channel.Request)
  | callbackReturns
  | drop (loop : LoopAnswers)
  | copy

namespace ChannelOwner

variable {σ : Type}

/-- `use_count()` of the owner. -/
def references (s : ChannelOwner σ) : Nat := s.outside + if s.guard then 1 else 0

/-- A reference is gone; with the last one the owner goes, and the channel. -/
def release (s : ChannelOwner σ) (loop : LoopAnswers) : ChannelOwner σ :=
  if s.references = 0 then { s with destroyed := some (s.channel.destroy loop) } else s

/-- The next statement of `handleEvent` or of `handleEventWithGuard`. -/
def next (s : ChannelOwner σ) (loop : LoopAnswers) : Option (ChannelOwner σ) :=
  match s.pc with
  | .outside | .calling _ => none
  | .entered =>
    if s.channel.tied_ then
      -- `tie_.lock()` succeeds as long as there is a reference
      if s.references = 0 then some { s with pc := .outside }
      else some { s with guard := true, pc := .starting }
    else some { s with pc := .starting }
  | .starting =>
    some { s with channel := { s.channel with eventHandling_ := true }, pc := .testing .close }
  | .testing d =>
    if s.channel.due d && s.callbacks.has d then
      some { s with pc := .calling d, called := s.called ++ [d] }
    else some { s with pc := d.after }
  | .ending =>
    some { s with channel := { s.channel with eventHandling_ := false }, pc := .returned }
  | .returned =>
    if s.guard then some ({ s with guard := false, pc := .outside }.release loop)
    else some { s with pc := .outside }

/-- A callback asks for a change of the interest. -/
def request (loop_ : EventLoop σ) (s : ChannelOwner σ) (r : Channel.Request) :
    Option (ChannelOwner σ) :=
  match s.pc with
  | .calling _ =>
    ((Channel.requests loop_ s.channel.fd_ s.loop).step (s.channel, s.loop) r).map fun c =>
      { s with channel := c.1, loop := c.2 }
  | _ => none

def step (loop_ : EventLoop σ) (s : ChannelOwner σ) : HandleMove → Option (ChannelOwner σ)
  | .handleEvent =>
    match s.pc with
    | .outside => some { s with pc := .entered }
    | _ => none
  | .next loop => s.next loop
  | .request r => s.request loop_ r
  | .callbackReturns =>
    match s.pc with
    | .calling d => some { s with pc := d.after }
    | _ => none
  | .drop loop =>
    if 0 < s.outside then some ({ s with outside := s.outside - 1 }.release loop) else none
  | .copy => if 0 < s.references then some { s with outside := s.outside + 1 } else none

/-- A tied channel that is not handling an event, with an owner that has any number of
references or has none any more. -/
def Tied (s : ChannelOwner σ) : Prop :=
  s.channel.tied_ = true ∧ s.channel.eventHandling_ = false ∧ s.pc = .outside ∧
    s.guard = false ∧ (s.destroyed = none ↔ 0 < s.outside) ∧
    s.destroyed ≠ some (some .eventHandling)

/-- The runs of a tied channel and its owner. -/
def dispatches (loop_ : EventLoop σ) : Machine (ChannelOwner σ) HandleMove where
  init s := s.Tied
  step := step loop_

/-! ## The guard -/

end ChannelOwner

/-- From the lock to the end of `handleEvent`. -/
def HandlePc.guarded : HandlePc → Bool
  | .outside | .entered => false
  | .starting | .testing _ | .calling _ | .ending | .returned => true

/-- `handleEventWithGuard` has not returned. -/
def HandlePc.dispatching : HandlePc → Bool
  | .outside | .entered | .returned => false
  | .starting | .testing _ | .calling _ | .ending => true

theorem HandlePc.guarded_of_dispatching {pc : HandlePc} (h : pc.dispatching = true) :
    pc.guarded = true := by
  cases pc with
  | outside | entered | returned => cases h
  | starting | testing | calling | ending => rfl

theorem Dispatch.after_dispatching (d : Dispatch) : d.after.dispatching = true := by
  cases d <;> rfl

/-- A change of the interest leaves the other flags alone. -/
theorem Channel.request_keeps {σ : Type} {loop_ : EventLoop σ} {fd : Int} {l : σ}
    {s t : Channel × σ} {r : Channel.Request}
    (h : (Channel.requests loop_ fd l).step s r = some t) :
    t.1.tied_ = s.1.tied_ ∧ t.1.eventHandling_ = s.1.eventHandling_ := by
  cases r with
  | enableReading | disableReading | enableWriting | disableWriting | disableAll =>
    obtain rfl := Option.some.inj h
    exact ⟨rfl, rfl⟩
  | remove =>
    by_cases hn : s.1.isNoneEvent = true
    · obtain rfl := Option.some.inj ((if_pos hn).symm.trans h)
      exact ⟨rfl, rfl⟩
    · cases (if_neg hn).symm.trans h

theorem Channel.destroy_handling {c : Channel} (h : c.eventHandling_ = false)
    (loop : LoopAnswers) : c.destroy loop ≠ some .eventHandling := by
  rw [Channel.destroy, h]
  split
  · next hc => cases hc
  · split
    · exact nofun
    · split <;> exact nofun

namespace ChannelOwner

variable {σ : Type} {loop_ : EventLoop σ}

structure Guarded (s : ChannelOwner σ) : Prop where
  tied : s.channel.tied_ = true
  guard : s.guard = s.pc.guarded
  handling : s.channel.eventHandling_ = true → s.pc.dispatching = true
  alive : s.destroyed = none ↔ 0 < s.references
  clean : s.destroyed ≠ some (some .eventHandling)

/-- Outside `handleEventWithGuard` the flag is clear. -/
theorem Guarded.idle {s : ChannelOwner σ} (h : Guarded s) (hd : s.pc.dispatching = false) :
    ¬s.channel.eventHandling_ = true := by
  intro hbusy
  rw [h.handling hbusy] at hd
  cases hd

theorem references_guard {s : ChannelOwner σ} (h : s.guard = true) : 0 < s.references := by
  rw [references, if_pos h]
  omega

theorem references_free {s : ChannelOwner σ} (h : s.guard = false) : s.references = s.outside := by
  rw [references, h]
  rfl

/-- A reference that is released is not the last one of an owner that is dispatching. -/
theorem guarded_release {s : ChannelOwner σ} (htied : s.channel.tied_ = true)
    (hguard : s.guard = s.pc.guarded) (hdestroyed : s.destroyed = none)
    (hhandling : s.channel.eventHandling_ = true → s.pc.dispatching = true) (loop : LoopAnswers) :
    Guarded (s.release loop) := by
  by_cases hlast : s.references = 0
  · have hidle : s.channel.eventHandling_ = false := by
      rw [← Bool.not_eq_true]
      intro hbusy
      have hheld := references_guard (hguard.trans (HandlePc.guarded_of_dispatching (hhandling hbusy)))
      omega
    rw [release, if_pos hlast]
    refine ⟨htied, hguard, hhandling, ?_, ?_⟩
    · exact iff_of_false nofun (Nat.not_lt.mpr (Nat.le_of_eq hlast))
    · intro hd
      exact Channel.destroy_handling hidle loop (Option.some.inj hd)
  · rw [release, if_neg hlast]
    refine ⟨htied, hguard, hhandling, iff_of_true hdestroyed (Nat.pos_of_ne_zero hlast), ?_⟩
    rw [hdestroyed]
    exact nofun

theorem guarded_next {s u : ChannelOwner σ} {loop : LoopAnswers} (h : Guarded s)
    (hs : s.next loop = some u) : Guarded u := by
  have hidle := h.idle
  obtain ⟨htied, hguard, hhandling, halive, hclean⟩ := h
  unfold next at hs
  cases hpc : s.pc with
  | outside | calling =>
    rw [hpc] at hs
    cases hs
  | entered =>
    have hfree : s.guard = false := by rw [hguard, hpc]; rfl
    have hidle := hidle (hpc ▸ rfl)
    simp only [hpc, htied, if_true] at hs
    split at hs
    · obtain rfl := Option.some.inj hs
      exact ⟨htied, hfree, fun hbusy => absurd hbusy hidle, halive, hclean⟩
    · next hsome =>
      obtain rfl := Option.some.inj hs
      have hone : s.destroyed = none := halive.mpr (Nat.pos_of_ne_zero hsome)
      exact ⟨htied, rfl, fun hbusy => absurd hbusy hidle,
        iff_of_true hone (references_guard rfl), hclean⟩
  | starting =>
    simp only [hpc] at hs
    obtain rfl := Option.some.inj hs
    rw [hpc] at hguard
    exact ⟨htied, hguard, fun _ => rfl, halive, hclean⟩
  | testing d =>
    simp only [hpc] at hs
    rw [hpc] at hguard
    split at hs
    · obtain rfl := Option.some.inj hs
      exact ⟨htied, hguard, fun _ => rfl, halive, hclean⟩
    · obtain rfl := Option.some.inj hs
      have hafter := d.after_dispatching
      exact ⟨htied, hguard.trans (HandlePc.guarded_of_dispatching hafter).symm, fun _ => hafter,
        halive, hclean⟩
  | ending =>
    simp only [hpc] at hs
    obtain rfl := Option.some.inj hs
    rw [hpc] at hguard
    exact ⟨htied, hguard, nofun, halive, hclean⟩
  | returned =>
    have hheld : s.guard = true := by rw [hguard, hpc]; rfl
    have hidle := hidle (hpc ▸ rfl)
    simp only [hpc, hheld, if_true] at hs
    obtain rfl := Option.some.inj hs
    exact guarded_release (s := { s with guard := false, pc := .outside }) htied rfl
      (halive.mpr (references_guard hheld)) (fun hbusy => absurd hbusy hidle) loop

theorem guarded_step {s u : ChannelOwner σ} {e : HandleMove} (h : Guarded s)
    (hs : s.step loop_ e = some u) : Guarded u := by
  have hidle := h.idle
  obtain ⟨htied, hguard, hhandling, halive, hclean⟩ := h
  cases e with
  | handleEvent =>
    simp only [step] at hs
    cases hpc : s.pc with
    | outside =>
      rw [hpc] at hs hguard
      obtain rfl := Option.some.inj hs
      exact ⟨htied, hguard, fun hbusy => absurd hbusy (hidle (hpc ▸ rfl)), halive, hclean⟩
    | entered | starting | testing | calling | ending | returned =>
      rw [hpc] at hs
      cases hs
  | next loop => exact guarded_next ⟨htied, hguard, hhandling, halive, hclean⟩ hs
  | request r =>
    simp only [step, request] at hs
    cases hpc : s.pc with
    | calling d =>
      simp only [hpc] at hs
      obtain ⟨c, hc, rfl⟩ := Option.map_eq_some_iff.mp hs
      obtain ⟨ht, -⟩ := Channel.request_keeps hc
      rw [hpc] at hguard
      exact ⟨ht.trans htied, hguard, fun _ => rfl, halive, hclean⟩
    | outside | entered | starting | testing | ending | returned =>
      rw [hpc] at hs
      cases hs
  | callbackReturns =>
    simp only [step] at hs
    cases hpc : s.pc with
    | calling d =>
      rw [hpc] at hs hguard
      obtain rfl := Option.some.inj hs
      have hafter := d.after_dispatching
      exact ⟨htied, hguard.trans (HandlePc.guarded_of_dispatching hafter).symm, fun _ => hafter,
        halive, hclean⟩
    | outside | entered | starting | testing | ending | returned =>
      rw [hpc] at hs
      cases hs
  | drop loop =>
    simp only [step] at hs
    split at hs
    · next hsome =>
      obtain rfl := Option.some.inj hs
      have hreferences : 0 < s.references := Nat.lt_of_lt_of_le hsome (Nat.le_add_right _ _)
      exact guarded_release (s := { s with outside := s.outside - 1 }) htied hguard
        (halive.mpr hreferences) hhandling loop
    · cases hs
  | copy =>
    simp only [step] at hs
    split at hs
    · next hsome =>
      obtain rfl := Option.some.inj hs
      have hmore : 0 < references { s with outside := s.outside + 1 } :=
        Nat.lt_of_lt_of_le (Nat.succ_pos _) (Nat.le_add_right _ _)
      exact ⟨htied, hguard, hhandling, iff_of_true (halive.mpr hsome) hmore, hclean⟩
    · cases hs

theorem guarded_reach {s : ChannelOwner σ} (h : (dispatches loop_).Reach s) : Guarded s := by
  refine Machine.Inductive.reach (M := dispatches loop_) (C := fun _ _ => True) ⟨?_, ?_⟩ h
  · rintro s ⟨htied, hidle, hpc, hguard, halive, hclean⟩
    refine ⟨htied, ?_, ?_, ?_, hclean⟩
    · rw [hguard, hpc]
      rfl
    · intro hbusy
      rw [hidle] at hbusy
      cases hbusy
    · rw [references_free hguard]
      exact halive
  · exact fun s e u hg _ hs => guarded_step hg hs

/-- Without a reference nothing happens any more. -/
theorem gone_step {s u : ChannelOwner σ} {e : HandleMove} (h : Guarded s) (hgone : s.references = 0)
    (hs : s.step loop_ e = some u) :
    u.channel = s.channel ∧ u.called = s.called ∧ u.references = 0 := by
  have hfree : s.guard = false := by
    rw [← Bool.not_eq_true]
    intro hheld
    have hpos := references_guard hheld
    omega
  have houtside : s.outside = 0 := by rw [← references_free hfree, hgone]
  have hpc : s.pc = .outside ∨ s.pc = .entered := by
    have hguard := h.guard
    rw [hfree] at hguard
    cases hp : s.pc with
    | outside => exact .inl rfl
    | entered => exact .inr rfl
    | starting | testing | calling | ending | returned =>
      rw [hp] at hguard
      cases hguard
  cases e with
  | handleEvent =>
    simp only [step] at hs
    rcases hpc with hp | hp
    · rw [hp] at hs
      obtain rfl := Option.some.inj hs
      exact ⟨rfl, rfl, hgone⟩
    · rw [hp] at hs
      cases hs
  | next loop =>
    simp only [step, next] at hs
    rcases hpc with hp | hp
    · rw [hp] at hs
      cases hs
    · simp only [hp, h.tied, hgone, if_true] at hs
      obtain rfl := Option.some.inj hs
      exact ⟨rfl, rfl, hgone⟩
  | request r =>
    simp only [step, request] at hs
    rcases hpc with hp | hp <;> rw [hp] at hs <;> cases hs
  | callbackReturns =>
    simp only [step] at hs
    rcases hpc with hp | hp <;> rw [hp] at hs <;> cases hs
  | drop loop =>
    simp only [step, houtside, Nat.lt_irrefl, if_false] at hs
    cases hs
  | copy =>
    simp only [step, hgone, Nat.lt_irrefl, if_false] at hs
    cases hs

theorem gone_run {s u : ChannelOwner σ} {es : List HandleMove} (h : Guarded s)
    (hgone : s.references = 0) (hs : (dispatches loop_).run s es = some u) :
    u.channel = s.channel ∧ u.called = s.called := by
  have hkeeps := Machine.runIf_keeps (M := dispatches loop_) (C := fun _ _ => True)
    (I := fun v => Guarded v ∧ v.channel = s.channel ∧ v.called = s.called ∧ v.references = 0)
    (fun v e w hv _ hstep => by
      obtain ⟨hv, hchannel, hcalled, hnone⟩ := hv
      obtain ⟨hchannel', hcalled', hnone'⟩ := gone_step hv hnone hstep
      exact ⟨guarded_step hv hstep, hchannel'.trans hchannel, hcalled'.trans hcalled, hnone'⟩)
    ⟨h, rfl, rfl, hgone⟩ hs
  exact ⟨hkeeps.2.1, hkeeps.2.2.1⟩

/-- **A tied channel outlives its dispatch.** Whatever the callbacks and other threads do with
the references: until `handleEventWithGuard` has returned, the owner has one and is not
destroyed; the destructor never finds `eventHandling_` set; and once the owner has no
reference, no call of `handleEvent` calls a callback or changes the channel. -/
theorem tied_outlives_dispatch {s : ChannelOwner σ} (h : (dispatches loop_).Reach s) :
    (s.pc.dispatching = true → 1 ≤ s.references ∧ s.destroyed = none) ∧
    s.destroyed ≠ some (some .eventHandling) ∧
    (s.references = 0 → ∀ es u, (dispatches loop_).run s es = some u →
      u.channel = s.channel ∧ u.called = s.called) := by
  have hg := guarded_reach h
  refine ⟨fun hd => ?_, hg.clean, fun hgone es u hs => gone_run hg hgone hs⟩
  have hheld := references_guard (hg.guard.trans (HandlePc.guarded_of_dispatching hd))
  exact ⟨hheld, hg.alive.mpr hheld⟩

/-- A connection that hangs up, with one reference to its owner. -/
def hangup : ChannelOwner Unit :=
  ⟨{ (Channel.new 5).tie with revents_ := POLLHUP }, ⟨true, true, true, true⟩, (), .outside, 1, false,
    none, []⟩

/-- The close callback drops that reference; the owner lives on by the guard. -/
theorem tied_outlives_dispatch_hangup :
    ∃ s, (dispatches ⟨fun _ l => l, fun _ l => l⟩).run hangup
        [.handleEvent, .next ⟨true, false⟩, .next ⟨true, false⟩, .next ⟨true, false⟩,
          .drop ⟨true, false⟩] = some s ∧
      s.outside = 0 ∧ s.called = [.close] ∧ 1 ≤ s.references ∧ s.destroyed = none := by
  have hrun : (dispatches ⟨fun _ l => l, fun _ l => l⟩).run hangup
      [.handleEvent, .next ⟨true, false⟩, .next ⟨true, false⟩, .next ⟨true, false⟩,
        .drop ⟨true, false⟩] = some _ := rfl
  have hinit : hangup.Tied := ⟨rfl, rfl, rfl, rfl, iff_of_true rfl (by decide), nofun⟩
  exact ⟨_, hrun, rfl, rfl,
    (tied_outlives_dispatch (Machine.reachIf_of_runIf (.init hinit) hrun)).1 rfl⟩

end ChannelOwner
end MyNet.Net
