import MyNet.Net.AcceptorOwnership
import MyNet.Net.ChannelDispatch

/-!
# The life of an `Acceptor`

From the constructor to the end of the destructor, on the thread of its loop. The other threads
open and close their own descriptors between any two statements, also in the destructor. The loop
calls `handleRead` through `handleEvent` of the channel, and nobody destroys the Acceptor from
inside it.
-/
namespace MyNet.Net

open Lib

/-- Where the object is; from `removing` on it is in the destructor. -/
inductive AcceptorPhase where
  | alive
  /-- At `acceptChannel_.remove()`. -/
  | removing
  /-- At `::close(idleFd_)`. -/
  | closing
  /-- Where `acceptChannel_` goes. -/
  | channel
  /-- Where `acceptSocket_` goes. -/
  | socket
  | gone
  deriving DecidableEq

inductive ChannelAssert where
  /-- `assert(isNoneEvent())` in `remove`. -/
  | isNoneEvent
  | destructor (a : DestructorAssert)
  deriving DecidableEq

structure AcceptorLife (σ : Type) where
  acceptor : Acceptor
  /-- With the loop it is registered in. -/
  acceptChannel_ : Channel × σ
  listenning_ : Bool
  phase : AcceptorPhase
  assertion : Option ChannelAssert

inductive AcceptorMove where
  | listen
  /-- A statement of `handleRead` or of another thread. -/
  | act (e : AcceptMove)
  /-- `~Acceptor`, up to `disableAll`. -/
  | destroy
  /-- The next statement of the destructor; `loop` is what the loop answers to `~Channel`. -/
  | next (loop : LoopAnswers)

/-- The descriptors of another thread. -/
def AcceptMove.foreign : AcceptMove → Bool
  | .otherOpens _ | .otherCloses _ => true
  | .setNewConnectionCallback _ | .handleRead | .accept _ | .next | .reopen _ => false

namespace AcceptorLife

variable {σ : Type}

/-- The constructor, with the descriptors that `socket` and `open` have returned. -/
def constructed (l : σ) (limit : Nat) (table : Nat → Option Descriptor)
    (acceptSocket_ idleFd_ : Nat) : AcceptorLife σ where
  acceptor :=
    { acceptSocket_ := acceptSocket_
      idleFd_ := some idleFd_
      newConnectionCallback_ := false
      pc := .outside
      table := Function.update
        (Function.update table acceptSocket_ (some ⟨.acceptor, false, none⟩))
        idleFd_ (some ⟨.acceptor, true, none⟩)
      limit := limit
      count := 0
      disposed := []
      closes := [] }
  acceptChannel_ := (.new acceptSocket_, l)
  listenning_ := false
  phase := .alive
  assertion := none

/-- The two descriptors were free, and nobody else's are the Acceptor's. -/
structure Opened (limit : Nat) (table : Nat → Option Descriptor) (acceptSocket_ idleFd_ : Nat) :
    Prop where
  foreign : ∀ fd d, table fd = some d → d.owner ≠ .acceptor
  socket : acceptSocket_ < limit ∧ table acceptSocket_ = none
  idle : idleFd_ < limit ∧ table idleFd_ = none ∧ idleFd_ ≠ acceptSocket_

/-- `eventHandling_` is set as long as `handleRead` runs. -/
def act (s : AcceptorLife σ) (e : AcceptMove) : Option (AcceptorLife σ) :=
  (s.acceptor.step e).map fun a =>
    { s with
      acceptor := a
      acceptChannel_ :=
        ({ s.acceptChannel_.1 with eventHandling_ := a.pc ≠ .outside }, s.acceptChannel_.2) }

def next (loop_ : EventLoop σ) (s : AcceptorLife σ) (loop : LoopAnswers) :
    Option (AcceptorLife σ) :=
  match s.phase with
  | .alive | .gone => none
  | .removing =>
    match Channel.remove loop_ s.acceptChannel_ with
    | some c => some { s with acceptChannel_ := c, phase := .closing }
    | none => some { s with assertion := some .isNoneEvent }
  | .closing =>
    some { s with acceptor := s.acceptor.close s.acceptor.idleFd_, phase := .channel }
  | .channel =>
    match s.acceptChannel_.1.destroy loop with
    | none => some { s with phase := .socket }
    | some a => some { s with assertion := some (.destructor a) }
  | .socket =>
    some { s with acceptor := s.acceptor.close (some s.acceptor.acceptSocket_), phase := .gone }

def step (loop_ : EventLoop σ) (s : AcceptorLife σ) (m : AcceptorMove) :
    Option (AcceptorLife σ) :=
  if s.assertion = none then
    match m with
    | .listen =>
      if s.phase = .alive ∧ s.acceptor.pc = .outside then
        some { s with
          listenning_ := true
          acceptChannel_ := Channel.enableReading loop_ s.acceptChannel_ }
      else none
    | .act e => if s.phase = .alive ∨ e.foreign = true then s.act e else none
    | .destroy =>
      if s.phase = .alive ∧ s.acceptor.pc = .outside then
        some { s with
          acceptChannel_ := Channel.disableAll loop_ s.acceptChannel_
          phase := .removing }
      else none
    | .next loop => s.next loop_ loop
  else none

def lives (loop_ : EventLoop σ) : Machine (AcceptorLife σ) AcceptorMove where
  init s := ∃ l limit table acceptSocket_ idleFd_,
    Opened limit table acceptSocket_ idleFd_ ∧
      s = constructed l limit table acceptSocket_ idleFd_
  step := step loop_

end AcceptorLife

/-! ## Nothing but these is the Acceptor's -/

namespace Acceptor

/-- Besides the one it listens on. -/
def Mine (s : Acceptor) (fd : Nat) : AcceptPc → Prop
  | .outside | .accepting | .failed _ | .closingIdle | .closingAccepted => s.idleFd_ = some fd
  | .accepted connfd => fd = connfd ∨ s.idleFd_ = some fd
  | .reaccepting | .reopening => False

/-- All the descriptors the Acceptor has. -/
def Accounted (s : Acceptor) : Prop :=
  ∀ fd d, s.table fd = some d → d.owner = .acceptor → fd = s.acceptSocket_ ∨ s.Mine fd s.pc

variable {s t : Acceptor} {fd g : Nat} {d : Descriptor} {v : Option Descriptor}

/-- A descriptor of the table after one entry is set. -/
theorem owned_update {table : Nat → Option Descriptor}
    (h : Function.update table g v fd = some d) :
    fd = g ∧ v = some d ∨ fd ≠ g ∧ table fd = some d := by
  by_cases hfd : fd = g
  · subst fd
    rw [Function.update_self] at h
    exact .inl ⟨rfl, h⟩
  · rw [Function.update_of_ne hfd] at h
    exact .inr ⟨hfd, h⟩

/-- A descriptor that is closed or given away is accounted for no more. -/
theorem accounted_drop (h : ∀ fd d, s.table fd = some d → d.owner = .acceptor →
      fd = s.acceptSocket_ ∨ fd = g ∨ s.Mine fd t.pc) (hv : ∀ d, v = some d → d.owner ≠ .acceptor)
    (hsocket : t.acceptSocket_ = s.acceptSocket_) (hidle : t.idleFd_ = s.idleFd_)
    (htable : t.table = Function.update s.table g v) : t.Accounted := by
  intro fd d hd hown
  rw [htable] at hd
  rcases owned_update hd with ⟨-, hnew⟩ | ⟨hne, hold⟩
  · exact absurd hown (hv d hnew)
  · rcases h fd d hold hown with hfd | hfd | hfd
    · exact .inl (hfd.trans hsocket.symm)
    · exact absurd hfd hne
    · refine .inr ?_
      unfold Mine at hfd ⊢
      rwa [hidle]

theorem close_frame (s : Acceptor) (fd : Option Nat) :
    (s.close fd).pc = s.pc ∧ (s.close fd).acceptSocket_ = s.acceptSocket_ := by
  cases fd with
  | none => exact ⟨rfl, rfl⟩
  | some fd =>
    unfold close
    simp only
    split <;> exact ⟨rfl, rfl⟩

theorem close_idle_socket (hi : s.Idle) :
    (s.close s.idleFd_).table s.acceptSocket_ = s.table s.acceptSocket_ := by
  cases hidle : s.idleFd_ with
  | none => rfl
  | some i =>
    have howns := hi i hidle
    rw [close_owns howns]
    exact Function.update_of_ne howns.2.2.2.symm ..

/-- Without the spare descriptor the Acceptor has the one it listens on. -/
theorem close_idle (hi : s.Idle) (ha : ∀ fd d, s.table fd = some d → d.owner = .acceptor →
      fd = s.acceptSocket_ ∨ s.idleFd_ = some fd) :
    ∀ fd d, (s.close s.idleFd_).table fd = some d → d.owner = .acceptor →
      fd = (s.close s.idleFd_).acceptSocket_ := by
  intro fd d hd hown
  cases hidle : s.idleFd_ with
  | none =>
    rw [hidle] at hd
    exact (ha fd d hd hown).resolve_right fun h => by cases hidle.symm.trans h
  | some i =>
    rw [hidle, close_owns (hi i hidle)] at hd
    rw [close_owns (hi i hidle)]
    rcases owned_update hd with ⟨-, hnew⟩ | ⟨hne, hold⟩
    · cases hnew
    · exact (ha fd d hold hown).resolve_right fun h =>
        hne (Option.some.inj (h.symm.trans hidle))

theorem accounted_turn {e : AcceptMove} (h : s.Kept) (ha : s.Accounted) (ht : Turn s e t) :
    t.Accounted := by
  have hplace := h.place
  cases ht with
  | setCallback => exact ha
  | enter hpc | failed hpc | exhausted hpc | leave hpc | refailed hpc | unopened hpc =>
    intro fd d hd hown
    have hmine := ha fd d hd hown
    rw [hpc] at hmine
    first | exact hmine | exact hmine.imp_right False.elim
  | accepted hpc | reaccepted hpc | reopened hpc =>
    intro fd d hd hown
    rcases owned_update hd with ⟨rfl, -⟩ | ⟨-, hd⟩
    · first | exact .inr (.inl rfl) | exact .inr rfl
    · have hmine := ha fd d hd hown
      rw [hpc] at hmine
      first | exact hmine.imp_right .inr | exact hmine.imp_right False.elim
  | @pass connfd hpc =>
    rw [hpc] at hplace
    obtain ⟨k, howns, -⟩ := hplace.1
    rw [pass_owns howns]
    refine accounted_drop (s := s) (g := connfd) (fun fd d hd hown => ?_) (fun d hd => ?_)
      rfl rfl rfl
    · have hmine := ha fd d hd hown
      rwa [hpc] at hmine
    · obtain rfl := Option.some.inj hd
      intro hown
      cases hown
  | @drop connfd hpc =>
    rw [hpc] at hplace
    obtain ⟨k, howns, -⟩ := hplace.1
    rw [close_owns howns]
    refine accounted_drop (s := s) (g := connfd) (v := none) (fun fd d hd hown => ?_)
      (fun _ hd => by cases hd) rfl rfl rfl
    have hmine := ha fd d hd hown
    rwa [hpc] at hmine
  | closeIdle hpc =>
    rw [hpc] at hplace
    intro fd d hd hown
    refine .inl (close_idle hplace.2 (fun fd d hd hown => ?_) fd d hd hown)
    have hmine := ha fd d hd hown
    rwa [hpc] at hmine
  | closeAccepted hpc =>
    simp only [hpc, At] at hplace
    cases hidle : s.idleFd_ with
    | none =>
      intro fd d hd hown
      have hmine := ha fd d hd hown
      rw [hpc] at hmine
      exact .inl (hmine.resolve_right fun hi => by cases hidle.symm.trans hi)
    | some i =>
      rw [hidle] at hplace
      obtain ⟨k, howns, -⟩ := hplace
      rw [close_owns howns]
      refine accounted_drop (s := s) (g := i) (v := none) (fun fd d hd hown => ?_)
        (fun _ hd => by cases hd) rfl rfl rfl
      have hmine := ha fd d hd hown
      rw [hpc] at hmine
      exact hmine.imp_right fun hi => .inl (Option.some.inj (hi.symm.trans hidle))
  | @otherOpens g =>
    refine accounted_drop (s := s) (g := g) (fun fd d hd hown => ?_) (fun d hd => ?_) rfl rfl rfl
    · exact (ha fd d hd hown).imp_right .inr
    · obtain rfl := Option.some.inj hd
      intro hown
      cases hown
  | @otherCloses g =>
    exact accounted_drop (s := s) (g := g) (v := none)
      (fun fd d hd hown => (ha fd d hd hown).imp_right .inr) (fun _ hd => by cases hd) rfl rfl rfl

/-- The descriptor it listens on stays as it is. -/
theorem socket_turn {e : AcceptMove} (h : s.Kept) (ht : Turn s e t) :
    t.acceptSocket_ = s.acceptSocket_ ∧ t.table s.acceptSocket_ = s.table s.acceptSocket_ := by
  have hplace := h.place
  have hupdate {g : Nat} {v : Option Descriptor} (hne : s.acceptSocket_ ≠ g) :
      Function.update s.table g v s.acceptSocket_ = s.table s.acceptSocket_ :=
    Function.update_of_ne hne ..
  cases ht with
  | setCallback | enter | failed | exhausted | leave | refailed | unopened => exact ⟨rfl, rfl⟩
  | accepted _ hfree | reaccepted _ hfree | reopened _ hfree | otherOpens hfree =>
    exact ⟨rfl, hupdate (h.listening.ne hfree.unowned)⟩
  | @pass connfd hpc =>
    rw [hpc] at hplace
    obtain ⟨k, howns, -⟩ := hplace.1
    rw [pass_owns howns]
    exact ⟨rfl, hupdate howns.2.2.2.symm⟩
  | @drop connfd hpc =>
    rw [hpc] at hplace
    obtain ⟨k, howns, -⟩ := hplace.1
    rw [close_owns howns]
    exact ⟨rfl, hupdate howns.2.2.2.symm⟩
  | closeIdle hpc =>
    rw [hpc] at hplace
    exact ⟨(close_frame s s.idleFd_).2, close_idle_socket hplace.2⟩
  | closeAccepted hpc =>
    simp only [hpc, At] at hplace
    cases hidle : s.idleFd_ with
    | none => exact ⟨rfl, rfl⟩
    | some i =>
      rw [hidle] at hplace
      obtain ⟨k, howns, -⟩ := hplace
      rw [close_owns howns]
      exact ⟨rfl, hupdate howns.2.2.2.symm⟩
  | otherCloses hd hother =>
    refine ⟨rfl, hupdate (h.listening.ne fun d hd' => ?_)⟩
    obtain rfl := Option.some.inj (hd.symm.trans hd')
    exact hother

/-- Another thread changes one entry that is not the Acceptor's. -/
theorem foreign_turn {e : AcceptMove} (he : e.foreign = true) (ht : Turn s e t) :
    ∃ g v, t = { s with table := Function.update s.table g v } ∧ s.Unowned g ∧
      ∀ d, v = some d → d.owner ≠ .acceptor := by
  cases ht with
  | otherOpens hfree =>
    refine ⟨_, _, rfl, hfree.unowned, fun d hd => ?_⟩
    obtain rfl := Option.some.inj hd
    exact nofun
  | otherCloses hd hother =>
    refine ⟨_, _, rfl, fun d hd' => ?_, fun _ hd => nomatch hd⟩
    obtain rfl := Option.some.inj (hd.symm.trans hd')
    exact hother
  | setCallback | enter | failed | exhausted | leave | refailed | unopened | accepted | reaccepted
  | reopened | pass | drop | closeIdle | closeAccepted => cases he

/-- All the Acceptor has is the descriptor it listens on. -/
def OnlySocket (s : Acceptor) : Prop :=
  ∀ fd d, s.table fd = some d → d.owner = .acceptor → fd = s.acceptSocket_

def Nothing (s : Acceptor) : Prop := ∀ fd d, s.table fd = some d → d.owner ≠ .acceptor

end Acceptor

/-! ## What holds in every run -/

namespace AcceptorLife

variable {σ : Type} {loop_ : EventLoop σ} {s t : AcceptorLife σ}

/-- What the Acceptor has. -/
def Left (a : Acceptor) : AcceptorPhase → Prop
  | .alive | .removing | .closing => a.Kept ∧ a.Accounted
  | .channel | .socket => a.OnlySocket
  | .gone => a.Nothing

/-- What its channel asks of the loop. -/
def Interest (listenning_ : Bool) (c : Channel) : AcceptorPhase → Prop
  | .alive =>
    c.events_ = (if listenning_ then Channel.kReadEvent else Channel.kNoneEvent) ∧
      c.addedToLoop_ = listenning_
  | .removing => c.events_ = Channel.kNoneEvent
  | .closing | .channel | .socket | .gone =>
    c.events_ = Channel.kNoneEvent ∧ c.addedToLoop_ = false

structure Lived (s : AcceptorLife σ) : Prop where
  left : Left s.acceptor s.phase
  settled : s.phase ≠ .alive → s.acceptor.pc = .outside ∧ s.acceptor.Settled
  closes : ∀ d ∈ s.acceptor.closes, d.owner = .acceptor
  socket : s.phase ≠ .gone →
    s.acceptor.table s.acceptor.acceptSocket_ = some ⟨.acceptor, false, none⟩
  interest : Interest s.listenning_ s.acceptChannel_.1 s.phase
  handling : s.acceptChannel_.1.eventHandling_ = decide (s.acceptor.pc ≠ .outside)
  assertion : s.assertion = none ∨ s.assertion = some (.destructor .hasChannel)

theorem lived_constructed {l : σ} {limit : Nat} {table : Nat → Option Descriptor}
    {acceptSocket_ idleFd_ : Nat} (h : Opened limit table acceptSocket_ idleFd_) :
    Lived (constructed l limit table acceptSocket_ idleFd_) := by
  obtain ⟨hforeign, ⟨hsocket, -⟩, hidle, -, hne⟩ := h
  have hlisten : (constructed l limit table acceptSocket_ idleFd_).acceptor.table acceptSocket_ =
      some ⟨.acceptor, false, none⟩ := by
    change Function.update _ idleFd_ _ acceptSocket_ = _
    rw [Function.update_of_ne hne.symm, Function.update_self]
  have hspare : (constructed l limit table acceptSocket_ idleFd_).acceptor.Owns idleFd_
      ⟨.acceptor, true, none⟩ := ⟨Function.update_self .., rfl, hidle, hne⟩
  have hkept := Acceptor.kept_constructed (s := (constructed l limit table acceptSocket_
    idleFd_).acceptor) ⟨rfl, ⟨_, hlisten, rfl⟩, ⟨idleFd_, rfl, hspare⟩, rfl, rfl, rfl⟩
  refine ⟨⟨hkept, fun fd d hd hown => ?_⟩, fun h => absurd rfl h, nofun, fun _ => hlisten,
    ⟨rfl, rfl⟩, rfl, .inl rfl⟩
  rcases Acceptor.owned_update hd with ⟨rfl, -⟩ | ⟨-, hold⟩
  · exact .inr rfl
  · rcases Acceptor.owned_update hold with ⟨rfl, -⟩ | ⟨-, hold⟩
    · exact .inl rfl
    · exact absurd hown (hforeign fd d hold)

/-- What the other threads do is nothing to the Acceptor, also in its destructor. -/
theorem lived_foreign (h : s.Lived) {e : AcceptMove} (he : e.foreign = true)
    (hs : s.act e = some t) : t.Lived := by
  obtain ⟨a, ha, rfl⟩ := Option.map_eq_some_iff.mp hs
  obtain ⟨g, v, rfl, hg, hv⟩ := Acceptor.foreign_turn he (Acceptor.step_turn ha)
  have haccounted (hold : s.acceptor.Accounted) : Acceptor.Accounted
      { s.acceptor with table := Function.update s.acceptor.table g v } :=
    Acceptor.accounted_drop (s := s.acceptor) (g := g)
      (fun fd d hd hown => (hold fd d hd hown).imp_right .inr) hv rfl rfl rfl
  have hleft := h.left
  refine ⟨?_, h.settled, h.closes, fun hgone => ?_, h.interest, rfl, h.assertion⟩
  · change Left _ s.phase
    cases hphase : s.phase <;> rw [hphase] at hleft
    case alive | removing | closing => exact ⟨hleft.1.update hg, haccounted hleft.2⟩
    case channel | socket =>
      intro fd d hd hown
      rcases Acceptor.owned_update hd with ⟨-, hnew⟩ | ⟨-, hold⟩
      · exact absurd hown (hv d hnew)
      · exact hleft fd d hold hown
    case gone =>
      intro fd d hd
      rcases Acceptor.owned_update hd with ⟨-, hnew⟩ | ⟨-, hold⟩
      · exact hv d hnew
      · exact hleft fd d hold
  · have hsocket := h.socket hgone
    refine (Function.update_of_ne ?_ ..).trans hsocket
    intro heq
    exact hg _ (heq ▸ hsocket) rfl

theorem lived_act (h : s.Lived) (halive : s.phase = .alive) {e : AcceptMove}
    (hs : s.act e = some t) : t.Lived := by
  obtain ⟨a, ha, rfl⟩ := Option.map_eq_some_iff.mp hs
  have hturn := Acceptor.step_turn ha
  have hleft := h.left
  have hinterest := h.interest
  rw [halive] at hleft hinterest
  obtain ⟨hkept, haccounted⟩ := hleft
  have hkept' := Acceptor.kept_turn hkept hturn
  obtain ⟨hsame, htable⟩ := Acceptor.socket_turn hkept hturn
  refine ⟨?_, fun hnot => absurd halive hnot, hkept'.closes, fun hgone => ?_, ?_, rfl, h.assertion⟩
  · change Left a s.phase
    rw [halive]
    exact ⟨hkept', Acceptor.accounted_turn hkept haccounted hturn⟩
  · change a.table a.acceptSocket_ = _
    rw [hsame, htable]
    exact h.socket hgone
  · change Interest s.listenning_ _ s.phase
    rw [halive]
    exact hinterest

theorem lived_listen (h : s.Lived) (halive : s.phase = .alive) :
    Lived { s with
      listenning_ := true, acceptChannel_ := Channel.enableReading loop_ s.acceptChannel_ } := by
  have hinterest := h.interest
  rw [halive] at hinterest
  refine ⟨h.left, h.settled, h.closes, h.socket, ?_, h.handling, h.assertion⟩
  change Interest true _ s.phase
  rw [halive]
  refine ⟨?_, rfl⟩
  change s.acceptChannel_.1.events_ ||| Channel.kReadEvent = Channel.kReadEvent
  rw [hinterest.1]
  cases s.listenning_ <;> decide

theorem lived_destroy (h : s.Lived) (halive : s.phase = .alive)
    (houtside : s.acceptor.pc = .outside) :
    Lived { s with
      acceptChannel_ := Channel.disableAll loop_ s.acceptChannel_, phase := .removing } := by
  have hleft := h.left
  rw [halive] at hleft
  have hplace := hleft.1.place
  rw [houtside] at hplace
  exact ⟨hleft, fun _ => ⟨houtside, hplace.1⟩, h.closes, fun _ => h.socket (by rw [halive]; decide),
    rfl, h.handling, h.assertion⟩

theorem lived_next (h : s.Lived) {loop : LoopAnswers} (hs : s.next loop_ loop = some t) :
    t.Lived := by
  have hleft := h.left
  have hsettled := h.settled
  have hsocket := h.socket
  have hinterest := h.interest
  cases hphase : s.phase <;> rw [hphase] at hleft hsettled hsocket hinterest <;>
    simp only [next, hphase] at hs
  case alive | gone => cases hs
  case removing =>
    have hnone : s.acceptChannel_.1.isNoneEvent = true := beq_iff_eq.mpr hinterest
    simp only [Channel.remove, hnone, if_pos] at hs
    obtain rfl := Option.some.inj hs
    exact ⟨hleft, fun _ => hsettled (by decide), h.closes, fun _ => hsocket (by decide),
      ⟨hinterest, rfl⟩, h.handling, h.assertion⟩
  case closing =>
    obtain rfl := Option.some.inj hs
    obtain ⟨hkept, haccounted⟩ := hleft
    obtain ⟨houtside, hsettled⟩ := hsettled (by decide)
    have hplace := hkept.place
    rw [houtside] at hplace
    have hclosed := Acceptor.kept_close_idle hkept hsettled hplace.2
    obtain ⟨hpc, hsame⟩ := s.acceptor.close_frame s.acceptor.idleFd_
    refine ⟨Acceptor.close_idle hplace.2 fun fd d hd hown => ?_,
      fun _ => ⟨hpc.trans houtside, hclosed.place⟩, hclosed.closes, fun _ => ?_, hinterest, ?_,
      h.assertion⟩
    · have hmine := haccounted fd d hd hown
      rwa [houtside] at hmine
    · change (s.acceptor.close s.acceptor.idleFd_).table (Acceptor.acceptSocket_ _) = _
      rw [hsame, Acceptor.close_idle_socket hplace.2]
      exact hsocket (by decide)
    · change _ = decide ((s.acceptor.close s.acceptor.idleFd_).pc ≠ _)
      rw [hpc]
      exact h.handling
  case channel =>
    have hnot : s.acceptChannel_.1.eventHandling_ = false := by
      rw [h.handling, (hsettled (by decide)).1]
      rfl
    have hdestroy : s.acceptChannel_.1.destroy loop = none ∨
        s.acceptChannel_.1.destroy loop = some .hasChannel := by
      rw [Channel.destroy, hnot, hinterest.2, if_neg Bool.false_ne_true,
        if_neg Bool.false_ne_true]
      split
      · exact .inr rfl
      · exact .inl rfl
    rcases hdestroy with hd | hd <;> rw [hd] at hs <;> obtain rfl := Option.some.inj hs
    · exact ⟨hleft, fun _ => hsettled (by decide), h.closes, fun _ => hsocket (by decide),
        hinterest, h.handling, h.assertion⟩
    · exact ⟨hleft, hsettled, h.closes, hsocket, hinterest, h.handling, .inr rfl⟩
  case socket =>
    obtain rfl := Option.some.inj hs
    obtain ⟨houtside, hsettled⟩ := hsettled (by decide)
    have hclose : s.acceptor.close (some s.acceptor.acceptSocket_) = { s.acceptor with
        table := Function.update s.acceptor.table s.acceptor.acceptSocket_ none
        disposed := s.acceptor.disposed ++ []
        closes := s.acceptor.closes ++ [⟨.acceptor, false, none⟩] } := by
      simp only [Acceptor.close, hsocket (by decide)]
      rfl
    rw [hclose]
    refine ⟨fun fd d hd hown => ?_, fun _ => ⟨houtside, ?_⟩, fun d hd => ?_, fun h => absurd rfl h,
      hinterest, h.handling, h.assertion⟩
    · rcases Acceptor.owned_update hd with ⟨-, hnew⟩ | ⟨hne, hold⟩
      · cases hnew
      · exact hne (hleft fd d hold hown)
    · rw [Acceptor.Settled, List.append_nil]
      exact hsettled
    · rcases List.mem_append.mp hd with hold | hnew
      · exact h.closes d hold
      · obtain rfl := List.mem_singleton.mp hnew
        rfl

theorem lived_inductive : (lives loop_).Inductive (fun _ _ => True) Lived where
  init := by
    rintro s ⟨l, limit, table, acceptSocket_, idleFd_, hopened, rfl⟩
    exact lived_constructed hopened
  step s m t h _ hs := by
    change s.step loop_ m = some t at hs
    unfold step at hs
    split at hs
    · cases m with
      | listen =>
        simp only at hs
        split at hs
        · next hready =>
          obtain rfl := Option.some.inj hs
          exact lived_listen h hready.1
        · cases hs
      | act e =>
        simp only at hs
        split at hs
        · next hmay =>
          rcases hmay with halive | hforeign
          · exact lived_act h halive hs
          · exact lived_foreign h hforeign hs
        · cases hs
      | destroy =>
        simp only at hs
        split at hs
        · next hready =>
          obtain rfl := Option.some.inj hs
          exact lived_destroy h hready.1 hready.2
        · cases hs
      | next loop => exact lived_next h hs
    · cases hs

/-- **An Acceptor leaves nothing behind.** In every run, with whatever the kernel returns and
whatever other threads do with their own descriptors: it closes descriptors of its own only; as
long as it is alive its channel asks for reading exactly if it listens; no assertion fails on the
way out unless the loop keeps a channel it was told to remove; and when it is gone, no descriptor
of its own is open, every one from `accept` was passed on or closed, once, and the channel asks
for nothing and is in no loop. -/
theorem leaves_nothing (h : (lives loop_).Reach s) :
    (∀ d ∈ s.acceptor.closes, d.owner = .acceptor) ∧
    (s.assertion = none ∨ s.assertion = some (.destructor .hasChannel)) ∧
    (s.phase = .alive → s.acceptChannel_.1.events_ =
      if s.listenning_ then Channel.kReadEvent else Channel.kNoneEvent) ∧
    (s.phase = .gone →
      (∀ fd d, s.acceptor.table fd = some d → d.owner ≠ .acceptor) ∧
      s.acceptor.disposed.map (·.1) = List.range s.acceptor.count ∧
      s.acceptChannel_.1.isNoneEvent = true ∧ s.acceptChannel_.1.addedToLoop_ = false) := by
  have hlived := lived_inductive.reach h
  have hleft := hlived.left
  have hinterest := hlived.interest
  refine ⟨hlived.closes, hlived.assertion, fun halive => ?_, fun hgone => ?_⟩
  · rw [halive] at hinterest
    exact hinterest.1
  · rw [hgone] at hleft hinterest
    have hsettled := (hlived.settled (by rw [hgone]; decide)).2
    exact ⟨hleft, hsettled, beq_iff_eq.mpr hinterest.1, hinterest.2⟩

/-- A loop that keeps the descriptors of its channels. -/
def plainLoop : EventLoop (List Int) where
  updateChannel c l := if c.fd_ ∈ l then l else c.fd_ :: l
  removeChannel c l := l.erase c.fd_

/-- One connection is passed on, one comes too many, and the Acceptor goes; another thread takes
the number of the spare descriptor meanwhile. -/
def listened : List AcceptorMove :=
  [.listen, .act (.setNewConnectionCallback true), .act .handleRead, .act (.accept (.ok 5)),
    .act .next, .act .handleRead, .act (.accept (.error EMFILE)), .act .next, .act .next,
    .act (.accept (.ok 4)), .act .next, .act (.reopen (some 4)), .destroy, .next ⟨true, true⟩,
    .next ⟨true, false⟩, .act (.otherOpens 4), .next ⟨true, false⟩, .next ⟨true, false⟩]

def standardDescriptors (fd : Nat) : Option Descriptor :=
  if fd < 3 then some ⟨.other, false, none⟩ else none

theorem opened_standard : Opened 6 standardDescriptors 3 4 := by
  refine ⟨fun fd d hd => ?_, ⟨by decide, rfl⟩, by decide, rfl, by decide⟩
  unfold standardDescriptors at hd
  split at hd <;> cases hd
  exact nofun

theorem leaves_nothing_listened :
    ∃ s, (lives plainLoop).run (constructed [] 6 standardDescriptors 3 4) listened = some s ∧
      s.acceptChannel_.2 = [] ∧ s.acceptor.disposed = [(0, .passed), (1, .closed)] ∧
      (s.acceptor.table 5).map (·.owner) = some .connection ∧
      (s.acceptor.table 4).map (·.owner) = some .other ∧
      ∀ fd d, s.acceptor.table fd = some d → d.owner ≠ .acceptor := by
  have hrun : ∃ s, (lives plainLoop).run (constructed [] 6 standardDescriptors 3 4) listened =
      some s ∧ s.acceptChannel_.2 = [] ∧ s.acceptor.disposed = [(0, .passed), (1, .closed)] ∧
      (s.acceptor.table 5).map (·.owner) = some .connection ∧
      (s.acceptor.table 4).map (·.owner) = some .other ∧ s.phase = .gone :=
    ⟨_, rfl, rfl, rfl, rfl, rfl, rfl⟩
  obtain ⟨s, hs, hloop, hdisposed, hconnection, hother, hgone⟩ := hrun
  have hinit : (lives plainLoop).init (constructed [] 6 standardDescriptors 3 4) :=
    ⟨_, _, _, _, _, opened_standard, rfl⟩
  have hleaves := leaves_nothing (Machine.reachIf_of_runIf (.init hinit) hs)
  exact ⟨s, hs, hloop, hdisposed, hconnection, hother, (hleaves.2.2.2 hgone).1⟩

end AcceptorLife
end MyNet.Net
