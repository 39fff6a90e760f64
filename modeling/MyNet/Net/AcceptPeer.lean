import MyNet.Net.AcceptBuilds
import MyNet.Net.AcceptorOwnership
import MyNet.Net.InetAddress

/-!
# The peer of a connection

`Socket::accept` fills in the address of the peer if the descriptor is positive, and
`Acceptor::handleRead` calls back if it is not negative. So a connection that gets the
descriptor 0 is reported with the address that `handleRead` began with.
-/
namespace MyNet.Net

open MyNet.Base
open Lib

/-- `Socket::accept` -/
def Socket.accept (build : sockets.Build) (r : Accepted) (peeraddr : InetAddress) :
    KernelM (Int × InetAddress) := do
  modify fun k => k.report .zero
  let connfd ← sockets.accept build r
  if 0 < connfd then
    let k ← get
    return (connfd, InetAddress.setSockAddrInet k.addr peeraddr)
  else return (connfd, peeraddr)

/-- A call of `newConnectionCallback_`, and what the kernel had reported. -/
structure Callback where
  connfd : Nat
  peerAddr : InetAddress
  reported : SockaddrIn

/-- The Acceptor with the local variable of `handleRead` and the calls back. -/
structure AcceptorPeers where
  acceptor : Acceptor
  peerAddr : InetAddress
  /-- The address the kernel reported for the last connection. -/
  reported : SockaddrIn
  callbacks : List Callback

inductive PeerMove where
  /-- The `accept` of `acceptSocket_`: what the kernel makes of it, and how the call finds the
  rest of the kernel's state. -/
  | accept (r : Accepted) (k : Kernel)
  /-- Any other move; an `accept` among them is the one without an address. -/
  | other (e : AcceptMove)

def Accepted.peer : Accepted → Option SockaddrIn
  | .connection _ peer => some peer
  | .failure _ => none

namespace AcceptorPeers

/-- `InetAddress peerAddr;` -/
def noPeer (host : ByteOrder) : InetAddress := .ofPort host 0 false

/-- `handleRead` goes by the sign of what `Socket::accept` returns, then by `errno`. -/
def accept (build : sockets.Build) (s : AcceptorPeers) (r : Accepted) (k : Kernel) :
    Option AcceptorPeers :=
  let ((connfd, peerAddr), k') := Socket.accept build r s.peerAddr k
  let result := if 0 ≤ connfd then .ok connfd.toNat else .error k'.errno
  (s.acceptor.step (.accept result)).map fun a =>
    { s with acceptor := a, peerAddr := peerAddr, reported := r.peer.getD s.reported }

def step (host : ByteOrder) (build : sockets.Build) (s : AcceptorPeers) :
    PeerMove → Option AcceptorPeers
  | .accept r k =>
    match s.acceptor.pc with
    | .accepting => s.accept build r k
    | _ => none
  | .other e =>
    match e, s.acceptor.pc with
    | .accept _, .accepting => none
    | .handleRead, _ =>
      (s.acceptor.step e).map fun a => { s with acceptor := a, peerAddr := noPeer host }
    | .next, .accepted connfd =>
      (s.acceptor.step e).map fun a =>
        { s with
          acceptor := a
          callbacks :=
            if s.acceptor.newConnectionCallback_ then
              s.callbacks ++ [⟨connfd, s.peerAddr, s.reported⟩]
            else s.callbacks }
    | _, _ => (s.acceptor.step e).map fun a => { s with acceptor := a }

structure Constructed (s : AcceptorPeers) : Prop where
  acceptor : s.acceptor.Constructed
  callbacks : s.callbacks = []

def peers (host : ByteOrder) (build : sockets.Build) : Machine AcceptorPeers PeerMove where
  init := Constructed
  step := step host build

/-! ## What a step does -/

theorem modify_bind_apply {α : Type} (g : Kernel → Kernel) (f : Unit → KernelM α) (k : Kernel) :
    ((modify g : KernelM Unit) >>= f) k = f () (g k) := rfl

theorem socket_accept_connection (build : sockets.Build) (connfd : Nat) (peer : SockaddrIn)
    (peeraddr : InetAddress) (k : Kernel) :
    Socket.accept build (.connection connfd peer) peeraddr k =
      (((connfd : Int), if 0 < connfd then ⟨peer⟩ else peeraddr),
        ((k.report .zero).update connfd build.flags).report peer) := by
  rw [Socket.accept, modify_bind_apply, sockets.bind_apply, sockets.accept_connection]
  by_cases hpos : 0 < connfd
  · have hint : (0 : Int) < connfd := Int.natCast_pos.mpr hpos
    simp only [if_pos hint, if_pos hpos]
    rfl
  · have hint : ¬(0 : Int) < connfd := by omega
    simp only [if_neg hint, if_neg hpos]
    rfl

theorem socket_accept_failure (build : sockets.Build) (errno : Nat) (peeraddr : InetAddress)
    (k : Kernel) :
    Socket.accept build (.failure errno) peeraddr k =
      ((-1, peeraddr), { k.report .zero with errno := build.errno errno }) := by
  rw [Socket.accept, modify_bind_apply, sockets.bind_apply, sockets.accept_failure]
  rfl

inductive Turn (host : ByteOrder) (s : AcceptorPeers) : PeerMove → AcceptorPeers → Prop
  | enter {a : Acceptor} (h : s.acceptor.step .handleRead = some a) :
      Turn host s (.other .handleRead) { s with acceptor := a, peerAddr := noPeer host }
  | accepted {a : Acceptor} {connfd : Nat} {peer : SockaddrIn} {k : Kernel}
      (hpc : s.acceptor.pc = .accepting) (h : s.acceptor.step (.accept (.ok connfd)) = some a) :
      Turn host s (.accept (.connection connfd peer) k)
        { s with
          acceptor := a
          peerAddr := if 0 < connfd then ⟨peer⟩ else s.peerAddr
          reported := peer }
  | failed {a : Acceptor} {errno errno' : Nat} {k : Kernel} (hpc : s.acceptor.pc = .accepting)
      (h : s.acceptor.step (.accept (.error errno')) = some a) :
      Turn host s (.accept (.failure errno) k) { s with acceptor := a }
  | called {a : Acceptor} {connfd : Nat} (hpc : s.acceptor.pc = .accepted connfd)
      (h : s.acceptor.step .next = some a) :
      Turn host s (.other .next)
        { s with
          acceptor := a
          callbacks := s.callbacks ++ [⟨connfd, s.peerAddr, s.reported⟩] }
  | other {a : Acceptor} {e : AcceptMove} (h : s.acceptor.step e = some a)
      (hread : e ≠ .handleRead) (haccept : s.acceptor.pc = .accepting → ∀ r, e ≠ .accept r) :
      Turn host s (.other e) { s with acceptor := a }

variable {host : ByteOrder} {build : sockets.Build} {s t : AcceptorPeers}

theorem accept_turn {r : Accepted} {k : Kernel} (hpc : s.acceptor.pc = .accepting)
    (h : s.accept build r k = some t) : Turn host s (.accept r k) t := by
  unfold accept at h
  cases r with
  | connection connfd peer =>
    simp only [socket_accept_connection, if_pos (Int.natCast_nonneg connfd),
      Int.toNat_natCast] at h
    obtain ⟨a, ha, rfl⟩ := Option.map_eq_some_iff.mp h
    exact .accepted hpc ha
  | failure errno =>
    have hneg : ¬(0 : Int) ≤ -1 := by decide
    simp only [socket_accept_failure, if_neg hneg] at h
    obtain ⟨a, ha, rfl⟩ := Option.map_eq_some_iff.mp h
    exact .failed hpc ha

theorem step_turn {e : PeerMove} (h : step host build s e = some t) : Turn host s e t := by
  cases e with
  | accept r k =>
    simp only [step] at h
    split at h
    · next hpc => exact accept_turn hpc h
    · cases h
  | other e =>
    simp only [step] at h
    split at h
    · cases h
    · obtain ⟨a, ha, rfl⟩ := Option.map_eq_some_iff.mp h
      exact .enter ha
    · next connfd hpc =>
      obtain ⟨a, ha, rfl⟩ := Option.map_eq_some_iff.mp h
      by_cases hset : s.acceptor.newConnectionCallback_ = true
      · rw [if_pos hset]
        exact .called hpc ha
      · rw [if_neg hset]
        refine .other ha (fun hread => by cases hread) ?_
        intro _ r hr
        cases hr
    · next hread haccept _ =>
      obtain ⟨a, ha, rfl⟩ := Option.map_eq_some_iff.mp h
      exact .other ha hread fun hpc r hr => haccept r hr hpc

/-! ## Runs -/

/-- The address that the connection is reported with. -/
def Described (host : ByteOrder) (c : Callback) : Prop :=
  c.peerAddr = if 0 < c.connfd then ⟨c.reported⟩ else noPeer host

/-- What `handleRead` knows, if `Q` is true of what the kernel does. -/
structure Kept (host : ByteOrder) (Q : Nat → SockaddrIn → Prop) (s : AcceptorPeers) : Prop where
  entered : s.acceptor.pc = .accepting → s.peerAddr = noPeer host
  accepted : ∀ connfd, s.acceptor.pc = .accepted connfd →
    Described host ⟨connfd, s.peerAddr, s.reported⟩ ∧ Q connfd s.reported
  called : ∀ c ∈ s.callbacks, Described host c ∧ Q c.connfd c.reported

/-- The other moves leave `handleRead` where it is or take it to a place where the address is of
no use any more. -/
theorem place_of_other {s a : Acceptor} {e : AcceptMove} (ht : Acceptor.Turn s e a)
    (hread : e ≠ .handleRead) (haccept : s.pc = .accepting → ∀ r, e ≠ .accept r) :
    a.pc = s.pc ∨ a.pc ≠ .accepting ∧ ∀ connfd, a.pc ≠ .accepted connfd := by
  cases ht with
  | enter hpc => exact absurd rfl hread
  | accepted hpc hfree => exact absurd rfl (haccept hpc _)
  | failed hpc => exact absurd rfl (haccept hpc _)
  | setCallback => exact .inl rfl
  | otherOpens hfree => exact .inl rfl
  | otherCloses hd hother => exact .inl rfl
  | _ => exact .inr (by simp)

theorem kept_turn {Q : Nat → SockaddrIn → Prop} {e : PeerMove} (h : s.Kept host Q)
    (ht : Turn host s e t)
    (hQ : ∀ connfd peer k, e = .accept (.connection connfd peer) k → Q connfd peer) :
    t.Kept host Q := by
  cases ht with
  | enter ha =>
    cases Acceptor.step_turn ha with
    | enter hpc => exact ⟨fun _ => rfl, by simp, h.called⟩
  | accepted hpc ha =>
    cases Acceptor.step_turn ha with
    | accepted hpc hfree =>
      refine ⟨by simp, ?_, h.called⟩
      intro fd hfd
      cases hfd
      refine ⟨?_, hQ _ _ _ rfl⟩
      rw [Described, h.entered hpc]
    | reaccepted hpc' hfree =>
      rw [hpc] at hpc'
      cases hpc'
  | failed hpc ha =>
    cases Acceptor.step_turn ha with
    | failed hpc => exact ⟨by simp, by simp, h.called⟩
    | refailed hpc' =>
      rw [hpc] at hpc'
      cases hpc'
  | called hpc ha =>
    have hcall := h.accepted _ hpc
    have hcalled : ∀ c ∈ s.callbacks ++ [_], Described host c ∧ Q c.connfd c.reported :=
      List.forall_mem_append.mpr ⟨h.called, List.forall_mem_singleton.mpr hcall⟩
    rcases place_of_other (Acceptor.step_turn ha) (fun hread => by cases hread)
      (fun _ _ hr => by cases hr) with hplace | ⟨hentered, haccepted⟩
    · rw [hpc] at hplace
      refine ⟨fun hpc' => ?_, fun fd hfd => ?_, hcalled⟩
      · rw [hplace] at hpc'
        cases hpc'
      · rw [hplace] at hfd
        cases hfd
        exact hcall
    · exact ⟨fun hpc' => absurd hpc' hentered, fun fd hfd => absurd hfd (haccepted fd), hcalled⟩
  | other ha hread haccept =>
    rcases place_of_other (Acceptor.step_turn ha) hread haccept with hplace | ⟨hentered, haccepted⟩
    · refine ⟨fun hpc => h.entered (hplace ▸ hpc), fun fd hfd => h.accepted fd (hplace ▸ hfd),
        h.called⟩
    · exact ⟨fun hpc => absurd hpc hentered, fun fd hfd => absurd hfd (haccepted fd), h.called⟩

theorem kept_reach {Q : Nat → SockaddrIn → Prop} {C : AcceptorPeers → PeerMove → Prop}
    (hC : ∀ s e, C s e →
      ∀ connfd peer k, e = .accept (.connection connfd peer) k → Q connfd peer) :
    (peers host build).Inductive C (Kept host Q) where
  init := by
    intro s hs
    have hpc := hs.acceptor.pc
    refine ⟨?_, ?_, ?_⟩
    · rw [hpc]
      intro h
      cases h
    · rw [hpc]
      intro connfd h
      cases h
    · rw [hs.callbacks]
      simp
  step := by
    intro s e t hs hc he
    exact kept_turn hs (step_turn he) (hC s e hc)

theorem Described.own_iff {c : Callback} (h : Described host c) :
    c.peerAddr.addr_ = c.reported ↔ 0 < c.connfd ∨ c.reported = (noPeer host).addr_ := by
  rw [Described] at h
  by_cases hpos : 0 < c.connfd
  · rw [h, if_pos hpos]
    simp [hpos]
  · rw [h, if_neg hpos, eq_comm]
    simp [hpos]

/-- If the kernel hands out a descriptor then it is positive, or the address is the one that
`handleRead` begins with. -/
def Regular (host : ByteOrder) : PeerMove → Prop
  | .accept (.connection connfd peer) _ => 0 < connfd ∨ peer = (noPeer host).addr_
  | _ => True

/-- **Whose address a connection is reported with.** In a run without a connection on the
descriptor 0 every call back has the address that the kernel reported; and in any run exactly
those calls have it that are for another descriptor, or for a peer whose address is the one
that `handleRead` begins with. -/
theorem peers_reported (host : ByteOrder) (build : sockets.Build) (s : AcceptorPeers) :
    ((peers host build).ReachIf (fun _ e => Regular host e) s →
      ∀ c ∈ s.callbacks, c.peerAddr.addr_ = c.reported) ∧
    ((peers host build).Reach s → ∀ c ∈ s.callbacks,
      (c.peerAddr.addr_ = c.reported ↔ 0 < c.connfd ∨ c.reported = (noPeer host).addr_)) := by
  constructor
  · intro hs c hc
    have hkept := (kept_reach (Q := fun connfd peer => 0 < connfd ∨ peer = (noPeer host).addr_)
      fun _ _ hregular _ _ _ he => by rw [he] at hregular; exact hregular).reach hs
    obtain ⟨hdescribed, hregular⟩ := hkept.called c hc
    exact hdescribed.own_iff.mpr hregular
  · intro hs c hc
    have hkept := (kept_reach (Q := fun _ _ => True) fun _ _ _ _ _ _ _ => trivial).reach hs
    exact (hkept.called c hc).1.own_iff

/-- A peer on port 80, in memory as it comes from the network. -/
def webPeer : SockaddrIn := { SockaddrIn.zero with sin_family := AF_INET, sin_port := 0x5000 }

/-- Somebody closes the descriptor 0, and the next connection gets it. -/
theorem peers_reported_zero :
    Constructed ⟨Acceptor.crowded, noPeer .little, .zero, []⟩ ∧
    ∃ s, (peers .little .accept4).run ⟨Acceptor.crowded, noPeer .little, .zero, []⟩
        [.other (.otherCloses 0), .other .handleRead,
          .accept (.connection 0 webPeer) ⟨0, fun _ => none, .zero⟩, .other .next] = some s ∧
      ∃ c ∈ s.callbacks, c.connfd = 0 ∧ c.reported = webPeer ∧ c.peerAddr = noPeer .little ∧
        c.peerAddr.addr_ ≠ c.reported :=
  ⟨⟨Acceptor.crowded_constructed, rfl⟩, _, rfl, ⟨0, noPeer .little, webPeer⟩,
    List.mem_singleton.mpr rfl, rfl, rfl, rfl, by decide⟩

end AcceptorPeers
end MyNet.Net
