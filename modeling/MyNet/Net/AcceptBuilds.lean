import MyNet.Net.Acceptor
import MyNet.Net.SocketsOps

/-!
# `sockets::accept` in its two builds

One build asks `accept4` for the flags, the other sets them with `fcntl` after `accept`, also
when `accept` failed; each `fcntl` on the descriptor `-1` then fails with `EBADF`, before
`errno` is looked at. The name `CLOEXEC` is not defined by the sources, so its value is a
parameter of that build.
-/
namespace MyNet.Net

open MyNet.Base

def EPERM : Nat := 1
def EINTR : Nat := 4
def EBADF : Nat := 9
def EAGAIN : Nat := 11
def EPROTO : Nat := 71
def ECONNABORTED : Nat := 103

def O_RDWR : BitVec 32 := 2
def O_NONBLOCK : BitVec 32 := 0o4000
def FD_CLOEXEC : BitVec 32 := 1

/-- The bits that `F_SETFL` changes: `O_APPEND`, `O_NONBLOCK`, `O_ASYNC`, `O_DIRECT` and
`O_NOATIME`. -/
def setflMask : BitVec 32 := 0o2000 ||| O_NONBLOCK ||| 0o20000 ||| 0o40000 ||| 0o1000000

/-- The flags of an open descriptor. -/
structure FileFlags where
  status : BitVec 32
  descriptor : BitVec 32

structure Kernel where
  errno : Nat
  files : Nat → Option FileFlags
  /-- `*addr` of the caller. -/
  addr : SockaddrIn

abbrev KernelM := StateM Kernel

namespace Kernel

def lookup (k : Kernel) (fd : Int) : Option FileFlags := if fd < 0 then none else k.files fd.toNat

def update (k : Kernel) (fd : Int) (f : FileFlags) : Kernel :=
  { k with files := Function.update k.files fd.toNat (some f) }

/-- The kernel fills in `*addr`. -/
def report (k : Kernel) (peer : SockaddrIn) : Kernel := { k with addr := peer }

end Kernel

inductive Fcntl where
  | getfl
  | setfl (flags : BitVec 32)
  | getfd
  | setfd (flags : BitVec 32)

/-- A bad descriptor is `EBADF`, whatever the command. -/
def fcntl (fd : Int) (cmd : Fcntl) : KernelM (BitVec 32) := fun k =>
  match k.lookup fd with
  | none => (-1, { k with errno := EBADF })
  | some f =>
    match cmd with
    | .getfl => (f.status, k)
    | .setfl flags =>
      (0, k.update fd ⟨(f.status &&& ~~~setflMask) ||| (flags &&& setflMask), f.descriptor⟩)
    | .getfd => (f.descriptor, k)
    | .setfd flags => (0, k.update fd ⟨f.status, flags &&& FD_CLOEXEC⟩)

/-- What the kernel makes of an `accept`. -/
inductive Accepted where
  | connection (connfd : Nat) (peer : SockaddrIn)
  | failure (errno : Nat)

/-- The descriptor gets these flags. -/
def acceptWith (flags : FileFlags) (r : Accepted) : KernelM Int := fun k =>
  match r with
  | .connection connfd peer => (connfd, (k.update connfd flags).report peer)
  | .failure errno => (-1, { k with errno := errno })

namespace sockets

def setNonBlockAndCloseOnExec (CLOEXEC : BitVec 32) (sockfd : Int) : KernelM Unit := do
  let flags ← fcntl sockfd .getfl
  let _ ← fcntl sockfd (.setfl (flags ||| O_NONBLOCK))
  let flags ← fcntl sockfd .getfd
  let _ ← fcntl sockfd (.setfd (flags ||| CLOEXEC))
  return ()

/-- `fallback` is the build with `VALGRIND` or `NO_ACCEPT4`. -/
inductive Build where
  | accept4
  | fallback (CLOEXEC : BitVec 32)

/-- The flags of `accept4` are `SOCK_NONBLOCK | SOCK_CLOEXEC`. -/
def connfdOf (build : Build) (r : Accepted) : KernelM Int :=
  match build with
  | .fallback CLOEXEC => do
    let connfd ← acceptWith ⟨O_RDWR, 0⟩ r
    setNonBlockAndCloseOnExec CLOEXEC connfd
    return connfd
  | .accept4 => acceptWith ⟨O_RDWR ||| O_NONBLOCK, FD_CLOEXEC⟩ r

/-- The `switch` in `accept`. -/
def restore (savedErrno : Nat) : KernelM Unit :=
  if savedErrno ∈ [EAGAIN, ECONNABORTED, EINTR, EPROTO, EPERM, EMFILE] then
    modify fun k => { k with errno := savedErrno }
  else return ()

def accept (build : Build) (r : Accepted) : KernelM Int := do
  let connfd ← connfdOf build r
  if connfd < 0 then
    let k ← get
    restore k.errno
    return connfd
  else return connfd

/-! ## What a call leaves -/

theorem bind_apply {α β : Type} (x : KernelM α) (f : α → KernelM β) (k : Kernel) :
    (x >>= f) k = f (x k).1 (x k).2 := rfl

theorem pure_apply {α : Type} (a : α) (k : Kernel) : (pure a : KernelM α) k = (a, k) := rfl

theorem get_apply (k : Kernel) : (get : KernelM Kernel) k = (k, k) := rfl

theorem fcntl_bad {k : Kernel} {fd : Int} (h : k.lookup fd = none) (cmd : Fcntl) :
    fcntl fd cmd k = (-1, { k with errno := EBADF }) := by
  simp only [fcntl, h]

theorem lookup_update (k : Kernel) {fd : Int} (h : 0 ≤ fd) (f : FileFlags) :
    (k.update fd f).lookup fd = some f := by
  rw [Kernel.lookup, if_neg (by omega)]
  exact Function.update_self ..

theorem update_update (k : Kernel) (fd : Int) (f g : FileFlags) :
    (k.update fd f).update fd g = k.update fd g := by
  simp only [Kernel.update, Function.update_idem]

theorem update_report (k : Kernel) (peer : SockaddrIn) (fd : Int) (f : FileFlags) :
    (k.report peer).update fd f = (k.update fd f).report peer := rfl

/-- On a bad descriptor all four calls fail. -/
theorem setNonBlockAndCloseOnExec_bad {k : Kernel} {fd : Int} (h : k.lookup fd = none)
    (CLOEXEC : BitVec 32) :
    setNonBlockAndCloseOnExec CLOEXEC fd k = ((), { k with errno := EBADF }) := by
  have h' : Kernel.lookup { k with errno := EBADF } fd = none := h
  simp only [setNonBlockAndCloseOnExec, bind_apply, pure_apply, fcntl_bad h, fcntl_bad h']

theorem setNonBlockAndCloseOnExec_open {k : Kernel} {fd : Int} (hfd : 0 ≤ fd) {f : FileFlags}
    (h : k.lookup fd = some f) (CLOEXEC : BitVec 32) :
    setNonBlockAndCloseOnExec CLOEXEC fd k =
      ((), k.update fd
        ⟨(f.status &&& ~~~setflMask) ||| ((f.status ||| O_NONBLOCK) &&& setflMask),
          (f.descriptor ||| CLOEXEC) &&& FD_CLOEXEC⟩) := by
  simp only [setNonBlockAndCloseOnExec, bind_apply, pure_apply, fcntl, h,
    lookup_update k hfd, update_update]

/-- The flags of a new descriptor. -/
def Build.flags : Build → FileFlags
  | .accept4 => ⟨O_RDWR ||| O_NONBLOCK, FD_CLOEXEC⟩
  | .fallback CLOEXEC => ⟨O_RDWR ||| O_NONBLOCK, CLOEXEC &&& FD_CLOEXEC⟩

/-- The `errno` after a failure with `errno`. -/
def Build.errno : Build → Nat → Nat
  | .accept4, errno => errno
  | .fallback _, _ => EBADF

theorem restore_same (k : Kernel) : restore k.errno k = ((), k) := by
  unfold restore
  split <;> rfl

/-- A failure passes through the `switch` as it is. -/
theorem accept_of_connfdOf {build : Build} {r : Accepted} {k k' : Kernel} {connfd : Int}
    (h : connfdOf build r k = (connfd, k')) : accept build r k = (connfd, k') := by
  rw [accept, bind_apply, h]
  by_cases hneg : connfd < 0
  · simp only [if_pos hneg, bind_apply, get_apply, restore_same, pure_apply]
  · simp only [if_neg hneg, pure_apply]

theorem accept_connection (build : Build) (connfd : Nat) (peer : SockaddrIn) (k : Kernel) :
    accept build (.connection connfd peer) k =
      ((connfd : Int), (k.update connfd build.flags).report peer) := by
  apply accept_of_connfdOf
  cases build with
  | accept4 => rfl
  | fallback CLOEXEC =>
    have hopen :
        ((k.update connfd ⟨O_RDWR, 0⟩).report peer).lookup connfd = some ⟨O_RDWR, 0⟩ :=
      lookup_update k (Int.natCast_nonneg connfd) _
    have hstatus : (O_RDWR &&& ~~~setflMask) ||| ((O_RDWR ||| O_NONBLOCK) &&& setflMask) =
        O_RDWR ||| O_NONBLOCK := by decide
    have hset := setNonBlockAndCloseOnExec_open (Int.natCast_nonneg connfd) hopen CLOEXEC
    have hzero : (0 : BitVec 32) ||| CLOEXEC = CLOEXEC := BitVec.zero_or
    simp only [hstatus, hzero, update_report, update_update] at hset
    simp only [connfdOf, acceptWith, bind_apply, pure_apply, hset]
    rfl

theorem accept_failure (build : Build) (errno : Nat) (k : Kernel) :
    accept build (.failure errno) k = (-1, { k with errno := build.errno errno }) := by
  apply accept_of_connfdOf
  cases build with
  | accept4 => rfl
  | fallback CLOEXEC =>
    have hbad : Kernel.lookup { k with errno := errno } (-1) = none := rfl
    simp only [connfdOf, acceptWith, bind_apply, pure_apply, setNonBlockAndCloseOnExec_bad hbad]
    rfl

end sockets

open sockets

/-- The descriptor is open, non-blocking and close-on-exec. -/
def Kernel.Ready (k : Kernel) (fd : Int) : Prop :=
  ∃ f, k.lookup fd = some f ∧ f.status &&& O_NONBLOCK = O_NONBLOCK ∧
    f.descriptor &&& FD_CLOEXEC = FD_CLOEXEC

/-- What a caller sees of one build and of the other. -/
structure Alike (a b : Int × Kernel) : Prop where
  connfd : a.1 = b.1
  addr : a.2.addr = b.2.addr
  errno : a.1 < 0 → a.2.errno = b.2.errno
  ready : 0 ≤ a.1 → a.2.Ready a.1 ∧ b.2.Ready b.1

/-- The outcomes that both builds treat alike. -/
def Accepted.Harmless (CLOEXEC : BitVec 32) : Accepted → Prop
  | .connection _ _ => CLOEXEC &&& FD_CLOEXEC = FD_CLOEXEC
  | .failure errno => errno = EBADF

/-- **When the builds are alike.** A new connection is the same in both, as long as `CLOEXEC`
stands for the bit it is named after; a failure only if it was `EBADF` to begin with. -/
theorem accept_builds_alike_iff (CLOEXEC : BitVec 32) (r : Accepted) (k : Kernel) :
    Alike (accept .accept4 r k) (accept (.fallback CLOEXEC) r k) ↔ r.Harmless CLOEXEC := by
  cases r with
  | connection connfd peer =>
    rw [accept_connection, accept_connection]
    have hnonneg : (0 : Int) ≤ connfd := Int.natCast_nonneg connfd
    have hlookup (build : Build) :
        ((k.update connfd build.flags).report peer).lookup connfd = some build.flags :=
      lookup_update k hnonneg _
    constructor
    · intro h
      obtain ⟨f, hf, -, hcloexec⟩ := (h.ready hnonneg).2
      obtain rfl := Option.some.inj ((hlookup _).symm.trans hf)
      rw [Build.flags, BitVec.and_assoc, BitVec.and_self] at hcloexec
      exact hcloexec
    · intro h
      refine ⟨rfl, rfl, ?_, ?_⟩
      · intro hneg
        exact absurd hneg (Int.not_lt.mpr hnonneg)
      · intro _
        have hstatus : (O_RDWR ||| O_NONBLOCK) &&& O_NONBLOCK = O_NONBLOCK := by decide
        refine ⟨⟨_, hlookup _, hstatus, by decide⟩, ⟨_, hlookup _, hstatus, ?_⟩⟩
        show CLOEXEC &&& FD_CLOEXEC &&& FD_CLOEXEC = FD_CLOEXEC
        rw [BitVec.and_assoc, BitVec.and_self]
        exact h
  | failure errno =>
    rw [accept_failure, accept_failure]
    constructor
    · intro h
      exact h.errno (Int.negSucc_lt_zero 0)
    · intro h
      refine ⟨rfl, rfl, fun _ => h, ?_⟩
      intro hnonneg
      exact absurd hnonneg (Int.not_le.mpr (Int.negSucc_lt_zero 0))

/-- Out of descriptors: the caller of the fallback build sees `EBADF` instead. -/
theorem accept_builds_differ :
    (accept .accept4 (.failure EMFILE) ⟨0, fun _ => none, .zero⟩).2.errno = EMFILE ∧
      (accept (.fallback FD_CLOEXEC) (.failure EMFILE) ⟨0, fun _ => none, .zero⟩).2.errno = EBADF ∧
      ¬Alike (accept .accept4 (.failure EMFILE) ⟨0, fun _ => none, .zero⟩)
        (accept (.fallback FD_CLOEXEC) (.failure EMFILE) ⟨0, fun _ => none, .zero⟩) := by
  refine ⟨rfl, rfl, ?_⟩
  intro h
  have herrno := h.errno (by decide)
  revert herrno
  decide

end MyNet.Net
