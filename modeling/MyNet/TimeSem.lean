import MyNet.AcceptMutex
import MyNet.Lib.Machine
import MyNet.Lib.Mutex

/-!
# The processes of `time-sem.c`

The parent takes the mutex, forks the children, lets go and waits for them. Each child reads
the shared counter, yields and writes back one more, `num_iter` times, inside the mutex. The
processes take their steps in any order, and the calls they make may fail: then the process
exits, except that the parent goes on when `wait` fails. The runs begin when `accept_mutex_init`
has returned.
-/
namespace MyNet

open Lib AcceptMutex

inductive ParentPc where
  /-- The first `accept_mutex_on()`. -/
  | grabbing
  /-- The loop that forks, with `i`. -/
  | forking (i : Nat)
  | checking
  | releasing
  /-- The loop of `wait(NULL)`, with `i`. -/
  | waiting (i : Nat)
  | comparing
  /-- `exit(0)`; whether the counter was not the product. -/
  | finished (wtf : Bool)
  /-- `exit(1)`, because the counter was not zero. -/
  | exited
  /-- `exit(1)`, because a call has failed; whether the mutex is still taken for it. -/
  | failed (held : Bool)
  deriving DecidableEq

inductive ChildPc where
  | initing
  /-- `i < num_iter` -/
  | testing
  | grabbing
  | reading
  | yielding
  | writing
  | releasing
  /-- `exit(0)` -/
  | zombie
  /-- The exit after a failed call; whether the mutex is still taken for it. -/
  | failed (held : Bool)
  deriving DecidableEq

/-- The child has not exited. -/
def ChildPc.alive : ChildPc → Bool
  | .initing | .testing | .grabbing | .reading | .yielding | .writing | .releasing => true
  | .zombie | .failed _ => false

structure Child where
  pc : ChildPc
  i : Nat
  tmp : UInt64
  /-- How often it has written the counter. -/
  written : Nat
  /-- `wait` has returned for it. -/
  reaped : Bool
  deriving DecidableEq

/-- A child that has been forked. -/
def Child.forked : Child := ⟨.initing, 0, 0, 0, false⟩

/-- Child `k` is the process `k + 1`. -/
structure TimeSem where
  shared_counter : UInt64
  mutex : AcceptMutex
  parent : ParentPc
  children : List Child

inductive TimeSemMove where
  | parent
  /-- `wait(NULL)` returns for this child. -/
  | wait (k : Nat)
  | child (k : Nat)
  /-- `fork` or the call of the mutex the parent is at fails; for `accept_mutex_off`, whether the
  mutex is unlocked by then. -/
  | parentFails (unlocked : Bool)
  | waitFails
  | childFails (k : Nat) (unlocked : Bool)
  deriving DecidableEq

def TimeSemMove.fails : TimeSemMove → Bool
  | .parent | .wait _ | .child _ => false
  | .parentFails _ | .waitFails | .childFails _ _ => true

/-- `num_child` and `num_iter`, which are read with `atoi`. -/
structure TimeSemArgs where
  num_child : Int32
  num_iter : Int32

namespace TimeSemArgs

/-- How often `for (i = 0; i < n; ++i)` goes round. -/
def turns (n : Int32) : Nat := n.toInt.toNat

/-- `num_child * num_iter`, as it is compared with an `unsigned long`. -/
def product (a : TimeSemArgs) : UInt64 := (a.num_child * a.num_iter).toInt64.toUInt64

end TimeSemArgs

open TimeSemArgs

namespace TimeSem

def start : TimeSem := ⟨0, accept_mutex_init, .grabbing, []⟩

def setChild (s : TimeSem) (k : Nat) (c : Child) : TimeSem :=
  { s with children := s.children.set k c }

/-- At its end the parent removes the lock file, which only `flock` opens again. -/
def removed (kind : MutexKind) (s : TimeSem) : Bool :=
  match kind, s.parent with
  | .USE_FLOCK_SERIALIZED_ACCEPT, .finished _ => true
  | _, _ => false

/-- Another process than the parent has the parent's open files. -/
def shared (s : TimeSem) : Bool := s.children.any fun c => c.pc.alive

/-- The parent exits with the mutex, of which `m` is what is left. -/
def parentExits (kind : MutexKind) (s : TimeSem) (m : AcceptMutex) (unlocked : Bool) : TimeSem :=
  { s with
    mutex := AcceptMutex.exit kind m 0 s.shared
    parent := .failed (kept kind unlocked s.shared) }

def parentNext (kind : MutexKind) (a : TimeSemArgs) (s : TimeSem) : Option TimeSem :=
  match s.parent with
  | .grabbing =>
    (accept_mutex_on kind s.mutex 0).map fun m => { s with mutex := m, parent := .forking 0 }
  | .forking i =>
    if i < turns a.num_child then
      some { s with
        mutex := s.mutex.fork (s.children.length + 1)
        parent := .forking (i + 1)
        children := s.children ++ [Child.forked] }
    else some { s with parent := .checking }
  | .checking =>
    if s.shared_counter ≠ 0 then
      some { s with mutex := AcceptMutex.exit kind s.mutex 0 s.shared, parent := .exited }
    else some { s with parent := .releasing }
  | .releasing => some { s with mutex := accept_mutex_off kind s.mutex 0, parent := .waiting 0 }
  | .waiting i => if i < turns a.num_child then none else some { s with parent := .comparing }
  | .comparing => some { s with parent := .finished (s.shared_counter ≠ a.product) }
  | .finished _ | .exited | .failed _ => none

def parentFails (kind : MutexKind) (a : TimeSemArgs) (s : TimeSem) (unlocked : Bool) :
    Option TimeSem :=
  match s.parent with
  | .grabbing => some { s with parent := .failed false }
  | .forking i => if i < turns a.num_child then some (s.parentExits kind s.mutex false) else none
  | .releasing =>
    some (s.parentExits kind (accept_mutex_off_failed kind s.mutex 0 unlocked) unlocked)
  | .checking | .waiting _ | .comparing | .finished _ | .exited | .failed _ => none

/-- A child that has exited is taken off. -/
def wait (a : TimeSemArgs) (s : TimeSem) (k : Nat) : Option TimeSem :=
  match s.parent, s.children[k]? with
  | .waiting i, some c =>
    if i < turns a.num_child ∧ c.pc.alive = false ∧ c.reaped = false then
      some ({ s with parent := .waiting (i + 1) }.setChild k { c with reaped := true })
    else none
  | _, _ => none

/-- The loop goes on. -/
def waitFails (a : TimeSemArgs) (s : TimeSem) : Option TimeSem :=
  match s.parent with
  | .waiting i => if i < turns a.num_child then some { s with parent := .waiting (i + 1) } else none
  | _ => none

def childNext (kind : MutexKind) (a : TimeSemArgs) (s : TimeSem) (k : Nat) (c : Child) :
    Option TimeSem :=
  match c.pc with
  | .initing =>
    if s.removed kind then none
    else some ({ s with mutex := accept_mutex_child_init kind s.mutex (k + 1) }.setChild k
      { c with pc := .testing })
  | .testing =>
    some (s.setChild k { c with pc := if c.i < turns a.num_iter then .grabbing else .zombie })
  | .grabbing =>
    (accept_mutex_on kind s.mutex (k + 1)).map fun m =>
      { s with mutex := m }.setChild k { c with pc := .reading }
  | .reading => some (s.setChild k { c with pc := .yielding, tmp := s.shared_counter })
  | .yielding => some (s.setChild k { c with pc := .writing })
  | .writing =>
    some ({ s with shared_counter := c.tmp + 1 }.setChild k
      { c with pc := .releasing, written := c.written + 1 })
  | .releasing =>
    some ({ s with mutex := accept_mutex_off kind s.mutex (k + 1) }.setChild k
      { c with pc := .testing, i := c.i + 1 })
  | .zombie | .failed _ => none

/-- Only with `flock` is there a call in `accept_mutex_child_init`. The lock that a child has is
on a file of its own. -/
def childFails (kind : MutexKind) (s : TimeSem) (k : Nat) (unlocked : Bool) (c : Child) :
    Option TimeSem :=
  match c.pc with
  | .initing =>
    if kind = .USE_FLOCK_SERIALIZED_ACCEPT then some (s.setChild k { c with pc := .failed false })
    else none
  | .grabbing => some (s.setChild k { c with pc := .failed false })
  | .releasing =>
    let m := accept_mutex_off_failed kind s.mutex (k + 1) unlocked
    some ({ s with mutex := AcceptMutex.exit kind m (k + 1) false }.setChild k
      { c with pc := .failed (kept kind unlocked false) })
  | .testing | .reading | .yielding | .writing | .zombie | .failed _ => none

def step (kind : MutexKind) (a : TimeSemArgs) (s : TimeSem) : TimeSemMove → Option TimeSem
  | .parent => s.parentNext kind a
  | .wait k => s.wait a k
  | .child k => (s.children[k]?).bind (s.childNext kind a k)
  | .parentFails unlocked => s.parentFails kind a unlocked
  | .waitFails => s.waitFails a
  | .childFails k unlocked => (s.children[k]?).bind (s.childFails kind k unlocked)

def processes (kind : MutexKind) (a : TimeSemArgs) : Machine TimeSem TimeSemMove where
  init s := s = start
  step := step kind a

/-! ## What a step does: its guard and its result -/

inductive ParentTurn (kind : MutexKind) (a : TimeSemArgs) (s : TimeSem) : TimeSem → Prop
  | grab {m : AcceptMutex} (hp : s.parent = .grabbing)
      (hm : accept_mutex_on kind s.mutex 0 = some m) :
      ParentTurn kind a s { s with mutex := m, parent := .forking 0 }
  | fork {i : Nat} (hp : s.parent = .forking i) (hmore : i < turns a.num_child) :
      ParentTurn kind a s { s with
        mutex := s.mutex.fork (s.children.length + 1)
        parent := .forking (i + 1)
        children := s.children ++ [Child.forked] }
  | forked {i : Nat} (hp : s.parent = .forking i) (hall : turns a.num_child ≤ i) :
      ParentTurn kind a s { s with parent := .checking }
  | changed (hp : s.parent = .checking) (hcounter : s.shared_counter ≠ 0) :
      ParentTurn kind a s
        { s with mutex := AcceptMutex.exit kind s.mutex 0 s.shared, parent := .exited }
  | check (hp : s.parent = .checking) (hzero : s.shared_counter = 0) :
      ParentTurn kind a s { s with parent := .releasing }
  | release (hp : s.parent = .releasing) :
      ParentTurn kind a s { s with mutex := accept_mutex_off kind s.mutex 0, parent := .waiting 0 }
  | waited {i : Nat} (hp : s.parent = .waiting i) (hall : turns a.num_child ≤ i) :
      ParentTurn kind a s { s with parent := .comparing }
  | compare (hp : s.parent = .comparing) :
      ParentTurn kind a s { s with parent := .finished (s.shared_counter ≠ a.product) }

inductive ParentFailure (kind : MutexKind) (a : TimeSemArgs) (s : TimeSem) (unlocked : Bool) :
    TimeSem → Prop
  | grab (hp : s.parent = .grabbing) :
      ParentFailure kind a s unlocked { s with parent := .failed false }
  | fork {i : Nat} (hp : s.parent = .forking i) (hmore : i < turns a.num_child) :
      ParentFailure kind a s unlocked (s.parentExits kind s.mutex false)
  | release (hp : s.parent = .releasing) :
      ParentFailure kind a s unlocked
        (s.parentExits kind (accept_mutex_off_failed kind s.mutex 0 unlocked) unlocked)

inductive ChildTurn (kind : MutexKind) (a : TimeSemArgs) (s : TimeSem) (k : Nat) (c : Child) :
    TimeSem → Prop
  | init (hp : c.pc = .initing) (hfile : s.removed kind = false) :
      ChildTurn kind a s k c
        ({ s with mutex := accept_mutex_child_init kind s.mutex (k + 1) }.setChild k
          { c with pc := .testing })
  | round (hp : c.pc = .testing) (hmore : c.i < turns a.num_iter) :
      ChildTurn kind a s k c (s.setChild k { c with pc := .grabbing })
  | done (hp : c.pc = .testing) (hall : turns a.num_iter ≤ c.i) :
      ChildTurn kind a s k c (s.setChild k { c with pc := .zombie })
  | grab {m : AcceptMutex} (hp : c.pc = .grabbing)
      (hm : accept_mutex_on kind s.mutex (k + 1) = some m) :
      ChildTurn kind a s k c ({ s with mutex := m }.setChild k { c with pc := .reading })
  | read (hp : c.pc = .reading) :
      ChildTurn kind a s k c (s.setChild k { c with pc := .yielding, tmp := s.shared_counter })
  | yield (hp : c.pc = .yielding) :
      ChildTurn kind a s k c (s.setChild k { c with pc := .writing })
  | write (hp : c.pc = .writing) :
      ChildTurn kind a s k c ({ s with shared_counter := c.tmp + 1 }.setChild k
        { c with pc := .releasing, written := c.written + 1 })
  | release (hp : c.pc = .releasing) :
      ChildTurn kind a s k c
        ({ s with mutex := accept_mutex_off kind s.mutex (k + 1) }.setChild k
          { c with pc := .testing, i := c.i + 1 })

inductive ChildFailure (kind : MutexKind) (s : TimeSem) (k : Nat) (unlocked : Bool) (c : Child) :
    TimeSem → Prop
  | init (hp : c.pc = .initing) (hkind : kind = .USE_FLOCK_SERIALIZED_ACCEPT) :
      ChildFailure kind s k unlocked c (s.setChild k { c with pc := .failed false })
  | grab (hp : c.pc = .grabbing) :
      ChildFailure kind s k unlocked c (s.setChild k { c with pc := .failed false })
  | release (hp : c.pc = .releasing) :
      ChildFailure kind s k unlocked c
        ({ s with
            mutex := AcceptMutex.exit kind
              (accept_mutex_off_failed kind s.mutex (k + 1) unlocked) (k + 1) false }.setChild k
          { c with pc := .failed (kept kind unlocked false) })

section Turns

variable {kind : MutexKind} {a : TimeSemArgs} {s t : TimeSem} {k : Nat} {c : Child}
  {unlocked : Bool}

theorem parentNext_turn (hs : s.parentNext kind a = some t) : ParentTurn kind a s t := by
  cases hp : s.parent <;> simp only [parentNext, hp] at hs
  case grabbing =>
    obtain ⟨m, hm, rfl⟩ := Option.map_eq_some_iff.mp hs
    exact .grab hp hm
  case forking i =>
    split at hs
    · next hmore => obtain rfl := Option.some.inj hs; exact .fork hp hmore
    · next hall => obtain rfl := Option.some.inj hs; exact .forked hp (Nat.le_of_not_lt hall)
  case checking =>
    split at hs
    · next hcounter => obtain rfl := Option.some.inj hs; exact .changed hp hcounter
    · next hzero => obtain rfl := Option.some.inj hs; exact .check hp (not_ne_iff.mp hzero)
  case releasing =>
    obtain rfl := Option.some.inj hs
    exact .release hp
  case waiting i =>
    split at hs
    · cases hs
    · next hall => obtain rfl := Option.some.inj hs; exact .waited hp (Nat.le_of_not_lt hall)
  case comparing =>
    obtain rfl := Option.some.inj hs
    exact .compare hp
  case finished | exited | failed => cases hs

theorem parentFails_turn (hs : s.parentFails kind a unlocked = some t) :
    ParentFailure kind a s unlocked t := by
  cases hp : s.parent <;> simp only [parentFails, hp] at hs
  case grabbing =>
    obtain rfl := Option.some.inj hs
    exact .grab hp
  case forking i =>
    split at hs
    · next hmore => obtain rfl := Option.some.inj hs; exact .fork hp hmore
    · cases hs
  case releasing =>
    obtain rfl := Option.some.inj hs
    exact .release hp
  case checking | waiting | comparing | finished | exited | failed => cases hs

theorem childNext_turn (hs : s.childNext kind a k c = some t) : ChildTurn kind a s k c t := by
  cases hp : c.pc <;> simp only [childNext, hp] at hs
  case initing =>
    split at hs
    · cases hs
    · next hfile => obtain rfl := Option.some.inj hs; exact .init hp (Bool.eq_false_iff.mpr hfile)
  case testing =>
    obtain rfl := Option.some.inj hs
    split
    · next hmore => exact .round hp hmore
    · next hall => exact .done hp (Nat.le_of_not_lt hall)
  case grabbing =>
    obtain ⟨m, hm, rfl⟩ := Option.map_eq_some_iff.mp hs
    exact .grab hp hm
  case reading =>
    obtain rfl := Option.some.inj hs
    exact .read hp
  case yielding =>
    obtain rfl := Option.some.inj hs
    exact .yield hp
  case writing =>
    obtain rfl := Option.some.inj hs
    exact .write hp
  case releasing =>
    obtain rfl := Option.some.inj hs
    exact .release hp
  case zombie | failed => cases hs

theorem childFails_turn (hs : s.childFails kind k unlocked c = some t) :
    ChildFailure kind s k unlocked c t := by
  cases hp : c.pc <;> simp only [childFails, hp] at hs
  case initing =>
    split at hs
    · next hkind => obtain rfl := Option.some.inj hs; exact .init hp hkind
    · cases hs
  case grabbing =>
    obtain rfl := Option.some.inj hs
    exact .grab hp
  case releasing =>
    obtain rfl := Option.some.inj hs
    exact .release hp
  case testing | reading | yielding | writing | zombie | failed => cases hs

/-- `wait(NULL)` takes one child that has exited. -/
theorem wait_eq (hs : s.wait a k = some t) :
    ∃ i c, s.parent = .waiting i ∧ i < turns a.num_child ∧ s.children[k]? = some c ∧
      c.pc.alive = false ∧ c.reaped = false ∧
      t = { s with parent := .waiting (i + 1) }.setChild k { c with reaped := true } := by
  unfold wait at hs
  split at hs
  next i c hparent hc =>
    split at hs
    next hif => exact ⟨i, c, hparent, hif.1, hc, hif.2.1, hif.2.2, (Option.some.inj hs).symm⟩
    next => cases hs
  next => cases hs

theorem waitFails_eq (hs : s.waitFails a = some t) :
    ∃ i, s.parent = .waiting i ∧ i < turns a.num_child ∧
      t = { s with parent := .waiting (i + 1) } := by
  unfold waitFails at hs
  split at hs
  next i hparent =>
    split at hs
    next hmore => exact ⟨i, hparent, hmore, (Option.some.inj hs).symm⟩
    next => cases hs
  next => cases hs

end Turns

end TimeSem

/-! ## Who is inside -/

/-- The parent is behind `accept_mutex_on`, or has exited there with the mutex still taken. -/
def ParentPc.inside : ParentPc → Bool
  | .forking _ | .checking | .releasing => true
  | .failed held => held
  | .grabbing | .waiting _ | .comparing | .finished _ | .exited => false

namespace ChildPc

def inside : ChildPc → Bool
  | .reading | .yielding | .writing | .releasing => true
  | .failed held => held
  | .initing | .testing | .grabbing | .zombie => false

/-- `accept_mutex_child_init` is over. -/
def ready : ChildPc → Bool
  | .initing => false
  | .failed held => held
  | .testing | .grabbing | .reading | .yielding | .writing | .releasing | .zombie => true

end ChildPc

/-- What holds of each process: `b` for the parent, `f` of where a child is. -/
def flag (b : Bool) (f : ChildPc → Bool) (children : List Child) : Nat → Bool
  | 0 => b
  | k + 1 => (children[k]?).any fun c => f c.pc

section Flag

variable {b : Bool} {f : ChildPc → Bool} {children : List Child} {k : Nat}

theorem flag_child {c : Child} (h : children[k]? = some c) :
    flag b f children (k + 1) = f c.pc := by
  rw [flag, h]
  rfl

theorem flag_set (h : k < children.length) (c : Child) :
    flag b f (children.set k c) = Function.update (flag b f children) (k + 1) (f c.pc) := by
  funext p
  cases p with
  | zero => rfl
  | succ j =>
    by_cases hj : j = k
    · subst hj
      rw [Function.update_self, flag_child (List.getElem?_set_self h)]
    · rw [Function.update_of_ne (fun he => hj (Nat.succ.inj he)), flag,
        List.getElem?_set_ne (Ne.symm hj)]
      rfl

theorem flag_concat (b : Bool) (f : ChildPc → Bool) (children : List Child) (c : Child) :
    flag b f (children ++ [c]) =
      Function.update (flag b f children) (children.length + 1) (f c.pc) := by
  funext p
  cases p with
  | zero => rfl
  | succ j =>
    by_cases hj : j = children.length
    · subst hj
      rw [Function.update_self, flag_child List.getElem?_concat_length]
    · rw [Function.update_of_ne (fun he => hj (Nat.succ.inj he)), flag, flag, List.getElem?_append]
      split
      · rfl
      · rw [List.getElem?_eq_none (by rw [List.length_singleton]; omega),
          List.getElem?_eq_none (by omega)]

theorem flag_parent (b b' : Bool) (f : ChildPc → Bool) (children : List Child) :
    flag b' f children = Function.update (flag b f children) 0 b' := by
  funext p
  cases p with
  | zero => rfl
  | succ j => rfl

theorem flag_unborn (b : Bool) (f : ChildPc → Bool) (children : List Child) :
    flag b f children (children.length + 1) = false := by
  rw [flag, List.getElem?_eq_none (Nat.le_refl _)]
  rfl

end Flag

variable {kind : MutexKind} {a : TimeSemArgs} {s t : TimeSem} {k : Nat} {c : Child}

namespace TimeSem

def inside (s : TimeSem) : Nat → Bool := flag s.parent.inside ChildPc.inside s.children

def ready (s : TimeSem) : Nat → Bool := flag true ChildPc.ready s.children

/-- Whichever process has the mutex is the one inside. -/
def Locked (kind : MutexKind) (s : TimeSem) : Prop :=
  ∃ owner, Serves kind s.mutex owner s.ready ∧ Mutex.Held id owner s.inside

theorem inside_child (hc : s.children[k]? = some c) : s.inside (k + 1) = c.pc.inside :=
  flag_child hc

theorem ready_child (hc : s.children[k]? = some c) : s.ready (k + 1) = c.pc.ready := flag_child hc

theorem inside_set (hc : s.children[k]? = some c) (c' : Child) :
    flag s.parent.inside ChildPc.inside (s.children.set k c') =
      Function.update s.inside (k + 1) c'.pc.inside :=
  flag_set (List.getElem?_eq_some_iff.mp hc).1 c'

theorem ready_set (hc : s.children[k]? = some c) (c' : Child) :
    flag true ChildPc.ready (s.children.set k c') = Function.update s.ready (k + 1) c'.pc.ready :=
  flag_set (List.getElem?_eq_some_iff.mp hc).1 c'

theorem ready_same (hc : s.children[k]? = some c) :
    Function.update s.ready (k + 1) c.pc.ready = s.ready := by
  rw [← ready_child hc]
  exact Function.update_eq_self _ _

theorem locked_setChild (hc : s.children[k]? = some c) {m : AcceptMutex} {owner : Option Nat}
    {c' : Child} {counter : UInt64}
    (hserves : Serves kind m owner (Function.update s.ready (k + 1) c'.pc.ready))
    (hheld : Mutex.Held id owner (Function.update s.inside (k + 1) c'.pc.inside)) :
    ({ s with shared_counter := counter, mutex := m }.setChild k c').Locked kind := by
  refine ⟨owner, ?_, ?_⟩
  · change Serves kind m owner (flag true ChildPc.ready (s.children.set k c'))
    rwa [ready_set hc]
  · change Mutex.Held id owner (flag s.parent.inside ChildPc.inside (s.children.set k c'))
    rwa [inside_set hc]

/-- A child moves where the mutex makes no difference. -/
theorem Locked.stay (h : s.Locked kind) (hc : s.children[k]? = some c) {d : Child}
    (hinside : d.pc.inside = c.pc.inside) (hready : d.pc.ready = c.pc.ready) (counter : UInt64) :
    ({ s with shared_counter := counter }.setChild k d).Locked kind := by
  obtain ⟨owner, hserves, hheld⟩ := h
  refine locked_setChild hc ?_ (hheld.stay (hinside.trans (inside_child hc).symm))
  rwa [hready, ready_same hc]

/-- A child gets the mutex only when nobody is inside, and then it does. -/
theorem Locked.child_on (h : s.Locked kind) (hc : s.children[k]? = some c)
    (houtside : c.pc.inside = false) (hready : c.pc.ready = true) :
    (∀ m, accept_mutex_on kind s.mutex (k + 1) = some m →
      (∀ p, s.inside p = false) ∧ ∀ c' : Child, c'.pc.inside = true → c'.pc.ready = true →
        ({ s with mutex := m }.setChild k c').Locked kind) ∧
      ((∀ p, s.inside p = false) → ∃ m, accept_mutex_on kind s.mutex (k + 1) = some m) := by
  obtain ⟨owner, hserves, hheld⟩ := h
  have hask : s.ready (k + 1) = true := (ready_child hc).trans hready
  cases owner with
  | none =>
    obtain ⟨m, hon, hserves'⟩ := hserves.on_free hask
    refine ⟨fun m' hm' => ⟨fun p => ?_, fun c' hin' hready' => ?_⟩, fun _ => ⟨m, hon⟩⟩
    · exact Bool.eq_false_iff.mpr fun hp => nomatch (hheld p).mp hp
    · obtain rfl : m = m' := Option.some.inj (hon.symm.trans hm')
      refine locked_setChild hc ?_ (hheld.enter hin')
      rwa [hready', ← hready, ready_same hc]
  | some p =>
    have hp : s.inside p = true := (hheld p).mpr rfl
    have hne : p ≠ k + 1 := by
      rintro rfl
      rw [inside_child hc, houtside] at hp
      cases hp
    refine ⟨fun m hm => ?_, fun hnone => ?_⟩
    · rw [hserves.on_held hask hne] at hm
      cases hm
    · rw [hnone p] at hp
      cases hp

theorem Locked.child_off (h : s.Locked kind) (hc : s.children[k]? = some c)
    (hinside : c.pc.inside = true) {c' : Child} (houtside : c'.pc.inside = false)
    (hready : c'.pc.ready = c.pc.ready) :
    ({ s with mutex := accept_mutex_off kind s.mutex (k + 1) }.setChild k c').Locked kind := by
  obtain ⟨owner, hserves, hheld⟩ := h
  have hin : s.inside (k + 1) = true := (inside_child hc).trans hinside
  obtain rfl : owner = some (k + 1) := (hheld (k + 1)).mp hin
  refine locked_setChild hc ?_ (hheld.exit hin houtside)
  rw [hready, ready_same hc]
  exact hserves.off

theorem Locked.child_init (h : s.Locked kind) (hc : s.children[k]? = some c)
    (hpc : c.pc = .initing) :
    ({ s with mutex := accept_mutex_child_init kind s.mutex (k + 1) }.setChild k
      { c with pc := .testing }).Locked kind := by
  obtain ⟨owner, hserves, hheld⟩ := h
  have hunready : s.ready (k + 1) = false := (ready_child hc).trans (by rw [hpc]; rfl)
  have houtside : s.inside (k + 1) = false := (inside_child hc).trans (by rw [hpc]; rfl)
  exact locked_setChild hc (hserves.child_init hunready) (hheld.stay houtside.symm)

/-- A child exits without the mutex. -/
theorem Locked.child_gone (h : s.Locked kind) (hc : s.children[k]? = some c)
    (houtside : c.pc.inside = false) :
    (s.setChild k { c with pc := .failed false }).Locked kind := by
  obtain ⟨owner, hserves, hheld⟩ := h
  have hout : s.inside (k + 1) = false := (inside_child hc).trans houtside
  have hnot : owner ≠ some (k + 1) := fun howner =>
    Bool.false_ne_true (hout.symm.trans ((hheld (k + 1)).mpr howner))
  exact locked_setChild hc (hserves.gone hnot) (hheld.stay hout.symm)

/-- A child exits inside; with some of the mutexes nobody else gets in any more. -/
theorem Locked.child_exit (h : s.Locked kind) (hc : s.children[k]? = some c)
    (hinside : c.pc.inside = true) (hready : c.pc.ready = true) (unlocked : Bool) :
    ({ s with
      mutex := AcceptMutex.exit kind (accept_mutex_off_failed kind s.mutex (k + 1) unlocked)
        (k + 1) false }.setChild k { c with pc := .failed (kept kind unlocked false) }).Locked
      kind := by
  obtain ⟨owner, hserves, hheld⟩ := h
  have hin : s.inside (k + 1) = true := (inside_child hc).trans hinside
  obtain rfl : owner = some (k + 1) := (hheld (k + 1)).mp hin
  have hexit := hserves.exit unlocked false
  cases hkept : kept kind unlocked false with
  | false =>
    rw [hkept] at hexit
    exact locked_setChild hc (hexit.gone nofun) (hheld.exit hin rfl)
  | true =>
    rw [hkept] at hexit
    refine locked_setChild hc ?_ (hheld.stay hin.symm)
    rw [show (ChildPc.failed true).ready = c.pc.ready from hready.symm, ready_same hc]
    exact hexit

/-- The parent moves where the mutex makes no difference. -/
theorem Locked.parent_stay (h : s.Locked kind) {pc : ParentPc} (hpc : pc.inside = s.parent.inside) :
    { s with parent := pc }.Locked kind := by
  obtain ⟨owner, hserves, hheld⟩ := h
  refine ⟨owner, hserves, ?_⟩
  rw [inside, flag_parent s.parent.inside]
  exact hheld.stay hpc

theorem locked_parent {m : AcceptMutex} {pc : ParentPc} {owner : Option Nat}
    (hserves : Serves kind m owner s.ready)
    (hheld : Mutex.Held id owner (Function.update s.inside 0 pc.inside)) :
    { s with mutex := m, parent := pc }.Locked kind := by
  refine ⟨owner, hserves, ?_⟩
  change Mutex.Held id owner (flag pc.inside ChildPc.inside s.children)
  rwa [flag_parent s.parent.inside]

theorem Locked.parent_on (h : s.Locked kind) (houtside : s.parent.inside = false) {pc : ParentPc}
    (hin : pc.inside = true) {m : AcceptMutex} (hm : accept_mutex_on kind s.mutex 0 = some m) :
    { s with mutex := m, parent := pc }.Locked kind := by
  obtain ⟨owner, hserves, hheld⟩ := h
  cases owner with
  | none =>
    obtain ⟨m', hon, hserves'⟩ := hserves.on_free (p := 0) rfl
    obtain rfl : m' = m := Option.some.inj (hon.symm.trans hm)
    exact locked_parent hserves' (hheld.enter hin)
  | some p =>
    have hne : p ≠ 0 := by
      rintro rfl
      have hzero : s.parent.inside = true := (hheld 0).mpr rfl
      rw [houtside] at hzero
      cases hzero
    rw [hserves.on_held rfl hne] at hm
    cases hm

theorem Locked.parent_off (h : s.Locked kind) (hin : s.parent.inside = true) {pc : ParentPc}
    (houtside : pc.inside = false) :
    { s with mutex := accept_mutex_off kind s.mutex 0, parent := pc }.Locked kind := by
  obtain ⟨owner, hserves, hheld⟩ := h
  obtain rfl : owner = some 0 := (hheld 0).mp hin
  exact locked_parent hserves.off (hheld.exit hin houtside)

theorem Locked.parent_exit (h : s.Locked kind) (hin : s.parent.inside = true) (unlocked : Bool) :
    (s.parentExits kind (accept_mutex_off_failed kind s.mutex 0 unlocked) unlocked).Locked
      kind := by
  obtain ⟨owner, hserves, hheld⟩ := h
  obtain rfl : owner = some 0 := (hheld 0).mp hin
  have hexit := hserves.exit unlocked s.shared
  refine locked_parent hexit ?_
  cases kept kind unlocked s.shared with
  | false => exact hheld.exit hin rfl
  | true => exact hheld.stay hin.symm

theorem Locked.fork (h : s.Locked kind) {pc : ParentPc} (hpc : pc.inside = s.parent.inside) :
    { s with
      mutex := s.mutex.fork (s.children.length + 1)
      parent := pc
      children := s.children ++ [Child.forked] }.Locked kind := by
  obtain ⟨owner, hserves, hheld⟩ := h
  have hunborn : s.ready (s.children.length + 1) = false := flag_unborn _ _ _
  refine ⟨owner, ?_, ?_⟩
  · change Serves kind _ owner (flag true ChildPc.ready (s.children ++ [Child.forked]))
    rw [flag_concat, show Child.forked.pc.ready = flag true ChildPc.ready s.children
      (s.children.length + 1) from (flag_unborn _ _ _).symm, Function.update_eq_self]
    exact hserves.fork hunborn
  · change Mutex.Held id owner (flag pc.inside ChildPc.inside (s.children ++ [Child.forked]))
    rw [hpc, flag_concat, show Child.forked.pc.inside = flag s.parent.inside ChildPc.inside
      s.children (s.children.length + 1) from (flag_unborn _ _ _).symm, Function.update_eq_self]
    exact hheld

end TimeSem

end MyNet
