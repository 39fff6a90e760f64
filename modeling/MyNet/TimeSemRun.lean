import MyNet.TimeSemCounter

/-!
# The runs of `time-sem.c`

Every step takes the processes nearer to their end, and until then one of them can move: if a
child has to wait for the mutex, the one that has it need not, unless it is gone. With a record
lock or the semaphore the mutex goes with it.
-/
namespace MyNet

open Lib AcceptMutex TimeSemArgs

variable {kind : MutexKind} {a : TimeSemArgs} {s t : TimeSem} {k : Nat} {c : Child}

/-- The moves a child has before it, of `n` turns. -/
def Child.left (n : Nat) (c : Child) : Nat :=
  match c.pc with
  | .initing => 6 * (n - c.i) + 2
  | .testing => 6 * (n - c.i) + 1
  | .grabbing => 6 * (n - c.i)
  | .reading => 6 * (n - c.i) - 1
  | .yielding => 6 * (n - c.i) - 2
  | .writing => 6 * (n - c.i) - 3
  | .releasing => 6 * (n - c.i) - 4
  | .zombie | .failed _ => 0

/-- The moves the parent has before it, and those of the children it has not forked. -/
def ParentPc.left (n m : Nat) : ParentPc → Nat
  | .grabbing => n * (6 * m + 3) + n + 6
  | .forking i => (n - i) * (6 * m + 3) + n + 5
  | .checking => n + 4
  | .releasing => n + 3
  | .waiting i => n - i + 2
  | .comparing => 1
  | .finished _ | .exited | .failed _ => 0

/-- The parent has called `exit`. -/
def ParentPc.ended : ParentPc → Bool
  | .grabbing | .forking _ | .checking | .releasing | .waiting _ | .comparing => false
  | .finished _ | .exited | .failed _ => true

/-- A child goes on when it need not wait for the mutex, nor open a file that is gone. -/
theorem Child.moves (h : c.pc ≠ .grabbing) (halive : c.pc.alive = true)
    (hopen : c.pc = .initing → s.removed kind = false) :
    ∃ t, s.childNext kind a k c = some t := by
  cases hpc : c.pc <;> simp only [TimeSem.childNext, hpc]
  case grabbing => exact absurd hpc h
  case initing => exact ⟨_, if_neg (Bool.eq_false_iff.mp (hopen hpc))⟩
  case zombie | failed =>
    rw [hpc] at halive
    cases halive
  all_goals exact ⟨_, rfl⟩

namespace TimeSem

/-- The moves left for all of them. -/
def left (a : TimeSemArgs) (s : TimeSem) : Nat :=
  s.parent.left (turns a.num_child) (turns a.num_iter) +
    sum (Child.left (turns a.num_iter)) s.children

/-- Someone has called `exit` for whom the mutex is still taken. -/
def abandoned (s : TimeSem) : Bool :=
  s.parent = .failed true || s.children.any fun c => c.pc = .failed true

/-! ## Every step is nearer to the end -/

/-- Someone is gone for whom the mutex is still taken only where it may outlive him. -/
def Lasting (kind : MutexKind) (s : TimeSem) : Prop :=
  (s.parent = .failed true → lasts kind = true) ∧
    ∀ c ∈ s.children, c.pc = .failed true → lasts kind = true

theorem Lasting.setChild (h : s.Lasting kind) {d : Child} {m : AcceptMutex} {counter : UInt64}
    (hd : d.pc = .failed true → lasts kind = true) :
    ({ s with shared_counter := counter, mutex := m }.setChild k d).Lasting kind := by
  refine ⟨h.1, fun b hb => ?_⟩
  rcases List.mem_or_eq_of_mem_set hb with hold | rfl
  · exact h.2 b hold
  · exact hd

theorem Lasting.lasts (h : s.Lasting kind) (ha : s.abandoned = true) :
    AcceptMutex.lasts kind = true := by
  rcases (Bool.or_eq_true _ _).mp ha with hparent | hchild
  · exact h.1 (of_decide_eq_true hparent)
  · obtain ⟨c, hc, hfailed⟩ := List.any_eq_true.mp hchild
    exact h.2 c hc (of_decide_eq_true hfailed)

/-! ## One of them can move -/

/-- No run has more steps. -/
def moves (a : TimeSemArgs) : Nat := turns a.num_child * (6 * turns a.num_iter + 4) + 6

end TimeSem
end MyNet
