import MyNet.Base.CountDownLatch
import MyNet.Lib.SizeT

/-!
# `CountDownLatch::getCount`

The latch with threads that ask for its count. The count goes on below zero when `countDown` is
called more than `count` times; `wait` takes that for zero, and `getCount` makes a `size_t` of
it.
-/
namespace MyNet.Base

open Lib

/-- Where a thread is in `getCount`. -/
inductive GetCountPc where
  | idle
  | locking
  /-- At `return m_count`, with the mutex. -/
  | reading
  /-- The destructor of the guard is next. -/
  | unlocking
  deriving DecidableEq

structure CountedLatch (ι : Type) where
  latch : CountDownLatch ι
  getters : ι → GetCountPc
  /-- What the calls of `getCount` read, in the order in which they had the mutex. -/
  values : List Nat

inductive CountMove (ι : Type) where
  | latch (e : LatchMove ι)
  | getCount (i : ι)
  /-- The next step of thread `i` in `getCount`. -/
  | get (i : ι)

namespace CountedLatch

/-- The conversion of an `int` to `size_t`. -/
def sizeOfInt (x : CInt) : Nat := (x.value % 18446744073709551616).toNat

variable {ι : Type} [DecidableEq ι]

/-- What `getCount` returns when it has the mutex now. -/
def getCount (s : CountedLatch ι) : Nat := sizeOfInt s.latch.m_count

def goto (s : CountedLatch ι) (i : ι) (pc : GetCountPc) : CountedLatch ι :=
  { s with getters := Function.update s.getters i pc }

def setMutex (s : CountedLatch ι) (owner : Option ι) : CountedLatch ι :=
  { s with latch := { s.latch with m_mutex := owner } }

def get (s : CountedLatch ι) (i : ι) : Option (CountedLatch ι) :=
  match s.getters i with
  | .idle => none
  | .locking =>
    match s.latch.m_mutex with
    | none => some ((s.setMutex (some i)).goto i .reading)
    | some _ => none
  | .reading => some ({ s with values := s.values ++ [s.getCount] }.goto i .unlocking)
  | .unlocking => some ((s.setMutex none).goto i .idle)

/-- A thread is in one function at a time. -/
def Idle (s : CountedLatch ι) (i : ι) : Prop := s.latch.threads i = .idle ∧ s.getters i = .idle

instance (s : CountedLatch ι) (i : ι) : Decidable (s.Idle i) :=
  inferInstanceAs (Decidable (_ ∧ _))

/-- A thread calls a function of the latch only when it is in none. -/
def Allowed (s : CountedLatch ι) : LatchMove ι → Prop
  | .call i _ => s.Idle i
  | .run _ | .wake _ => True

instance (s : CountedLatch ι) (e : LatchMove ι) : Decidable (s.Allowed e) := by
  cases e <;> unfold Allowed <;> infer_instance

def step (s : CountedLatch ι) : CountMove ι → Option (CountedLatch ι)
  | .latch e =>
    if s.Allowed e then (s.latch.step e).map fun l => { s with latch := l } else none
  | .getCount i => if s.Idle i then some (s.goto i .locking) else none
  | .get i => s.get i

variable (ι) in
def new (count : Int) : CountedLatch ι := ⟨.new ι count, fun _ => .idle, []⟩

variable (ι) in
def latches (count : Int) : Machine (CountedLatch ι) (CountMove ι) where
  init s := s = new ι count
  step := step

/-! ## Calls that are not disturbed -/

/-- `wait` returns without blocking. -/
def Passes (s : CountedLatch ι) : Prop := ¬0 < s.latch.m_count.value

instance (s : CountedLatch ι) : Decidable s.Passes := inferInstanceAs (Decidable (¬_))

variable {count : Int} {s t : CountedLatch ι} {i : ι}

/-- A call of `wait` that gets the mutex at once leaves its loop at the first test exactly if
there is nothing to count. -/
theorem wait_now (hfree : s.latch.m_mutex = none) (hi : s.Idle i) :
    ∃ t, (latches ι count).run s
        [.latch (.call i .wait), .latch (.run i), .latch (.run i)] = some t ∧
      (t.latch.threads i = .leaving ↔ s.Passes) := by
  obtain ⟨⟨m_count, m_mutex, m_cond, threads, decremented, counted, returns⟩, getters, values⟩ := s
  obtain ⟨hidle, hgetter⟩ := hi
  dsimp only at hfree hidle hgetter
  subst hfree
  simp [latches, Machine.run, Machine.runIf, step, Allowed, Idle, hidle, hgetter,
    CountDownLatch.step, CountDownLatch.run, CountDownLatch.lock, CountDownLatch.goto, Passes]

/-- One of `getCount` returns the count that it finds. -/
theorem getCount_now (hfree : s.latch.m_mutex = none) (hi : s.Idle i) :
    ∃ t, (latches ι count).run s [.getCount i, .get i, .get i] = some t ∧
      t.values = s.values ++ [s.getCount] := by
  simp [latches, Machine.run, Machine.runIf, step, hi, get, goto, setMutex, hfree, getCount]

/-! ## Runs -/

theorem get_values (hs : s.get i = some t) :
    t.latch.m_count = s.latch.m_count ∧ t.latch.decremented = s.latch.decremented ∧
      (t.values = s.values ∨ t.values = s.values ++ [s.getCount]) := by
  unfold get at hs
  cases hpc : s.getters i with
  | idle =>
    rw [hpc] at hs
    cases hs
  | locking =>
    simp only [hpc] at hs
    split at hs
    · obtain rfl := Option.some.inj hs
      exact ⟨rfl, rfl, .inl rfl⟩
    · cases hs
  | reading =>
    rw [hpc] at hs
    obtain rfl := Option.some.inj hs
    exact ⟨rfl, rfl, .inr rfl⟩
  | unlocking =>
    rw [hpc] at hs
    obtain rfl := Option.some.inj hs
    exact ⟨rfl, rfl, .inl rfl⟩

/-- A step changes the count or reads it, not both. -/
theorem step_values {e : CountMove ι} (hs : s.step e = some t) :
    s.latch.Counts t.latch ∧ t.values = s.values ∨
      t.latch.m_count = s.latch.m_count ∧ t.latch.decremented = s.latch.decremented ∧
        t.values = s.values ++ [s.getCount] := by
  cases e with
  | latch e =>
    simp only [step] at hs
    split at hs
    · obtain ⟨l, hl, rfl⟩ := Option.map_eq_some_iff.mp hs
      exact .inl ⟨CountDownLatch.counts_step hl, rfl⟩
    · cases hs
  | getCount i =>
    simp only [step] at hs
    split at hs
    · obtain rfl := Option.some.inj hs
      exact .inl ⟨.inl ⟨rfl, rfl⟩, rfl⟩
    · cases hs
  | get i =>
    obtain ⟨hcount, hdecremented, hsame | hread⟩ := get_values hs
    · exact .inl ⟨.inl ⟨hcount, hdecremented⟩, hsame⟩
    · exact .inr ⟨hcount, hdecremented, hread⟩

theorem decremented_le_succ {e : CountMove ι} (hs : s.step e = some t) :
    s.latch.decremented ≤ t.latch.decremented ∧
      t.latch.decremented ≤ s.latch.decremented + 1 := by
  rcases step_values hs with ⟨⟨-, hd⟩ | ⟨-, hd⟩, -⟩ | ⟨-, hd, -⟩ <;> omega

/-- The count is what is left of it, down to one below zero, and the values that were read have
not increased and are not below it. -/
structure Falls (count : Int) (s : CountedLatch ι) : Prop where
  count_eq : s.latch.decremented ≤ count + 1 →
    s.latch.m_count = .of (count - s.latch.decremented)
  falling : s.latch.decremented ≤ count → s.values.Pairwise (· ≥ ·)
  above : s.latch.decremented ≤ count → ∀ v ∈ s.values, count - s.latch.decremented ≤ v

omit [DecidableEq ι] in
theorem Falls.value_eq (h : Falls count s) (hcount : 0 ≤ count ∧ count ≤ 2147483647)
    (hfew : s.latch.decremented ≤ count + 1) :
    s.latch.m_count.value = count - s.latch.decremented := by
  rw [h.count_eq hfew]
  exact CInt.of_value (by omega)

omit [DecidableEq ι] in
theorem Falls.getCount_eq (h : Falls count s) (hcount : 0 ≤ count ∧ count ≤ 2147483647)
    (hfew : s.latch.decremented ≤ count) : (s.getCount : Int) = count - s.latch.decremented := by
  rw [getCount, sizeOfInt, h.value_eq hcount (by omega)]
  omega

theorem falls_step {e : CountMove ι} (hcount : 0 ≤ count ∧ count ≤ 2147483647)
    (h : Falls count s) (hs : s.step e = some t) : Falls count t := by
  rcases step_values hs with ⟨⟨hc, hd⟩ | ⟨hc, hd⟩, hv⟩ | ⟨hc, hd, hv⟩
  · refine ⟨?_, ?_, ?_⟩ <;> simp only [hc, hd, hv]
    · exact h.count_eq
    · exact h.falling
    · exact h.above
  · refine ⟨?_, ?_, ?_⟩ <;> simp only [hc, hd, hv]
    · intro hfew
      push_cast at hfew
      rw [h.count_eq (by omega), CInt.lit, CInt.sub_exact (by omega) (by decide)]
      apply congrArg CInt.of
      push_cast
      omega
    · intro hfew
      push_cast at hfew
      exact h.falling (by omega)
    · intro hfew v hmem
      push_cast at hfew ⊢
      have hold := h.above (by omega) v hmem
      omega
  · refine ⟨?_, ?_, ?_⟩ <;> simp only [hc, hd, hv]
    · exact h.count_eq
    · intro hfew
      have hread := h.getCount_eq hcount hfew
      rw [List.pairwise_append]
      refine ⟨h.falling hfew, List.pairwise_singleton _ _, ?_⟩
      intro v hmem w hw
      obtain rfl := List.mem_singleton.mp hw
      have habove := h.above hfew v hmem
      omega
    · intro hfew v hmem
      rcases List.mem_append.mp hmem with hold | hnew
      · exact h.above hfew v hold
      · obtain rfl := List.mem_singleton.mp hnew
        exact (h.getCount_eq hcount hfew).ge

omit [DecidableEq ι] in
theorem falls_new (count : Int) : Falls count (new ι count) where
  count_eq := fun _ => congrArg CInt.of (Int.sub_zero count).symm
  falling := fun _ => List.Pairwise.nil
  above := fun _ _ hmem => absurd hmem List.not_mem_nil

theorem falls_run (hcount : 0 ≤ count ∧ count ≤ 2147483647) {es : List (CountMove ι)}
    (hrun : (latches ι count).run (new ι count) es = some s) : Falls count s :=
  Machine.runIf_keeps (I := Falls count) (fun _ _ _ h _ hs => falls_step hcount h hs)
    (falls_new count) hrun

/-- The number of decrements does not go down along a run. -/
theorem decremented_mono {es fs : List (CountMove ι)} {u : CountedLatch ι} (hp : fs <+: es)
    (hu : (latches ι count).run (new ι count) fs = some u)
    (hs : (latches ι count).run (new ι count) es = some s) :
    u.latch.decremented ≤ s.latch.decremented := by
  obtain ⟨gs, rfl⟩ := hp
  rw [Machine.run_append hu] at hs
  exact Machine.runIf_keeps
    (I := fun v : CountedLatch ι => u.latch.decremented ≤ v.latch.decremented)
    (fun _ _ _ h _ hstep => Nat.le_trans h (decremented_le_succ hstep).1) (Nat.le_refl _) hs

/-- **When the count agrees with the blocking.** In a run the values that `getCount` returned
never increased, and at every moment it would have returned zero exactly if `wait` would not
have blocked, if and only if no more than `count` calls of `countDown` have decremented. And that
is what the calls do, by whoever makes them while nobody has the mutex. -/
theorem count_agrees_iff (hcount : 0 ≤ count ∧ count ≤ 2147483647) {es : List (CountMove ι)}
    (hrun : (latches ι count).run (new ι count) es = some s) :
    ((s.values.Pairwise (· ≥ ·) ∧
      ∀ fs u, fs <+: es → (latches ι count).run (new ι count) fs = some u →
        (u.getCount = 0 ↔ u.Passes)) ↔
      s.latch.decremented ≤ count) ∧
    ∀ (u : CountedLatch ι) (i : ι), u.latch.m_mutex = none → u.Idle i →
      (∃ t, (latches ι count).run u [.getCount i, .get i, .get i] = some t ∧
        t.values = u.values ++ [u.getCount]) ∧
      ∃ t, (latches ι count).run u [.latch (.call i .wait), .latch (.run i), .latch (.run i)] =
        some t ∧ (t.latch.threads i = .leaving ↔ u.Passes) := by
  refine ⟨?_, fun u i hfree hi => ⟨getCount_now hfree hi, wait_now hfree hi⟩⟩
  constructor
  · intro ⟨_, hagrees⟩
    by_contra hmore
    -- one decrement too many: the count is -1
    obtain ⟨below, hbelow⟩ : ∃ n : Nat, n = count + 1 := ⟨(count + 1).toNat, by omega⟩
    obtain ⟨fs, u, hprefix, hu, hdu⟩ := Machine.runIf_passes (n := below)
      (f := fun v : CountedLatch ι => v.latch.decremented)
      (fun _ _ _ hstep => (decremented_le_succ hstep).2) hrun (Nat.zero_le _)
      (show below ≤ s.latch.decremented by omega)
    have hvalue := (falls_run hcount hu).value_eq hcount (by omega)
    have hminus : u.latch.m_count.value = -1 := by
      rw [hvalue]
      omega
    have hzero := (hagrees fs u hprefix hu).mpr (by rw [Passes, hminus]; decide)
    rw [getCount, sizeOfInt, hminus] at hzero
    exact absurd hzero (by decide)
  · intro hfew
    refine ⟨(falls_run hcount hrun).falling hfew, fun fs u hprefix hu => ?_⟩
    have hmono := decremented_mono hprefix hu hrun
    have hfalls := falls_run hcount hu
    have hvalue := hfalls.value_eq hcount (by omega)
    have hread := hfalls.getCount_eq hcount (by omega)
    rw [Passes, hvalue]
    omega

/-- A thread reads the count, then counts down. -/
def readAndCount : List (CountMove Bool) :=
  [.getCount true, .get true, .get true, .get true, .latch (.call true .countDown),
    .latch (.run true), .latch (.run true)]

theorem count_agrees_one :
    ∃ s, (latches Bool 1).run (new Bool 1) readAndCount = some s ∧
      s.latch.decremented = 1 ∧ s.values.Pairwise (· ≥ ·) ∧
      ∀ fs u, fs <+: readAndCount → (latches Bool 1).run (new Bool 1) fs = some u →
        (u.getCount = 0 ↔ u.Passes) := by
  have hrun : (latches Bool 1).run (new Bool 1) readAndCount = some _ := rfl
  exact ⟨_, hrun, rfl, (count_agrees_iff (by decide) hrun).1.mpr (by decide)⟩

/-- One call of `countDown` on a latch of zero: the values go from 0 to the largest `size_t`, and
`wait` does not block. -/
theorem count_disagrees :
    ∃ s, (latches Bool 0).run (new Bool 0)
        (readAndCount ++
          [.latch (.run true), .latch (.run true), .getCount true, .get true, .get true]) =
          some s ∧
      s.values = [0, 18446744073709551615] ∧ ¬s.values.Pairwise (· ≥ ·) ∧
      s.getCount ≠ 0 ∧ s.Passes := by
  refine ⟨_, rfl, rfl, ?_, ?_, ?_⟩ <;> decide

end CountedLatch
end MyNet.Base
