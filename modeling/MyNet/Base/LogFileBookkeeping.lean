import MyNet.Base.LogFileRoll

/-!
# The books of a `LogFile`

`m_startPeriod`, `m_lastFlush` and `m_lastRoll` belong together: a roll sets all three. The
constructor leaves them to its `rollFile`, which compares the clock with the `m_lastRoll`
nobody has set, and `m_appendCount` it does not set at all.
-/
namespace MyNet.Base

open Lib LogFile

namespace LogFileRun

/-- The clock does not go back; a reading that a branch does not make may be any in between. -/
def Forward (s : LogFileRun) : LogFileEvent → Prop
  | .append _ i => s.clock ≤ i.now ∧ i.now ≤ i.roll.now
  | .flush => True
  | .rollFile i => s.clock ≤ i.now

instance (s : LogFileRun) (e : LogFileEvent) : Decidable (Forward s e) :=
  match e with
  | .append _ i => inferInstanceAs (Decidable (s.clock ≤ i.now ∧ i.now ≤ i.roll.now))
  | .flush => inferInstanceAs (Decidable True)
  | .rollFile i => inferInstanceAs (Decidable (s.clock ≤ i.now))

structure Kept (host : Host) (s : LogFileRun) : Prop where
  count : 0 ≤ s.file.m_appendCount ∧ s.file.m_appendCount < s.file.m_checkEveryN
  period : s.file.m_startPeriod = s.file.m_lastRoll - s.file.m_lastRoll % m_rollPeriod
  flushed : s.file.m_lastRoll ≤ s.file.m_lastFlush ∧ s.file.m_lastFlush ≤ s.clock
  opened : s.rolls.getLast? = some s.file.m_lastRoll ∧
    s.file.m_scpFile.m_filename = getLogFileName host s.file.m_basename s.file.m_lastRoll
  counted : s.counted < s.file.m_checkEveryN
  unchecked : s.stalled = false → s.unchecked < s.file.m_checkEveryN

/-- A check in a later period than `m_startPeriod` opens a file. -/
def OpensLater (host : Host) (s : LogFileRun) : Prop :=
  ∀ line i w u, s.file.m_scpFile.writeLine i.writes line = some w → Forward s (.append line i) →
    ({ s.file with m_scpFile := w.2 }.branch i.now).checks = true →
    s.file.m_startPeriod < periodStart i.now → s.step host (.append line i) = some u →
    u.rolls = s.rolls ++ [i.roll.now]

/-- What the constructor finds in the members it does not set. -/
def Lucky (c : Config) (g : Garbage) (now : Int) : Prop :=
  g.m_lastRoll < now ∧ 0 ≤ g.m_appendCount ∧ g.m_appendCount < c.checkEveryN

variable {host : Host}

/-- The invariant; `n` is `checkEveryN`. -/
structure Books (host : Host) (n : Int) (s : LogFileRun) : Prop where
  every : s.file.m_checkEveryN = n
  clock : 0 < s.clock
  count : 0 ≤ s.file.m_appendCount ∧ s.file.m_appendCount < n
  period : s.file.m_startPeriod = s.file.m_lastRoll - s.file.m_lastRoll % m_rollPeriod
  rolled : 0 < s.file.m_lastRoll
  flushed : s.file.m_lastRoll ≤ s.file.m_lastFlush ∧ s.file.m_lastFlush ≤ s.clock
  opened : s.rolls.getLast? = some s.file.m_lastRoll ∧
    s.file.m_scpFile.m_filename = getLogFileName host s.file.m_basename s.file.m_lastRoll
  counted : s.counted ≤ s.file.m_appendCount
  unchecked : s.stalled = false → s.unchecked ≤ s.file.m_appendCount

theorem Books.kept {n : Int} {s : LogFileRun} (h : Books host n s) : Kept host s where
  count := h.every ▸ h.count
  period := h.period
  flushed := h.flushed
  opened := h.opened
  counted := by
    have hlt := h.count.2
    rw [h.every]
    exact Int.lt_of_le_of_lt h.counted hlt
  unchecked hs := by
    have hlt := h.count.2
    rw [h.every]
    exact Int.lt_of_le_of_lt (h.unchecked hs) hlt

theorem periodStart_pos {t : Int} (h : 0 ≤ t) : periodStart t = t - t % m_rollPeriod := by
  have hperiod : m_rollPeriod = 86400 := by decide
  rw [periodStart, Int.tdiv_eq_ediv_of_nonneg h, hperiod]
  omega

theorem incInt_of_lt {a n : Int} (h0 : 0 ≤ a) (h : a < n) (hn : n < 2147483648) :
    incInt a = a + 1 := by
  unfold incInt
  exact Int.bmod_eq_of_le (by omega) (by omega)

theorem branch_counted {f : LogFile} {now : Int} (h : f.branch now = .counted) :
    incInt f.m_appendCount < f.m_checkEveryN := by
  unfold branch at h
  split at h
  · cases h
  · split at h
    · split at h
      · cases h
      · split at h <;> cases h
    · next hcheck => exact Int.lt_of_not_ge hcheck

theorem branch_checks_later {f : LogFile} {now : Int} (h : (f.branch now).checks = true)
    (hlater : periodStart now ≠ f.m_startPeriod) : f.branch now = .period := by
  unfold branch at h ⊢
  split at h
  · cases h
  · next hfull =>
    rw [if_neg hfull]
    split at h
    · next hcheck => rw [if_pos hcheck, if_pos hlater]
    · cases h

/-! ## Every call keeps the books -/

theorem books_line {n : Int} {s : LogFileRun} (h : Books host n s) {rs : List FwriteResult}
    {line : List Byte} {m : Nat} {w : WriteFile}
    (hw : s.file.m_scpFile.writeLine rs line = some (m, w)) (lines : List (Nat × List Byte)) :
    Books host n { s with file := { s.file with m_scpFile := w }, lines := lines } where
  every := h.every
  clock := h.clock
  count := h.count
  period := h.period
  rolled := h.rolled
  flushed := h.flushed
  opened := ⟨h.opened.1, (WriteFile.writeLine_filename hw).trans h.opened.2⟩
  counted := h.counted
  unchecked := h.unchecked

theorem books_roll {n : Int} {s : LogFileRun} {f : LogFile} (h : Books host n { s with file := f })
    {i : RollInput} (hi : s.clock ≤ i.now) : Books host n (roll host i f s) := by
  have hclock : 0 < s.clock := h.clock
  by_cases hopens : f.m_lastRoll < i.now
  · rw [roll_opens hopens, rollFile_opens hopens]
    refine ⟨h.every, ?_, h.count, periodStart_pos ?_, ?_, ?_, ?_, h.counted, ?_⟩
    · exact Int.lt_of_lt_of_le hclock hi
    · omega
    · exact Int.lt_of_lt_of_le hclock hi
    · exact ⟨Int.le_refl _, Int.le_refl _⟩
    · exact ⟨List.getLast?_concat, rfl⟩
    · exact fun _ => h.count.1
  · rw [roll_stays hopens]
    exact ⟨h.every, Int.lt_of_lt_of_le hclock hi, h.count, h.period, h.rolled,
      ⟨h.flushed.1, Int.le_trans h.flushed.2 hi⟩, h.opened, h.counted, h.unchecked⟩

/-- The part of `append_unlocked` behind the write. -/
theorem books_written {n : Int} (hn : n < 2147483648) {s : LogFileRun} {f : LogFile}
    (h : Books host n { s with file := f }) {i : AppendInput} (hi : s.clock ≤ i.now)
    (hroll : i.now ≤ i.roll.now) : Books host n (written host i f s) := by
  have hclock : 0 < i.now := Int.lt_of_lt_of_le h.clock hi
  have hcount := h.count
  have hpos : 0 < n := Int.lt_of_le_of_lt hcount.1 hcount.2
  have hflush : f.m_lastRoll ≤ i.now := Int.le_trans (Int.le_trans h.flushed.1 h.flushed.2) hi
  unfold written
  cases hb : f.branch i.now with
  | full =>
    have hlate := Int.le_trans hi hroll
    by_cases hopens : f.m_lastRoll < i.roll.now
    · have hbooks := books_roll (f := f) h hlate
      simp only [roll_opens hopens] at hbooks ⊢
      rw [rollFile_opens hopens] at hbooks ⊢
      exact ⟨hbooks.every, hbooks.clock, hbooks.count, hbooks.period, hbooks.rolled,
        hbooks.flushed, hbooks.opened, hbooks.counted, fun _ => h.count.1⟩
    · -- nothing was opened, and the run is stalled from here on
      simp only [roll_stays hopens]
      rw [rollFile_stays hopens]
      refine ⟨h.every, Int.lt_of_lt_of_le hclock hroll, h.count, h.period, h.rolled,
        ⟨h.flushed.1, Int.le_trans h.flushed.2 hlate⟩, h.opened, h.counted, ?_⟩
      intro hstalled
      rw [Bool.not_false, Bool.or_true] at hstalled
      cases hstalled
  | period =>
    exact books_roll (f := { f with m_appendCount := 0 })
      (s := { s with unchecked := 0, counted := 0 })
      ⟨h.every, h.clock, ⟨Int.le_refl 0, hpos⟩, h.period, h.rolled, h.flushed, h.opened,
        Int.le_refl 0, fun _ => Int.le_refl 0⟩ (Int.le_trans hi hroll)
  | flush =>
    exact ⟨h.every, hclock, ⟨Int.le_refl 0, hpos⟩, h.period, h.rolled, ⟨hflush, Int.le_refl _⟩,
      h.opened, Int.le_refl 0, fun _ => Int.le_refl 0⟩
  | checked =>
    exact ⟨h.every, hclock, ⟨Int.le_refl 0, hpos⟩, h.period, h.rolled,
      ⟨h.flushed.1, Int.le_trans h.flushed.2 hi⟩, h.opened, Int.le_refl 0, fun _ => Int.le_refl 0⟩
  | counted =>
    have hinc := incInt_of_lt hcount.1 hcount.2 hn
    have hroom := branch_counted hb
    have hevery : f.m_checkEveryN = n := h.every
    have hcounted : (s.counted : Int) ≤ f.m_appendCount := h.counted
    have hunchecked : s.stalled = false → (s.unchecked : Int) ≤ f.m_appendCount := h.unchecked
    simp only at hinc
    refine ⟨h.every, h.clock, ?_, h.period, h.rolled, h.flushed, h.opened, ?_, ?_⟩
    · simp only [hinc] at hroom ⊢
      omega
    · simp only [hinc]
      omega
    · intro hstalled
      have hu := hunchecked hstalled
      simp only [hinc]
      omega

theorem books_step {n : Int} (hn : n < 2147483648) {s u : LogFileRun} {e : LogFileEvent}
    (h : Books host n s) (hc : Forward s e) (hs : s.step host e = some u) : Books host n u := by
  cases e with
  | append line i =>
    obtain ⟨⟨m, w⟩, hw, rfl⟩ := Option.map_eq_some_iff.mp hs
    exact books_written hn (s := { s with lines := s.lines ++ [(s.retired.length, line)] })
      (books_line h hw _) hc.1 hc.2
  | flush =>
    obtain rfl := Option.some.inj hs
    exact h
  | rollFile i =>
    obtain rfl := Option.some.inj hs
    exact books_roll (f := s.file) h hc

theorem Books.opensLater {n : Int} {s : LogFileRun} (h : Books host n s) : OpensLater host s := by
  intro line i w u hw hforward hcheck hlater hs
  have hclock := h.clock
  have hnow : 0 ≤ i.now := Int.le_trans (Int.le_of_lt hclock) hforward.1
  have hbranch := branch_checks_later hcheck (Int.ne_of_gt hlater)
  obtain ⟨w', hw', rfl⟩ := Option.map_eq_some_iff.mp hs
  obtain rfl : w = w' := Option.some.inj (hw.symm.trans hw')
  have hopens : s.file.m_lastRoll < i.roll.now := by
    rw [h.period, periodStart_pos hnow] at hlater
    have hperiod : m_rollPeriod = 86400 := by decide
    rw [hperiod] at hlater
    have hroll := hforward.2
    omega
  simp only [written, hbranch]
  refine roll_rolls ?_
  exact hopens

/-! ## From the constructor on -/

variable {threadsafe : Bool} {c : Config} {g : Garbage} {opened : Bool} {i : RollInput}

theorem books_start (hi : 0 < i.now) (hl : Lucky c g i.now) :
    Books host c.checkEveryN (start host threadsafe c g opened i) := by
  have hopens : (unrolled threadsafe c g opened).m_lastRoll < i.now := hl.1
  rw [start, roll_opens hopens, rollFile_opens hopens]
  exact ⟨rfl, hi, hl.2, periodStart_pos (Int.le_of_lt hi), hi, ⟨Int.le_refl _, Int.le_refl _⟩,
    ⟨rfl, rfl⟩, hl.2.1, fun _ => hl.2.1⟩

/-- The last roll is that of the constructor, so it did roll. -/
theorem lucky_of_kept (h : Kept host (start host threadsafe c g opened i)) : Lucky c g i.now := by
  by_cases hopens : (unrolled threadsafe c g opened).m_lastRoll < i.now
  · have hcount := h.count
    rw [start, roll_opens hopens, rollFile_opens hopens] at hcount
    exact ⟨hopens, hcount⟩
  · have hlast := h.opened.1
    rw [start, roll_stays hopens] at hlast
    cases hlast

/-- **When the books are right.** They are in every state of every run after construction, and
every check in a later period opens a file, exactly when the constructor found an `m_lastRoll`
before its reading of the clock and an `m_appendCount` from 0 to `checkEveryN - 1`. -/
theorem books_right_iff (hn : 1 ≤ c.checkEveryN ∧ c.checkEveryN < 2147483648) (hi : 0 < i.now) :
    (∀ (events : List LogFileEvent) (s : LogFileRun),
      (calls host threadsafe c g).runIf Forward (start host threadsafe c g opened i) events =
        some s → Kept host s ∧ OpensLater host s) ↔ Lucky c g i.now := by
  constructor
  · intro h
    exact lucky_of_kept (h [] _ rfl).1
  · intro hl events s hrun
    have hbooks : Books host c.checkEveryN s :=
      Machine.runIf_keeps (I := Books host c.checkEveryN)
        (fun _ _ _ hs hc hstep => books_step hn.2 hs hc hstep) (books_start hi hl) hrun
    exact ⟨hbooks.kept, hbooks.opensLater⟩

/-- While the clock stays at the last roll, appends to a full file neither roll nor check: with
`checkEveryN` 1, two of them. -/
example : ((calls ⟨[], 7⟩ false ⟨1, [], 3, 1⟩ ⟨0, 0, 0, 0⟩).run
    (start ⟨[], 7⟩ false ⟨1, [], 3, 1⟩ ⟨0, 0, 0, 0⟩ true ⟨100, true⟩)
    [.append [65] ⟨[⟨1, false⟩], 100, ⟨100, true⟩⟩, .append [65] ⟨[⟨1, false⟩], 100, ⟨100, true⟩⟩]).map
      (fun s => (s.unchecked, s.stalled)) = some (2, true) := rfl

/-- Memory that was zero before, and a first reading of 100 seconds. -/
theorem books_right_zeroed :
    (∀ (events : List LogFileEvent) (s : LogFileRun),
      (calls ⟨ascii "host", 7⟩ false ⟨1, ascii "log", 3, 1024⟩ ⟨0, 0, 0, 0⟩).runIf Forward
        (start ⟨ascii "host", 7⟩ false ⟨1, ascii "log", 3, 1024⟩ ⟨0, 0, 0, 0⟩ true ⟨100, true⟩)
          events = some s → Kept ⟨ascii "host", 7⟩ s ∧ OpensLater ⟨ascii "host", 7⟩ s) ↔
      Lucky ⟨1, ascii "log", 3, 1024⟩ ⟨0, 0, 0, 0⟩ 100 :=
  books_right_iff (by decide) (by decide)

/-- An `m_lastRoll` of the year 2128 is found in 2015, and the constructor does not roll. -/
theorem books_right_garbage :
    ¬ Kept ⟨ascii "host", 7⟩ (start ⟨ascii "host", 7⟩ false ⟨1, ascii "log", 3, 1024⟩
      ⟨0, 0, 5000000000, 0⟩ true ⟨1425302400, true⟩) := by
  intro h
  exact absurd (lucky_of_kept h).1 (by decide)

end LogFileRun
end MyNet.Base
