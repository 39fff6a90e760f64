import MyNet.Base.LogFile
import Mathlib.Data.Nat.Find

/-!
# What `WriteFile` and `LogFile` say they have written

`writeLine` leaves its loop when a call of `fwrite_unlocked` writes nothing and the error flag
is set, and then goes on as if the whole line had been written. The results of
`fwrite_unlocked` are a sequence without end here, of which a call uses up a part.
-/
namespace MyNet.Base

open Lib.SizeT

/-- `break` -/
def FwriteResult.Stops (r : FwriteResult) : Prop := r.count = 0 ∧ r.ferror = true

namespace WriteFile

/-- The first `k` results. -/
def calls (results : Nat → FwriteResult) (k : Nat) : List FwriteResult :=
  (List.range' 0 k).map results

/-- What the first `k` calls accept. -/
def takes (results : Nat → FwriteResult) : Nat → Nat
  | 0 => 0
  | k + 1 => takes results k + (results k).count

/-- Calls accept the `n` bytes before one of them stops the loop. -/
def TakesWhole (results : Nat → FwriteResult) (n : Nat) : Prop :=
  ∃ k, takes results k = n ∧ ∀ i, i < k → ¬ (results i).Stops

/-- No call that is made accepts more than it was given. -/
def Consistent (results : Nat → FwriteResult) (n : Nat) : Prop :=
  ∀ k, k = 0 ∨ takes results k < n → (∀ i, i < k → ¬ (results i).Stops) →
    takes results (k + 1) ≤ n

end WriteFile

namespace LogFile

/-- `append` returns `true`, unless the log is thread-safe and waits for itself in `flush()`. -/
def append (host : Host) (i : AppendInput) (line : List Byte) (f : LogFile) :
    Option (Bool × LogFile) :=
  (append_unlocked host i line f).bind fun r =>
    if f.m_mutexLock = true ∧ r.2 = true then none else some (true, r.1)

end LogFile

namespace WriteFile

/-- `writeLine` returns, and what it and a `LogFile` on the file say is what stdio accepted. -/
def Truthful (f : WriteFile) (results : Nat → FwriteResult) (line : List Byte) : Prop :=
  ∃ k n f' taken, f.writeLine (calls results k) line = some (n, f') ∧
    f'.accepted = f.accepted ++ taken ∧ taken <+: line ∧ n = taken.length ∧
    f'.m_nBytesWritten = f.m_nBytesWritten + taken.length ∧
    ∀ (host : Host) (now : Int) (roll : LogFile.RollInput) (log log' : LogFile),
      log.m_scpFile = f → log.append host ⟨calls results k, now, roll⟩ line = some (true, log') →
      taken = line

/-! ## The loop -/

/-- A loop that got the whole line accepted was not stopped. -/
theorem writeLoop_takes {rs : List FwriteResult} {line : List Byte} (hline : line ≠ [])
    (h : writeLoop rs line = some line) :
    (rs.map (·.count)).sum = line.length ∧ ∀ r ∈ rs, ¬ r.Stops := by
  induction rs generalizing line with
  | nil => cases h
  | cons r rs ih =>
    have hpos := List.length_pos_iff.mpr hline
    rw [writeLoop] at h
    split at h
    · next hfits =>
      split at h
      · split at h
        · exact absurd (Option.some.inj h).symm hline
        · cases h
      · next hgoes =>
        split at h
        · split at h
          · next hlast =>
            subst hlast
            refine ⟨?_, fun q hq => ?_⟩
            · rw [List.map_singleton, List.sum_singleton]
              omega
            · rw [List.mem_singleton.mp hq]
              exact hgoes
          · cases h
        · next hmore =>
          obtain ⟨rest, hrest, hboth⟩ := Option.map_eq_some_iff.mp h
          have hdrop : rest = line.drop r.count :=
            List.append_cancel_left (hboth.trans (List.take_append_drop r.count line).symm)
          subst hdrop
          have hleft : line.drop r.count ≠ [] := by
            apply List.length_pos_iff.mp
            rw [List.length_drop]
            omega
          obtain ⟨hsum, hno⟩ := ih hleft hrest
          refine ⟨?_, fun q hq => ?_⟩
          · rw [List.map_cons, List.sum_cons, hsum, List.length_drop]
            omega
          · rcases List.mem_cons.mp hq with rfl | hq
            · exact hgoes
            · exact hno q hq
    · cases h

theorem sum_calls (results : Nat → FwriteResult) (k : Nat) :
    ((calls results k).map (·.count)).sum = takes results k := by
  induction k with
  | zero => rfl
  | succ k ih =>
    rw [takes, ← ih, calls, List.range'_concat]
    simp [calls]

/-- Calls that accept the line, the last of them its end, end the loop. -/
theorem writeLoop_accepts (results : Nat → FwriteResult) (m : Nat) :
    ∀ (j : Nat) (line : List Byte), line ≠ [] →
      takes results (j + m) = takes results j + line.length →
      (∀ i, i < m → takes results (j + i) < takes results j + line.length) →
      (∀ i, i < m → ¬ (results (j + i)).Stops) →
      writeLoop ((List.range' j m).map results) line = some line := by
  induction m with
  | zero =>
    intro j line hline hall _ _
    have hpos := List.length_pos_iff.mpr hline
    rw [Nat.add_zero] at hall
    omega
  | succ m ih =>
    intro j line hline hall hless hgoes
    have hpos := List.length_pos_iff.mpr hline
    have hshift : ∀ i, j + 1 + i = j + (i + 1) := fun i => by omega
    have hnext : takes results (j + 1) = takes results j + (results j).count := rfl
    have hgo : ¬ ((results j).count = 0 ∧ (results j).ferror = true) :=
      hgoes 0 (Nat.zero_lt_succ m)
    rw [List.range'_succ, List.map_cons, writeLoop]
    by_cases hlast : m = 0
    · subst hlast
      have hcount : (results j).count = line.length := by
        rw [Nat.zero_add, hnext] at hall
        omega
      rw [if_pos (by omega), if_neg hgo, if_pos (by omega), List.range'_zero, List.map_nil,
        if_pos rfl]
    · have hpart : (results j).count < line.length := by
        have hfirst := hless 1 (by omega)
        omega
      have hlength : (line.drop (results j).count).length = line.length - (results j).count :=
        List.length_drop
      have hrest := ih (j + 1) (line.drop (results j).count)
        (List.length_pos_iff.mp (by omega))
        (by rw [hshift, hall, hnext]; omega)
        (fun i hi => by
          have hlt := hless (i + 1) (by omega)
          rw [hshift, hnext]
          omega)
        (fun i hi => hshift i ▸ hgoes (i + 1) (by omega))
      rw [if_pos (by omega), if_neg hgo, if_neg (by omega), hrest, Option.map_some,
        List.take_append_drop]

theorem takes_mono (results : Nat → FwriteResult) {i j : Nat} (h : i ≤ j) :
    takes results i ≤ takes results j := by
  induction h with
  | refl => exact Nat.le_refl _
  | step _ ih => exact ih.trans (Nat.le_add_right _ _)

theorem TakesWhole.accepts {results : Nat → FwriteResult} {line : List Byte} (hline : line ≠ [])
    (h : TakesWhole results line.length) : ∃ k, writeLoop (calls results k) line = some line := by
  classical
  have hsome : ∃ k, takes results k = line.length := h.imp fun _ hk => hk.1
  obtain ⟨k, hk, hgoes⟩ := h
  have hfirst := Nat.find_spec hsome
  have hzero : takes results 0 = 0 := rfl
  refine ⟨Nat.find hsome, writeLoop_accepts results _ 0 line hline ?_ ?_ ?_⟩
  · rw [Nat.zero_add, hfirst, hzero, Nat.zero_add]
  · intro i hi
    have hle := takes_mono results (Nat.le_of_lt hi)
    have hne := Nat.find_min hsome hi
    rw [Nat.zero_add, hzero, Nat.zero_add]
    omega
  · intro i hi
    rw [Nat.zero_add]
    exact hgoes i (hi.trans_le (Nat.find_min' hsome hk))

/-! ## The accounts -/

section Accounts

variable {f : WriteFile} {results : Nat → FwriteResult} {line : List Byte}

/-- A `LogFile` on a file that could not be opened still says that the line is written. -/
theorem append_invalid (hv : f.m_valid = false) (host : Host) (i : LogFile.AppendInput) :
    ∃ log : LogFile, log.m_scpFile = f ∧ ∃ log', log.append host i line = some (true, log') := by
  have hwrite : f.writeLine i.writes line = some (0, f) := by
    rw [writeLine, if_neg (by rw [hv]; exact Bool.false_ne_true)]
  refine ⟨⟨false, f, 0, 0, 0, 0, 0, [], 0, 0⟩, rfl, ?_⟩
  rw [LogFile.append, LogFile.append_unlocked, hwrite, Option.map_some, Option.bind_some,
    if_neg fun h => Bool.false_ne_true h.1]
  exact ⟨_, rfl⟩

theorem Truthful.opened (h : Truthful f results line) (hline : line ≠ []) : f.m_valid = true := by
  by_contra hclosed
  have hv : f.m_valid = false := Bool.eq_false_iff.mpr hclosed
  obtain ⟨k, n, f', taken, hwrite, haccepted, -, -, -, happend⟩ := h
  rw [writeLine, if_neg hclosed] at hwrite
  cases hwrite
  have hnone : taken = [] := List.append_cancel_left (haccepted.symm.trans (List.append_nil _).symm)
  obtain ⟨log, hlog, log', hsays⟩ := append_invalid hv ⟨[], 0⟩ ⟨calls results k, 0, 0, true⟩
  exact hline ((happend _ _ _ log log' hlog hsays).symm.trans hnone)

theorem Truthful.takesWhole (h : Truthful f results line) (hline : line ≠ []) :
    TakesWhole results line.length ∧ f.m_nBytesWritten + line.length < modulus := by
  have hv := h.opened hline
  obtain ⟨k, n, f', taken, hwrite, haccepted, hprefix, hn, hcounter, -⟩ := h
  rw [writeLine, if_pos hv] at hwrite
  obtain ⟨taken', hloop, heq⟩ := Option.map_eq_some_iff.mp hwrite
  cases heq
  obtain rfl := List.append_cancel_left haccepted
  obtain rfl := hprefix.eq_of_length hn.symm
  obtain ⟨hsum, hgoes⟩ := writeLoop_takes hline hloop
  rw [sum_calls] at hsum
  refine ⟨⟨k, hsum, fun i hi => hgoes _ ?_⟩, ?_⟩
  · exact List.mem_map_of_mem (List.mem_range'_1.mpr ⟨Nat.zero_le i, by omega⟩)
  · rw [← hcounter]
    exact Nat.mod_lt _ (by decide)

theorem truthful_whole (hline : line ≠ []) (hv : f.m_valid = true)
    (hwhole : TakesWhole results line.length)
    (hsize : f.m_nBytesWritten + line.length < modulus) : Truthful f results line := by
  obtain ⟨k, hloop⟩ := hwhole.accepts hline
  have hwrite : f.writeLine (calls results k) line = some (line.length,
      { f with
        m_nBytesWritten := addSize f.m_nBytesWritten line.length
        accepted := f.accepted ++ line }) := by
    rw [writeLine, if_pos hv, hloop]
    rfl
  exact ⟨k, _, _, line, hwrite, rfl, List.prefix_rfl, rfl, addSize_of_lt hsize,
    fun _ _ _ _ _ _ _ => rfl⟩

/-- Of an empty line nothing is accepted and nothing is counted, whatever the error flag says. -/
theorem truthful_empty (hc : Consistent results 0) (hsize : f.m_nBytesWritten < modulus) :
    Truthful f results [] := by
  have hwrite : ∃ f', f.writeLine (calls results 1) [] = some (0, f') ∧
      f'.accepted = f.accepted ∧ f'.m_nBytesWritten = f.m_nBytesWritten := by
    by_cases hv : f.m_valid = true
    · have hzero : (results 0).count = 0 := by
        have hfits := hc 0 (Or.inl rfl) fun i hi => absurd hi (Nat.not_lt_zero i)
        rw [takes, takes] at hfits
        omega
      have hloop : writeLoop (calls results 1) [] = some [] := by
        change writeLoop [results 0] [] = some []
        simp [writeLoop, hzero]
      refine ⟨_, by rw [writeLine, if_pos hv, hloop]; rfl, List.append_nil _, ?_⟩
      exact addSize_of_lt hsize
    · exact ⟨f, by rw [writeLine, if_neg hv], rfl, rfl⟩
  obtain ⟨f', hrun, haccepted, hcounter⟩ := hwrite
  exact ⟨1, 0, f', [], hrun, haccepted.trans (List.append_nil _).symm, List.nil_prefix, rfl,
    hcounter, fun _ _ _ _ _ _ _ => rfl⟩

/-- **When the accounts are right**: the counter does not wrap, and unless the line is empty, the
file is open and the whole line is accepted before a call stops the loop. -/
theorem truthful_iff (hsize : f.m_nBytesWritten < modulus)
    (hc : Consistent results line.length) :
    Truthful f results line ↔
      f.m_nBytesWritten + line.length < modulus ∧
        (line = [] ∨ f.m_valid = true ∧ TakesWhole results line.length) := by
  by_cases hline : line = []
  · subst hline
    exact iff_of_true (truthful_empty hc hsize) ⟨hsize, Or.inl rfl⟩
  · constructor
    · intro h
      obtain ⟨hwhole, hlt⟩ := h.takesWhole hline
      exact ⟨hlt, Or.inr ⟨h.opened hline, hwhole⟩⟩
    · rintro ⟨hlt, hempty | ⟨hv, hwhole⟩⟩
      · exact absurd hempty hline
      · exact truthful_whole hline hv hwhole hlt

/-- A line that stdio takes in two parts. -/
theorem truthful_iff_two :
    Truthful (.new [] true) (fun _ => ⟨1, false⟩) [65, 66] := by
  have hc : Consistent (fun _ => ⟨1, false⟩) ([65, 66] : List Byte).length := by
    have hcount : ∀ k, takes (fun _ => ⟨1, false⟩) k = k := by
      intro k
      induction k with
      | zero => rfl
      | succ k ih => rw [takes, ih]
    intro k hmade _
    rw [hcount] at hmade ⊢
    change k = 0 ∨ k < 2 at hmade
    change k + 1 ≤ 2
    omega
  refine (truthful_iff (by decide) hc).mpr ⟨by decide, Or.inr ⟨rfl, 2, rfl, fun i _ hstops => ?_⟩⟩
  exact absurd hstops.1 Nat.one_ne_zero

/-- The disk is full: nothing is accepted, and `writeLine` returns 1. -/
theorem not_truthful_full :
    ¬ ∀ (f : WriteFile) (results : Nat → FwriteResult) (line : List Byte),
      f.m_nBytesWritten < modulus → Consistent results line.length → Truthful f results line := by
  have hnothing : ∀ k, takes (fun _ => ⟨0, true⟩) k = 0 := by
    intro k
    induction k with
    | zero => rfl
    | succ k ih => exact (Nat.add_zero _).trans ih
  intro h
  have htruthful := h (.new [] true) (fun _ => ⟨0, true⟩) [65] (by decide) fun k _ _ => by
    rw [hnothing]
    exact Nat.zero_le _
  obtain ⟨⟨k, hk, -⟩, -⟩ := htruthful.takesWhole (List.cons_ne_nil _ _)
  rw [hnothing] at hk
  exact absurd hk.symm Nat.one_ne_zero

end Accounts

end WriteFile
end MyNet.Base
