import MyNet.Base.LogFileName
import MyNet.Base.LogFileRun
import MyNet.Lib.History

/-!
# Rolls never reuse a file

`rollFile` opens a file only when the clock has passed `m_lastRoll`, which is then set, so
the times of the rolls increase however the clock jumps, and with them the names differ.
Every line goes to the file that was current when `append` was entered.
-/
namespace MyNet.Base

open Lib Lib.History LogFile

/-- The seconds of the years 1970 to 9999. -/
def Years (t : Int) : Prop := 0 ≤ t ∧ t < 253402300800

instance (t : Int) : Decidable (Years t) := inferInstanceAs (Decidable (_ ∧ _))

/-- A file that was opened and then handed exactly these lines. -/
inductive WriteFile.Handed : WriteFile → List (List Byte) → Prop
  | new (filename : List Byte) (opened : Bool) : Handed (.new filename opened) []
  | line {lines : List (List Byte)} {f f' : WriteFile} {rs : List FwriteResult}
      {line : List Byte} {n : Nat} (h : Handed f lines)
      (hw : f.writeLine rs line = some (n, f')) : Handed f' (lines ++ [line])

theorem WriteFile.writeLine_filename {f f' : WriteFile} {rs : List FwriteResult}
    {line : List Byte} {n : Nat} (h : f.writeLine rs line = some (n, f')) :
    f'.m_filename = f.m_filename := by
  unfold writeLine at h
  by_cases hv : f.m_valid = true
  · rw [if_pos hv] at h
    obtain ⟨taken, -, he⟩ := Option.map_eq_some_iff.mp h
    rw [← (Prod.mk.inj he).2]
  · rw [if_neg hv] at h
    rw [← (Prod.mk.inj (Option.some.inj h)).2]

namespace LogFile

theorem rollFile_opens {host : Host} {i : RollInput} {f : LogFile} (h : f.m_lastRoll < i.now) :
    rollFile host i f = (true,
      { f with
        m_lastRoll := i.now
        m_lastFlush := i.now
        m_startPeriod := periodStart i.now
        m_scpFile := .new (getLogFileName host f.m_basename i.now) i.opened }) := if_pos h

theorem rollFile_stays {host : Host} {i : RollInput} {f : LogFile} (h : ¬f.m_lastRoll < i.now) :
    rollFile host i f = (false, f) := if_neg h

end LogFile

namespace LogFileRun

/-- The names used for the rolls are made from readings of the clock in these years. -/
def InYears (_ : LogFileRun) : LogFileEvent → Prop
  | .append _ i => Years i.roll.now
  | .flush => True
  | .rollFile i => Years i.now

instance (s : LogFileRun) (e : LogFileEvent) : Decidable (InYears s e) :=
  match e with
  | .append _ i => inferInstanceAs (Decidable (Years i.roll.now))
  | .flush => inferInstanceAs (Decidable True)
  | .rollFile i => inferInstanceAs (Decidable (Years i.now))

structure Rolled (host : Host) (basename : List Byte) (s : LogFileRun) : Prop where
  base : s.file.m_basename = basename
  increasing : s.rolls.Pairwise (· < ·)
  before : ∀ t ∈ s.rolls, 0 ≤ t ∧ t ≤ s.file.m_lastRoll
  names : s.files.map (·.m_filename) = basename :: s.rolls.map (getLogFileName host basename)
  numbers : ∀ p ∈ s.lines, p.1 ≤ s.retired.length
  handed : ∀ (k : Nat) (f : WriteFile), s.files[k]? = some f → f.Handed (s.linesOf k)

variable {host : Host} {basename : List Byte}

/-- Handing a line to the current file. -/
theorem rolled_line {s : LogFileRun} (h : Rolled host basename s) {rs : List FwriteResult}
    {line : List Byte} {n : Nat} {w : WriteFile}
    (hw : s.file.m_scpFile.writeLine rs line = some (n, w)) :
    Rolled host basename
      { s with
        file := { s.file with m_scpFile := w }
        lines := s.lines ++ [(s.retired.length, line)] } where
  base := h.base
  increasing := h.increasing
  before := h.before
  names := by
    rw [← h.names, files, files, List.map_append, List.map_append, List.map_singleton,
      List.map_singleton, WriteFile.writeLine_filename hw]
  numbers p hp := by
    rcases List.mem_append.mp hp with hold | hnew
    · exact h.numbers p hold
    · rw [List.mem_singleton.mp hnew]
  handed k f hf := by
    have hlines : linesOf { s with
        file := { s.file with m_scpFile := w }
        lines := s.lines ++ [(s.retired.length, line)] } k =
        s.linesOf k ++ if s.retired.length = k then [line] else [] := by
      rw [linesOf, List.filter_append, List.map_append]
      congr 1
      by_cases hk : s.retired.length = k
      · simp [hk]
      · simp [hk]
    rw [hlines]
    rcases getElem?_concat_cases hf with hold | ⟨rfl, rfl⟩
    · obtain ⟨hlt, -⟩ := List.getElem?_eq_some_iff.mp hold
      rw [if_neg (Nat.ne_of_gt hlt), List.append_nil]
      refine h.handed k f ?_
      rw [files, List.getElem?_append_left hlt]
      exact hold
    · rw [if_pos rfl]
      exact (h.handed _ _ List.getElem?_concat_length).line hw

/-- What a roll that opens a file does to the run. -/
theorem roll_opens {s : LogFileRun} {f : LogFile} {i : RollInput} (h : f.m_lastRoll < i.now) :
    roll host i f s =
      { s with
        file := (rollFile host i f).2
        retired := s.retired ++ [f.m_scpFile]
        rolls := s.rolls ++ [i.now]
        clock := i.now
        unchecked := 0 } := by
  simp only [roll, rollFile_opens h, if_true]

theorem roll_rolls {s : LogFileRun} {f : LogFile} {i : RollInput} (h : f.m_lastRoll < i.now) :
    (roll host i f s).rolls = s.rolls ++ [i.now] := by
  rw [roll_opens h]

theorem roll_stays {s : LogFileRun} {f : LogFile} {i : RollInput} (h : ¬f.m_lastRoll < i.now) :
    roll host i f s = { s with file := f, clock := i.now } := by
  simp only [roll, rollFile_stays h, Bool.false_eq_true, if_false]

theorem linesOf_unused {s : LogFileRun} {k n : Nat} (h : ∀ p ∈ s.lines, p.1 ≤ n) (hk : n < k) :
    s.linesOf k = [] := by
  rw [linesOf, List.filter_eq_nil_iff.mpr, List.map_nil]
  intro p hp
  have hn := h p hp
  rw [decide_eq_true_iff]
  omega

/-- A call of `rollFile` at a reading that is not negative. -/
theorem rolled_roll {s : LogFileRun} {f : LogFile} (h : Rolled host basename { s with file := f })
    {i : RollInput} (hi : 0 ≤ i.now) : Rolled host basename (roll host i f s) := by
  by_cases hopens : f.m_lastRoll < i.now
  · have hfiles : (roll host i f s).files = files { s with file := f } ++
        [.new (getLogFileName host f.m_basename i.now) i.opened] := by
      rw [roll_opens hopens, rollFile_opens hopens]
      rfl
    have hbase : f.m_basename = basename := h.base
    refine ⟨?_, ?_, ?_, ?_, ?_, ?_⟩
    · rw [roll_opens hopens, rollFile_opens hopens]
      exact hbase
    · rw [roll_opens hopens]
      refine List.pairwise_append.mpr ⟨h.increasing, List.pairwise_singleton _ _, ?_⟩
      intro t ht u hu
      rw [List.mem_singleton.mp hu]
      exact Int.lt_of_le_of_lt (h.before t ht).2 hopens
    · rw [roll_opens hopens, rollFile_opens hopens]
      intro t ht
      rcases List.mem_append.mp ht with hold | hnew
      · obtain ⟨hpos, hlast⟩ := h.before t hold
        exact ⟨hpos, Int.le_trans hlast (Int.le_of_lt hopens)⟩
      · rw [List.mem_singleton.mp hnew]
        exact ⟨hi, Int.le_refl _⟩
    · rw [hfiles, List.map_append, h.names, hbase, roll_opens hopens, List.map_append]
      rfl
    · rw [roll_opens hopens]
      intro p hp
      rw [List.length_append]
      exact Nat.le_succ_of_le (h.numbers p hp)
    · intro k g hg
      rw [hfiles] at hg
      have hlines : (roll host i f s).linesOf k = linesOf { s with file := f } k := by
        rw [roll_opens hopens]
        rfl
      rw [hlines]
      rcases getElem?_concat_cases hg with hold | ⟨rfl, rfl⟩
      · exact h.handed k g hold
      · rw [linesOf_unused h.numbers (by simp [files])]
        exact .new _ _
  · rw [roll_stays hopens]
    exact ⟨h.base, h.increasing, h.before, h.names, h.numbers, h.handed⟩

theorem rolled_start (threadsafe : Bool) (c : Config) (g : Garbage) (opened : Bool)
    {i : RollInput} (hi : 0 ≤ i.now) :
    Rolled host c.basename (start host threadsafe c g opened i) := by
  have hfirst : Rolled host c.basename
      ⟨unrolled threadsafe c g opened, [], [], [], i.now, 0, 0, false⟩ := by
    refine ⟨rfl, .nil, ?_, rfl, ?_, ?_⟩
    · exact fun t ht => absurd ht List.not_mem_nil
    · exact fun p hp => absurd hp List.not_mem_nil
    · intro k f hf
      rcases getElem?_concat_cases hf with hold | ⟨-, rfl⟩
      · cases hold
      · exact .new _ _
  exact rolled_roll hfirst hi

theorem rolled_written {s : LogFileRun} {f : LogFile} (h : Rolled host basename { s with file := f })
    {i : AppendInput} (hi : 0 ≤ i.roll.now) : Rolled host basename (written host i f s) := by
  unfold written
  cases f.branch i.now with
  | full =>
    have hroll := rolled_roll (f := f) (s := { s with unchecked := s.unchecked + 1 })
      ⟨h.base, h.increasing, h.before, h.names, h.numbers, h.handed⟩ hi
    exact ⟨hroll.base, hroll.increasing, hroll.before, hroll.names, hroll.numbers, hroll.handed⟩
  | period =>
    exact rolled_roll (f := { f with m_appendCount := 0 }) (s := { s with unchecked := 0, counted := 0 })
      ⟨h.base, h.increasing, h.before, h.names, h.numbers, h.handed⟩ hi
  | flush | checked | counted =>
    exact ⟨h.base, h.increasing, h.before, h.names, h.numbers, h.handed⟩

theorem rolled_step {s u : LogFileRun} {e : LogFileEvent} (h : Rolled host basename s)
    (hc : InYears s e) (hs : s.step host e = some u) : Rolled host basename u := by
  cases e with
  | append line i =>
    obtain ⟨⟨n, w⟩, hw, rfl⟩ := Option.map_eq_some_iff.mp hs
    exact rolled_written (rolled_line h hw) hc.1
  | flush =>
    obtain rfl := Option.some.inj hs
    exact h
  | rollFile i =>
    obtain rfl := Option.some.inj hs
    exact rolled_roll (f := s.file) h hc.1

theorem Rolled.names_nodup {s : LogFileRun} (h : Rolled host basename s) :
    (s.files.map (·.m_filename)).Nodup := by
  rw [h.names, List.nodup_cons]
  constructor
  · intro hmem
    obtain ⟨t, -, ht⟩ := List.mem_map.mp hmem
    exact getLogFileName_ne host basename t ht
  · have hnodup : s.rolls.Nodup := h.increasing.imp fun hlt => Int.ne_of_lt hlt
    refine hnodup.map_on fun t ht u hu he => ?_
    exact getLogFileName_inj (h.before t ht).1 (h.before u hu).1 he

/-! ## The lines of a run -/

/-- The lines of the calls of `append`. -/
def appended : List LogFileEvent → List (List Byte)
  | [] => []
  | .append line _ :: es => line :: appended es
  | _ :: es => appended es

theorem written_lines (host : Host) (i : AppendInput) (f : LogFile) (s : LogFileRun) :
    (written host i f s).lines = s.lines := by
  unfold written
  cases f.branch i.now <;> rfl

/-- A step adds the line it appends, with the number of the file that was current. -/
theorem step_lines {s u : LogFileRun} {e : LogFileEvent} (hs : s.step host e = some u) :
    u.lines = s.lines ++ (appended [e]).map (s.retired.length, ·) := by
  cases e with
  | append line i =>
    obtain ⟨⟨n, w⟩, hw, rfl⟩ := Option.map_eq_some_iff.mp hs
    rw [written_lines]
    rfl
  | flush =>
    obtain rfl := Option.some.inj hs
    exact (List.append_nil _).symm
  | rollFile i =>
    obtain rfl := Option.some.inj hs
    exact (List.append_nil _).symm

theorem appended_cons (e : LogFileEvent) (es : List LogFileEvent) :
    appended (e :: es) = appended [e] ++ appended es := by
  cases e <;> rfl

variable {threadsafe : Bool} {c : Config} {g : Garbage}

theorem run_lines {es : List LogFileEvent} :
    ∀ {s u : LogFileRun}, (calls host threadsafe c g).runIf InYears s es = some u →
      s.lines <+: u.lines ∧ u.lines.map (·.2) = s.lines.map (·.2) ++ appended es := by
  induction es with
  | nil =>
    intro s u h
    obtain rfl := Option.some.inj h
    exact ⟨List.prefix_refl _, (List.append_nil _).symm⟩
  | cons e es ih =>
    intro s u h
    by_cases hc : InYears s e
    · rw [Machine.runIf, if_pos hc] at h
      obtain ⟨v, hv, hu⟩ := Option.bind_eq_some_iff.mp h
      obtain ⟨hfront, hmap⟩ := ih hu
      have hlines := step_lines hv
      refine ⟨?_, ?_⟩
      · rw [hlines] at hfront
        exact (List.prefix_append _ _).trans hfront
      · have hsnd : ((appended [e]).map (s.retired.length, ·)).map (·.2) = appended [e] := by
          rw [List.map_map]
          exact List.map_id _
        rw [hmap, hlines, appended_cons e es, List.map_append, hsnd, List.append_assoc]
    · rw [Machine.runIf, if_neg hc] at h
      cases h

/-- The line of an `append` is found with the number of the file current when it was entered. -/
theorem run_entered {s₀ s : LogFileRun} (h₀ : s₀.lines = []) {events es : List LogFileEvent}
    {line : List Byte} {a : AppendInput} (hp : es ++ [.append line a] <+: events)
    (h : (calls host threadsafe c g).runIf InYears s₀ events = some s) :
    ∃ u, (calls host threadsafe c g).runIf InYears s₀ es = some u ∧
      s.lines[(appended es).length]? = some (u.retired.length, line) := by
  obtain ⟨rest, rfl⟩ := hp
  rw [Machine.runIf_append] at h
  obtain ⟨v, hv, hrest⟩ := Option.bind_eq_some_iff.mp h
  obtain ⟨u, hu, -, happend⟩ := Machine.runIf_concat.mp hv
  refine ⟨u, hu, ?_⟩
  have hstep : u.step host (.append line a) = some v := happend
  have hcount : u.lines.length = (appended es).length := by
    have hmap := congrArg List.length (run_lines hu).2
    rwa [h₀, List.map_nil, List.nil_append, List.length_map] at hmap
  have hnew : v.lines = u.lines ++ [(u.retired.length, line)] := step_lines hstep
  obtain ⟨later, hlater⟩ := (run_lines hrest).1
  rw [← hlater, hnew, ← hcount, List.append_assoc, List.getElem?_append_right (Nat.le_refl _),
    Nat.sub_self]
  rfl

/-- **Rolls never reuse a file and never split a line.** In every run, whatever `m_lastRoll`
was at first: the times of the rolls increase; the files are the one opened under the base
name and one for each roll, all with different names; each appended line is numbered with
the file that was current when `append` was entered; and every file was handed the lines
with its number, once each, and no others. -/
theorem rolls_never_reuse {opened : Bool} {i : RollInput} (hi : Years i.now)
    {events : List LogFileEvent} {s : LogFileRun}
    (h : (calls host threadsafe c g).runIf InYears (start host threadsafe c g opened i) events =
      some s) :
    s.rolls.Pairwise (· < ·) ∧
    s.files.map (·.m_filename) = c.basename :: s.rolls.map (getLogFileName host c.basename) ∧
    (s.files.map (·.m_filename)).Nodup ∧
    s.lines.map (·.2) = appended events ∧
    (∀ (es : List LogFileEvent) (line : List Byte) (a : AppendInput),
      es ++ [.append line a] <+: events → ∃ u,
        (calls host threadsafe c g).runIf InYears (start host threadsafe c g opened i) es = some u ∧
        s.lines[(appended es).length]? = some (u.retired.length, line) ∧
        u.files[u.retired.length]? = some u.file.m_scpFile) ∧
    ∀ (k : Nat) (f : WriteFile), s.files[k]? = some f → f.Handed (s.linesOf k) := by
  have hrolled : Rolled host c.basename s :=
    Machine.runIf_keeps (I := Rolled host c.basename)
      (fun _ _ _ hs hc hstep => rolled_step hs hc hstep)
      (rolled_start threadsafe c g opened hi.1) h
  refine ⟨hrolled.increasing, hrolled.names, hrolled.names_nodup, (run_lines h).2, ?_,
    hrolled.handed⟩
  intro es line a hp
  obtain ⟨u, hu, hline⟩ := run_entered rfl hp h
  exact ⟨u, hu, hline, List.getElem?_concat_length⟩

/-- Rolled at second 100, grown to its size by one line, and rolled by hand when the clock has
gone back and again when it has passed the last roll. -/
theorem rolls_never_reuse_backwards :
    ∃ s, (calls ⟨ascii "host", 7⟩ false ⟨1, ascii "log", 3, 1024⟩ ⟨0, 0, 0, 0⟩).runIf InYears
        (start ⟨ascii "host", 7⟩ false ⟨1, ascii "log", 3, 1024⟩ ⟨0, 0, 0, 0⟩ true ⟨100, true⟩)
        [.append [65] ⟨[⟨1, false⟩], 101, ⟨101, true⟩⟩, .rollFile ⟨90, true⟩, .rollFile ⟨102, true⟩] =
          some s ∧
      s.rolls = [100, 101, 102] ∧ (s.files.map (·.m_filename)).Nodup := by
  have hrun : (calls ⟨ascii "host", 7⟩ false ⟨1, ascii "log", 3, 1024⟩ ⟨0, 0, 0, 0⟩).runIf InYears
      (start ⟨ascii "host", 7⟩ false ⟨1, ascii "log", 3, 1024⟩ ⟨0, 0, 0, 0⟩ true ⟨100, true⟩)
      [.append [65] ⟨[⟨1, false⟩], 101, ⟨101, true⟩⟩, .rollFile ⟨90, true⟩, .rollFile ⟨102, true⟩] =
        some _ := rfl
  exact ⟨_, hrun, rfl, (rolls_never_reuse (by decide) hrun).2.2.1⟩

end LogFileRun
end MyNet.Base
