import MyNet.Base.FieldOrder

/-!
# A listing of the log files

The name of a log file begins with the base name and the time of its roll, every field in its
width. So a listing by name shows the files in the order they were opened, and, read file
after file, the lines in the order they were appended.
-/
namespace MyNet.Base

open Lib Lib.History Lib.TextOrder LogFile

theorem strftime_marked {tm : Tm} (hwidths : tm.InWidths) (hyear : 1000 ≤ tm.year) :
    strftime tm = marked [ascii ".", [], [], ascii "-", [], []] tm.texts ++ ascii "." := by
  have htwo (v : Int) (hv : v ∈ tm.behindYear) : twoDigits v = zeroPadded 2 v :=
    twoDigits_eq (hwidths.behindYear v hv)
  have hfour : ascii (toString tm.year) = blankPadded 4 tm.year := by
    have hlong := length_decimal_le 1 tm.year
    norm_num at hlong
    rw [ascii_toString (by omega), blankPadded, Nat.sub_eq_zero_of_le (by omega)]
    rfl
  simp only [Tm.behindYear, List.forall_mem_cons] at htwo
  obtain ⟨hmonth, hday, hhour, hminute, hsecond, -⟩ := htwo
  rw [strftime, hfour, hmonth, hday, hhour, hminute, hsecond]
  simp only [marked, Tm.texts, Tm.behindYear, List.map_cons, List.map_nil, List.zipWith_cons_cons,
    List.zipWith_nil_right, List.flatten_cons, List.flatten_nil, List.append_nil, List.nil_append,
    List.append_assoc]

theorem length_strftime {t : Int} (h : Years t) : (strftime (gmtime t)).length = 17 := by
  obtain ⟨-, hmonth, hday, hhour, hminute, hsecond⟩ := gmtime_inFormat h.1
  obtain ⟨hyear, hlast⟩ := gmtime_year h
  have hfour : (ascii (toString (gmtime t).year)).length = 4 := by
    have hlow := length_decimal_le 1 (gmtime t).year
    have hup := length_decimal_le 2 (gmtime t).year
    norm_num at hlow hup
    rw [ascii_toString (by omega)]
    omega
  simp only [strftime, List.length_append, hfour, length_twoDigits hmonth, length_twoDigits hday,
    length_twoDigits hhour, length_twoDigits hminute, length_twoDigits hsecond]
  rfl

/-- The texts of two seconds, as `.%Y%m%d-%H%M%S.` prints them. -/
theorem strftime_mono {t u : Int} (ht : Years t) (hu : Years u) (h : t < u) :
    strftime (gmtime t) < strftime (gmtime u) := by
  have hwidths := gmtime_inWidths ht
  have hwidths' := gmtime_inWidths hu
  have hpieces := hwidths.length_texts.trans hwidths'.length_texts.symm
  have htexts : (gmtime t).texts < (gmtime u).texts :=
    (Tm.texts_lt_iff hwidths hwidths').mpr (gmtime_fields_mono t u ht.1 hu.1 h)
  have hmarked (marks : List (List Byte)) (hsix : marks.length = 6) :
      marked marks (gmtime t).texts < marked marks (gmtime u).texts :=
    (marked_lt_marked_iff hpieces (Nat.le_of_eq hsix.symm)).mpr htexts
  have hlength := (length_strftime ht).trans (length_strftime hu).symm
  rw [strftime_marked hwidths (by have := gmtime_year ht; omega),
    strftime_marked hwidths' (by have := gmtime_year hu; omega)] at hlength ⊢
  rw [List.length_append, List.length_append] at hlength
  exact (append_lt_append_iff (Nat.add_right_cancel hlength)).mpr (.inl (hmarked _ rfl))

namespace LogFile

theorem getLogFileName_mono {host : Host} {basename : List Byte} {t u : Int} (ht : Years t)
    (hu : Years u) (h : t < u) :
    getLogFileName host basename t < getLogFileName host basename u := by
  have hlength := (length_strftime ht).trans (length_strftime hu).symm
  simp only [getLogFileName, List.append_assoc]
  exact List.append_left_lt ((append_lt_append_iff hlength).mpr (.inl (strftime_mono ht hu h)))

theorem basename_lt_getLogFileName (host : Host) (basename : List Byte) (t : Int) :
    basename < getLogFileName host basename t := by
  obtain ⟨c, rest, hrest⟩ : ∃ c rest, getLogFileName host basename t = basename ++ c :: rest := by
    simp only [getLogFileName, strftime, List.append_assoc]
    exact ⟨_, _, rfl⟩
  have hlonger : basename ++ [] < basename ++ c :: rest :=
    List.append_left_lt (List.nil_lt_cons c rest)
  rwa [List.append_nil, ← hrest] at hlonger

end LogFile

namespace LogFileRun

variable {host : Host} {basename : List Byte}

/-- The rolls are in these years, and no line is numbered below the line before it. -/
structure Ordered (s : LogFileRun) : Prop where
  years : ∀ t ∈ s.rolls, Years t
  numbers : (s.lines.map Prod.fst).Pairwise (· ≤ ·)

theorem roll_years {s : LogFileRun} {f : LogFile} {i : RollInput} (h : ∀ t ∈ s.rolls, Years t)
    (hi : Years i.now) : ∀ t ∈ (roll host i f s).rolls, Years t := by
  intro t ht
  by_cases hopens : f.m_lastRoll < i.now
  · rw [roll_rolls hopens] at ht
    rcases List.mem_append.mp ht with hold | hnew
    · exact h t hold
    · rwa [List.mem_singleton.mp hnew]
  · rw [roll_stays hopens] at ht
    exact h t ht

theorem written_years {s : LogFileRun} {f : LogFile} {i : AppendInput}
    (h : ∀ t ∈ s.rolls, Years t) (hi : Years i.roll.now) :
    ∀ t ∈ (written host i f s).rolls, Years t := by
  unfold written
  cases f.branch i.now with
  | full => exact roll_years (s := { s with unchecked := s.unchecked + 1 }) h hi
  | period => exact roll_years (s := { s with unchecked := 0, counted := 0 }) h hi
  | flush | checked | counted => exact h

theorem step_years {s u : LogFileRun} {e : LogFileEvent} (h : ∀ t ∈ s.rolls, Years t)
    (hc : InYears s e) (hs : s.step host e = some u) : ∀ t ∈ u.rolls, Years t := by
  cases e with
  | append line i =>
    obtain ⟨⟨n, w⟩, -, rfl⟩ := Option.map_eq_some_iff.mp hs
    exact written_years (s := { s with lines := s.lines ++ [(s.retired.length, line)] }) h hc
  | flush =>
    obtain rfl := Option.some.inj hs
    exact h
  | rollFile i =>
    obtain rfl := Option.some.inj hs
    exact roll_years h hc

/-- A line is numbered with the last file, so with no earlier one than the lines before it. -/
theorem step_numbers {s u : LogFileRun} {e : LogFileEvent} (hr : Rolled host basename s)
    (h : (s.lines.map Prod.fst).Pairwise (· ≤ ·)) (hs : s.step host e = some u) :
    (u.lines.map Prod.fst).Pairwise (· ≤ ·) := by
  have hsame : ((appended [e]).map (s.retired.length, ·)).map Prod.fst =
      List.replicate (appended [e]).length s.retired.length := by
    rw [List.map_map]
    exact List.map_const'
  rw [step_lines hs, List.map_append, hsame, List.pairwise_append]
  refine ⟨h, List.pairwise_replicate.mpr (.inr (Nat.le_refl _)), fun k hk m hm => ?_⟩
  obtain ⟨p, hp, rfl⟩ := List.mem_map.mp hk
  rw [(List.mem_replicate.mp hm).2]
  exact hr.numbers p hp

theorem Ordered.names {s : LogFileRun} (h : Ordered s) (hr : Rolled host basename s) :
    (s.files.map (·.m_filename)).Pairwise (· < ·) := by
  rw [hr.names, List.pairwise_cons, List.pairwise_map]
  constructor
  · intro name hname
    obtain ⟨t, -, rfl⟩ := List.mem_map.mp hname
    exact basename_lt_getLogFileName host basename t
  · exact hr.increasing.imp_of_mem fun ht hu hlt =>
      getLogFileName_mono (h.years _ ht) (h.years _ hu) hlt

variable {threadsafe : Bool} {c : Config} {g : Garbage}

theorem ordered_start {opened : Bool} {i : RollInput} (hi : Years i.now) :
    Ordered (start host threadsafe c g opened i) := by
  constructor
  · exact roll_years (s := ⟨unrolled threadsafe c g opened, [], [], [], i.now, 0, 0, false⟩)
      (fun t ht => absurd ht List.not_mem_nil) hi
  · exact List.Pairwise.nil

/-- **A listing by name is the log.** In every run from 1970 to 9999, whatever order the
directory has its entries in: sorted by name, the files hold the lines that were appended, file
after file in the order of the calls. -/
theorem listing_is_log {opened : Bool} {i : RollInput} (hi : Years i.now)
    {events : List LogFileEvent} {s : LogFileRun}
    (h : (calls host threadsafe c g).runIf InYears (start host threadsafe c g opened i) events =
      some s)
    {listing : List WriteFile} (hentries : listing.Perm s.files)
    (hsorted : listing.Pairwise fun f f' => f.m_filename ≤ f'.m_filename) :
    ∃ handed, List.Forall₂ WriteFile.Handed listing handed ∧ handed.flatten = appended events := by
  obtain ⟨hrolled, hordered⟩ : Rolled host c.basename s ∧ Ordered s :=
    Machine.runIf_keeps (I := fun s => Rolled host c.basename s ∧ Ordered s)
      (fun _ _ _ hs hc hstep => ⟨rolled_step hs.1 hc hstep,
        step_years hs.2.years hc hstep, step_numbers hs.1 hs.2.numbers hstep⟩)
      ⟨rolled_start threadsafe c g opened hi.1, ordered_start hi⟩ h
  have hnames := List.pairwise_map.mp (hordered.names hrolled)
  obtain rfl : listing = s.files := by
    refine hentries.eq_of_pairwise ?_ hsorted (hnames.imp fun hlt => List.le_of_lt hlt)
    intro f f' hf hf' hle hle'
    have hname : f.m_filename = f'.m_filename := List.le_antisymm hle hle'
    exact List.inj_on_of_nodup_map hrolled.names_nodup (hentries.subset hf) hf' hname
  refine ⟨(List.range s.files.length).map s.linesOf, ?_, ?_⟩
  · refine List.forall₂_iff_get.mpr ⟨?_, fun k hk hk' => ?_⟩
    · rw [List.length_map, List.length_range]
    · have hfile : s.files[k]? = some (s.files.get ⟨k, hk⟩) := List.getElem?_eq_getElem hk
      have hlines : ((List.range s.files.length).map s.linesOf).get ⟨k, hk'⟩ = s.linesOf k := by
        rw [List.get_eq_getElem, List.getElem_map, List.getElem_range]
      rw [hlines]
      exact hrolled.handed k _ hfile
  · have hbelow : ∀ p ∈ s.lines, p.1 < s.files.length := fun p hp => by
      rw [files, List.length_append]
      exact Nat.lt_succ_of_le (hrolled.numbers p hp)
    have hlines : (start host threadsafe c g opened i).lines = [] := rfl
    have hall := (run_lines h).2
    rw [hlines, List.map_nil, List.nil_append] at hall
    rw [← hall]
    exact flatten_doneBy hordered.numbers hbelow

/-- One line for each of two files; the clock has gone back between them. -/
def twoFiles : List LogFileEvent :=
  [.append [65] ⟨[⟨1, false⟩], 101, ⟨99, true⟩⟩, .rollFile ⟨102, true⟩,
    .append [66] ⟨[⟨1, false⟩], 102, ⟨102, true⟩⟩]

theorem listing_is_log_two :
    ∃ s, (calls ⟨ascii "host", 7⟩ false ⟨1, ascii "log", 3, 1024⟩ ⟨0, 0, 0, 0⟩).runIf InYears
        (start ⟨ascii "host", 7⟩ false ⟨1, ascii "log", 3, 1024⟩ ⟨0, 0, 0, 0⟩ true ⟨100, true⟩)
        twoFiles = some s ∧
      ∃ handed, List.Forall₂ WriteFile.Handed s.files handed ∧ handed.flatten = [[65], [66]] := by
  have hrun : (calls ⟨ascii "host", 7⟩ false ⟨1, ascii "log", 3, 1024⟩ ⟨0, 0, 0, 0⟩).runIf InYears
      (start ⟨ascii "host", 7⟩ false ⟨1, ascii "log", 3, 1024⟩ ⟨0, 0, 0, 0⟩ true ⟨100, true⟩)
      twoFiles = some _ := rfl
  exact ⟨_, hrun, listing_is_log (by decide) hrun (List.Perm.refl _) (by decide +kernel)⟩

end LogFileRun
end MyNet.Base
