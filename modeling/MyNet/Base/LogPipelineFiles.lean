import MyNet.Base.LogPipeline

/-!
# Whole lines in the log files

A buffer holds whole lines, the logging thread hands over whole buffers, and `LogFile` rolls
only between two calls of `append`. When stdio takes every write and every file can be opened,
the files therefore cut the appended lines into groups, and what is missing from the last one
is still in the buffers.
-/
namespace MyNet.Base

open Lib LogFile

/-! ## The groups of lines in the buffers -/

namespace AsyncLogging

variable {ι : Type} {s t : AsyncLogging ι} {e : LogMove ι}

/-- The bytes that have not been handed over. -/
def buffered (s : AsyncLogging ι) : List Byte :=
  bytes (unwritten s.buffsToWrite s.pc) ++ bytes s.m_buffs ++ curBytes s.m_curbuff

/-- The appended lines in groups: one for each buffer that was handed over, is to be written or
is queued, and one for the current buffer. -/
structure Chunks (s : AsyncLogging ι) (out back queued : List (List Line)) (cur : List Line) :
    Prop where
  lines : s.appended = (out ++ back ++ queued).flatten ++ cur
  back : (unwritten s.buffsToWrite s.pc).map FixedBuffer.data = back.map List.flatten
  queued : s.m_buffs.map FixedBuffer.data = queued.map List.flatten
  cur : curBytes s.m_curbuff = cur.flatten

variable {out back queued : List (List Line)} {cur : List Line}

theorem Chunks.buffered (h : Chunks s out back queued cur) :
    ((back ++ queued).flatten ++ cur).flatten = s.buffered := by
  have hbytes (bs : List Buffer) {groups : List (List Line)}
      (hg : bs.map FixedBuffer.data = groups.map List.flatten) :
      bytes bs = groups.flatten.flatten := by
    rw [bytes, List.flatMap_def, hg, List.flatten_flatten]
  rw [AsyncLogging.buffered, hbytes _ h.back, hbytes _ h.queued, h.cur, List.flatten_append,
    List.flatten_append, List.flatten_append]

theorem chunks_start : Chunks (start ι) [] [] [] [] := ⟨rfl, rfl, rfl, rfl⟩

/-- What a step makes of the groups: some go from the buffers to what was handed over. -/
def ChunksAfter (s : AsyncLogging ι) (e : LogMove ι) (out : List (List Line))
    (t : AsyncLogging ι) : Prop :=
  ∃ out' back' queued' cur', Chunks t out' back' queued' cur' ∧
    out'.map List.flatten = out.map List.flatten ++ (handing s e).toList

theorem Chunks.quiet {back' queued' : List (List Line)} {cur' : List Line}
    (h : Chunks t out back' queued' cur') (hh : handing s e = none) : ChunksAfter s e out t :=
  ⟨out, back', queued', cur', h, by rw [hh]; exact (List.append_nil _).symm⟩

/-- The full buffer is queued with its lines. -/
theorem Chunks.queue (h : Chunks s out back queued cur) {b : Buffer} (hb : s.m_curbuff = some b) :
    s.appended = (out ++ back ++ (queued ++ [cur])).flatten ++ [] ∧
      (s.m_buffs ++ [b]).map FixedBuffer.data = (queued ++ [cur]).map List.flatten := by
  have hcur := h.cur
  rw [hb] at hcur
  constructor
  · rw [h.lines]
    simp only [List.flatten_append, List.flatten_singleton, List.append_nil, List.append_assoc]
  · rw [List.map_append, List.map_append, h.queued]
    exact congrArg (fun x => queued.map List.flatten ++ [x]) hcur

theorem Chunks.backAt (h : Chunks s out back queued cur) {p : BackendPc} (hp : s.pc = p) :
    (unwritten s.buffsToWrite p).map FixedBuffer.data = back.map List.flatten :=
  hp ▸ h.back

theorem chunks_turn (ho : Owned s) (hr : HasRoom s) (h : Chunks s out back queued cur)
    (hd : s.pc ≠ .dropping) (ht : Turn s e t) : ChunksAfter s e out t := by
  have hcur := h.cur
  cases ht with
  | @pushFull u line b hm hb =>
    obtain ⟨hlines, hqueued⟩ := h.queue hb
    exact Chunks.quiet ⟨hlines, h.back, hqueued, rfl⟩ rfl
  | @takeNext u line b hm hb =>
    rw [(ho.front.takeNext hm).1] at hcur
    refine Chunks.quiet ⟨h.lines, h.back, h.queued, ?_⟩ rfl
    rw [← hcur, ho.next b hb]
    rfl
  | resetCur hm hn hb =>
    rw [(ho.front.takeNext hm).1] at hb
    cases hb
  | @copy u line b hm hb =>
    have hlines : s.appended ++ [line] = (out ++ back ++ queued).flatten ++ (cur ++ [line]) := by
      rw [h.lines, List.append_assoc]
    refine Chunks.quiet ⟨hlines, h.back, h.queued, ?_⟩ rfl
    · rw [hb] at hcur
      change (b.append line).2.data = (cur ++ [line]).flatten
      rw [FixedBuffer.append_data ((hr.appender hm).2 rfl b hb), List.flatten_append,
        List.flatten_singleton, ← hcur]
      rfl
  | @pushCur b hp hb =>
    obtain ⟨hlines, hqueued⟩ := h.queue hb
    have hback := h.backAt hp
    exact Chunks.quiet ⟨hlines, hback, hqueued, rfl⟩ (handing_backend hp rfl)
  | moveFirst hp =>
    rw [(ho.swapFront hp rfl).1] at hcur
    have hback := h.backAt hp
    refine Chunks.quiet ⟨h.lines, hback, h.queued, ?_⟩
      (handing_backend hp rfl)
    change curBytes s.firstBuffer = _
    rw [(ho.sparesAt hp).1]
    exact hcur
  | swapBuffs hp =>
    -- the buffers of the last iteration are gone
    obtain rfl : back = [] := List.map_eq_nil_iff.mp (h.backAt hp).symm
    have hlines : s.appended = (out ++ queued ++ []).flatten ++ cur := by
      rw [h.lines, List.append_nil, List.append_nil]
    refine Chunks.quiet ⟨hlines, h.queued, ?_, h.cur⟩ (handing_backend hp rfl)
    change s.buffsToWrite.map _ = _
    rw [(ho.sparesAt hp).2.2]
    rfl
  | @write i b hp hb =>
    have hback := h.backAt hp
    obtain ⟨hi, hget⟩ := List.getElem?_eq_some_iff.mp hb
    rw [unwritten, List.drop_eq_getElem_cons hi, hget, List.map_cons] at hback
    obtain ⟨g, gs, rfl, hg, hgs⟩ := List.map_eq_cons_iff.mp hback.symm
    refine ⟨out ++ [g], gs, queued, cur, ⟨?_, hgs.symm, h.queued, h.cur⟩, ?_⟩
    · change s.appended = _
      rw [h.lines, List.append_assoc out [g] gs]
      rfl
    · simp only [handing, hp, hb, Option.map_some, Option.toList_some, List.map_append,
        List.map_singleton, hg]
  | @written i hp hi =>
    have hback := h.backAt hp
    rw [unwritten, List.drop_eq_nil_of_le hi] at hback
    refine Chunks.quiet ⟨h.lines, hback, h.queued, h.cur⟩ ?_
    simp only [handing, hp, List.getElem?_eq_none hi, Option.map_none]
  | drop hp => exact absurd hp hd
  | enter hp | leave hp | lockBuffs hp | wait hp | noWait hp | wake hp | keepNext hp
  | moveSecond hp | unlockBuffs hp | overload hp | begin hp | resize hp | takeFirst hp
  | takeSecond hp | clear hp =>
    have hback := h.backAt hp
    exact Chunks.quiet ⟨h.lines, hback, h.queued, h.cur⟩ (handing_backend hp rfl)
  | pushNull hp | nothing hp | noFirst hp | noSecond hp =>
    exact Chunks.quiet ⟨h.lines, h.back, h.queued, h.cur⟩ (handing_backend hp rfl)
  | lock | room | full | unlock | noCur | stop =>
    exact Chunks.quiet ⟨h.lines, h.back, h.queued, h.cur⟩ rfl

end AsyncLogging

/-! ## The groups of lines in the files -/

namespace LogFileRun

variable {host : Host} {s u : LogFileRun} {full : List (List (List Byte))} {last : List (List Byte)}

/-- The retired files hold the lines in these groups and the current one the rest. -/
structure Stores (s : LogFileRun) (full : List (List (List Byte))) (last : List (List Byte)) :
    Prop where
  retired : s.retired.map (·.accepted) = full.map List.flatten
  current : s.file.m_scpFile.accepted = last.flatten
  lines : s.lines.map (·.2) = full.flatten ++ last
  valid : s.file.m_scpFile.m_valid = true

theorem Stores.files (h : Stores s full last) :
    s.files.map (·.accepted) = (full ++ [last]).map List.flatten := by
  rw [LogFileRun.files, List.map_append, List.map_append, h.retired, List.map_singleton,
    List.map_singleton, h.current]

theorem Stores.whole (h : Stores s full last) :
    (s.files.map (·.accepted)).flatten = (s.lines.map (·.2)).flatten := by
  rw [h.files, h.lines, ← List.flatten_flatten, List.flatten_append, List.flatten_singleton]

theorem stores_roll (host : Host) {f : LogFile} (h : Stores { s with file := f } full last)
    {i : RollInput} (ho : i.opened = true) :
    ∃ full' last', Stores (roll host i f s) full' last' := by
  by_cases hopens : f.m_lastRoll < i.now
  · refine ⟨full ++ [last], [], ?_⟩
    rw [roll_opens hopens, rollFile_opens hopens]
    refine ⟨?_, rfl, ?_, ho⟩
    · rw [List.map_append, List.map_append, List.map_singleton, List.map_singleton, ← h.current,
        ← h.retired]
    · rw [List.flatten_append, List.flatten_singleton, List.append_nil]
      exact h.lines
  · rw [roll_stays hopens]
    exact ⟨full, last, h.retired, h.current, h.lines, h.valid⟩

theorem stores_written (host : Host) {f : LogFile} (h : Stores { s with file := f } full last)
    {i : AppendInput} (ho : i.roll.opened = true) :
    ∃ full' last', Stores (written host i f s) full' last' := by
  unfold written
  cases f.branch i.now with
  | full =>
    obtain ⟨full', last', hroll⟩ := stores_roll host (f := f)
      (s := { s with unchecked := s.unchecked + 1 }) ⟨h.retired, h.current, h.lines, h.valid⟩ ho
    exact ⟨full', last', hroll.retired, hroll.current, hroll.lines, hroll.valid⟩
  | period =>
    exact stores_roll host (f := { f with m_appendCount := 0 })
      (s := { s with unchecked := 0, counted := 0 }) ⟨h.retired, h.current, h.lines, h.valid⟩ ho
  | flush | checked | counted =>
    exact ⟨full, last, h.retired, h.current, h.lines, h.valid⟩

theorem writeLine_takes {f f' : WriteFile} {rs : List FwriteResult} {line : List Byte} {n : Nat}
    (hv : f.m_valid = true) (hw : WriteFile.writeLoop rs line = some line)
    (h : f.writeLine rs line = some (n, f')) :
    f'.accepted = f.accepted ++ line ∧ f'.m_valid = true := by
  rw [WriteFile.writeLine, if_pos hv, hw] at h
  obtain ⟨-, rfl⟩ := Prod.mk.inj (Option.some.inj h)
  exact ⟨rfl, hv⟩

/-- A line that stdio takes whole goes to the current file, and a roll comes after it. -/
theorem stores_append (h : Stores s full last) {line : List Byte} {i : AppendInput}
    (hw : WriteFile.writeLoop i.writes line = some line) (ho : i.roll.opened = true)
    (hs : s.step host (.append line i) = some u) : ∃ full' last', Stores u full' last' := by
  obtain ⟨⟨n, w⟩, hline, rfl⟩ := Option.map_eq_some_iff.mp hs
  obtain ⟨haccepted, hvalid⟩ := writeLine_takes h.valid hw hline
  have hstores : Stores { s with
      file := { s.file with m_scpFile := w }
      lines := s.lines ++ [(s.retired.length, line)] } full (last ++ [line]) := by
    refine ⟨h.retired, ?_, ?_, hvalid⟩
    · rw [haccepted, h.current, List.flatten_append, List.flatten_singleton]
    · rw [List.map_append, h.lines, List.append_assoc]
      rfl
  exact stores_written host hstores ho

theorem stores_start (host : Host) (c : Config) (g : Garbage) {i : RollInput}
    (ho : i.opened = true) : ∃ full last, Stores (start host true c g true i) full last := by
  have hfirst : Stores ⟨unrolled true c g true, [], [], [], i.now, 0, 0, false⟩ [] [] :=
    ⟨rfl, rfl, rfl, rfl⟩
  exact stores_roll host hfirst ho

end LogFileRun

/-! ## The pipeline -/

namespace LogPipeline

open AsyncLogging

variable {ι : Type} {host : Host} {c : Config} {s t : LogPipeline ι}

/-- The lines are no longer than a buffer, stdio takes every write in the end, and every file
can be opened. -/
def Reliable (s : LogPipeline ι) : PipelineMove ι → Prop
  | .construct _ opened i => opened = true ∧ i.opened = true
  | .log e i =>
    Short s.front e ∧ i.roll.opened = true ∧
      (handing s.front e).elim True fun line => WriteFile.writeLoop i.writes line = some line

instance (s : LogPipeline ι) : (e : PipelineMove ι) → Decidable (Reliable s e)
  | .construct _ _ _ => inferInstanceAs (Decidable (_ ∧ _))
  | .log e i =>
    match h : handing s.front e with
    | none => decidable_of_iff (Short s.front e ∧ i.roll.opened = true) (by simp [Reliable, h])
    | some line =>
      decidable_of_iff (Short s.front e ∧ i.roll.opened = true ∧
        WriteFile.writeLoop i.writes line = some line) (by simp [Reliable, h])

/-- The files hold the groups that the buffers handed over. -/
structure Filed (s : LogPipeline ι) : Prop where
  front : (logging ι).ReachIf Ordinary s.front
  chunks : ∃ out back queued cur, Chunks s.front out back queued cur ∧
    match s.logout with
    | none => out = []
    | some f => ∃ full last, f.Stores full last ∧ out.map List.flatten = full.flatten ++ last

theorem filed_turn {e : PipelineMove ι} (h : Filed s) (hc : Reliable s e)
    (ht : Turn host c s e t) : Filed t := by
  obtain ⟨out, back, queued, cur, hchunks, hfile⟩ := h.chunks
  have hfront {e : LogMove ι} {front : AsyncLogging ι} (hs : s.front.step e = some front)
      (hshort : Short s.front e) : (logging ι).ReachIf Ordinary front ∧
        AsyncLogging.ChunksAfter s.front e out front := by
    obtain ⟨⟨hsound, -⟩, hdrop⟩ := (not_dropping_inductive Ordinary).reach h.front
    have hroom := (conserved_inductive.reach h.front).2.room
    exact ⟨.step e h.front (ordinary_step hdrop hshort hs) hs,
      chunks_turn hsound.owned hroom hchunks hdrop (AsyncLogging.step_turn hs).2⟩
  cases ht with
  | @construct g opened i hl =>
    obtain ⟨rfl, ho⟩ := hc
    rw [hl] at hfile
    obtain rfl : out = [] := hfile
    obtain ⟨full, last, hstores⟩ := LogFileRun.stores_start host c g ho
    have hnil : ([] : List (List Byte)) = full.flatten ++ last := hstores.lines
    exact ⟨h.front, [], back, queued, cur, hchunks, full, last, hstores, hnil⟩
  | @quiet e i front hb hs hh =>
    obtain ⟨hreach, out', back', queued', cur', hchunks', hout⟩ := hfront hs hc.1
    rw [hh, Option.toList_none, List.append_nil] at hout
    refine ⟨hreach, out', back', queued', cur', hchunks', ?_⟩
    cases hl : s.logout with
    | none =>
      rw [hl] at hfile
      rw [show out = [] from hfile] at hout
      exact List.map_eq_nil_iff.mp hout
    | some f =>
      rw [hl] at hfile
      obtain ⟨full, last, hstores, hgroups⟩ := hfile
      exact ⟨full, last, hstores, hout.trans hgroups⟩
  | @hand e i front line file written hb hs hh hl ha =>
    obtain ⟨hshort, ho, hwhole⟩ := hc
    obtain ⟨hreach, out', back', queued', cur', hchunks', hout⟩ := hfront hs hshort
    rw [hh] at hwhole hout
    rw [hl] at hfile
    obtain ⟨full, last, hstores, hgroups⟩ := hfile
    obtain ⟨full', last', hwritten⟩ := LogFileRun.stores_append hstores hwhole ho ha
    refine ⟨hreach, out', back', queued', cur', hchunks', full', last', hwritten, ?_⟩
    rw [hout, hgroups, ← hstores.lines, ← hwritten.lines, LogFileRun.step_lines ha,
      List.map_append]
    rfl

theorem filed_start : Filed (start ι) := ⟨.init rfl, [], [], [], [], chunks_start, rfl⟩

theorem filed_reach (h : (pipeline ι host c).ReachIf Reliable s) : Filed s :=
  Machine.Inductive.reach (I := Filed)
    ⟨fun _ hs => hs ▸ filed_start, fun _ _ _ hs hc hstep => filed_turn hs hc (step_turn hstep)⟩ h

/-- **The files hold whole lines.** The appended lines, in the order of their calls, fall into
one group for each file, which is what the file holds, and a rest that is in the buffers. -/
theorem files_hold_whole_lines (h : (pipeline ι host c).ReachIf Reliable s) {f : LogFileRun}
    (hf : s.logout = some f) :
    ∃ (groups : List (List Line)) (rest : List Line),
      f.files.map (·.accepted) = groups.map List.flatten ∧
      groups.flatten ++ rest = s.front.appended ∧
      rest.flatten = s.front.buffered ∧
      s.front.acquired = s.front.appended ++ inFlight s.front.m_mutex := by
  obtain ⟨hfront, out, back, queued, cur, hchunks, hfile⟩ := filed_reach h
  rw [hf] at hfile
  obtain ⟨full, last, hstores, hgroups⟩ := hfile
  have hfull : out.map List.flatten = (full ++ [last]).flatten := by
    rw [hgroups, List.flatten_append, List.flatten_singleton]
  -- the buffers of each file, and the lines of each of them
  obtain ⟨buffers, rfl, hbuffers⟩ := History.exists_regroup hfull
  refine ⟨buffers.map List.flatten, (back ++ queued).flatten ++ cur, ?_, ?_, hchunks.buffered,
    (conserved_inductive.reach hfront).2.order⟩
  · rw [hstores.files, ← hbuffers, List.map_map, List.map_map]
    exact List.map_congr_left fun g _ => List.flatten_flatten.symm
  · rw [← List.flatten_flatten, hchunks.lines]
    simp only [List.flatten_append, List.append_assoc]

/-- The first line fills its file. -/
theorem files_hold_whole_lines_rolled :
    ∃ s f, (pipeline Bool plainHost plainConfig).runIf Reliable (start Bool) firstFile = some s ∧
      s.logout = some f ∧ f.files.map (·.accepted) = [[], [65], []] ∧
      ∃ (groups : List (List Line)) (rest : List Line),
        f.files.map (·.accepted) = groups.map List.flatten ∧ groups.flatten ++ rest = [[65], [66]] ∧
        rest.flatten = s.front.buffered := by
  have hrun : (pipeline Bool plainHost plainConfig).runIf Reliable (start Bool) firstFile =
      some _ := rfl
  obtain ⟨groups, rest, hfiles, hlines, hrest, -⟩ :=
    files_hold_whole_lines (Machine.reachIf_of_runIf (.init rfl) hrun) rfl
  exact ⟨_, _, hrun, rfl, rfl, groups, rest, hfiles, hlines, hrest⟩

/-! ## A logging thread that waits for itself -/

theorem selfBlocked_turn {e : PipelineMove ι} (hw : s.selfBlocked = true)
    (hl : s.logout.isSome = true) (ht : Turn host c s e t) :
    t.selfBlocked = true ∧ t.logout = s.logout ∧ s.front.appended <+: t.front.appended := by
  cases ht with
  | construct hnone =>
    rw [hnone] at hl
    cases hl
  | quiet hb hs => exact ⟨hw, rfl, appended_turn (AsyncLogging.step_turn hs).2⟩
  | hand hb =>
    rw [hw] at hb
    cases hb

theorem constructed_turn {e : PipelineMove ι} (h : s.selfBlocked = true → s.logout.isSome = true)
    (ht : Turn host c s e t) : t.selfBlocked = true → t.logout.isSome = true := by
  cases ht with
  | quiet => exact h
  | construct | hand => exact fun _ => rfl

theorem constructed_inductive (C : LogPipeline ι → PipelineMove ι → Prop) :
    (pipeline ι host c).Inductive C fun s => s.selfBlocked = true → s.logout.isSome = true where
  init := by
    rintro s rfl
    exact nofun
  step _ _ _ hs _ hstep := constructed_turn hs (step_turn hstep)

/-- The state of the file does not change any more. -/
structure Stuck (s t : LogPipeline ι) : Prop where
  blocked : t.selfBlocked = true
  file : t.logout = s.logout
  appended : s.front.appended <+: t.front.appended

theorem stuck_run {es : List (PipelineMove ι)} (hw : s.selfBlocked = true)
    (hl : s.logout.isSome = true) (h : (pipeline ι host c).runIf Reliable s es = some t) :
    Stuck s t := by
  refine Machine.runIf_keeps (I := Stuck s) ?_ ⟨hw, rfl, List.prefix_refl _⟩ h
  intro u e v hu _ hstep
  obtain ⟨hblocked, hfile, happended⟩ :=
    selfBlocked_turn hu.blocked (hu.file ▸ hl) (step_turn hstep)
  exact ⟨hblocked, hfile.trans hu.file, hu.appended.trans happended⟩

theorem handed_append_buffered (h : (pipeline ι host c).ReachIf Reliable s) :
    s.front.logout ++ s.front.buffered = s.front.appended.flatten := by
  have hc := (conserved_inductive.reach (filed_reach h).front).2
  rw [buffered, ← List.append_assoc, ← List.append_assoc, hc.back, List.append_assoc, hc.queued,
    ← List.flatten_append, List.take_append_drop]

/-- **A logging thread that waits for itself starves the files.** Whatever runs after an append
of the logging thread has gone the way to `flush()`, no file changes, and every line appended
from then on stays in the buffers. -/
theorem selfBlocked_starves {es : List (PipelineMove ι)}
    (h : (pipeline ι host c).ReachIf Reliable s) (hw : s.selfBlocked = true)
    (hrun : (pipeline ι host c).runIf Reliable s es = some t) :
    t.selfBlocked = true ∧ t.logout = s.logout ∧
      ∃ lines, t.front.appended = s.front.appended ++ lines ∧
        t.front.buffered = s.front.buffered ++ lines.flatten := by
  have hstuck := stuck_run hw ((constructed_inductive _).reach h hw) hrun
  obtain ⟨lines, hlines⟩ := hstuck.appended
  refine ⟨hstuck.blocked, hstuck.file, lines, hlines.symm, ?_⟩
  have ht' := Machine.reachIf_of_runIf h hrun
  -- what was handed over is in the file, which is the same
  have hhanded : t.front.logout = s.front.logout := by
    rw [← (joined_reach (ht'.mono fun _ _ _ => trivial)).handed,
      ← (joined_reach (h.mono fun _ _ _ => trivial)).handed, hstuck.file]
  have hs := handed_append_buffered h
  have ht := handed_append_buffered ht'
  rw [hhanded, ← hlines, List.flatten_append, ← hs, List.append_assoc] at ht
  exact List.append_cancel_left ht

def checkingConfig : Config := { rollsize := 10240, basename := ascii "log", checkEveryN := 1 }

/-- Three seconds after the file was opened the first line goes the way to `flush()`. -/
def lateMoves (moves : List (LogMove Bool)) : List (PipelineMove Bool) :=
  moves.map (.log · ⟨[⟨1, false⟩], 103, ⟨103, true⟩⟩)

theorem selfBlocked_starves_second :
    ∃ s t, (pipeline Bool plainHost checkingConfig).runIf Reliable (start Bool)
        (.construct ⟨0, 0, 0, 0⟩ true ⟨100, true⟩ :: lateMoves (twoLines.take 15)) = some s ∧
      (pipeline Bool plainHost checkingConfig).runIf Reliable s (lateMoves (twoLines.drop 15)) =
        some t ∧
      t.logout = s.logout ∧ ∃ lines, t.front.appended = s.front.appended ++ lines ∧
        t.front.buffered = s.front.buffered ++ lines.flatten := by
  have hrun : ∃ s t, (pipeline Bool plainHost checkingConfig).runIf Reliable (start Bool)
        (.construct ⟨0, 0, 0, 0⟩ true ⟨100, true⟩ :: lateMoves (twoLines.take 15)) = some s ∧
      s.selfBlocked = true ∧
      (pipeline Bool plainHost checkingConfig).runIf Reliable s (lateMoves (twoLines.drop 15)) =
        some t := ⟨_, _, rfl, rfl, rfl⟩
  obtain ⟨s, t, hfirst, hblocked, hsecond⟩ := hrun
  have hreach := Machine.reachIf_of_runIf (.init rfl) hfirst
  have hstarves := selfBlocked_starves hreach hblocked hsecond
  exact ⟨s, t, hfirst, hsecond, hstarves.2⟩

end LogPipeline
end MyNet.Base
