import MyNet.Base.AsyncLoggingBytes
import MyNet.Base.AsyncLoggingWrite
import MyNet.Base.LogFileRoll

/-!
# From `append` to the log files

`AsyncLogging` together with the `LogFile` of its logging thread. `ThreadFunc` constructs
`logout` before its loop and hands it every buffer with one call of `LogFile::append`. `logout`
is thread-safe, so a call that goes the way to `flush()` waits for the mutex it has, and the
logging thread does not move again.

Both halves run as they do alone, and the file is handed what the logging thread hands over.
-/
namespace MyNet.Base

open Lib LogFile

/-! ## What `ThreadFunc` hands over -/

namespace AsyncLogging

variable {ι : Type} {s t : AsyncLogging ι} {e : LogMove ι}

def BackendPc.isWriting : BackendPc → Bool
  | .writing _ => true
  | _ => false

/-- The bytes that a step passes to `LogFile::append`. -/
def handing (s : AsyncLogging ι) : LogMove ι → Option (List Byte)
  | .backend =>
    match s.pc with
    | .writing i => s.buffsToWrite[i]?.map FixedBuffer.data
    | _ => none
  | .drop now temp => some (announcement now temp s.buffsToWrite.length)
  | .lock _ _ | .append | .stop => none

/-- The step is one of the logging thread. -/
def byBackend : LogMove ι → Bool
  | .backend | .drop _ _ => true
  | .lock _ _ | .append | .stop => false

theorem handing_backend {p : BackendPc} (hp : s.pc = p) (h : p.isWriting = false) :
    handing s .backend = none := by
  simp only [handing]
  split
  · next i hi =>
    rw [← hp, hi] at h
    cases h
  · rfl

/-- `logout` gets what is handed over and nothing else. -/
theorem logout_turn (ht : Turn s e t) : t.logout = s.logout ++ (handing s e).getD [] := by
  have hnone : handing s e = none → s.logout = s.logout ++ (handing s e).getD [] := by
    intro h
    rw [h]
    exact (List.append_nil _).symm
  cases ht with
  | @write i b hp hb =>
    simp only [handing, hp, hb, Option.map_some, Option.getD_some]
  | @written i hp hi =>
    refine hnone ?_
    simp only [handing, hp, List.getElem?_eq_none hi, Option.map_none]
  | drop => rfl
  | enter hp | leave hp | lockBuffs hp | wait hp | noWait hp | wake hp | pushCur hp | pushNull hp
  | moveFirst hp | swapBuffs hp | keepNext hp | moveSecond hp | unlockBuffs hp | nothing hp
  | overload hp | begin hp | resize hp | takeFirst hp | noFirst hp | takeSecond hp | noSecond hp
  | clear hp => exact hnone (handing_backend hp rfl)
  | lock | room | full | pushFull | takeNext | resetCur | copy | unlock | noCur | stop =>
    exact hnone rfl

theorem appended_turn (ht : Turn s e t) : s.appended <+: t.appended := by
  cases ht with
  | copy => exact List.prefix_append _ _
  | lock | room | full | pushFull | takeNext | resetCur | unlock | noCur | enter | leave
  | lockBuffs | wait | noWait | wake | pushCur | pushNull | moveFirst | swapBuffs | keepNext
  | moveSecond | unlockBuffs | nothing | overload | begin | write | written | resize | takeFirst
  | noFirst | takeSecond | noSecond | clear | drop | stop => exact List.prefix_refl _

theorem byBackend_of_handing {line : List Byte} (h : handing s e = some line) :
    byBackend e = true := by
  cases e with
  | backend | drop => rfl
  | lock | append | stop => cases h

/-! ## Without the overload -/

/-- The lines are no longer than a buffer. -/
def Short (_ : AsyncLogging ι) : LogMove ι → Prop
  | .lock _ line => line.length ≤ kLargeBuffer
  | _ => True

instance (s : AsyncLogging ι) : (e : LogMove ι) → Decidable (Short s e)
  | .lock _ _ => inferInstanceAs (Decidable (_ ≤ _))
  | .append | .backend | .drop _ _ | .stop => inferInstanceAs (Decidable True)

/-- The backend takes two buffers at most, so it never gets to the drop. -/
theorem not_dropping_inductive (C : AsyncLogging ι → LogMove ι → Prop) :
    (logging ι).Inductive C (fun s => (Sound s ∧ Few s) ∧ s.pc ≠ .dropping) := by
  refine (few_inductive C).and ?_ ?_
  · rintro s rfl
    exact nofun
  · intro s e t hs h _ hstep
    obtain ⟨-, ht⟩ := step_turn hstep
    cases ht with
    | overload hp he hl =>
      have htaken := hs.2.taken
      omega
    | lock | room | full | pushFull | takeNext | resetCur | copy | unlock | noCur | pushNull
    | nothing | noFirst | noSecond | stop => exact h
    | enter | leave | lockBuffs | wait | noWait | wake | pushCur | moveFirst | swapBuffs
    | keepNext | moveSecond | unlockBuffs | begin | write | written | resize | takeFirst
    | takeSecond | clear | drop => exact nofun

/-- **The backend never drops.** With no next buffer `append` resets the one it has just released,
which ends the process before a third buffer is queued. -/
theorem overload_never_taken (h : (logging ι).Reach s) :
    s.buffsToWrite.length ≤ 2 ∧ s.pc ≠ .dropping ∧ ∀ now temp, s.step (.drop now temp) = none := by
  have hpc := ((not_dropping_inductive _).reach h).2
  refine ⟨taken_le_two h, hpc, fun now temp => ?_⟩
  cases hs : s.step (.drop now temp) with
  | none => rfl
  | some t =>
    cases (step_turn hs).2 with
    | drop hp => exact absurd hp hpc

/-- A line is written, the next one waits in the current buffer. -/
def twoLines : List (LogMove Bool) :=
  [.lock true [65], .append, .append, .append] ++ List.replicate 11 .backend ++
    [.lock false [66], .append, .append, .append]

theorem overload_never_taken_first :
    ∃ s, (logging Bool).run (AsyncLogging.start Bool) (twoLines.take 12) = some s ∧
      s.buffsToWrite.length = 1 ∧ ∀ now temp, s.step (.drop now temp) = none := by
  have hrun : ∃ s, (logging Bool).run (AsyncLogging.start Bool) (twoLines.take 12) = some s ∧
      s.buffsToWrite.length = 1 := ⟨_, rfl, rfl⟩
  obtain ⟨s, hs, hone⟩ := hrun
  have hnever := overload_never_taken (Machine.reachIf_of_runIf (.init rfl) hs)
  exact ⟨s, hs, hone, hnever.2.2⟩

theorem ordinary_step (hd : s.pc ≠ .dropping) (hc : Short s e) (hs : s.step e = some t) :
    Ordinary s e := by
  cases e with
  | lock => exact hc
  | drop =>
    cases (step_turn hs).2 with
    | drop hp => exact absurd hp hd
  | append | backend | stop => exact trivial

end AsyncLogging

/-! ## Both halves together -/

structure LogPipeline (ι : Type) where
  front : AsyncLogging ι
  /-- The `LogFile`, once `ThreadFunc` has constructed it. -/
  logout : Option LogFileRun
  /-- The logging thread waits for the mutex of `logout`, which it has. -/
  selfBlocked : Bool

inductive PipelineMove (ι : Type) where
  /-- The constructor of `logout`. -/
  | construct (g : Garbage) (opened : Bool) (i : RollInput)
  /-- A step of `AsyncLogging`; `i` is for the call of `LogFile::append` that it makes. -/
  | log (e : LogMove ι) (i : AppendInput)

namespace LogPipeline

open AsyncLogging

variable {ι : Type}

variable (ι) in
def start : LogPipeline ι := ⟨.start ι, none, false⟩

/-- The logging thread is in its loop and does not wait for itself. -/
def looping (s : LogPipeline ι) : Bool := s.logout.isSome && !s.selfBlocked

def step (host : Host) (c : Config) (s : LogPipeline ι) : PipelineMove ι → Option (LogPipeline ι)
  | .construct g opened i =>
    match s.logout with
    | none => some { s with logout := some (LogFileRun.start host true c g opened i) }
    | some _ => none
  | .log e i =>
    if byBackend e = true ∧ s.looping = false then none
    else
      (s.front.step e).bind fun front =>
        match handing s.front e, s.logout with
        | some line, some file =>
          (file.step host (.append line i)).map fun written =>
            ⟨front, some written, file.file.flushDue line.length i.now⟩
        | _, _ => some { s with front := front }

variable (ι) in
def pipeline (host : Host) (c : Config) : Machine (LogPipeline ι) (PipelineMove ι) where
  init s := s = start ι
  step := step host c

/-- What a step does: its guard and its result. -/
inductive Turn (host : Host) (c : Config) (s : LogPipeline ι) :
    PipelineMove ι → LogPipeline ι → Prop
  | construct {g : Garbage} {opened : Bool} {i : RollInput} (hl : s.logout = none) :
      Turn host c s (.construct g opened i)
        { s with logout := some (LogFileRun.start host true c g opened i) }
  | quiet {e : LogMove ι} {i : AppendInput} {front : AsyncLogging ι}
      (hb : byBackend e = true → s.looping = true) (hs : s.front.step e = some front)
      (hh : handing s.front e = none) : Turn host c s (.log e i) { s with front := front }
  | hand {e : LogMove ι} {i : AppendInput} {front : AsyncLogging ι} {line : List Byte}
      {file written : LogFileRun} (hb : s.selfBlocked = false) (hs : s.front.step e = some front)
      (hh : handing s.front e = some line) (hl : s.logout = some file)
      (ha : file.step host (.append line i) = some written) :
      Turn host c s (.log e i) ⟨front, some written, file.file.flushDue line.length i.now⟩

theorem step_turn {host : Host} {c : Config} {s t : LogPipeline ι} {e : PipelineMove ι}
    (h : s.step host c e = some t) : Turn host c s e t := by
  cases e with
  | construct g opened i =>
    simp only [step] at h
    split at h
    · next hl => obtain rfl := Option.some.inj h; exact .construct hl
    · cases h
  | log e i =>
    simp only [step] at h
    split at h
    · cases h
    · next hb =>
      have hloop : byBackend e = true → s.looping = true := fun he =>
        Bool.not_eq_false _ ▸ fun hf => hb ⟨he, hf⟩
      obtain ⟨front, hs, h⟩ := Option.bind_eq_some_iff.mp h
      split at h
      · next line file hh hl =>
        obtain ⟨written, ha, rfl⟩ := Option.map_eq_some_iff.mp h
        have hlooping := hloop (byBackend_of_handing hh)
        simp only [looping, hl, Option.isSome_some, Bool.true_and, Bool.not_eq_true'] at hlooping
        exact .hand hlooping hs hh hl ha
      · next hnot =>
        obtain rfl := Option.some.inj h
        refine .quiet hloop hs ?_
        cases hh : handing s.front e with
        | none => rfl
        | some line =>
          have hlooping := hloop (byBackend_of_handing hh)
          cases hl : s.logout with
          | none =>
            simp only [looping, hl, Option.isSome_none, Bool.false_and] at hlooping
            cases hlooping
          | some file => exact absurd hl (hnot line file hh)

/-! ## Each half runs as it does alone -/

/-- Each half is where it gets by itself, and the file was handed what the front handed over. -/
structure Joined (host : Host) (c : Config) (s : LogPipeline ι) : Prop where
  front : (logging ι).Reach s.front
  file : ∀ f, s.logout = some f → ∃ g, (LogFileRun.calls host true c g).Reach f
  handed : (s.logout.elim [] fun f => (f.lines.map (·.2)).flatten) = s.front.logout

variable {host : Host} {c : Config} {s t : LogPipeline ι}

theorem joined_turn {e : PipelineMove ι} (h : Joined host c s) (ht : Turn host c s e t) :
    Joined host c t := by
  have hhanded := h.handed
  cases ht with
  | @construct g opened i hl =>
    refine ⟨h.front, fun f hf => ?_, ?_⟩
    · obtain rfl := Option.some.inj hf
      exact ⟨g, .init ⟨opened, i, rfl⟩⟩
    · rw [hl] at hhanded
      exact hhanded
  | @quiet e i front hb hs hh =>
    have hlogout := logout_turn (AsyncLogging.step_turn hs).2
    rw [hh, Option.getD_none, List.append_nil] at hlogout
    exact ⟨.step e h.front trivial hs, h.file, hhanded.trans hlogout.symm⟩
  | @hand e i front line file written hb hs hh hl ha =>
    have hlogout := logout_turn (AsyncLogging.step_turn hs).2
    rw [hh, Option.getD_some] at hlogout
    obtain ⟨g, hg⟩ := h.file file hl
    have hstep : (LogFileRun.calls host true c g).step file (.append line i) = some written := ha
    refine ⟨.step e h.front trivial hs, fun f hf => ?_, ?_⟩
    · obtain rfl := Option.some.inj hf
      exact ⟨g, .step _ hg trivial hstep⟩
    · rw [hl] at hhanded
      change (file.lines.map (·.2)).flatten = s.front.logout at hhanded
      change (written.lines.map (·.2)).flatten = front.logout
      rw [LogFileRun.step_lines ha, hlogout, ← hhanded, List.map_append, List.flatten_append]
      exact congrArg (_ ++ ·) (List.append_nil line)

theorem joined_start : Joined host c (start ι) where
  front := .init rfl
  file _ hf := nomatch hf
  handed := rfl

theorem joined_reach (h : (pipeline ι host c).Reach s) : Joined host c s :=
  Machine.Inductive.reach (I := Joined host c)
    ⟨fun _ hs => hs ▸ joined_start, fun _ _ _ hs _ hstep => joined_turn hs (step_turn hstep)⟩ h

/-- **The pipeline refines its halves.** In every run the front end is in a state of
`AsyncLogging`, the file in a state of `LogFile`, and the bytes of the lines the file was handed
are those the logging thread handed over. -/
theorem pipeline_refines (h : (pipeline ι host c).Reach s) :
    (logging ι).Reach s.front ∧
      (∀ f, s.logout = some f → ∃ g, (LogFileRun.calls host true c g).Reach f) ∧
      (s.logout.elim [] fun f => (f.lines.map (·.2)).flatten) = s.front.logout :=
  ⟨(joined_reach h).front, (joined_reach h).file, (joined_reach h).handed⟩

def plainHost : Host := ⟨ascii "host", 7⟩

def plainConfig : Config := { rollsize := 1, basename := ascii "log" }

def firstFile : List (PipelineMove Bool) :=
  .construct ⟨0, 0, 0, 0⟩ true ⟨100, true⟩ ::
    twoLines.map (.log · ⟨[⟨1, false⟩], 101, ⟨101, true⟩⟩)

theorem pipeline_refines_two :
    ∃ s f, (pipeline Bool plainHost plainConfig).run (start Bool) firstFile = some s ∧
      s.logout = some f ∧ f.files.map (·.accepted) = [[], [65], []] ∧
      (f.lines.map (·.2)).flatten = s.front.logout := by
  have hrun : ∃ s f, (pipeline Bool plainHost plainConfig).run (start Bool) firstFile = some s ∧
      s.logout = some f ∧ f.files.map (·.accepted) = [[], [65], []] := ⟨_, _, rfl, rfl, rfl⟩
  obtain ⟨s, f, hs, hf, hfiles⟩ := hrun
  have hhanded := (pipeline_refines (Machine.reachIf_of_runIf (.init rfl) hs)).2.2
  rw [hf] at hhanded
  exact ⟨s, f, hs, hf, hfiles, hhanded⟩

end LogPipeline
end MyNet.Base
