import MyNet.Base.ThreadPoolQueue

/-!
# Pools with and without workers

`Drained` is the state in which the two modes of a pool are compared: every `run` has
returned, the queue is empty and no worker still holds a task. With workers, the
submissions and the enqueued tasks agree caller by caller, and the dequeued and the
invoked tasks worker by worker. Without workers `run` evaluates `Task();`, an empty
function, in place of `task();`, and nothing submitted is ever executed.
-/
namespace MyNet.Base.ThreadPool

open Lib Lib.History

variable {n : Nat} {ι τ : Type} [DecidableEq ι]

/-- The task of a `run` that has not put it into the queue yet. -/
def inFlight : CallerPc τ → List (Task τ)
  | .idle => []
  | .locking task | .waiting task => [task]

omit [DecidableEq ι] in
theorem CallerReady.inFlight {s : ThreadPool n ι τ} {c : ι} {task : Task τ}
    (h : CallerReady s c task) : ThreadPool.inFlight (s.callers c) = [task] := by
  rcases h with h | ⟨h, -⟩ <;> rw [h] <;> rfl

/-- Each caller enqueued what it submitted, in order, but for the call it is in. -/
def Forwarded (s : ThreadPool n ι τ) : Prop :=
  ∀ c, doneBy c s.submitted = doneBy c s.enqueued ++ inFlight (s.callers c)

/-- Nothing is ever invoked by a caller of `run`. -/
def WorkersOnly (s : ThreadPool n ι τ) : Prop := ∀ c, doneBy (Sum.inr c) s.invoked = []

theorem forwarded_turn {s t : ThreadPool n ι τ} {e : PoolMove n ι τ} (hn : n ≠ 0)
    (h : Forwarded s) (ht : Turn s e t) : Forwarded t := by
  cases ht with
  | @call c task hc _ =>
    intro d
    have hd := h d
    change doneBy d (s.submitted ++ [(c, task)]) =
      doneBy d s.enqueued ++ inFlight (Function.update s.callers c (.locking task) d)
    rw [doneBy_concat]
    by_cases hdc : c = d
    · subst d
      rw [hc] at hd
      rw [if_pos rfl, Function.update_self, hd]
      exact congrArg (· ++ [task]) (List.append_nil _)
    · rw [if_neg hdc, Function.update_of_ne (Ne.symm hdc), hd]
  | callInline hc h0 => exact absurd h0 hn
  | @sleepCaller c task woken hc hf =>
    intro d
    have hd := h d
    change doneBy d s.submitted =
      doneBy d s.enqueued ++ inFlight (Function.update s.callers c (.waiting task) d)
    by_cases hdc : d = c
    · subst d
      rw [hc.inFlight] at hd
      rw [Function.update_self, hd]
      rfl
    · rw [Function.update_of_ne hdc, hd]
  | @push c task woken notEmpty hc hf hs =>
    intro d
    have hd := h d
    change doneBy d s.submitted =
      doneBy d (s.enqueued ++ [(c, task)]) ++ inFlight (Function.update s.callers c .idle d)
    rw [doneBy_concat]
    by_cases hdc : c = d
    · subst d
      rw [hc.inFlight] at hd
      rw [if_pos rfl, Function.update_self, hd]
      exact (List.append_nil _).symm
    · rw [if_neg hdc, Function.update_of_ne (Ne.symm hdc), hd]
  | begin | enter | leave | sleepWorker | giveUp | pop | invoke | drop | finish | stop
  | wakeWorker | wakeCaller => exact h

theorem workersOnly_turn {s t : ThreadPool n ι τ} {e : PoolMove n ι τ} (h : WorkersOnly s)
    (ht : Turn s e t) : WorkersOnly t := by
  cases ht with
  | invoke hw =>
    intro c
    change doneBy (Sum.inr c) (s.invoked ++ [_]) = []
    rw [doneBy_concat, if_neg Sum.inl_ne_inr]
    exact h c
  | begin | enter | leave | sleepWorker | giveUp | pop | drop | finish | call | callInline
  | sleepCaller | push | stop | wakeWorker | wakeCaller => exact h

theorem agreement_inductive (k : Nat) (init : Task τ) :
    (pool n ι k init).Inductive (fun _ _ => True)
      (fun s => QueueInv k s ∧ WorkersOnly s ∧ (n ≠ 0 → Forwarded s)) := by
  refine (queueInv_inductive k init).and ?_ ?_
  · rintro s rfl
    exact ⟨fun _ => rfl, fun _ _ => rfl⟩
  · intro s e t _ h _ hs
    have ht := step_turn hs
    exact ⟨workersOnly_turn h.1 ht, fun hn => forwarded_turn hn (h.2 hn) ht⟩

/-- Every `run` has returned, the queue is empty and every task taken was invoked. -/
def Drained (s : ThreadPool n ι τ) : Prop :=
  (∀ c, inFlight (s.callers c) = []) ∧ s.m_tasks = [] ∧ ∀ w, pending (s.workers w) = []

/-- The tasks executed are the tasks submitted; without workers also in their order. -/
def Agreement (s : ThreadPool n ι τ) : Prop :=
  (s.invoked.map Prod.snd).Perm (s.submitted.filterMap Prod.snd) ∧
    (n = 0 → s.invoked.map Prod.snd = s.submitted.filterMap Prod.snd)

/-- Caller by caller, then along the queue, then worker by worker. -/
theorem executed_perm {k : Nat} {s : ThreadPool n ι τ} (hq : QueueInv k s) (hw : WorkersOnly s)
    (hf : Forwarded s) (hd : Drained s) :
    (s.invoked.map Prod.snd).Perm (s.submitted.filterMap Prod.snd) := by
  obtain ⟨hcallers, hempty, hworkers⟩ := hd
  have hsub : s.submitted.Perm s.enqueued := by
    refine perm_of_doneBy fun c => ?_
    rw [hf c, hcallers c, List.append_nil]
  have hinv : s.invoked.Perm (retag Sum.inl s.dequeued) := by
    refine perm_of_doneBy fun i => ?_
    cases i with
    | inl w => rw [doneBy_retag Sum.inl_injective, hq.once w, hworkers w, List.append_nil]
    | inr c => rw [hw c, doneBy_retag_other (fun _ => Sum.inl_ne_inr)]
  have hfifo : s.enqueued.filterMap Prod.snd = s.dequeued.filterMap Prod.snd := by
    have h := hq.fifo
    rw [Fifo, hempty, List.append_nil] at h
    have h' := congrArg (List.filterMap id) h
    rwa [List.filterMap_map, List.filterMap_map] at h'
  refine (hinv.map Prod.snd).trans ?_
  rw [map_snd_retag, ← hfifo]
  exact (hsub.filterMap Prod.snd).symm

/-- A pool without workers has executed nothing. -/
theorem invoked_nil {s : ThreadPool 0 ι τ} (hw : WorkersOnly s) : s.invoked = [] := by
  have h : s.invoked.Perm [] := by
    refine perm_of_doneBy fun i => ?_
    cases i with
    | inl w => exact w.elim0
    | inr c => exact hw c
  exact h.eq_nil

/-- In a drained state the tasks executed are the tasks submitted exactly if the pool has
workers or no (non-empty) task was submitted. -/
theorem drained_agreement_iff {k : Nat} {init : Task τ} {s : ThreadPool n ι τ}
    (h : (pool n ι k init).Reach s) (hd : Drained s) :
    Agreement s ↔ (0 < n ∨ s.submitted.filterMap Prod.snd = []) := by
  obtain ⟨hq, hw, hf⟩ := (agreement_inductive k init).reach h
  by_cases hn : n = 0
  · subst hn
    have hnil := invoked_nil hw
    constructor
    · intro ha
      have horder := ha.2 rfl
      rw [hnil] at horder
      exact Or.inr horder.symm
    · rintro (hpos | hempty)
      · exact absurd hpos (Nat.lt_irrefl 0)
      · rw [Agreement, hnil, hempty]
        exact ⟨List.Perm.refl _, fun _ => rfl⟩
  · constructor
    · exact fun _ => Or.inl (Nat.pos_of_ne_zero hn)
    · exact fun _ => ⟨executed_perm hq hw (hf hn) hd, fun h0 => absurd h0 hn⟩

/-- Two callers, one worker: both tasks run. -/
def sharedRun : List (PoolMove 1 Bool Nat) :=
  [.call true (some 1), .call false (some 2), .run false none, .begin soleWorker,
   .test soleWorker, .getTask soleWorker none, .take soleWorker, .run true none,
   .finish soleWorker, .test soleWorker, .getTask soleWorker none, .take soleWorker]

theorem drained_agreement_iff_shared :
    ∃ s, (pool 1 Bool (τ := Nat) 1 none).run (start 1 1 Bool none) sharedRun = some s ∧
      Drained s ∧ Agreement s := by
  have hrun : (pool 1 Bool (τ := Nat) 1 none).run (start 1 1 Bool none) sharedRun = some _ := rfl
  have hd : Drained (Option.get ((pool 1 Bool (τ := Nat) 1 none).run (start 1 1 Bool none)
      sharedRun) rfl) := by
    refine ⟨fun c => by cases c <;> rfl, rfl, fun w => ?_⟩
    rw [Subsingleton.elim w 0]
    rfl
  exact ⟨_, hrun, hd, (drained_agreement_iff (Machine.reachIf_of_runIf (.init rfl) hrun) hd).mpr
    (Or.inl Nat.one_pos)⟩

/-- One task submitted to a pool without workers is not executed. -/
theorem inline_run_drops_task :
    ¬ ∀ s, (pool 0 Bool (τ := Nat) 1 none).Reach s → Drained s → Agreement s := by
  intro h
  have hrun : (pool 0 Bool (τ := Nat) 1 none).run (start 0 1 Bool none)
      [.call true (some 1)] = some _ := rfl
  have ha := h _ (Machine.reachIf_of_runIf (.init rfl) hrun)
    ⟨fun c => by cases c <;> rfl, rfl, fun w => w.elim0⟩
  exact absurd (ha.2 rfl) (by decide)

end MyNet.Base.ThreadPool
