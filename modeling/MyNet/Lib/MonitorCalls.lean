import MyNet.Lib.History
import MyNet.Lib.MonitorSupply

/-!
# The calls of a monitor

The bodies run one at a time, so the operations got through in a run have an order. Those of one
thread are its calls, once each and in the order in which it made them, up to the call it is in.
-/
namespace Lib.Monitor

open Lib.History

variable {σ κ ο ι : Type} [DecidableEq κ] [DecidableEq ι] {M : Monitor σ κ ο}

/-- The operation whose body the step runs. -/
def through (s : MonitorState σ κ ο ι) : MonitorMove ο ι → List (ι × ο)
  | .run i _ =>
    match s.threads i with
    | .acting o => [(i, o)]
    | .idle | .locking _ | .testing _ | .waiting _ _ | .unlocking => []
  | .call .. | .wake _ => []

def called : MonitorMove ο ι → List (ι × ο)
  | .call i o => [(i, o)]
  | .run .. | .wake _ => []

/-- The call whose body is still to run. -/
def inCall : Phase κ ο → List ο
  | .locking o | .testing o | .waiting _ o | .acting o => [o]
  | .idle | .unlocking => []

variable (M) in
/-- The operations got through in a run, in order. -/
def performed (shared : σ) (s : MonitorState σ κ ο ι) (es : List (MonitorMove ο ι)) :
    List (ι × ο) :=
  (M.machine ι shared).record (fun s e _ => through s e) s es

theorem through_turn {s t : MonitorState σ κ ο ι} {e : MonitorMove ο ι} (ht : Turn M s e t)
    (j : ι) :
    doneBy j (through s e) ++ inCall (t.threads j) =
      inCall (s.threads j) ++ doneBy j (called e) := by
  have hnone : doneBy j ([] : List (ι × ο)) = [] := rfl
  have hone (i : ι) (o : ο) : doneBy j [(i, o)] = if i = j then [o] else [] := by
    have hconcat := doneBy_concat j [] (i, o)
    rwa [hnone] at hconcat
  -- a thread that stays in its call or outside
  have hstays {i : ι} {p : Phase κ ο} (hp : inCall p = inCall (s.threads i)) :
      inCall (Function.update s.threads i p j) = inCall (s.threads j) := by
    by_cases hij : j = i
    · subst j
      rw [Function.update_self, hp]
    · rw [Function.update_of_ne hij]
  cases ht with
  | @call i o hp =>
    rw [through, called, hone, hnone, List.nil_append]
    change inCall (Function.update s.threads i (.locking o) j) = _
    by_cases hij : i = j
    · subst j
      rw [if_pos rfl, Function.update_self, hp]
      rfl
    · rw [if_neg hij, Function.update_of_ne (Ne.symm hij), List.append_nil]
  | lock hp | relock hp | leave hp | block hp | unlock hp =>
    simp only [through, hp, called, hnone, List.nil_append, List.append_nil]
    exact hstays (by rw [hp]; rfl)
  | @act i o woken conds hp =>
    simp only [through, hp, called, hone, hnone, List.append_nil]
    by_cases hij : i = j
    · subst j
      rw [if_pos rfl, Function.update_self, hp]
      rfl
    · rw [if_neg hij, Function.update_of_ne (Ne.symm hij), List.nil_append]
  | wake hp =>
    rw [through, called, hnone, List.append_nil]
    rfl

/-- **What a thread got through** in a run is what it called, but for the call it is in. -/
theorem performed_called {shared : σ} {s : MonitorState σ κ ο ι} {es : List (MonitorMove ο ι)}
    (h : (M.machine ι shared).run (start ι shared) es = some s) (i : ι) :
    doneBy i (performed M shared (start ι shared) es) ++ inCall (s.threads i) =
      doneBy i (es.flatMap called) := by
  have hbalance := Machine.runIf_balance (fun s => inCall (s.threads i))
    (fun _ _ _ _ _ => trivial) (fun s e t _ hstep => through_turn (step_turn hstep) i) trivial h
  rw [performed, Machine.record_map rfl (doneBy_append i), hbalance, ← Machine.record_labels h,
    Machine.record_map rfl (doneBy_append i)]
  rfl

/-- What every body adds to a history, the operations got through have added to it. -/
theorem performed_history {α : Type} {shared : σ} (hist : σ → List α) (adds : ο → List α)
    {I : σ → Prop} (U : M.Units) (hI : ∀ o x, I x → M.Ready o x → I (M.body o x)) (h0 : I shared)
    (hadds : ∀ o x, I x → M.Ready o x → hist (M.body o x) = hist x ++ adds o)
    {s : MonitorState σ κ ο ι} {es : List (MonitorMove ο ι)}
    (h : (M.machine ι shared).run (start ι shared) es = some s) :
    hist s.shared = hist shared ++
      (performed M shared (start ι shared) es).flatMap fun p => adds p.2 := by
  have hinv := inv_inductive (ι := ι) U hI h0
  rw [performed, Machine.record_map rfl fun _ _ => List.flatMap_append]
  refine Machine.runIf_history (fun s : MonitorState σ κ ο ι => hist s.shared)
    (fun s e t hs => hinv.step s e t hs trivial) (fun s e t hs hstep => ?_) (hinv.init _ rfl) h
  have hsame : hist s.shared = hist s.shared ++ [] := (List.append_nil _).symm
  cases step_turn hstep with
  | call hp | wake hp => exact hsame
  | lock hp | relock hp | leave hp | block hp | unlock hp =>
    simp only [through, hp]
    exact hsame
  | @act i o woken conds hp =>
    simp only [through, hp, List.flatMap_singleton]
    exact hadds o s.shared hs.shared (hs.loopLeft i o hp)

end Lib.Monitor
