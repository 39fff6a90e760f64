import MyNet.Lib.Monitor

/-!
# Who waits where in a monitor

A thread in the wait set of a condition variable is in the `wait` of its own loop. A thread
woken by a signal counts as notified until it runs its body or sleeps again.
-/
namespace Lib

namespace Monitor

variable {σ κ ο ι : Type} [DecidableEq κ] [DecidableEq ι] {M : Monitor σ κ ο}

/-- A waiter on `k` that was notified and has not run its body or slept again. -/
def Pending (M : Monitor σ κ ο) (k : κ) : Phase κ ο → Prop
  | .waiting k' _ => k' = k
  | .testing o | .acting o => ∃ blocked, M.loop o = some (k, blocked)
  | .idle | .locking _ | .unlocking => False

structure Waiters (M : Monitor σ κ ο) (conds : κ → CondVar ι) (threads : ι → Phase κ ο) :
    Prop where
  asleep : ∀ i k, i ∈ (conds k).asleep → ∃ o, threads i = .waiting k o
  notified : ∀ i k, i ∈ (conds k).notified → M.Pending k (threads i)
  loop : ∀ i k o, threads i = .waiting k o → ∃ blocked, M.loop o = some (k, blocked)

section Waiters

variable {conds conds' : κ → CondVar ι} {threads : ι → Phase κ ο} {i : ι}

omit [DecidableEq κ] [DecidableEq ι] in
theorem Waiters.not_asleep (h : Waiters M conds threads)
    (hi : ∀ k o, threads i ≠ .waiting k o) (k : κ) : i ∉ (conds k).asleep := by
  intro ha
  obtain ⟨o, ho⟩ := h.asleep i k ha
  exact hi k o ho

omit [DecidableEq κ] in
/-- A thread that does not sleep moves on. -/
theorem Waiters.move (h : Waiters M conds threads) {p : Phase κ ο}
    (hi : ∀ k, i ∉ (conds k).asleep) (hp : ∀ k, i ∈ (conds k).notified → M.Pending k p)
    (hw : ∀ k o, p ≠ .waiting k o) : Waiters M conds (Function.update threads i p) where
  asleep j k hj := by
    obtain ⟨o, ho⟩ := h.asleep j k hj
    have hij : j ≠ i := fun he => hi k (he ▸ hj)
    exact ⟨o, (Function.update_of_ne hij _ _).trans ho⟩
  notified j k hj := by
    by_cases hij : j = i
    · subst j
      rw [Function.update_self]
      exact hp k hj
    · rw [Function.update_of_ne hij]
      exact h.notified j k hj
  loop j k o hj := by
    by_cases hij : j = i
    · subst j
      rw [Function.update_self] at hj
      exact absurd hj (hw k o)
    · rw [Function.update_of_ne hij] at hj
      exact h.loop j k o hj

omit [DecidableEq κ] [DecidableEq ι] in
/-- Sleepers wake up or are notified, and notifications are spent. -/
theorem Waiters.rouse (h : Waiters M conds threads)
    (ha : ∀ k, (conds' k).asleep ⊆ (conds k).asleep)
    (hn : ∀ j k, j ∈ (conds' k).notified → j ∈ (conds k).notified ∨ j ∈ (conds k).asleep) :
    Waiters M conds' threads where
  asleep j k hj := h.asleep j k (ha k hj)
  notified j k hj := by
    rcases hn j k hj with hk | hk
    · exact h.notified j k hk
    · obtain ⟨o, ho⟩ := h.asleep j k hk
      rw [ho]
      exact rfl
  loop := h.loop

theorem Waiters.wake (h : Waiters M conds threads) (k : κ) (i : ι) :
    Waiters M (Function.update conds k ((conds k).wake i)) threads := by
  refine h.rouse (fun k' => ?_) fun j k' hj => ?_
  · by_cases hk : k' = k
    · subst k'
      rw [Function.update_self]
      exact Finset.erase_subset i _
    · rw [Function.update_of_ne hk]
  · by_cases hk : k' = k
    · subst k'
      rw [Function.update_self] at hj
      exact Or.inl hj
    · rw [Function.update_of_ne hk] at hj
      exact Or.inl hj

/-- A thread at the test of its loop goes to sleep. -/
theorem Waiters.block (h : Waiters M conds threads) {k : κ} {o : ο} {blocked : σ → Bool}
    (hp : threads i = .testing o) (hl : M.loop o = some (k, blocked)) :
    Waiters M (Function.update conds k ((conds k).sleep i))
      (Function.update threads i (.waiting k o)) where
  asleep j k' hj := by
    by_cases hij : j = i
    · subst j
      by_cases hk : k' = k
      · subst k'
        exact ⟨o, Function.update_self ..⟩
      · rw [Function.update_of_ne hk] at hj
        exact absurd hj (h.not_asleep (fun _ _ => by rw [hp]; nofun) k')
    · rw [Function.update_of_ne hij]
      by_cases hk : k' = k
      · subst k'
        rw [Function.update_self] at hj
        exact h.asleep j k (Finset.mem_of_mem_insert_of_ne hj hij)
      · rw [Function.update_of_ne hk] at hj
        exact h.asleep j k' hj
  notified j k' hj := by
    by_cases hk : k' = k
    · subst k'
      rw [Function.update_self] at hj
      obtain ⟨hij, hj⟩ := Finset.mem_erase.mp hj
      rw [Function.update_of_ne hij]
      exact h.notified j k hj
    · rw [Function.update_of_ne hk] at hj
      have hn := h.notified j k' hj
      by_cases hij : j = i
      · subst j
        rw [hp] at hn
        obtain ⟨blocked', hl'⟩ := hn
        rw [hl] at hl'
        cases hl'
        exact absurd rfl hk
      · rw [Function.update_of_ne hij]
        exact hn
  loop j k' o' hj := by
    by_cases hij : j = i
    · subst j
      rw [Function.update_self] at hj
      cases hj
      exact ⟨blocked, hl⟩
    · rw [Function.update_of_ne hij] at hj
      exact h.loop j k' o' hj

/-- What a body does to the condition variables before it notifies: no sleeper is
touched, and thread `i` has no notification left of those it could have had. -/
theorem spend_asleep (o : ο) (k : κ) :
    (M.spend o i conds k).asleep = (conds k).asleep := by
  cases hl : M.loop o with
  | none => simp only [spend, hl]
  | some w =>
    simp only [spend, hl]
    by_cases hk : k = w.1
    · subst k
      rw [Function.update_self]
      rfl
    · rw [Function.update_of_ne hk]

theorem spend_notified {o : ο} {j : ι} {k : κ} (hj : j ∈ (M.spend o i conds k).notified) :
    j ∈ (conds k).notified ∧ ¬ (j = i ∧ ∃ blocked, M.loop o = some (k, blocked)) := by
  cases hl : M.loop o with
  | none =>
    simp only [spend, hl] at hj
    exact ⟨hj, fun ⟨_, _, hk⟩ => nomatch hk⟩
  | some w =>
    simp only [spend, hl] at hj
    by_cases hk : k = w.1
    · subst k
      rw [Function.update_self] at hj
      obtain ⟨hij, hj⟩ := Finset.mem_erase.mp hj
      exact ⟨hj, fun h => hij h.1⟩
    · rw [Function.update_of_ne hk] at hj
      refine ⟨hj, fun ⟨_, _, hw⟩ => hk ?_⟩
      rw [Option.some.inj hw]

omit [DecidableEq κ] in
/-- The condition variable that is notified, if any, after the signal. -/
theorem signal_mem {cv cv' : CondVar ι} {woken : Option ι} (h : cv.signal woken = some cv')
    {j : ι} (hj : j ∈ cv'.notified) : j ∈ cv.notified ∨ j ∈ cv.asleep := by
  rcases CondVar.signal_cases h with ⟨-, -, rfl⟩ | ⟨w, hw, -, -, hn⟩
  · exact Or.inl hj
  · rw [hn] at hj
    rcases Finset.mem_insert.mp hj with rfl | hj
    · exact Or.inr hw
    · exact Or.inl hj

theorem notify_mem {o : ο} {woken : Option ι} (h : M.notify o woken conds = some conds') :
    (∀ k, (conds' k).asleep ⊆ (conds k).asleep) ∧
    ∀ j k, j ∈ (conds' k).notified → j ∈ (conds k).notified ∨ j ∈ (conds k).asleep := by
  unfold notify at h
  split at h
  · obtain rfl := Option.some.inj h
    exact ⟨fun _ => Finset.Subset.refl _, fun _ _ hj => Or.inl hj⟩
  · next k' hk' =>
    obtain ⟨cv, hs, rfl⟩ := Option.map_eq_some_iff.mp h
    constructor
    · intro k
      by_cases hk : k = k'
      · subst k'
        rw [Function.update_self]
        exact CondVar.asleep_signal hs
      · rw [Function.update_of_ne hk]
    · intro j k hj
      by_cases hk : k = k'
      · subst k'
        rw [Function.update_self] at hj
        exact signal_mem hs hj
      · rw [Function.update_of_ne hk] at hj
        exact Or.inl hj

end Waiters

theorem waiters_turn {s t : MonitorState σ κ ο ι} {e : MonitorMove ο ι}
    (h : Waiters M s.conds s.threads) (ht : Turn M s e t) : Waiters M t.conds t.threads := by
  cases ht with
  | call hp | lock hp | unlock hp =>
    refine h.move (h.not_asleep fun _ _ => by rw [hp]; nofun) (fun k hk => ?_) nofun
    have hn := h.notified _ k hk
    rw [hp] at hn
    exact absurd hn id
  | @relock i k o woken hp ha =>
    obtain ⟨blocked, hl⟩ := h.loop i k o hp
    refine h.move (fun k' hk' => ?_) (fun k' hk' => ?_) nofun
    · obtain ⟨o', ho'⟩ := h.asleep i k' hk'
      rw [hp] at ho'
      cases ho'
      exact ha hk'
    · have hn := h.notified i k' hk'
      rw [hp] at hn
      obtain rfl : k = k' := hn
      exact ⟨blocked, hl⟩
  | leave hp =>
    refine h.move (h.not_asleep fun _ _ => by rw [hp]; nofun) (fun k hk => ?_) nofun
    have hn := h.notified _ k hk
    rw [hp] at hn
    exact hn
  | block hp hl => exact h.block hp hl
  | @act i o woken conds hp hn =>
    have hspent : Waiters M (M.spend o i s.conds) s.threads :=
      h.rouse (fun k => (spend_asleep o k).le) fun j k hj => Or.inl (spend_notified hj).1
    obtain ⟨ha, hnot⟩ := notify_mem hn
    have hnone : ∀ k, i ∉ (s.conds k).asleep := h.not_asleep fun _ _ => by rw [hp]; nofun
    refine (hspent.rouse ha hnot).move (fun k hk => ?_) (fun k hk => ?_) nofun
    · have hk' := ha k hk
      rw [spend_asleep] at hk'
      exact hnone k hk'
    · rcases hnot i k hk with hk' | hk'
      · obtain ⟨hmem, hfree⟩ := spend_notified hk'
        have hpend := h.notified i k hmem
        rw [hp] at hpend
        exact absurd ⟨rfl, hpend⟩ hfree
      · rw [spend_asleep] at hk'
        exact absurd hk' (hnone k)
  | wake hp ha => exact h.wake _ _

end Monitor
end Lib
