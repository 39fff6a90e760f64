import Mathlib.Data.Finset.Card

/-!
# Condition variables and their wait sets

A thread blocked in a wait is `asleep` until a signal, a broadcast or a spurious
wake-up. A signalled thread is `notified` until it has the mutex again. Signal
wakes one sleeper of the environment's choice and does nothing when there is none.

`Covered n` is the counting invariant of the usual wait loop: if anybody sleeps,
then the `n` units a waiter could take are covered by waiters already notified.
Its rules say what each operation does to the count, so that a monitor only has to
track `n`.
-/
namespace Lib

universe u

structure CondVar (ι : Type u) where
  asleep : Finset ι
  notified : Finset ι
  disjoint : Disjoint asleep notified

namespace CondVar

variable {ι : Type u}

def empty : CondVar ι := ⟨∅, ∅, Finset.disjoint_empty_left _⟩

/-- If a thread sleeps, the notified threads cover `n` units. -/
def Covered (n : Nat) (cv : CondVar ι) : Prop := cv.asleep.Nonempty → n ≤ cv.notified.card

theorem covered_zero (cv : CondVar ι) : Covered 0 cv := fun _ => Nat.zero_le _

theorem covered_of_asleep {cv : CondVar ι} (h : cv.asleep = ∅) (n : Nat) : Covered n cv := by
  intro hn
  rw [h] at hn
  exact absurd hn Finset.not_nonempty_empty

theorem Covered.mono {m n : Nat} {cv : CondVar ι} (h : Covered n cv) (hm : m ≤ n) :
    Covered m cv := fun ha => hm.trans (h ha)

/-- With a unit left and a sleeper, some waiter is notified. -/
theorem Covered.notified_nonempty {n : Nat} {cv : CondVar ι} (h : Covered n cv) (hn : 0 < n)
    (ha : cv.asleep.Nonempty) : cv.notified.Nonempty := by
  have hc := h ha
  exact Finset.card_pos.mp (by omega)

variable [DecidableEq ι]

/-- Thread `i` blocks; a pending notification of its own is spent. -/
def sleep (cv : CondVar ι) (i : ι) : CondVar ι where
  asleep := insert i cv.asleep
  notified := cv.notified.erase i
  disjoint := by
    rw [Finset.disjoint_insert_left]
    exact ⟨Finset.notMem_erase i _, cv.disjoint.mono_right (Finset.erase_subset i _)⟩

private theorem disjoint_notify (cv : CondVar ι) (i : ι) :
    Disjoint (cv.asleep.erase i) (insert i cv.notified) := by
  rw [Finset.disjoint_insert_right]
  exact ⟨Finset.notMem_erase i _, cv.disjoint.mono_left (Finset.erase_subset i _)⟩

/-- Wake one sleeper, or nobody if nobody sleeps; `choice` is the sleeper woken. -/
def signal (cv : CondVar ι) : Option ι → Option (CondVar ι)
  | none => if cv.asleep = ∅ then some cv else none
  | some i =>
    if i ∈ cv.asleep then
      some ⟨cv.asleep.erase i, insert i cv.notified, disjoint_notify cv i⟩
    else none

def broadcast (cv : CondVar ι) : CondVar ι :=
  ⟨∅, cv.asleep ∪ cv.notified, Finset.disjoint_empty_left _⟩

/-- A sleeper wakes up without having been notified. -/
def wake (cv : CondVar ι) (i : ι) : CondVar ι where
  asleep := cv.asleep.erase i
  notified := cv.notified
  disjoint := cv.disjoint.mono_left (Finset.erase_subset i _)

/-- A woken thread has the mutex again. -/
def resume (cv : CondVar ι) (i : ι) : CondVar ι where
  asleep := cv.asleep
  notified := cv.notified.erase i
  disjoint := cv.disjoint.mono_right (Finset.erase_subset i _)

/-- What a signal does: there was nobody to wake, or one sleeper is now notified. -/
theorem signal_cases {cv cv' : CondVar ι} {choice : Option ι}
    (h : cv.signal choice = some cv') :
    (choice = none ∧ cv.asleep = ∅ ∧ cv' = cv) ∨
    (∃ i ∈ cv.asleep, choice = some i ∧ cv'.asleep = cv.asleep.erase i ∧
      cv'.notified = insert i cv.notified) := by
  cases choice with
  | none =>
    by_cases he : cv.asleep = ∅
    · rw [signal, if_pos he] at h
      exact Or.inl ⟨rfl, he, (Option.some.inj h).symm⟩
    · rw [signal, if_neg he] at h
      cases h
  | some i =>
    by_cases hi : i ∈ cv.asleep
    · rw [signal, if_pos hi] at h
      obtain rfl := Option.some.inj h
      exact Or.inr ⟨i, hi, rfl, rfl, rfl⟩
    · rw [signal, if_neg hi] at h
      cases h

/-- A signal only removes sleepers. -/
theorem asleep_signal {cv cv' : CondVar ι} {choice : Option ι}
    (h : cv.signal choice = some cv') : cv'.asleep ⊆ cv.asleep := by
  rcases signal_cases h with ⟨-, -, rfl⟩ | ⟨i, -, -, ha, -⟩
  · exact Finset.Subset.refl _
  · rw [ha]
    exact Finset.erase_subset i _

theorem exists_signal (cv : CondVar ι) : ∃ choice cv', cv.signal choice = some cv' := by
  rcases cv.asleep.eq_empty_or_nonempty with he | ⟨i, hi⟩
  · exact ⟨none, cv, if_pos he⟩
  · exact ⟨some i, _, if_pos hi⟩

/-- One more unit and one more signal. -/
theorem Covered.signal {n : Nat} {cv cv' : CondVar ι} {choice : Option ι} (h : Covered n cv)
    (hs : cv.signal choice = some cv') : Covered (n + 1) cv' := by
  rcases signal_cases hs with ⟨-, he, rfl⟩ | ⟨i, hi, -, ha, hn⟩
  · exact covered_of_asleep he _
  · intro _
    have hfresh : i ∉ cv.notified := Finset.disjoint_left.mp cv.disjoint hi
    rw [hn, Finset.card_insert_of_notMem hfresh]
    exact Nat.succ_le_succ (h ⟨i, hi⟩)

/-- A spurious wake-up leaves fewer sleepers and the same notifications. -/
theorem Covered.wake {n : Nat} {cv : CondVar ι} (h : Covered n cv) (i : ι) :
    Covered n (cv.wake i) := by
  intro ha
  exact h (ha.mono (Finset.erase_subset i _))

/-- A waiter that resumes may have been one of the notified ones, so one unit less
is covered. -/
theorem Covered.resume {n : Nat} {cv : CondVar ι} (h : Covered (n + 1) cv) (i : ι) :
    Covered n (cv.resume i) := by
  intro ha
  have hc : cv.notified.card - 1 ≤ (cv.notified.erase i).card := Finset.pred_card_le_card_erase
  have hn := h ha
  change n ≤ (cv.notified.erase i).card
  omega

end CondVar
end Lib
