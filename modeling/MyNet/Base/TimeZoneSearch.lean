import MyNet.Base.TimeZoneSafety
import MyNet.Lib.Bisect

/-!
# The transition in force

On transitions that are strictly increasing in the key it compares, `findLocalTime` gives what
a scan of all of them gives: the type of the last one that is not after the sentry, and the
first type of the zone before all of them.
-/
namespace MyNet.Base

open Lib.Bisect

/-- What `Comp` compares. -/
def Comp.key (comp : Comp) (t : Transition) : Int :=
  if comp.compareGMT then t.gmtime else t.localtime

theorem Comp.less_iff (comp : Comp) (a b : Transition) :
    comp.less a b = true ↔ comp.key a < comp.key b := by
  obtain ⟨gmt⟩ := comp
  cases gmt <;> simp [Comp.less, Comp.key]

theorem Comp.equal_iff (comp : Comp) (a b : Transition) :
    comp.equal a b = true ↔ comp.key a = comp.key b := by
  obtain ⟨gmt⟩ := comp
  cases gmt <;> simp [Comp.equal, Comp.key]

theorem Comp.not_less_iff (comp : Comp) (a b : Transition) :
    comp.less a b = false ↔ comp.key b ≤ comp.key a := by
  rw [← Bool.not_eq_true, comp.less_iff]
  omega

/-- The transitions are strictly increasing in the key. -/
def Increasing (comp : Comp) (transitions : List Transition) : Prop :=
  transitions.Pairwise fun a b => comp.key a < comp.key b

/-- The scan: the last transition whose key is not after that of the sentry. -/
def lastNotAfter (comp : Comp) (sentry : Transition) (transitions : List Transition) :
    Option Transition :=
  (transitions.filter fun t => comp.key t ≤ comp.key sentry).getLast?

theorem Increasing.downward {comp : Comp} {transitions : List Transition}
    (h : Increasing comp transitions) (sentry : Transition) :
    Downward (comp.less · sentry) transitions := by
  apply List.Pairwise.imp _ h
  intro a b hab hb
  rw [comp.less_iff] at hb ⊢
  omega

theorem Increasing.key_lt {comp : Comp} {transitions : List Transition}
    (h : Increasing comp transitions) {i j : Nat} (hij : i < j) (hj : j < transitions.length) :
    comp.key transitions[i] < comp.key transitions[j] :=
  List.pairwise_iff_getElem.mp h i j (by omega) hj hij

/-- The halving closes its window at the first transition that is not before the sentry. -/
theorem lower_bound_window {transitions : List Transition} {comp : Comp} {sentry : Transition}
    (hsorted : Downward (comp.less · sentry) transitions) (first len : Nat)
    (h : Window (comp.less · sentry) transitions first len) :
    ∃ k, lower_bound transitions sentry comp first len = .ok k ∧
      Window (comp.less · sentry) transitions k 0 := by
  induction first, len using lower_bound.induct with
  | case1 first =>
    refine ⟨first, ?_, h⟩
    rw [lower_bound, if_pos rfl]
  | case2 first len hlen half ihright ihleft =>
    have hhalf : half < len := Nat.div_lt_self (Nat.pos_of_ne_zero hlen) (by decide)
    have hmiddle : first + half < transitions.length := by
      have hwithin := h.within
      omega
    rw [lower_bound, if_neg hlen]
    show ∃ k, (at_ transitions (first + half) >>= _) = _ ∧ _
    rw [at_lt hmiddle]
    cases hless : comp.less transitions[first + half] sentry with
    | true =>
      obtain ⟨k, hk, hwindow⟩ := ihright (h.right hsorted hhalf hmiddle hless)
      refine ⟨k, ?_, hwindow⟩
      simpa only [bind, Except.bind, hless, if_true] using hk
    | false =>
      obtain ⟨k, hk, hwindow⟩ := ihleft (h.left hsorted hmiddle hless)
      refine ⟨k, ?_, hwindow⟩
      simpa only [bind, Except.bind, hless, Bool.false_eq_true, if_false] using hk

variable {comp : Comp} {transitions : List Transition} {sentry : Transition} {k : Nat}

/-- A transition at the sentry is the last one that is not after it. -/
theorem lastNotAfter_at (hinc : Increasing comp transitions)
    (h : Window (comp.less · sentry) transitions k 0) (hk : k < transitions.length)
    (hequal : comp.key sentry = comp.key transitions[k]) :
    lastNotAfter comp sentry transitions = some transitions[k] := by
  have hwindow : Window (fun t => comp.key t ≤ comp.key sentry) transitions (k + 1) 0 := by
    refine ⟨hk, ?_, ?_⟩
    · intro i hi hbefore
      apply decide_eq_true
      by_cases hik : i = k
      · subst hik
        omega
      · have hlt := hinc.key_lt (show i < k by omega) hk
        omega
    · intro i hi hbehind
      apply decide_eq_false
      have hlt := hinc.key_lt (show k < i by omega) hi
      omega
  rw [lastNotAfter, hwindow.getLast?_filter, List.getElem?_eq_getElem hk]

/-- Without a transition at the sentry it is the one before the first that is after it. -/
theorem lastNotAfter_before
    (h : Window (comp.less · sentry) transitions (k + 1) 0)
    (hequal : ∀ hk : k + 1 < transitions.length, comp.key sentry ≠ comp.key transitions[k + 1])
    (hinc : Increasing comp transitions) (hk : k < transitions.length) :
    lastNotAfter comp sentry transitions = some transitions[k] := by
  have hwindow : Window (fun t => comp.key t ≤ comp.key sentry) transitions (k + 1) 0 := by
    refine ⟨hk, ?_, ?_⟩
    · intro i hi hbefore
      have hless := (comp.less_iff _ _).mp (h.before i hi hbefore)
      exact decide_eq_true (by omega)
    · intro i hi hbehind
      have hnext : k + 1 < transitions.length := by omega
      have hnot := (comp.not_less_iff _ _).mp (h.behind (k + 1) hnext (Nat.le_refl _))
      have hne := hequal hnext
      apply decide_eq_false
      by_cases hik : i = k + 1
      · subst hik
        omega
      · have hlt := hinc.key_lt (show k + 1 < i by omega) hi
        omega
  rw [lastNotAfter, hwindow.getLast?_filter, List.getElem?_eq_getElem hk]

/-- Before the front transition there is none. -/
theorem lastNotAfter_none {front : Transition} {later : List Transition}
    (hinc : Increasing comp (front :: later)) (hbefore : comp.less sentry front = true) :
    lastNotAfter comp sentry (front :: later) = none := by
  have hfront := (comp.less_iff _ _).mp hbefore
  rw [lastNotAfter, List.getLast?_eq_none_iff, List.filter_eq_nil_iff]
  intro t ht
  rw [decide_eq_true_eq]
  rcases List.mem_cons.mp ht with rfl | hlater
  · omega
  · have hlt := List.rel_of_pairwise_cons hinc hlater
    omega

/-! ## What is made of the place where the halving ended -/

section Place

variable {data : TimeZoneData} {front : Transition} {later : List Transition}

/-- The transition there, if it is at the sentry. -/
theorem findLocalTime_at (htransitions : data.transitions = front :: later)
    (hbefore : ¬comp.less sentry front = true)
    (hk : lower_bound data.transitions sentry comp 0 data.transitions.length = .ok k)
    (hlt : k < data.transitions.length)
    (hequal : comp.key sentry = comp.key data.transitions[k]) :
    findLocalTime data sentry comp = at_ data.localtimes data.transitions[k].localtimeIdx := by
  unfold findLocalTime
  split
  next hnil =>
    rw [hnil] at htransitions
    cases htransitions
  next front' later' hcons =>
    obtain ⟨rfl, rfl⟩ := List.cons.inj (hcons.symm.trans htransitions)
    rw [if_neg hbefore, hk]
    simp only [bind, Except.bind]
    rw [if_pos (Nat.ne_of_lt hlt)]
    simp only [at_lt hlt, if_pos ((comp.equal_iff _ _).mpr hequal)]

/-- The one before it, if there is none at the sentry. -/
theorem findLocalTime_before (htransitions : data.transitions = front :: later)
    (hbefore : ¬comp.less sentry front = true)
    (hk : lower_bound data.transitions sentry comp 0 data.transitions.length = .ok (k + 1))
    (hlast : k + 1 ≤ data.transitions.length)
    (hequal : ∀ hlt : k + 1 < data.transitions.length,
      comp.key sentry ≠ comp.key data.transitions[k + 1]) :
    findLocalTime data sentry comp = at_ data.localtimes data.transitions[k].localtimeIdx := by
  have hlt : k < data.transitions.length := hlast
  unfold findLocalTime
  split
  next hnil =>
    rw [hnil] at htransitions
    cases htransitions
  next front' later' hcons =>
    obtain ⟨rfl, rfl⟩ := List.cons.inj (hcons.symm.trans htransitions)
    rw [if_neg hbefore, hk]
    simp only [bind, Except.bind]
    by_cases hend : k + 1 = data.transitions.length
    · have hback : data.transitions.length - 1 = k := by omega
      rw [if_neg (not_not_intro hend)]
      simp only [hback, at_lt hlt]
    · have hnext : k + 1 < data.transitions.length := by omega
      have hunequal : ¬comp.equal sentry data.transitions[k + 1] = true :=
        fun h => hequal hnext ((comp.equal_iff _ _).mp h)
      rw [if_pos hend]
      simp only [at_lt hnext, if_neg hunequal, if_neg (Nat.succ_ne_zero k), Nat.add_sub_cancel,
        at_lt hlt]

/-- The halving does not end at a front transition that it passes or finds at the sentry. -/
theorem place_ne_zero (htransitions : data.transitions = front :: later)
    (hbefore : ¬comp.less sentry front = true)
    (h : Window (comp.less · sentry) data.transitions k 0)
    (hequal : ∀ hlt : k < data.transitions.length,
      comp.key sentry ≠ comp.key data.transitions[k]) : k ≠ 0 := by
  rintro rfl
  have hpos : 0 < data.transitions.length := by simp [htransitions]
  have hfront : data.transitions[0] = front := by simp [htransitions]
  have hnot := (comp.not_less_iff _ _).mp (h.behind 0 hpos (Nat.le_refl _))
  have hfrontNot := (comp.not_less_iff _ _).mp (Bool.not_eq_true _ ▸ hbefore)
  have hne := hequal hpos
  rw [hfront] at hnot hne
  omega

end Place

/-- **`findLocalTime` is the scan.** -/
theorem findLocalTime_scan (data : TimeZoneData) (husable : Usable data) (comp : Comp)
    (hinc : Increasing comp data.transitions) (sentry : Transition) :
    ∃ l, findLocalTime data sentry comp = .ok l ∧
      match lastNotAfter comp sentry data.transitions with
      | some t => data.localtimes[t.localtimeIdx]? = some l
      | none => data.localtimes.head? = some l := by
  have hzero : at_ data.localtimes 0 = .ok (data.localtimes.head husable.localtimes_nonempty) := by
    rw [at_lt (List.length_pos_iff.mpr husable.localtimes_nonempty), List.head_eq_getElem]
  have hhead := List.head?_eq_some_head husable.localtimes_nonempty
  have hindex {i : Nat} (hi : i < data.transitions.length) :
      data.transitions[i].localtimeIdx < data.localtimes.length :=
    husable.index_lt _ (List.getElem_mem hi)
  cases htransitions : data.transitions with
  | nil =>
    refine ⟨_, ?_, hhead⟩
    rw [findLocalTime, htransitions]
    exact hzero
  | cons front later =>
    by_cases hbefore : comp.less sentry front = true
    · rw [lastNotAfter_none (htransitions ▸ hinc) hbefore]
      refine ⟨_, ?_, hhead⟩
      rw [findLocalTime, htransitions]
      exact (if_pos hbefore).trans hzero
    obtain ⟨k, hk, hwindow⟩ := lower_bound_window (hinc.downward sentry) 0
      data.transitions.length (Window.whole _ _)
    have hlast := hwindow.within
    rw [← htransitions]
    by_cases hat : ∃ hlt : k < data.transitions.length,
        comp.key sentry = comp.key data.transitions[k]
    · obtain ⟨hlt, hequal⟩ := hat
      rw [findLocalTime_at htransitions hbefore hk hlt hequal,
        lastNotAfter_at hinc hwindow hlt hequal]
      exact ⟨_, at_lt (hindex hlt), List.getElem?_eq_getElem (hindex hlt)⟩
    · have hequal := not_exists.mp hat
      obtain ⟨j, rfl⟩ := Nat.exists_eq_succ_of_ne_zero
        (place_ne_zero htransitions hbefore hwindow hequal)
      rw [findLocalTime_before htransitions hbefore hk hlast hequal,
        lastNotAfter_before hwindow hequal hinc hlast]
      exact ⟨_, at_lt (hindex hlast), List.getElem?_eq_getElem (hindex hlast)⟩

/-- Summer time from 10 to 20. -/
def oneSummer : TimeZoneData :=
  ⟨[⟨10, 10, 1⟩, ⟨20, 3620, 0⟩], [⟨0, false, 0⟩, ⟨3600, true, 4⟩], []⟩

theorem findLocalTime_scan_summer :
    ∃ l, findLocalTime oneSummer ⟨15, 0, 0⟩ ⟨true⟩ = .ok l ∧
      match lastNotAfter ⟨true⟩ ⟨15, 0, 0⟩ oneSummer.transitions with
      | some t => oneSummer.localtimes[t.localtimeIdx]? = some l
      | none => oneSummer.localtimes.head? = some l := by
  apply findLocalTime_scan oneSummer ⟨by decide, by decide⟩
  unfold Increasing
  decide

end MyNet.Base
