import MyNet.Base.FieldOrder
import Mathlib.Logic.Function.Basic

/-!
# Default names of threads

`Thread` objects are constructed by any number of threads. `setDefaultName` takes a number
from `m_ThreadNum`, an `AtomicInt32`, and makes a name of it when none was given; between the
two, others may take theirs.
-/
namespace MyNet.Base

open Lib Lib.Numeral

/-- `AtomicIntegerT<int32_t>`; every operation on `m_value` is one step. -/
structure AtomicInt32 where
  m_value : Int32

namespace AtomicInt32

def new : AtomicInt32 := ⟨0⟩

/-- `__sync_val_compare_and_swap` of 0 with 0 -/
def get (a : AtomicInt32) : Int32 × AtomicInt32 := (a.m_value, if a.m_value = 0 then ⟨0⟩ else a)

def addAndGet (a : AtomicInt32) (value : Int32) : Int32 × AtomicInt32 :=
  (a.m_value + value, ⟨a.m_value + value⟩)

def incAndGet (a : AtomicInt32) : Int32 × AtomicInt32 := a.addAndGet 1

end AtomicInt32

/-- A `Thread` object with the number it has taken. -/
structure NamedThread where
  /-- The name the constructor was given. -/
  given : List Byte
  m_name : List Byte
  num : Int32
  /-- Which call of `incAndGet` it was. -/
  ticket : Nat
  deriving DecidableEq

/-- The rest of `setDefaultName`, with its number. -/
def setDefaultName (o : NamedThread) : NamedThread :=
  if o.m_name = [] then { o with m_name := printed 32 (ascii "Thread" ++ decimal o.num.toInt) }
  else o

structure ThreadNaming (ι : Type) where
  m_ThreadNum : AtomicInt32
  calls : Nat
  /-- The object a thread is constructing. -/
  building : ι → Option NamedThread
  made : List NamedThread

inductive NamingMove (ι : Type) where
  /-- The constructor, up to `incAndGet`. -/
  | construct (i : ι) (name : List Byte)
  | setDefaultName (i : ι)

namespace ThreadNaming

variable {ι : Type} [DecidableEq ι]

def start : ThreadNaming ι := ⟨.new, 0, fun _ => none, []⟩

def step (s : ThreadNaming ι) : NamingMove ι → Option (ThreadNaming ι)
  | .construct i name =>
    if s.building i = none then
      let (num, m_ThreadNum) := s.m_ThreadNum.incAndGet
      some { s with
        m_ThreadNum := m_ThreadNum
        calls := s.calls + 1
        building := Function.update s.building i (some ⟨name, name, num, s.calls + 1⟩) }
    else none
  | .setDefaultName i =>
    (s.building i).map fun o =>
      { s with
        building := Function.update s.building i none
        made := s.made ++ [MyNet.Base.setDefaultName o] }

variable (ι) in
def naming : Machine (ThreadNaming ι) (NamingMove ι) where
  init s := s = start
  step := step

/-! ## The numbers -/

theorem ofNat_eq_iff (m n : Nat) : Int32.ofNat m = Int32.ofNat n ↔ m % 2 ^ 32 = n % 2 ^ 32 := by
  rw [← Int32.toInt_inj, Int32.toInt_ofNat', Int32.toInt_ofNat',
    Int.bmod_eq_bmod_iff_bmod_sub_eq_zero]
  have hsize : Int32.size = 4294967296 := rfl
  rw [hsize]
  constructor
  · intro h
    have hdvd := Int.dvd_of_bmod_eq_zero h
    omega
  · intro h
    refine Int.bmod_eq_zero_of_dvd ?_
    omega

/-- A number taken by a call of `incAndGet` not after the last. -/
structure Taken (calls : Nat) (o : NamedThread) : Prop where
  num : o.num = .ofNat o.ticket
  first : 1 ≤ o.ticket
  last : o.ticket ≤ calls

theorem Taken.mono {m n : Nat} {o : NamedThread} (h : Taken m o) (hle : m ≤ n) : Taken n o :=
  ⟨h.num, h.first, Nat.le_trans h.last hle⟩

/-- No number has been taken twice. -/
structure Numbered (s : ThreadNaming ι) : Prop where
  counter : s.m_ThreadNum.m_value = .ofNat s.calls
  building : ∀ i o, s.building i = some o → Taken s.calls o ∧ o.m_name = o.given
  made : ∀ o ∈ s.made, Taken s.calls o ∧ ∃ u, u.m_name = u.given ∧ o = setDefaultName u
  apart : ∀ i j o u, s.building i = some o → s.building j = some u → o.ticket = u.ticket → i = j
  new : ∀ i o, s.building i = some o → o.ticket ∉ s.made.map (·.ticket)
  once : (s.made.map (·.ticket)).Nodup

variable {s t : ThreadNaming ι}

theorem setDefaultName_keeps (o : NamedThread) :
    (setDefaultName o).ticket = o.ticket ∧ (setDefaultName o).num = o.num ∧
      (setDefaultName o).given = o.given := by
  unfold setDefaultName
  split <;> exact ⟨rfl, rfl, rfl⟩

theorem numbered_construct (h : s.Numbered) {i : ι} {name : List Byte}
    (hs : s.step (.construct i name) = some t) : t.Numbered := by
  simp only [step] at hs
  split at hs
  · next hidle =>
    obtain rfl := Option.some.inj hs
    have hnext : s.m_ThreadNum.m_value + 1 = Int32.ofNat (s.calls + 1) := by
      rw [h.counter, Int32.ofNat_add]
      rfl
    have hold (j : ι) (o : NamedThread) (hne : j ≠ i)
        (ho : Function.update s.building i
          (some ⟨name, name, s.m_ThreadNum.m_value + 1, s.calls + 1⟩) j = some o) :
        s.building j = some o := by
      rwa [Function.update_of_ne hne] at ho
    have hnew (o : NamedThread)
        (ho : Function.update s.building i
          (some ⟨name, name, s.m_ThreadNum.m_value + 1, s.calls + 1⟩) i = some o) :
        o = ⟨name, name, s.m_ThreadNum.m_value + 1, s.calls + 1⟩ := by
      rw [Function.update_self] at ho
      exact (Option.some.inj ho).symm
    refine ⟨hnext, fun j o ho => ?_, fun o ho => ?_, fun j k o u ho hu he => ?_,
      fun j o ho => ?_, h.once⟩
    · by_cases hj : j = i
      · subst hj
        rw [hnew o ho]
        exact ⟨⟨hnext, Nat.le_add_left 1 _, Nat.le_refl _⟩, rfl⟩
      · obtain ⟨htaken, hname⟩ := h.building j o (hold j o hj ho)
        exact ⟨htaken.mono (Nat.le_succ _), hname⟩
    · obtain ⟨htaken, hname⟩ := h.made o ho
      exact ⟨htaken.mono (Nat.le_succ _), hname⟩
    · by_cases hj : j = i
      · by_cases hk : k = i
        · exact hj.trans hk.symm
        · subst hj
          rw [hnew o ho] at he
          have hlast := (h.building k u (hold k u hk hu)).1.last
          exact absurd (he ▸ hlast) (Nat.not_succ_le_self _)
      · by_cases hk : k = i
        · subst hk
          rw [hnew u hu] at he
          have hlast := (h.building j o (hold j o hj ho)).1.last
          exact absurd (he ▸ hlast) (Nat.not_succ_le_self _)
        · exact h.apart j k o u (hold j o hj ho) (hold k u hk hu) he
    · by_cases hj : j = i
      · subst hj
        rw [hnew o ho]
        intro hmem
        obtain ⟨u, hu, he⟩ := List.mem_map.mp hmem
        exact absurd (he ▸ (h.made u hu).1.last) (Nat.not_succ_le_self _)
      · exact h.new j o (hold j o hj ho)
  · cases hs

theorem numbered_setDefaultName (h : s.Numbered) {i : ι}
    (hs : s.step (.setDefaultName i) = some t) : t.Numbered := by
  obtain ⟨o, ho, rfl⟩ := Option.map_eq_some_iff.mp hs
  obtain ⟨hticket, hnum, -⟩ := setDefaultName_keeps o
  obtain ⟨htaken, hgiven⟩ := h.building i o ho
  have hold (j : ι) (u : NamedThread) (hu : Function.update s.building i none j = some u) :
      j ≠ i ∧ s.building j = some u := by
    by_cases hj : j = i
    · subst hj
      rw [Function.update_self] at hu
      cases hu
    · exact ⟨hj, by rwa [Function.update_of_ne hj] at hu⟩
  refine ⟨h.counter, fun j u hu => h.building j u (hold j u hu).2, fun u hu => ?_,
    fun j k u v hu hv => h.apart j k u v (hold j u hu).2 (hold k v hv).2, fun j u hu => ?_, ?_⟩
  · rcases List.mem_append.mp hu with hmade | hlast
    · exact h.made u hmade
    · rw [List.mem_singleton.mp hlast]
      exact ⟨⟨hnum.trans (htaken.num.trans (congrArg _ hticket.symm)), hticket ▸ htaken.first,
        hticket ▸ htaken.last⟩, o, hgiven, rfl⟩
  · obtain ⟨hj, hbuilding⟩ := hold j u hu
    rw [List.map_append, List.mem_append, List.map_singleton, List.mem_singleton, hticket]
    rintro (hmade | hsame)
    · exact h.new j u hbuilding hmade
    · exact hj (h.apart j i u o hbuilding ho hsame)
  · rw [List.map_append, List.map_singleton, hticket]
    exact List.nodup_append.mpr ⟨h.once, List.nodup_singleton _, fun n hn m hm => by
      rw [List.mem_singleton.mp hm]
      exact fun he => h.new i o ho (he ▸ hn)⟩

theorem numbered_inductive : (naming ι).Inductive (fun _ _ => True) Numbered where
  init s hs := by
    obtain rfl : s = start := hs
    exact ⟨rfl, nofun, fun _ ho => absurd ho List.not_mem_nil, nofun, nofun, List.nodup_nil⟩
  step s m t h _ hs := by
    cases m with
    | construct i name => exact numbered_construct h hs
    | setDefaultName i => exact numbered_setDefaultName h hs

/-- The text of a number is never cut. -/
theorem setDefaultName_default {o : NamedThread} (h : o.m_name = []) :
    (setDefaultName o).m_name = ascii "Thread" ++ decimal o.num.toInt := by
  have hlow := o.num.le_toInt
  have hup := o.num.toInt_lt
  have hlength := (length_decimal_le 9 o.num.toInt).mpr (by norm_num; omega)
  have hthread : (ascii "Thread").length = 6 := rfl
  rw [setDefaultName, if_pos h, printed, List.take_of_length_le]
  rw [List.length_append, hthread]
  omega

omit [DecidableEq ι] in
/-- `Thread::threadNum` changes nothing, and shows the calls of `incAndGet` in an `int32_t`. -/
theorem threadNum_eq (h : s.Numbered) :
    s.m_ThreadNum.get = (.ofNat s.calls, s.m_ThreadNum) := by
  rw [AtomicInt32.get, h.counter]
  split
  · next hzero => rw [← hzero, ← h.counter]
  · rfl

/-- **Default names are told apart.** However the threads that construct objects take turns:
every object has its own call of `incAndGet`, and two objects without a given name have the same
name exactly when these calls are the same modulo 2^32. So the first 2^32 default names differ,
and `threadNum` shows how many objects there have been, modulo 2^32. -/
theorem default_names_differ (h : (naming ι).Reach s) :
    s.m_ThreadNum.get = (.ofNat s.calls, s.m_ThreadNum) ∧
      (s.made.map (·.ticket)).Nodup ∧
      (∀ o ∈ s.made, ∀ u ∈ s.made, o.given = [] → u.given = [] →
        (o.m_name = u.m_name ↔ o.ticket % 2 ^ 32 = u.ticket % 2 ^ 32)) ∧
      (s.calls < 2 ^ 32 → ((s.made.filter (·.given = [])).map (·.m_name)).Nodup) := by
  have hn := numbered_inductive.reach h
  have hnames : ∀ o ∈ s.made, ∀ u ∈ s.made, o.given = [] → u.given = [] →
      (o.m_name = u.m_name ↔ o.ticket % 2 ^ 32 = u.ticket % 2 ^ 32) := by
    intro o ho u hu hog hug
    have hname (o : NamedThread) (ho : o ∈ s.made) (hog : o.given = []) :
        o.m_name = ascii "Thread" ++ decimal (Int32.ofNat o.ticket).toInt := by
      obtain ⟨htaken, v, hv, rfl⟩ := hn.made o ho
      obtain ⟨hticket, hnum, hgiven⟩ := setDefaultName_keeps v
      rw [setDefaultName_default (hv.trans (hgiven.symm.trans hog)), ← htaken.num, hnum]
    rw [hname o ho hog, hname u hu hug, List.append_cancel_left_eq, ← ofNat_eq_iff,
      ← Int32.toInt_inj]
    exact ⟨decimal_inj, congrArg decimal⟩
  refine ⟨threadNum_eq hn, hn.once, hnames, fun hfew => ?_⟩
  have hdefaults : ((s.made.filter (·.given = [])).map (·.ticket)).Nodup :=
    hn.once.sublist (List.filter_sublist.map _)
  rw [List.Nodup, List.pairwise_map] at hdefaults ⊢
  refine hdefaults.imp_of_mem fun {o u} ho hu hne hsame => hne ?_
  obtain ⟨homade, hog⟩ := List.mem_filter.mp ho
  obtain ⟨humade, hug⟩ := List.mem_filter.mp hu
  have hmod := (hnames o homade u humade (of_decide_eq_true hog) (of_decide_eq_true hug)).mp hsame
  have holast := (hn.made o homade).1.last
  have hulast := (hn.made u humade).1.last
  rwa [Nat.mod_eq_of_lt (by omega), Nat.mod_eq_of_lt (by omega)] at hmod

/-- The second thread takes its number before the first has made its name. -/
theorem default_names_differ_two :
    ∃ s, (naming Bool).run start [.construct true [], .construct false [], .setDefaultName false,
        .setDefaultName true] = some s ∧
      s.made.map (·.m_name) = [ascii "Thread2", ascii "Thread1"] ∧
        (s.made.map (·.ticket)).Nodup := by
  have hrun : ∃ s, (naming Bool).run start [.construct true [], .construct false [],
      .setDefaultName false, .setDefaultName true] = some s ∧
      s.made.map (·.m_name) = [ascii "Thread2", ascii "Thread1"] := ⟨_, rfl, by decide⟩
  obtain ⟨s, hrun, hnames⟩ := hrun
  exact ⟨s, hrun, hnames,
    (default_names_differ (Machine.reachIf_of_runIf (.init rfl) hrun)).2.1⟩

end ThreadNaming
end MyNet.Base
