import MyNet.Base.FieldOrder
import MyNet.Base.LoggingTime

/-!
# The cached id of a thread

`tid()` asks the kernel once and keeps the answer in a thread-local variable. A `fork` copies
the variables of the thread that calls it, with an id that is not the child's; the handler
`afterFork` is there to renew them.
-/
namespace MyNet.Base

open Lib

/-- A thread: what the kernel knows of it, and its thread-local variables. -/
structure ThreadVars where
  gettid : Int32
  getpid : Int32
  t_cachedtid : Int32
  t_threadname : List Byte
  /-- The array up to its first NUL. -/
  t_tidString : List Byte
  t_tidStringLength : Nat
  deriving DecidableEq

namespace ThreadVars

/-- The variables a new thread begins with. -/
def init (gettid getpid : Int32) : ThreadVars := ⟨gettid, getpid, 0, ascii "default", [], 6⟩

def cacheTid (v : ThreadVars) : ThreadVars :=
  if v.t_cachedtid = 0 then
    { v with
      t_cachedtid := v.gettid
      t_tidString := printed 32 (tidString v.gettid)
      t_tidStringLength := (tidString v.gettid).length }
  else v

def tid (v : ThreadVars) : Int32 × ThreadVars :=
  let v := if v.t_cachedtid = 0 then v.cacheTid else v
  (v.t_cachedtid, v)

def afterFork (v : ThreadVars) : ThreadVars :=
  (tid { v with t_cachedtid := 0, t_threadname := ascii "main" }).2

def isMainThread (v : ThreadVars) : Bool × ThreadVars :=
  (v.tid.1 = v.tid.2.getpid, v.tid.2)

/-- `ThreadNameInitializer`, in the thread that `main` will run in. -/
def initializer (v : ThreadVars) : ThreadVars := (tid { v with t_threadname := ascii "main" }).2

end ThreadVars

/-- All threads of the process and of the processes forked from it. -/
abbrev ProcessTree := List ThreadVars

inductive ThreadEvent where
  /-- The thread at `i` calls `tid()`. -/
  | tid (i : Nat)
  | isMainThread (i : Nat)
  /-- It makes a thread, to which the kernel gives an id. -/
  | create (i : Nat) (gettid : Int32)
  /-- It forks; the child's one thread has the child's id. -/
  | fork (i : Nat) (getpid : Int32)
  | exit (i : Nat)

namespace ProcessTree

/-- The kernel gives no id that is not positive or that a thread has. -/
def Free (s : ProcessTree) (id : Int32) : Prop := 0 < id ∧ id ∉ s.map (·.gettid)

instance (s : ProcessTree) (id : Int32) : Decidable (Free s id) :=
  inferInstanceAs (Decidable (_ ∧ _))

def step (s : ProcessTree) : ThreadEvent → Option ProcessTree
  | .tid i => s[i]?.map fun v => s.set i v.tid.2
  | .isMainThread i => s[i]?.map fun v => s.set i v.isMainThread.2
  | .create i gettid =>
    if Free s gettid then s[i]?.map fun v => s ++ [.init gettid v.getpid] else none
  | .fork i getpid =>
    if Free s getpid then
      s[i]?.map fun v =>
        s ++ [({ v with gettid := getpid, getpid := getpid } : ThreadVars).afterFork]
    else none
  | .exit i => s[i]?.map fun _ => s.eraseIdx i

/-- A process with one thread. -/
def start (getpid : Int32) : ProcessTree := [(ThreadVars.init getpid getpid).initializer]

def threads : Machine ProcessTree ThreadEvent where
  init s := ∃ getpid : Int32, 0 < getpid ∧ s = start getpid
  step := step

end ProcessTree

/-! ## What is cached -/

theorem length_tidString (id : Int32) : (tidString id).length ≤ 12 := by
  have hlow := id.le_toInt
  have hup := id.toInt_lt
  have hlength := (length_decimal_le 9 id.toInt).mpr (by norm_num; omega)
  rw [tidString, List.length_append, length_blankPadded]
  change max 5 _ + 1 ≤ 12
  omega

theorem tidString_ne_zero (id : Int32) : ∀ c ∈ tidString id, c ≠ 0 := by
  intro c hc
  rcases List.mem_append.mp hc with hnumber | hspace
  · rcases List.mem_append.mp hnumber with hpad | hdigits
    · rw [(List.mem_replicate.mp hpad).2]
      decide
    · exact (signed_plain (k := 0) hdigits).1
  · exact space_ne_zero c hspace

namespace ThreadVars

/-- Nothing is cached, or the thread's own id and its text. -/
structure Own (v : ThreadVars) : Prop where
  positive : 0 < v.gettid
  cached : v.t_cachedtid = 0 ∨ v.t_cachedtid = v.gettid ∧ v.t_tidString = tidString v.gettid ∧
    v.t_tidStringLength = (tidString v.gettid).length

theorem cacheTid_own {v : ThreadVars} (hpos : 0 < v.gettid) (hzero : v.t_cachedtid = 0) :
    v.cacheTid.Own ∧ v.cacheTid.t_cachedtid = v.gettid ∧ v.cacheTid.gettid = v.gettid ∧
      v.cacheTid.getpid = v.getpid := by
  have hshort := length_tidString v.gettid
  have htext : printed 32 (tidString v.gettid) = tidString v.gettid :=
    List.take_of_length_le (by omega)
  rw [cacheTid, if_pos hzero, htext]
  exact ⟨⟨hpos, .inr ⟨rfl, rfl, rfl⟩⟩, rfl, rfl, rfl⟩

theorem tid_own {v : ThreadVars} (h : v.Own) :
    v.tid.1 = v.gettid ∧ v.tid.2.Own ∧ v.tid.2.t_cachedtid = v.gettid ∧ v.tid.2.gettid = v.gettid ∧
      v.tid.2.getpid = v.getpid := by
  unfold tid
  by_cases hzero : v.t_cachedtid = 0
  · obtain ⟨hown, hcached, hgettid, hgetpid⟩ := cacheTid_own h.positive hzero
    rw [if_pos hzero]
    exact ⟨hcached, hown, hcached, hgettid, hgetpid⟩
  · rw [if_neg hzero]
    have hcached := (h.cached.resolve_left hzero).1
    exact ⟨hcached, h, hcached, rfl, rfl⟩

theorem init_own {gettid : Int32} (h : 0 < gettid) (getpid : Int32) : (init gettid getpid).Own :=
  ⟨h, .inl rfl⟩

/-- Whatever the parent had cached, the child's thread has its own. -/
theorem afterFork_own {v : ThreadVars} (h : 0 < v.gettid) :
    v.afterFork.Own ∧ v.afterFork.gettid = v.gettid :=
  have hown :=
    tid_own (v := { v with t_cachedtid := 0, t_threadname := ascii "main" }) ⟨h, .inl rfl⟩
  ⟨hown.2.1, hown.2.2.2.1⟩

end ThreadVars

namespace ProcessTree

/-- All threads have their own ids, each another. -/
structure Apart (s : ProcessTree) : Prop where
  own : ∀ v ∈ s, v.Own
  ids : (s.map (·.gettid)).Nodup

variable {s t : ProcessTree}

theorem apart_set (h : Apart s) {i : Nat} {v w : ThreadVars} (hv : s[i]? = some v) (hown : w.Own)
    (hid : w.gettid = v.gettid) : Apart (s.set i w) := by
  refine ⟨fun u hu => ?_, ?_⟩
  · rcases List.mem_or_eq_of_mem_set hu with hmem | rfl
    · exact h.own u hmem
    · exact hown
  · obtain ⟨hi, rfl⟩ := List.getElem?_eq_some_iff.mp hv
    have hsame : (s.set i w).map (·.gettid) = s.map (·.gettid) := by
      have hset : s.set i s[i] = s := List.set_getElem_self hi
      have hmap := congrArg (List.map (·.gettid)) hset
      rwa [List.map_set, ← hid, ← List.map_set] at hmap
    rw [hsame]
    exact h.ids

theorem apart_concat (h : Apart s) {w : ThreadVars} (hown : w.Own)
    (hnew : w.gettid ∉ s.map (·.gettid)) : Apart (s ++ [w]) := by
  refine ⟨fun u hu => ?_, ?_⟩
  · rcases List.mem_append.mp hu with hmem | hlast
    · exact h.own u hmem
    · rw [List.mem_singleton.mp hlast]
      exact hown
  · rw [List.map_append, List.map_singleton]
    exact List.nodup_append.mpr ⟨h.ids, List.nodup_singleton _, fun a ha b hb => by
      rw [List.mem_singleton.mp hb]
      exact fun he => hnew (he ▸ ha)⟩

theorem apart_inductive : threads.Inductive (fun _ _ => True) Apart where
  init s hs := by
    obtain ⟨getpid, hpos, rfl⟩ := hs
    have hown := ThreadVars.tid_own
      (v := { ThreadVars.init getpid getpid with t_threadname := ascii "main" }) ⟨hpos, .inl rfl⟩
    exact ⟨List.forall_mem_singleton.mpr hown.2.1, List.nodup_singleton _⟩
  step s e t h _ hs := by
    cases e with
    | tid i =>
      obtain ⟨v, hv, rfl⟩ := Option.map_eq_some_iff.mp hs
      obtain ⟨-, hown, -, hid, -⟩ := ThreadVars.tid_own (h.own v (List.mem_of_getElem? hv))
      exact apart_set h hv hown hid
    | isMainThread i =>
      obtain ⟨v, hv, rfl⟩ := Option.map_eq_some_iff.mp hs
      obtain ⟨-, hown, -, hid, -⟩ := ThreadVars.tid_own (h.own v (List.mem_of_getElem? hv))
      exact apart_set h hv hown hid
    | create i gettid =>
      simp only [threads, step] at hs
      split at hs
      · next hfree =>
        obtain ⟨v, hv, rfl⟩ := Option.map_eq_some_iff.mp hs
        exact apart_concat h (ThreadVars.init_own hfree.1 v.getpid) hfree.2
      · cases hs
    | fork i getpid =>
      simp only [threads, step] at hs
      split at hs
      · next hfree =>
        obtain ⟨v, hv, rfl⟩ := Option.map_eq_some_iff.mp hs
        obtain ⟨hown, hid⟩ :=
          ThreadVars.afterFork_own (v := { v with gettid := getpid, getpid := getpid }) hfree.1
        exact apart_concat h hown (hid ▸ hfree.2)
      · cases hs
    | exit i =>
      obtain ⟨v, hv, rfl⟩ := Option.map_eq_some_iff.mp hs
      refine ⟨fun u hu => h.own u (List.mem_of_mem_eraseIdx hu), ?_⟩
      exact h.ids.sublist ((List.eraseIdx_sublist s i).map _)

/-- **The cached id is the thread's own.** In every tree of processes, whichever threads made
others or forked, and whatever the forking thread had cached: `tid()` is the id the kernel knows
the caller by, so no two threads get the same; `isMainThread` compares it with the process id;
and the text a record begins with is that of the id, with its length. -/
theorem tid_is_own (h : threads.Reach s) :
    (∀ v ∈ s, v.tid.1 = v.gettid ∧ (v.isMainThread.1 = true ↔ v.gettid = v.getpid) ∧
      v.tid.2.t_tidString = tidString v.gettid ∧
      strlen v.tid.2.t_tidString = v.tid.2.t_tidStringLength) ∧
    (s.map (·.tid.1)).Nodup := by
  have hapart := apart_inductive.reach h
  have hown (v : ThreadVars) (hv : v ∈ s) := ThreadVars.tid_own (hapart.own v hv)
  refine ⟨fun v hv => ?_, ?_⟩
  · obtain ⟨htid, ⟨hpos, hcached⟩, hset, hid, hpid⟩ := hown v hv
    rw [hid] at hpos hcached
    obtain ⟨-, htext, hlength⟩ := hcached.resolve_left fun hzero => by
      rw [hset] at hzero
      rw [hzero] at hpos
      exact absurd hpos (by decide)
    refine ⟨htid, ?_, htext, ?_⟩
    · rw [ThreadVars.isMainThread, htid, hpid, decide_eq_true_iff]
    · rw [htext, hlength, strlen_of_ne_zero (tidString_ne_zero _)]
  · rw [List.map_congr_left fun v hv => (hown v hv).1]
    exact hapart.ids

/-- A second thread forks after it has asked for its id. -/
theorem tid_is_own_forked :
    ∃ s, threads.run (start 100) [.create 0 101, .tid 1, .fork 1 102, .exit 0] = some s ∧
      s.map (·.gettid) = [101, 102] ∧ (s.map (·.tid.1)).Nodup := by
  have hrun : ∃ s, threads.run (start 100) [.create 0 101, .tid 1, .fork 1 102, .exit 0] = some s ∧
      s.map (·.gettid) = [101, 102] := ⟨_, rfl, by decide⟩
  obtain ⟨s, hrun, hids⟩ := hrun
  exact ⟨s, hrun, hids,
    (tid_is_own (Machine.reachIf_of_runIf (.init ⟨100, by decide, rfl⟩) hrun)).2⟩

end ProcessTree
end MyNet.Base
