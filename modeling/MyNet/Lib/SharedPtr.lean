import Mathlib.Data.Option.Basic

/-!
# Shared references

What `boost::shared_ptr` and `boost::weak_ptr` are documented to do with one object: it is there
as long as it has a strong reference, and the last of them to go destroys it. A weak reference
does not count: locking it makes a strong one while there is another. A counter beside the object
does this.
-/
namespace Lib

universe u v

/-- The references `R` to one object that holds an `α`; `object` is `none` when it is destroyed. -/
class SharedPtr (R : Type v) (α : outParam (Type u)) where
  new : α → R
  /-- A strong reference made from a weak one. -/
  lock : R → Option R
  /-- A strong reference goes. -/
  reset : R → R
  /-- A store to the object, if it is still there. -/
  store : R → α → Option R
  object : R → Option α
  use_count : R → Nat
  /-- How often the object has been destroyed. -/
  destroyed : R → Nat
  new_one (a : α) : use_count (new a) = 1 ∧ object (new a) = some a ∧ destroyed (new a) = 0
  lock_expired (r : R) (h : use_count r = 0) : lock r = none
  lock_adds (r : R) (h : use_count r ≠ 0) : ∃ r', lock r = some r' ∧
    use_count r' = use_count r + 1 ∧ object r' = object r ∧ destroyed r' = destroyed r
  reset_last (r : R) (h : use_count r = 1) : use_count (reset r) = 0 ∧
    object (reset r) = none ∧ destroyed (reset r) = destroyed r + 1
  reset_other (r : R) (h : 1 < use_count r) : use_count (reset r) = use_count r - 1 ∧
    object (reset r) = object r ∧ destroyed (reset r) = destroyed r
  store_there (r : R) (a : α) (h : object r ≠ none) : ∃ r', store r a = some r' ∧
    use_count r' = use_count r ∧ object r' = some a ∧ destroyed r' = destroyed r

namespace SharedPtr

variable {R : Type v} {α : Type u} [SharedPtr R α]

/-- The object holds `a` while any of the `n` references is left, and is destroyed once. -/
structure Counts (r : R) (n : Nat) (a : α) : Prop where
  uses : use_count r = n
  object : SharedPtr.object r = if n = 0 then none else some a
  destroyed : SharedPtr.destroyed r = if n = 0 then 1 else 0

variable {r : R} {n : Nat} {a : α}

theorem counts_new (a : α) : Counts (new a : R) 1 a := by
  obtain ⟨huses, hobject, hdestroyed⟩ := new_one (R := R) a
  exact ⟨huses, hobject, hdestroyed⟩

theorem Counts.destroyed_le (h : Counts r n a) : SharedPtr.destroyed r ≤ 1 := by
  rw [h.destroyed]
  split <;> decide

/-- Nothing is known of what a destroyed object held. -/
theorem Counts.gone (h : Counts r 0 a) (b : α) : Counts r 0 b := ⟨h.uses, h.object, h.destroyed⟩

theorem Counts.lock_none (h : Counts r 0 a) : lock r = none := lock_expired r h.uses

theorem Counts.lock_some (h : Counts r n a) (hn : n ≠ 0) :
    ∃ r', lock r = some r' ∧ Counts r' (n + 1) a := by
  obtain ⟨r', hlock, huses, hobject, hdestroyed⟩ := lock_adds r (h.uses ▸ hn)
  refine ⟨r', hlock, huses.trans (congrArg (· + 1) h.uses), ?_, ?_⟩
  · rw [if_neg (Nat.succ_ne_zero n)]
    exact hobject.trans (h.object.trans (if_neg hn))
  · rw [if_neg (Nat.succ_ne_zero n)]
    exact hdestroyed.trans (h.destroyed.trans (if_neg hn))

theorem Counts.reset (h : Counts r (n + 1) a) : Counts (SharedPtr.reset r) n a := by
  obtain ⟨huses, hobject, hdestroyed⟩ := h
  rw [if_neg (Nat.succ_ne_zero n)] at hobject hdestroyed
  by_cases hn : n = 0
  · obtain ⟨huses', hobject', hdestroyed'⟩ := reset_last r (by rw [huses, hn])
    rw [hdestroyed] at hdestroyed'
    exact ⟨huses'.trans hn.symm, hobject'.trans (if_pos hn).symm,
      hdestroyed'.trans (if_pos hn).symm⟩
  · obtain ⟨huses', hobject', hdestroyed'⟩ := reset_other r (by omega)
    refine ⟨by omega, ?_, ?_⟩
    · rw [hobject', hobject, if_neg hn]
    · rw [hdestroyed', hdestroyed, if_neg hn]

theorem Counts.store (h : Counts r n a) (hn : n ≠ 0) (b : α) :
    ∃ r', SharedPtr.store r b = some r' ∧ Counts r' n b := by
  have hthere : SharedPtr.object r ≠ none := by
    rw [h.object, if_neg hn]
    exact Option.some_ne_none a
  obtain ⟨r', hstore, huses, hobject, hdestroyed⟩ := store_there r b hthere
  exact ⟨r', hstore, huses.trans h.uses, hobject.trans (if_neg hn).symm,
    hdestroyed.trans h.destroyed⟩

end SharedPtr

/-- An object with the number of its strong references. -/
structure Shared (α : Type u) where
  object : Option α
  uses : Nat
  destroyed : Nat

namespace Shared

variable {α : Type u}

def new (a : α) : Shared α := ⟨some a, 1, 0⟩

def lock (r : Shared α) : Option (Shared α) :=
  if r.uses = 0 then none else some { r with uses := r.uses + 1 }

def reset (r : Shared α) : Shared α :=
  if r.uses = 1 then ⟨none, 0, r.destroyed + 1⟩ else { r with uses := r.uses - 1 }

def store (r : Shared α) (a : α) : Option (Shared α) :=
  r.object.map fun _ => { r with object := some a }

instance : SharedPtr (Shared α) α where
  new := new
  lock := lock
  reset := reset
  store := store
  object := object
  use_count := uses
  destroyed := destroyed
  new_one _ := ⟨rfl, rfl, rfl⟩
  lock_expired _ h := if_pos h
  lock_adds _ h := ⟨_, if_neg h, rfl, rfl, rfl⟩
  reset_last r h := by
    rw [reset, if_pos h]
    exact ⟨rfl, rfl, rfl⟩
  reset_other r h := by
    rw [reset, if_neg (Nat.ne_of_gt h)]
    exact ⟨rfl, rfl, rfl⟩
  store_there r a h := by
    obtain ⟨b, hb⟩ := Option.ne_none_iff_exists'.mp h
    refine ⟨{ r with object := some a }, ?_, rfl, rfl, rfl⟩
    rw [store, hb]
    rfl

end Shared
end Lib
