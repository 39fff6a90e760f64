import MyNet.Base.Runtime

/-!
# Circular buffers

What `boost::circular_buffer` is documented to do, for the operations used here: a buffer that
holds as many elements as its capacity, and that drops the oldest one when it is pushed while
full. A list that keeps to its capacity is such a buffer.
-/
namespace MyNet.Base

/-- Buffers `B` of elements `T`; `items` are the elements, the oldest first. -/
class CircularBuffer (B : Type) (T : outParam Type) where
  new : Allocator → Nat → Except Fault B
  items : B → List T
  capacity : B → Nat
  size : B → Nat
  full : B → Bool
  empty : B → Bool
  pushBack : B → T → B
  popFront : B → B
  new_ok {alloc : Allocator} {n : Nat} {b : B} (h : new alloc n = .ok b) :
    n ≤ maxSize ∧ items b = [] ∧ capacity b = n
  size_eq (b : B) : size b = (items b).length
  inside (b : B) : size b ≤ capacity b
  full_iff (b : B) : full b = true ↔ size b = capacity b
  empty_iff (b : B) : empty b = true ↔ items b = []
  items_pushBack (b : B) (value : T) :
    items (pushBack b value) =
      if full b then (items b ++ [value]).tail else items b ++ [value]
  capacity_pushBack (b : B) (value : T) : capacity (pushBack b value) = capacity b
  items_popFront (b : B) (h : items b ≠ []) : items (popFront b) = (items b).tail
  capacity_popFront (b : B) (h : items b ≠ []) : capacity (popFront b) = capacity b

namespace CircularBuffer

variable {B T : Type} [CircularBuffer B T] {b : B}

theorem pushBack_items (h : full b = false) (value : T) :
    items (pushBack b value) = items b ++ [value] := by
  rw [items_pushBack, h, if_neg Bool.false_ne_true]

theorem lt_of_not_full (h : full b = false) : (items b).length < capacity b := by
  have hinside := inside b
  have hne : size b ≠ capacity b := fun heq => by
    rw [(full_iff b).mpr heq] at h
    cases h
  rw [← size_eq]
  omega

theorem length_of_full (h : full b = true) : (items b).length = capacity b :=
  (size_eq b).symm.trans ((full_iff b).mp h)

end CircularBuffer

/-- A list within a capacity. -/
structure CircularList (T : Type) where
  capacity : Nat
  items : List T
  inside : items.length ≤ capacity

namespace CircularList

variable {T : Type}

def new (alloc : Allocator) (capacity : Nat) : Except Fault (CircularList T) :=
  if maxSize < capacity then throw .lengthError
  else if alloc capacity = false then throw .badAlloc
  else pure ⟨capacity, [], Nat.zero_le capacity⟩

def full (b : CircularList T) : Bool := b.items.length = b.capacity

/-- When full, the oldest element makes room; without any capacity nothing is stored. -/
def pushBack (b : CircularList T) (value : T) : CircularList T where
  capacity := b.capacity
  items := if b.full then (b.items ++ [value]).tail else b.items ++ [value]
  inside := by
    have hb := b.inside
    by_cases hf : b.full = true
    · rw [if_pos hf, List.length_tail, List.length_append, List.length_singleton]
      omega
    · have hne : b.items.length ≠ b.capacity := fun he => hf (decide_eq_true he)
      rw [if_neg hf, List.length_append, List.length_singleton]
      omega

def popFront (b : CircularList T) : CircularList T where
  capacity := b.capacity
  items := b.items.tail
  inside := by
    have hb := b.inside
    rw [List.length_tail]
    omega

theorem new_ok {alloc : Allocator} {n : Nat} {b : CircularList T} (h : new alloc n = .ok b) :
    n ≤ maxSize ∧ b.items = [] ∧ b.capacity = n := by
  simp only [new] at h
  split at h
  · cases h
  · split at h
    · cases h
    · next hc ha =>
      obtain rfl := Except.ok.inj h
      exact ⟨Nat.le_of_not_lt hc, rfl, rfl⟩

instance : CircularBuffer (CircularList T) T where
  new := new
  items := items
  capacity := capacity
  size b := b.items.length
  full := full
  empty b := b.items.isEmpty
  pushBack := pushBack
  popFront := popFront
  new_ok := new_ok
  size_eq _ := rfl
  inside := inside
  full_iff _ := decide_eq_true_iff
  empty_iff _ := List.isEmpty_iff
  items_pushBack _ _ := rfl
  capacity_pushBack _ _ := rfl
  items_popFront _ _ := rfl
  capacity_popFront _ _ := rfl

end CircularList
end MyNet.Base
