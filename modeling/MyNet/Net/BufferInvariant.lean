import MyNet.Net.Buffer
import MyNet.Lib.FaultState
import Mathlib.Order.Basic
import Mathlib.Algebra.Order.Group.Nat

/-!
# The layout invariant of `Buffer`

`Valid` is the picture in the class comment together with the reserve in front of
the content and the vector's own size limit. For each operation the equation it
satisfies on a valid buffer is proved once; the invariant and the readable bytes
follow from the resulting buffer. Only a refused growth may throw, and it then
leaves the buffer as it was.
-/
namespace MyNet.Net.Buffer

open MyNet.Base
open Lib.ListStore Lib.SizeT Lib.FaultState

structure Valid (b : Buffer) : Prop where
  ordered : b.readerIndex_ ≤ b.writerIndex_
  inside : b.writerIndex_ ≤ b.buffer_.length
  reserve : kCheapPrepend ≤ b.buffer_.length
  bounded : b.buffer_.length ≤ maxSize

theorem maxSize_lt_modulus : maxSize + maxSize < modulus := by decide

theorem Valid.length_lt {b : Buffer} (h : b.Valid) : b.buffer_.length < modulus := by
  have hb := h.bounded
  have hm := maxSize_lt_modulus
  omega

theorem readableBytes_eq {b : Buffer} (h : b.Valid) :
    b.readableBytes = b.writerIndex_ - b.readerIndex_ :=
  subSize_of_le h.ordered (Nat.lt_of_le_of_lt h.inside h.length_lt)

theorem writableBytes_eq {b : Buffer} (h : b.Valid) :
    b.writableBytes = b.buffer_.length - b.writerIndex_ :=
  subSize_of_le h.inside h.length_lt

theorem length_readable {b : Buffer} (h : b.Valid) :
    b.readable.length = b.writerIndex_ - b.readerIndex_ := length_slice h.inside

theorem readableBytes_length {b : Buffer} (h : b.Valid) : b.readableBytes = b.readable.length := by
  rw [readableBytes_eq h, length_readable h]

theorem assert_apply (p : Prop) [Decidable p] (b : Buffer) :
    assert p b = if p then .ok () b else .error .assertion b := by
  unfold assert
  split <;> rfl

/-! ## Construction -/

theorem new_ok {alloc : Allocator} {n : Nat} {b : Buffer} (h : new alloc n = .ok b) :
    b = ⟨List.replicate (addSize kCheapPrepend n) 0, kCheapPrepend, kCheapPrepend⟩ ∧
      addSize kCheapPrepend n ≤ maxSize := by
  simp only [new] at h
  split at h
  · cases h
  · split at h
    · cases h
    · split at h
      · exact ⟨(Except.ok.inj h).symm, by omega⟩
      · cases h

/-- A constructed buffer is valid and empty unless the size handed to the vector wrapped. -/
theorem new_valid {alloc : Allocator} {n : Nat} {b : Buffer} (h : new alloc n = .ok b)
    (hn : kCheapPrepend + n < modulus) : b.Valid ∧ b.readable = [] := by
  obtain ⟨rfl, hmax⟩ := new_ok h
  rw [addSize_of_lt hn] at hmax ⊢
  refine ⟨⟨Nat.le_refl _, ?_, ?_, ?_⟩, slice_self _ _⟩ <;> simp only [List.length_replicate]
  · omega
  · omega
  · exact hmax

/-! ## Making space -/

/-- What `makeSpace` leaves when it enlarges the vector to `size`. -/
def grow (b : Buffer) (size : Nat) : Buffer :=
  { b with buffer_ := b.buffer_ ++ List.replicate (size - b.buffer_.length) 0 }

/-- What `makeSpace` leaves when it moves the content to the front. -/
def compact (b : Buffer) : Buffer where
  buffer_ := copyWithin b.buffer_ b.readerIndex_ kCheapPrepend (b.writerIndex_ - b.readerIndex_)
  readerIndex_ := kCheapPrepend
  writerIndex_ := kCheapPrepend + (b.writerIndex_ - b.readerIndex_)

/-- Why a growth to `size` bytes throws. -/
def GrowthRefused (alloc : Allocator) (size : Nat) (e : Fault) : Prop :=
  (e = .lengthError ∧ maxSize < size) ∨ (e = .badAlloc ∧ alloc size = false)

theorem GrowthRefused.isThrown {alloc : Allocator} {size : Nat} {e : Fault}
    (h : GrowthRefused alloc size e) : e.isThrown = true := by
  rcases h with ⟨rfl, -⟩ | ⟨rfl, -⟩ <;> rfl

theorem length_grow {b : Buffer} {size : Nat} (hs : b.buffer_.length ≤ size) :
    (b.grow size).buffer_.length = size := by
  simp only [grow, List.length_append, List.length_replicate]
  omega

theorem grow_valid {b : Buffer} (h : b.Valid) {size : Nat} (hs : b.buffer_.length ≤ size)
    (hm : size ≤ maxSize) : (b.grow size).Valid := by
  have hl := length_grow hs
  constructor
  · exact h.ordered
  · rw [hl]; exact h.inside.trans hs
  · rw [hl]; exact h.reserve.trans hs
  · rw [hl]; exact hm

theorem grow_readable {b : Buffer} (h : b.Valid) (size : Nat) :
    (b.grow size).readable = b.readable := slice_append h.inside _

theorem compact_valid {b : Buffer} (h : b.Valid) (hr : kCheapPrepend < b.readerIndex_) :
    b.compact.Valid := by
  have hi := h.inside
  have ho := h.ordered
  refine ⟨Nat.le_add_right _ _, ?_, ?_, ?_⟩ <;> simp only [compact, length_copyWithin]
  · omega
  · exact h.reserve
  · exact h.bounded

theorem compact_readable {b : Buffer} (h : b.Valid) (hr : kCheapPrepend < b.readerIndex_) :
    b.compact.readable = b.readable := by
  have ho := h.ordered
  have hs : b.readerIndex_ + (b.writerIndex_ - b.readerIndex_) = b.writerIndex_ := by omega
  have hfit : b.readerIndex_ + (b.writerIndex_ - b.readerIndex_) ≤ b.buffer_.length := by
    rw [hs]
    exact h.inside
  have hc := slice_copyWithin (Nat.le_of_lt hr) hfit
  rw [hs] at hc
  exact hc

/-- The sums `makeSpace(len)` forms are exact. -/
def SpaceFits (b : Buffer) (len : Nat) : Prop :=
  b.writableBytes < len → len + kCheapPrepend < modulus ∧ b.writerIndex_ + len < modulus

instance (b : Buffer) (len : Nat) : Decidable (SpaceFits b len) :=
  inferInstanceAs (Decidable (_ → _))

theorem resize_cases (alloc : Allocator) {size : Nat} {b : Buffer}
    (hs : b.buffer_.length < size) :
    (size ≤ maxSize ∧ resize alloc size b = .ok () (b.grow size)) ∨
    (∃ e, GrowthRefused alloc size e ∧ resize alloc size b = .error e b) := by
  simp only [resize, bind_apply, get_apply, if_apply, if_neg (Nat.not_le.mpr hs)]
  by_cases hm : maxSize < size
  · exact Or.inr ⟨.lengthError, Or.inl ⟨rfl, hm⟩, by rw [if_pos hm]; rfl⟩
  · by_cases ha : alloc size = false
    · exact Or.inr ⟨.badAlloc, Or.inr ⟨rfl, ha⟩, by rw [if_neg hm, if_pos ha]; rfl⟩
    · exact Or.inl ⟨by omega, by rw [if_neg hm, if_neg ha]; rfl⟩

/-- When the free bytes on both sides suffice, the reader index is beyond the
reserve: the request did not fit behind the content. -/
theorem makeSpace_compact (alloc : Allocator) {b : Buffer} (h : b.Valid) {len : Nat}
    (hr : kCheapPrepend < b.readerIndex_) (hl : b.writableBytes < len)
    (hfit : SpaceFits b len)
    (hroom : len + kCheapPrepend ≤ b.writableBytes + b.prependableBytes) :
    makeSpace alloc len b = .ok () b.compact := by
  have hs := hfit hl
  have hw := writableBytes_eq h
  have hlt := h.length_lt
  have ho := h.ordered
  have hi := h.inside
  have hsum : b.writableBytes + b.prependableBytes < modulus := by
    rw [hw, prependableBytes]; omega
  have hbranch : ¬ addSize b.writableBytes b.prependableBytes < addSize len kCheapPrepend := by
    rw [addSize_of_lt hsum, addSize_of_lt hs.1]; omega
  have hv := compact_valid h hr
  have hcount : b.compact.readableBytes = b.readableBytes := by
    rw [readableBytes_length hv, readableBytes_length h, compact_readable h hr]
  have hend : addSize kCheapPrepend b.readableBytes =
      kCheapPrepend + (b.writerIndex_ - b.readerIndex_) := by
    rw [readableBytes_eq h]
    exact addSize_of_lt (by omega)
  simp only [makeSpace, copyToFront, bind_apply, get_apply, if_apply, set_apply, modify_apply,
    assert_apply, if_neg hbranch, if_pos hr, if_pos (And.intro ho hi), hend]
  change (if b.readableBytes = b.compact.readableBytes then _ else _) = _
  rw [if_pos hcount.symm]
  rfl

theorem makeSpace_grow (alloc : Allocator) {b : Buffer} {len : Nat}
    (hl : b.writableBytes < len) (hfit : SpaceFits b len)
    (hroom : b.writableBytes + b.prependableBytes < len + kCheapPrepend) :
    makeSpace alloc len b = resize alloc (b.writerIndex_ + len) b := by
  have hs := hfit hl
  have hsum : addSize b.writableBytes b.prependableBytes =
      b.writableBytes + b.prependableBytes := addSize_of_lt (hroom.trans hs.1)
  simp only [makeSpace, bind_apply, get_apply, if_apply]
  rw [hsum, addSize_of_lt hs.1, if_pos hroom, addSize_of_lt hs.2]

theorem ensureWritableBytes_enough (alloc : Allocator) {b : Buffer} {len : Nat}
    (h : len ≤ b.writableBytes) : ensureWritableBytes alloc len b = .ok () b := by
  simp only [ensureWritableBytes, bind_apply, get_apply, if_apply, assert_apply,
    if_neg (Nat.not_lt.mpr h), if_pos h]

/-- The three ways `ensureWritableBytes` succeeds and the one way it throws. No
assertion can fail. -/
theorem ensureWritableBytes_cases (alloc : Allocator) {b : Buffer} (h : b.Valid) {len : Nat}
    (hfit : SpaceFits b len) :
    (len ≤ b.writableBytes ∧ ensureWritableBytes alloc len b = .ok () b) ∨
    (len + kCheapPrepend ≤ b.writableBytes + b.prependableBytes ∧
      kCheapPrepend < b.readerIndex_ ∧
      ensureWritableBytes alloc len b = .ok () b.compact) ∨
    (b.writableBytes + b.prependableBytes < len + kCheapPrepend ∧
      b.buffer_.length < b.writerIndex_ + len ∧ b.writerIndex_ + len ≤ maxSize ∧
      ensureWritableBytes alloc len b = .ok () (b.grow (b.writerIndex_ + len))) ∨
    (∃ e, GrowthRefused alloc (b.writerIndex_ + len) e ∧
      ensureWritableBytes alloc len b = .error e b) := by
  have hw := writableBytes_eq h
  have hi := h.inside
  by_cases hl : len ≤ b.writableBytes
  · exact Or.inl ⟨hl, ensureWritableBytes_enough alloc hl⟩
  · have hlt : b.writableBytes < len := by omega
    by_cases hroom : b.writableBytes + b.prependableBytes < len + kCheapPrepend
    · have hsize : b.buffer_.length < b.writerIndex_ + len := by omega
      have hm := makeSpace_grow alloc hlt hfit hroom
      rcases resize_cases alloc hsize with ⟨hmax, hr⟩ | ⟨e, he, hr⟩
      · refine Or.inr (Or.inr (Or.inl ⟨hroom, hsize, hmax, ?_⟩))
        have hg : len ≤ (b.grow (b.writerIndex_ + len)).writableBytes := by
          rw [writableBytes_eq (grow_valid h hsize.le hmax), length_grow hsize.le]
          simp only [grow]
          omega
        simp only [ensureWritableBytes, bind_apply, get_apply, if_apply, assert_apply,
          if_pos hlt, hm, hr, if_pos hg]
      · refine Or.inr (Or.inr (Or.inr ⟨e, he, ?_⟩))
        simp only [ensureWritableBytes, bind_apply, get_apply, if_apply, if_pos hlt, hm, hr]
    · have hroom' : len + kCheapPrepend ≤ b.writableBytes + b.prependableBytes := by omega
      have hr : kCheapPrepend < b.readerIndex_ := by
        rw [prependableBytes] at hroom'
        omega
      refine Or.inr (Or.inl ⟨hroom', hr, ?_⟩)
      have hm := makeSpace_compact alloc h hr hlt hfit hroom'
      have hc : len ≤ b.compact.writableBytes := by
        rw [writableBytes_eq (compact_valid h hr)]
        simp only [compact, length_copyWithin]
        rw [prependableBytes, hw] at hroom'
        have ho := h.ordered
        omega
      simp only [ensureWritableBytes, bind_apply, get_apply, if_apply, assert_apply,
        if_pos hlt, hm, if_pos hc]

/-- The outcome of a request for space: room behind the same content, or an exception
that left the buffer alone. -/
theorem ensureWritableBytes_spec (alloc : Allocator) {b : Buffer} (h : b.Valid) {len : Nat}
    (hfit : SpaceFits b len) :
    (∃ b', ensureWritableBytes alloc len b = .ok () b' ∧ b'.Valid ∧
      b'.readable = b.readable ∧ b'.writerIndex_ + len ≤ b'.buffer_.length) ∨
    (∃ e, GrowthRefused alloc (b.writerIndex_ + len) e ∧
      ensureWritableBytes alloc len b = .error e b) := by
  have hw := writableBytes_eq h
  have hi := h.inside
  rcases ensureWritableBytes_cases alloc h hfit with ⟨hl, he⟩ | ⟨hroom, hr, he⟩ |
    ⟨-, hsize, hmax, he⟩ | he
  · exact Or.inl ⟨b, he, h, rfl, by omega⟩
  · refine Or.inl ⟨b.compact, he, compact_valid h hr, compact_readable h hr, ?_⟩
    simp only [compact, length_copyWithin]
    rw [prependableBytes, hw] at hroom
    have ho := h.ordered
    omega
  · refine Or.inl ⟨_, he, grow_valid h hsize.le hmax, grow_readable h _, ?_⟩
    rw [length_grow hsize.le]
    exact Nat.le_refl _
  · exact Or.inr he

end MyNet.Net.Buffer
