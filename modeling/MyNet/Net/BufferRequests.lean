import MyNet.Net.ReadFd

/-!
# Requests for space of any size

What `ensureWritableBytes` can do to a buffer in any state, also one in which the sums of
`makeSpace` wrap. On a reachable buffer a request that makes them wrap is never answered well:
the storage is cut behind the content, or an assertion fails.
-/
namespace MyNet.Net.Buffer

open MyNet.Base
open Lib.ListStore Lib.SizeT Lib.FaultState

/-- How a request that returns leaves the layout. -/
inductive Spaced (len : Nat) (b : Buffer) : Buffer → Prop
  | enough : Spaced len b b
  | resized {b' : Buffer} (hshort : b.writableBytes < len)
      (hroom : addSize b.writableBytes b.prependableBytes < addSize len kCheapPrepend)
      (hreader : b'.readerIndex_ = b.readerIndex_) (hwriter : b'.writerIndex_ = b.writerIndex_)
      (hsize : b'.buffer_.length = addSize b.writerIndex_ len)
      (hbound : b'.buffer_.length ≤ max b.buffer_.length maxSize) : Spaced len b b'
  | compacted {b' : Buffer} (hshort : b.writableBytes < len)
      (hroom : addSize len kCheapPrepend ≤ addSize b.writableBytes b.prependableBytes)
      (hfront : kCheapPrepend < b.readerIndex_)
      (hordered : b.readerIndex_ ≤ b.writerIndex_) (hinside : b.writerIndex_ ≤ b.buffer_.length)
      (hreader : b'.readerIndex_ = kCheapPrepend)
      (hwriter : b'.writerIndex_ = addSize kCheapPrepend b.readableBytes)
      (hsize : b'.buffer_.length = b.buffer_.length) : Spaced len b b'

theorem assert_ok {p : Prop} [Decidable p] {b b' : Buffer} (h : assert p b = .ok () b') :
    p ∧ b = b' := by
  rw [assert_apply] at h
  split at h
  · next hp =>
    cases h
    exact ⟨hp, rfl⟩
  · cases h

theorem resize_ok {alloc : Allocator} {size : Nat} {b b' : Buffer}
    (h : resize alloc size b = .ok () b') :
    b'.readerIndex_ = b.readerIndex_ ∧ b'.writerIndex_ = b.writerIndex_ ∧
      b'.buffer_.length = size ∧ b'.buffer_.length ≤ max b.buffer_.length maxSize := by
  by_cases hs : size ≤ b.buffer_.length
  · simp only [resize, bind_apply, get_apply, if_apply, if_pos hs, set_apply] at h
    cases h
    have htake : (b.buffer_.take size).length = size := by
      rw [List.length_take]
      omega
    exact ⟨rfl, rfl, htake, by dsimp only; omega⟩
  · rcases resize_cases alloc (Nat.not_le.mp hs) with ⟨hm, he⟩ | ⟨e, -, he⟩
    · rw [he] at h
      cases h
      have hlen := length_grow (Nat.le_of_lt (Nat.not_le.mp hs))
      exact ⟨rfl, rfl, hlen, by omega⟩
    · rw [he] at h
      cases h

theorem copyToFront_ok {b b' : Buffer} (h : copyToFront b = .ok () b') :
    b.readerIndex_ ≤ b.writerIndex_ ∧ b.writerIndex_ ≤ b.buffer_.length ∧
      b'.buffer_.length = b.buffer_.length := by
  simp only [copyToFront, bind_apply, get_apply, if_apply, set_apply, throw_apply] at h
  split at h
  · next hp =>
    cases h
    exact ⟨hp.1, hp.2, length_copyWithin _ _ _ _⟩
  · cases h

theorem makeSpace_ok {alloc : Allocator} {len : Nat} {b b' : Buffer}
    (hshort : b.writableBytes < len) (h : makeSpace alloc len b = .ok () b') :
    Spaced len b b' := by
  rw [makeSpace, get_bind_apply, if_apply] at h
  by_cases hroom : addSize b.writableBytes b.prependableBytes < addSize len kCheapPrepend
  · rw [if_pos hroom] at h
    obtain ⟨hr, hw, hs, hb⟩ := resize_ok h
    exact .resized hshort hroom hr hw hs hb
  · rw [if_neg hroom] at h
    obtain ⟨_, _, hassert, h⟩ := bind_ok h
    obtain ⟨hfront, rfl⟩ := assert_ok hassert
    obtain ⟨_, b₁, hcopy, h⟩ := bind_ok h
    obtain ⟨ho, hi, hsize⟩ := copyToFront_ok hcopy
    rw [modify_bind_apply, get_bind_apply] at h
    obtain ⟨-, rfl⟩ := assert_ok h
    exact .compacted hshort (Nat.not_lt.mp hroom) hfront ho hi rfl rfl hsize

theorem ensureWritableBytes_ok {alloc : Allocator} {len : Nat} {b b' : Buffer}
    (h : ensureWritableBytes alloc len b = .ok () b') :
    Spaced len b b' ∧ len ≤ b'.writableBytes := by
  rw [ensureWritableBytes, get_bind_apply] at h
  by_cases hshort : b.writableBytes < len
  · rw [if_pos hshort] at h
    obtain ⟨_, b₁, hmake, h⟩ := bind_ok h
    have hassert : assert (len ≤ b₁.writableBytes) b₁ = .ok () b' := h
    obtain ⟨hlen, rfl⟩ := assert_ok hassert
    exact ⟨makeSpace_ok hshort hmake, hlen⟩
  · rw [if_neg hshort] at h
    have hassert : assert (len ≤ b.writableBytes) b = .ok () b' := h
    obtain ⟨hlen, rfl⟩ := assert_ok hassert
    exact ⟨.enough, hlen⟩

theorem assert_error {p : Prop} [Decidable p] {b b' : Buffer} {e : Fault}
    (h : assert p b = .error e b') : e = .assertion := by
  rw [assert_apply] at h
  split at h
  · cases h
  · cases h
    rfl

theorem resize_error {alloc : Allocator} {size : Nat} {b b' : Buffer} {e : Fault}
    (h : resize alloc size b = .error e b') : b' = b ∧ b.buffer_.length < size := by
  by_cases hs : size ≤ b.buffer_.length
  · simp only [resize, bind_apply, get_apply, if_apply, if_pos hs, set_apply] at h
    cases h
  · have hlt := Nat.not_le.mp hs
    rcases resize_cases alloc hlt with ⟨-, he⟩ | ⟨e', -, he⟩
    · rw [he] at h
      cases h
    · rw [he] at h
      cases h
      exact ⟨rfl, hlt⟩

theorem copyToFront_error {b b' : Buffer} {e : Fault} (h : copyToFront b = .error e b') :
    e = .outOfRange := by
  simp only [copyToFront, bind_apply, get_apply, if_apply, set_apply, throw_apply] at h
  split at h
  · cases h
  · cases h
    rfl

/-- Only a growth of the storage throws. -/
theorem makeSpace_thrown {alloc : Allocator} {len : Nat} {b b' : Buffer} {e : Fault}
    (h : makeSpace alloc len b = .error e b') (he : e.isThrown = true) :
    b' = b ∧ addSize b.writableBytes b.prependableBytes < addSize len kCheapPrepend ∧
      b.buffer_.length < addSize b.writerIndex_ len := by
  have hbug : e ≠ .assertion ∧ e ≠ .outOfRange := by
    constructor
    · rintro rfl
      cases he
    · rintro rfl
      cases he
  rw [makeSpace, get_bind_apply, if_apply] at h
  by_cases hroom : addSize b.writableBytes b.prependableBytes < addSize len kCheapPrepend
  · rw [if_pos hroom] at h
    obtain ⟨hb, hsize⟩ := resize_error h
    exact ⟨hb, hroom, hsize⟩
  · rw [if_neg hroom] at h
    rcases bind_error h with hfront | ⟨_, _, -, h⟩
    · exact absurd (assert_error hfront) hbug.1
    rcases bind_error h with hcopy | ⟨_, b₁, -, h⟩
    · exact absurd (copyToFront_error hcopy) hbug.2
    rw [modify_bind_apply, get_bind_apply] at h
    exact absurd (assert_error h) hbug.1

theorem ensureWritableBytes_thrown {alloc : Allocator} {len : Nat} {b b' : Buffer} {e : Fault}
    (h : ensureWritableBytes alloc len b = .error e b') (he : e.isThrown = true) :
    b' = b ∧ b.writableBytes < len ∧
      addSize b.writableBytes b.prependableBytes < addSize len kCheapPrepend ∧
      b.buffer_.length < addSize b.writerIndex_ len := by
  have hassert : e ≠ .assertion := by
    rintro rfl
    cases he
  rw [ensureWritableBytes, get_bind_apply] at h
  by_cases hshort : b.writableBytes < len
  · rw [if_pos hshort] at h
    rcases bind_error h with hmake | ⟨_, b₁, -, h⟩
    · obtain ⟨hb, hroom, hsize⟩ := makeSpace_thrown hmake he
      exact ⟨hb, hshort, hroom, hsize⟩
    · have hlast : assert (len ≤ b₁.writableBytes) b₁ = .error e b' := h
      exact absurd (assert_error hlast) hassert
  · rw [if_neg hshort] at h
    have hlast : assert (len ≤ b.writableBytes) b = .error e b' := h
    exact absurd (assert_error hlast) hassert

/-- What is asked of a request: room for `len` bytes behind the same content, or an exception
that leaves the buffer as it was. -/
def Survives (alloc : Allocator) (len : Nat) (b : Buffer) : Prop :=
  match ensureWritableBytes alloc len b with
  | .ok _ b' =>
    b'.readerIndex_ ≤ b'.writerIndex_ ∧ b'.writerIndex_ ≤ b'.buffer_.length ∧
      b'.readable = b.readable ∧ len ≤ b'.buffer_.length - b'.writerIndex_ ∧
      b.buffer_.length ≤ b'.buffer_.length
  | .error e b' => e.isThrown = true ∧ b' = b

theorem survives_of_fits (alloc : Allocator) {b : Buffer} (h : b.Valid) {len : Nat}
    (hfit : SpaceFits b len) : Survives alloc len b := by
  have hw := writableBytes_eq h
  have ho := h.ordered
  have hi := h.inside
  unfold Survives
  rcases ensureWritableBytes_cases alloc h hfit with ⟨hl, he⟩ | ⟨hroom, hr, he⟩ |
    ⟨-, hsize, hmax, he⟩ | ⟨e, hg, he⟩
  · rw [he]
    exact ⟨ho, hi, rfl, by omega, Nat.le_refl _⟩
  · rw [he]
    have hv := compact_valid h hr
    have hlen : b.compact.buffer_.length = b.buffer_.length := length_copyWithin _ _ _ _
    refine ⟨hv.ordered, hv.inside, compact_readable h hr, ?_, hlen.ge⟩
    rw [prependableBytes, hw] at hroom
    rw [hlen]
    simp only [compact]
    omega
  · rw [he]
    have hv := grow_valid h hsize.le hmax
    have hlen := length_grow hsize.le
    refine ⟨hv.ordered, hv.inside, grow_readable h _, ?_, by omega⟩
    rw [hlen]
    simp only [grow]
    omega
  · rw [he]
    exact ⟨hg.isThrown, rfl⟩

/-- A sum that wraps: the storage ends before the content, or an assertion fails. -/
theorem not_survives_of_wraps (alloc : Allocator) {b : Buffer} (h : b.Valid) {len : Nat}
    (hlen : len < modulus) (hwraps : ¬ SpaceFits b len) : ¬ Survives alloc len b := by
  have hw := writableBytes_eq h
  have ho := h.ordered
  have hi := h.inside
  have hreserve := h.reserve
  have hb := h.bounded
  have hmax := maxSize_lt_modulus
  have hshort : b.writableBytes < len := by
    by_contra henough
    exact hwraps fun hs => absurd hs henough
  have hsum : ¬ (len + kCheapPrepend < modulus ∧ b.writerIndex_ + len < modulus) :=
    fun hs => hwraps fun _ => hs
  -- if the size is exact then `len + kCheapPrepend` wraps to less than what is free
  have hexact : addSize b.writableBytes b.prependableBytes < addSize len kCheapPrepend →
      modulus ≤ b.writerIndex_ + len := by
    intro hroom
    by_contra hfits
    have hsize := Nat.not_le.mp hfits
    have hcheap : kCheapPrepend < modulus := by decide
    rw [prependableBytes, addSize_of_lt (by omega), addSize_of_ge (by omega) hlen hcheap] at hroom
    omega
  unfold Survives
  cases hrun : ensureWritableBytes alloc len b with
  | ok _ b' =>
    rintro ⟨-, hinside, -, hroom, -⟩
    obtain ⟨hspaced, -⟩ := ensureWritableBytes_ok hrun
    cases hspaced with
    | enough => omega
    | resized _ hbranch _ hwriter hsize =>
      have hover := hexact hbranch
      rw [addSize_of_ge hover (by omega) hlen] at hsize
      omega
    | compacted _ _ _ _ _ _ _ hsize =>
      have hcheap : kCheapPrepend ≤ maxSize := by decide
      omega
  | error e b' =>
    rintro ⟨he, -⟩
    obtain ⟨-, -, hbranch, hsize⟩ := ensureWritableBytes_thrown hrun he
    rw [addSize_of_ge (hexact hbranch) (by omega) hlen] at hsize
    omega

/-- **Requests of any size.** On a reachable buffer a request is answered well exactly if the
buffer has room for it, or neither `len + kCheapPrepend` nor `writerIndex_ + len` wraps. -/
theorem survives_iff {b : Buffer} (h : Reachable b) (alloc : Allocator) {len : Nat}
    (hlen : len < modulus) : Survives alloc len b ↔ SpaceFits b len := by
  constructor
  · intro hsurvives
    by_contra hwraps
    exact not_survives_of_wraps alloc h.valid hlen hwraps hsurvives
  · exact survives_of_fits alloc h.valid

/-- A fresh buffer asked for four bytes more than it has. -/
theorem survives_iff_grow :
    Survives (fun _ => true) 8 ⟨List.replicate 12 0, kCheapPrepend, kCheapPrepend⟩ := by
  have hb : Reachable ⟨List.replicate 12 0, kCheapPrepend, kCheapPrepend⟩ :=
    .new (by decide) (show Buffer.new (fun _ => true) 4 = .ok _ from rfl)
  exact (survives_iff hb _ (by decide)).mpr fun _ => by decide

/-- With one byte of content, a request for `2 ^ 64 - 9` bytes empties the storage. -/
theorem not_survives_huge :
    ¬ ∀ b, Reachable b → ∀ alloc len, len < modulus → Survives alloc len b := by
  intro h
  have hb : Reachable ⟨List.replicate 12 0, kCheapPrepend, kCheapPrepend⟩ :=
    .new (by decide) (show Buffer.new (fun _ => true) 4 = .ok _ from rfl)
  have hone := Reachable.call (.append [65]) (fun _ => true) hb trivial (by decide)
  have hsurvives := h _ hone (fun _ => true) (modulus - 9) (by decide)
  exact not_survives_of_wraps _ hone.valid (by decide) (by decide) hsurvives

end MyNet.Net.Buffer
