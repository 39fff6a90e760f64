import MyNet.Net.ReadFd

/-!
# The layout that `shrink` leaves

`shrink` builds its buffer from the content and the reserve alone: a fresh one, enlarged at most
once, into which the content is copied without another growth. The layout is therefore a function
of the two, and a buffer that has it keeps it under the same call. A refused growth happens
before the swap and leaves the buffer as it was.
-/
namespace MyNet.Net.Buffer

open MyNet.Base
open Lib.ListStore Lib.SizeT Lib.FaultState

/-- A buffer of the given size without content. -/
def blank (size : Nat) : Buffer := ⟨List.replicate size 0, kCheapPrepend, kCheapPrepend⟩

/-- The storage of the buffer that `shrink(reserve)` swaps in. -/
def shrunkSize (content : List Byte) (reserve : Nat) : Nat :=
  max (kCheapPrepend + kInitialSize) (kCheapPrepend + content.length + reserve)

def shrunk (content : List Byte) (reserve : Nat) : Buffer :=
  (blank (shrunkSize content reserve)).written content

/-- Why `shrink(reserve)` throws: the fresh buffer is refused, or the enlarged one. -/
def ShrinkRefused (alloc : Allocator) (content : List Byte) (reserve : Nat) (e : Fault) : Prop :=
  GrowthRefused alloc (kCheapPrepend + kInitialSize) e ∨
    kInitialSize < content.length + reserve ∧
      GrowthRefused alloc (kCheapPrepend + (content.length + reserve)) e

theorem length_blank (size : Nat) : (blank size).buffer_.length = size := List.length_replicate

theorem blank_valid {size : Nat} (hreserve : kCheapPrepend ≤ size) (hmax : size ≤ maxSize) :
    (blank size).Valid := by
  have hlength := length_blank size
  refine ⟨Nat.le_refl _, ?_, ?_, ?_⟩
  · rw [hlength]
    exact hreserve
  · rw [hlength]
    exact hreserve
  · rw [hlength]
    exact hmax

theorem blank_grow {size size' : Nat} (h : size ≤ size') : (blank size).grow size' = blank size' := by
  have hsize : size + (size' - size) = size' := Nat.add_sub_cancel' h
  simp only [grow, blank, List.length_replicate, List.replicate_append_replicate, hsize]

/-- The constructor makes a blank buffer, or the vector refuses the size. -/
theorem new_cases (alloc : Allocator) {n : Nat} (hn : kCheapPrepend + n < modulus) :
    new alloc n = .ok (blank (kCheapPrepend + n)) ∧ kCheapPrepend + n ≤ maxSize ∨
      ∃ e, GrowthRefused alloc (kCheapPrepend + n) e ∧ new alloc n = .error e := by
  simp only [new, addSize_of_lt hn]
  by_cases hmax : maxSize < kCheapPrepend + n
  · exact Or.inr ⟨.lengthError, Or.inl ⟨rfl, hmax⟩, if_pos hmax⟩
  · rw [if_neg hmax]
    by_cases hrefused : alloc (kCheapPrepend + n) = false
    · exact Or.inr ⟨.badAlloc, Or.inr ⟨rfl, hrefused⟩, if_pos hrefused⟩
    · rw [if_neg hrefused]
      have hvalid : (blank (kCheapPrepend + n)).Valid :=
        blank_valid (Nat.le_add_right _ _) (Nat.le_of_not_lt hmax)
      have hread : (blank (kCheapPrepend + n)).readableBytes = 0 := by
        rw [readableBytes_eq hvalid]
        exact Nat.sub_self _
      have hwrite : (blank (kCheapPrepend + n)).writableBytes = n := by
        rw [writableBytes_eq hvalid, length_blank]
        exact Nat.add_sub_cancel_left _ _
      exact Or.inl ⟨if_pos ⟨hread, hwrite, rfl⟩, Nat.le_of_not_lt hmax⟩

/-- On a blank buffer there is nothing to compact: it is large enough or grows. -/
theorem ensureWritableBytes_blank (alloc : Allocator) {size len : Nat}
    (hreserve : kCheapPrepend ≤ size) (hmax : size ≤ maxSize)
    (hlen : kCheapPrepend + len < modulus) :
    ensureWritableBytes alloc len (blank size) = .ok () (blank (max size (kCheapPrepend + len))) ∧
        max size (kCheapPrepend + len) ≤ maxSize ∨
      ∃ e, size < kCheapPrepend + len ∧ GrowthRefused alloc (kCheapPrepend + len) e ∧
        ensureWritableBytes alloc len (blank size) = .error e (blank size) := by
  have hvalid := blank_valid hreserve hmax
  have hwriter : (blank size).writerIndex_ = kCheapPrepend := rfl
  have hwritable : (blank size).writableBytes = size - kCheapPrepend := by
    rw [writableBytes_eq hvalid, length_blank, hwriter]
  by_cases hlarge : kCheapPrepend + len ≤ size
  · have henough : len ≤ (blank size).writableBytes := by
      rw [hwritable]
      omega
    rw [Nat.max_eq_left hlarge]
    exact Or.inl ⟨ensureWritableBytes_enough alloc henough, hmax⟩
  · have hshort : size < kCheapPrepend + len := Nat.lt_of_not_le hlarge
    have hfit : SpaceFits (blank size) len := by
      intro _
      rw [hwriter, Nat.add_comm len]
      exact ⟨hlen, hlen⟩
    rw [Nat.max_eq_right hshort.le]
    rcases ensureWritableBytes_cases alloc hvalid hfit with ⟨henough, -⟩ | ⟨-, hfront, -⟩ |
      ⟨-, -, hbound, he⟩ | ⟨e, hrefused, he⟩
    · rw [hwritable] at henough
      omega
    · exact absurd hfront (Nat.lt_irrefl _)
    · rw [hwriter, blank_grow hshort.le] at he
      exact Or.inl ⟨he, hbound⟩
    · exact Or.inr ⟨e, hshort, hrefused, he⟩

/-! ## The swapped-in buffer -/

theorem shrunk_room (content : List Byte) (reserve : Nat) :
    kCheapPrepend + content.length + reserve ≤ shrunkSize content reserve := Nat.le_max_right _ _

section Shrunk

variable {content : List Byte} {reserve : Nat}

theorem shrunk_valid (hmax : shrunkSize content reserve ≤ maxSize) :
    (shrunk content reserve).Valid := by
  have hroom := shrunk_room content reserve
  apply written_valid (blank_valid (by omega) hmax)
  rw [length_blank]
  exact (Nat.le_add_right _ _).trans hroom

theorem shrunk_readable (hmax : shrunkSize content reserve ≤ maxSize) :
    (shrunk content reserve).readable = content := by
  have hroom := shrunk_room content reserve
  have hfit : (blank (shrunkSize content reserve)).writerIndex_ + content.length ≤
      (blank (shrunkSize content reserve)).buffer_.length := by
    rw [length_blank]
    exact (Nat.le_add_right _ _).trans hroom
  rw [shrunk, written_readable (blank_valid (by omega) hmax) hfit]
  simp [readable, blank]

theorem length_shrunk (content : List Byte) (reserve : Nat) :
    (shrunk content reserve).buffer_.length = shrunkSize content reserve := by
  have hroom := shrunk_room content reserve
  rw [shrunk, written, length_overwrite, length_blank]
  rw [length_blank]
  exact (Nat.le_add_right _ _).trans hroom

theorem shrunk_writableBytes (hmax : shrunkSize content reserve ≤ maxSize) :
    reserve ≤ (shrunk content reserve).writableBytes := by
  have hroom := shrunk_room content reserve
  rw [writableBytes_eq (shrunk_valid hmax), length_shrunk]
  simp only [shrunk, written, blank]
  omega

end Shrunk

/-- Nothing but the content and the reserve enters what `shrink` leaves. -/
theorem shrink_cases (alloc : Allocator) {b : Buffer} (h : b.Valid) {reserve : Nat}
    (hx : ShrinkFits b reserve) :
    shrink alloc reserve b = .ok () (shrunk b.readable reserve) ∧
        shrunkSize b.readable reserve ≤ maxSize ∨
      ∃ e, ShrinkRefused alloc b.readable reserve e ∧ shrink alloc reserve b = .error e b := by
  have hfits : kCheapPrepend + (b.readable.length + reserve) < modulus := by
    rw [Nat.add_comm, ← readableBytes_length h]
    exact hx
  have hsum : addSize b.readableBytes reserve = b.readable.length + reserve := by
    rw [readableBytes_length h]
    apply addSize_of_lt
    omega
  rcases new_cases alloc (show kCheapPrepend + kInitialSize < modulus by decide) with
    ⟨hnew, hfresh⟩ | ⟨e, hrefused, hnew⟩
  · rcases ensureWritableBytes_blank alloc (Nat.le_add_right _ _) hfresh hfits with
      ⟨he, hmax⟩ | ⟨e, hlarge, hrefused, he⟩
    · rw [← Nat.add_assoc] at he hmax
      have hroom := shrunk_room b.readable reserve
      have hvalid : (blank (shrunkSize b.readable reserve)).Valid := blank_valid (by omega) hmax
      have hfit : (blank (shrunkSize b.readable reserve)).writerIndex_ + b.readable.length ≤
          (blank (shrunkSize b.readable reserve)).buffer_.length := by
        rw [length_blank]
        exact (Nat.le_add_right _ _).trans hroom
      have happend := append_within alloc hvalid hfit
      refine Or.inl ⟨?_, hmax⟩
      rw [show max (kCheapPrepend + kInitialSize) (kCheapPrepend + b.readable.length + reserve) =
        shrunkSize b.readable reserve from rfl] at he
      simp only [shrink, bind_apply, get_apply, hnew, hsum, he, happend, set_apply, Buffer.swap]
      rfl
    · refine Or.inr ⟨e, Or.inr ⟨by omega, hrefused⟩, ?_⟩
      simp only [shrink, bind_apply, get_apply, hnew, hsum, he, throw_apply]
  · refine Or.inr ⟨e, Or.inl hrefused, ?_⟩
    simp only [shrink, bind_apply, get_apply, hnew, throw_apply]

/-- **The normal layout.** `shrink` leaves the content at the front of a storage whose size the
content and the reserve determine, or it throws and leaves the buffer as it was. On a buffer that
`shrink` left, the same call changes nothing. -/
theorem shrink_normalises {b : Buffer} (h : Reachable b) (alloc : Allocator) {reserve : Nat}
    (hx : ShrinkFits b reserve) :
    (∃ b', shrink alloc reserve b = .ok () b' ∧ b' = shrunk b.readable reserve ∧
      b'.readable = b.readable ∧ b'.prependableBytes = kCheapPrepend ∧
      reserve ≤ b'.writableBytes ∧
      b'.buffer_.length =
        max (kCheapPrepend + kInitialSize) (kCheapPrepend + b.readableBytes + reserve) ∧
      ∀ alloc', shrink alloc' reserve b' = .ok () b' ∨
        ∃ e, ShrinkRefused alloc' b.readable reserve e ∧
          shrink alloc' reserve b' = .error e b') ∨
    (∃ e, ShrinkRefused alloc b.readable reserve e ∧ shrink alloc reserve b = .error e b) := by
  rcases shrink_cases alloc h.valid hx with ⟨he, hmax⟩ | hrefused
  · have hread := shrunk_readable hmax
    have hagain : ShrinkFits (shrunk b.readable reserve) reserve := by
      unfold ShrinkFits at hx ⊢
      rw [readableBytes_length (shrunk_valid hmax), hread, ← readableBytes_length h.valid]
      exact hx
    refine Or.inl ⟨_, he, rfl, hread, rfl, shrunk_writableBytes hmax, ?_, ?_⟩
    · rw [length_shrunk, shrunkSize, readableBytes_length h.valid]
    · intro alloc'
      have hcases := shrink_cases alloc' (shrunk_valid hmax) hagain
      rw [hread] at hcases
      exact hcases.imp_left And.left
  · exact Or.inr hrefused

/-- The only byte lies in the reserve in front of a four-byte area. -/
theorem shrink_normalises_prepended :
    ∃ b', shrink (fun _ => true) 2000
        ⟨List.replicate 7 0 ++ [65] ++ List.replicate 4 0, 7, kCheapPrepend⟩ = .ok () b' ∧
      b'.readable = [65] ∧ b'.prependableBytes = kCheapPrepend ∧ 2000 ≤ b'.writableBytes ∧
      b'.buffer_.length = 2009 := by
  have hfresh : Reachable ⟨List.replicate 12 0, kCheapPrepend, kCheapPrepend⟩ :=
    .new (by decide) (show Buffer.new (fun _ => true) 4 = .ok _ from rfl)
  have hprepended : Reachable ⟨List.replicate 7 0 ++ [65] ++ List.replicate 4 0, 7, kCheapPrepend⟩ :=
    .call (.prepend [65]) (fun _ => true) hfresh (by decide) trivial
  rcases shrink_normalises hprepended (fun _ => true) (show _ + 2000 + kCheapPrepend < _ by decide)
    with ⟨b', he, -, hread, hfront, hroom, hsize, -⟩ | ⟨e, hrefused, -⟩
  · exact ⟨b', he, hread, hfront, hroom, hsize.trans (by decide)⟩
  · rcases hrefused with (⟨-, hmax⟩ | ⟨-, hno⟩) | ⟨-, ⟨-, hmax⟩ | ⟨-, hno⟩⟩
    · exact absurd hmax (by decide)
    · cases hno
    · exact absurd hmax (by decide)
    · cases hno

end MyNet.Net.Buffer
