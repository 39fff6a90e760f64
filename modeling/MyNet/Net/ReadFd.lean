import MyNet.Net.BufferQueue

/-!
# `readFd` and the reachable buffers

`readFd` forces the write index to the end of the storage before it appends the
bytes spilled into `extrabuf`, so the append may move or enlarge storage that holds
bytes just received. `Reachable` closes the constructed buffers under every operation,
`readFd` and `shrink` included, and under the state an exception leaves behind.
-/
namespace MyNet.Net.Buffer

open MyNet.Base
open Lib.ListStore Lib.SizeT Lib.FaultState

theorem iovecs_sum (b : Buffer) :
    (iovecs b).sum =
      if b.writableBytes < extrabufSize then b.writableBytes + extrabufSize
      else b.writableBytes := by
  unfold iovecs
  split <;> simp

/-- Delivered bytes that do not fit the writable area: `extrabuf` was offered. -/
theorem spill_bound {b : Buffer} {d : List Byte} (hf : ReadvResult.Fits b (.data d))
    (hs : b.writableBytes < d.length) :
    b.writableBytes < extrabufSize ∧ d.length ≤ b.writableBytes + extrabufSize := by
  change d.length ≤ (iovecs b).sum at hf
  rw [iovecs_sum] at hf
  by_cases hw : b.writableBytes < extrabufSize
  · rw [if_pos hw] at hf
    exact ⟨hw, hf⟩
  · rw [if_neg hw] at hf
    omega

/-- With `extrabuf`, at most 128k-1 bytes are read. -/
theorem fits_bound {b : Buffer} {d : List Byte} (hf : ReadvResult.Fits b (.data d))
    (hw : b.writableBytes < extrabufSize) : d.length ≤ 131071 := by
  change d.length ≤ (iovecs b).sum at hf
  rw [iovecs_sum, if_pos hw] at hf
  have he : extrabufSize = 65536 := rfl
  omega

theorem readFd_error (alloc : Allocator) (b : Buffer) (errno saved : Int) :
    readFd alloc (.error errno) saved b = .ok (-1, errno) b := rfl

/-- Nothing spilled: the delivered bytes are exactly the ones the index moves over. -/
theorem readFd_within (alloc : Allocator) {b : Buffer} (h : b.Valid) {d : List Byte}
    (hd : d.length ≤ b.writableBytes) (saved : Int) :
    readFd alloc (.data d) saved b = .ok ((d.length : Int), saved) (b.written d) := by
  have hw := writableBytes_eq h
  have hi := h.inside
  have hlt := h.length_lt
  have hend : b.beginWrite + (d.take b.writableBytes).length ≤ b.buffer_.length := by
    rw [List.take_of_length_le hd, beginWrite]
    omega
  have hsum : addSize b.writerIndex_ d.length = b.writerIndex_ + d.length :=
    addSize_of_lt (by omega)
  simp only [readFd, store, bind_apply, get_apply, if_apply, set_apply, modify_apply,
    pure_apply, if_pos hend, if_pos hd, hsum]
  rw [List.take_of_length_le hd]
  rfl

/-- The storage after the kernel filled the writable area and the index was forced to
the end. -/
theorem readFd_spill (alloc : Allocator) {b : Buffer} (h : b.Valid) {d : List Byte}
    (hd : b.writableBytes < d.length) (saved : Int) :
    readFd alloc (.data d) saved b =
      match append alloc (d.drop b.writableBytes) (b.written (d.take b.writableBytes)) with
      | .ok _ b' => .ok ((d.length : Int), saved) b'
      | .error e b' => .error e b' := by
  have hw := writableBytes_eq h
  have hi := h.inside
  have hlen : (d.take b.writableBytes).length = b.writableBytes := by
    rw [List.length_take]
    omega
  have hroom : b.writerIndex_ + (d.take b.writableBytes).length ≤ b.buffer_.length := by
    rw [hlen]
    omega
  have hend : b.beginWrite + (d.take b.writableBytes).length ≤ b.buffer_.length := hroom
  have hindex : b.written (d.take b.writableBytes) =
      ⟨overwrite b.buffer_ b.beginWrite (d.take b.writableBytes), b.readerIndex_,
        (overwrite b.buffer_ b.beginWrite (d.take b.writableBytes)).length⟩ := by
    rw [length_overwrite hend, written, hlen, show b.beginWrite = b.writerIndex_ from rfl,
      show b.writerIndex_ + b.writableBytes = b.buffer_.length from by omega]
  have hall : (d.drop b.writableBytes).take (d.length - b.writableBytes) =
      d.drop b.writableBytes := List.take_of_length_le (by rw [List.length_drop])
  simp only [readFd, store, bind_apply, get_apply, if_apply, set_apply, modify_apply,
    pure_apply, if_pos hend, if_neg (Nat.not_le.mpr hd), hall, ← hindex]
  cases append alloc (d.drop b.writableBytes) (b.written (d.take b.writableBytes)) <;> rfl

/-- The bytes delivered are appended, or the spilled ones are refused by the allocator. -/
theorem readFd_data (alloc : Allocator) {b : Buffer} (h : b.Valid) {d : List Byte}
    (hf : ReadvResult.Fits b (.data d)) (saved : Int) :
    (∃ b', readFd alloc (.data d) saved b = .ok ((d.length : Int), saved) b' ∧ b'.Valid ∧
      b'.readable = b.readable ++ d) ∨
    (∃ e b', b.writableBytes < d.length ∧
      GrowthRefused alloc (b.buffer_.length + (d.length - b.writableBytes)) e ∧
      readFd alloc (.data d) saved b = .error e b' ∧ b'.Valid ∧
      b'.readable = b.readable ++ d.take b.writableBytes) := by
  have hw := writableBytes_eq h
  have hi := h.inside
  by_cases hd : d.length ≤ b.writableBytes
  · have hroom : b.writerIndex_ + d.length ≤ b.buffer_.length := by omega
    exact Or.inl ⟨_, readFd_within alloc h hd saved, written_valid h hroom,
      written_readable h hroom⟩
  · have hs : b.writableBytes < d.length := by omega
    have hlen : (d.take b.writableBytes).length = b.writableBytes := by
      rw [List.length_take]
      omega
    have hroom : b.writerIndex_ + (d.take b.writableBytes).length ≤ b.buffer_.length := by
      rw [hlen]
      omega
    have hv := written_valid h hroom
    have hc := written_readable h hroom
    have hindex : (b.written (d.take b.writableBytes)).writerIndex_ = b.buffer_.length := by
      simp only [written, hlen]
      omega
    -- 64 KiB more than a vector can hold is still far from the end of `size_t`
    have hfit : SpaceFits (b.written (d.take b.writableBytes)) (d.drop b.writableBytes).length := by
      intro _
      have hb := h.bounded
      have hbound := (spill_bound hf hs).2
      have hx : maxSize + extrabufSize + kCheapPrepend < modulus := by decide
      rw [hindex, List.length_drop]
      omega
    rcases append_spec alloc hv hfit with ⟨b', he, hv', hc'⟩ | ⟨e, hg, he⟩
    · refine Or.inl ⟨b', ?_, hv', ?_⟩
      · rw [readFd_spill alloc h hs, he]
      · rw [hc', hc, List.append_assoc, List.take_append_drop]
    · rw [hindex, List.length_drop] at hg
      refine Or.inr ⟨e, _, hs, hg, ?_, hv, hc⟩
      rw [readFd_spill alloc h hs, he]

/-! ## Reachable buffers -/

/-- The buffer a call leaves behind, also when it throws. -/
def left {α : Type} : EStateM.Result Fault Buffer α → Buffer
  | .ok _ b => b
  | .error _ b => b

/-- The sums `shrink(reserve)` forms are exact. -/
def ShrinkFits (b : Buffer) (reserve : Nat) : Prop :=
  b.readableBytes + reserve + kCheapPrepend < modulus

inductive Reachable : Buffer → Prop
  | new {alloc : Allocator} {n : Nat} {b : Buffer} (hn : kCheapPrepend + n < modulus)
      (h : Buffer.new alloc n = .ok b) : Reachable b
  | call {b : Buffer} (op : Op) (alloc : Allocator) (h : Reachable b) (hm : op.Meets b)
      (hx : op.Exact b) : Reachable (left (op.exec alloc b))
  | readFd {b : Buffer} (alloc : Allocator) (r : ReadvResult) (saved : Int) (h : Reachable b)
      (hf : r.Fits b) : Reachable (left (Buffer.readFd alloc r saved b))
  | shrink {b : Buffer} (alloc : Allocator) (reserve : Nat) (h : Reachable b)
      (hx : ShrinkFits b reserve) : Reachable (left (Buffer.shrink alloc reserve b))
  | swap {b rhs : Buffer} (h : Reachable b) (hr : Reachable rhs) :
      Reachable (Buffer.swap b rhs).1

/-- `shrink` keeps the content, or throws and changes nothing. -/
theorem shrink_spec (alloc : Allocator) {b : Buffer} (h : b.Valid) {reserve : Nat}
    (hx : ShrinkFits b reserve) :
    (∃ b', shrink alloc reserve b = .ok () b' ∧ b'.Valid ∧ b'.readable = b.readable) ∨
    (∃ e, shrink alloc reserve b = .error e b) := by
  have hlen := readableBytes_length h
  have hsum : addSize b.readableBytes reserve = b.readableBytes + reserve :=
    addSize_of_lt (by unfold ShrinkFits at hx; omega)
  cases hnew : new alloc kInitialSize with
  | error e =>
    refine Or.inr ⟨e, ?_⟩
    simp only [shrink, bind_apply, get_apply, hnew, throw_apply]
  | ok other =>
    obtain ⟨hv, hempty⟩ := new_valid hnew (by decide)
    have hindex : other.writerIndex_ = kCheapPrepend := by rw [(new_ok hnew).1]
    have hfit : SpaceFits other (b.readableBytes + reserve) := by
      intro _
      unfold ShrinkFits at hx
      rw [hindex]
      omega
    rcases ensureWritableBytes_spec alloc hv hfit with ⟨o₁, he, hv₁, hc₁, hroom⟩ | ⟨e, -, he⟩
    · have hfits : o₁.writerIndex_ + b.readable.length ≤ o₁.buffer_.length := by omega
      refine Or.inl ⟨o₁.written b.readable, ?_, written_valid hv₁ hfits, ?_⟩
      · simp only [shrink, bind_apply, get_apply, hnew, hsum, he, append_within alloc hv₁ hfits,
          set_apply, Buffer.swap]
      · rw [written_readable hv₁ hfits, hc₁, hempty, List.nil_append]
    · refine Or.inr ⟨e, ?_⟩
      simp only [shrink, bind_apply, get_apply, hnew, hsum, he, throw_apply]

theorem Reachable.valid {b : Buffer} (h : Reachable b) : b.Valid := by
  induction h with
  | new hn h => exact (new_valid h hn).1
  | call op alloc h hm hx ih =>
    rcases op.exec_spec alloc ih hm hx with ⟨b', he, hv, -⟩ | ⟨e, -, he⟩
    · rw [he]; exact hv
    · rw [he]; exact ih
  | readFd alloc r saved h hf ih =>
    cases r with
    | error errno => exact ih
    | data d =>
      rcases readFd_data alloc ih hf saved with ⟨b', he, hv, -⟩ | ⟨e, b', -, -, he, hv, -⟩
      · rw [he]; exact hv
      · rw [he]; exact hv
  | shrink alloc reserve h hx ih =>
    rcases shrink_spec alloc ih hx with ⟨b', he, hv, -⟩ | ⟨e, he⟩
    · rw [he]; exact hv
    · rw [he]; exact ih
  | swap h hr ih ihr => exact ihr

/-- On every reachable buffer and for every result of `readv`: an error changes nothing
but `*savedErrno`; otherwise the delivered bytes are appended and their number is
returned, at most 131071 when `extrabuf` was offered. The one exception is a spill the
allocator refuses to make room for; no assertion fails. -/
theorem readFd_appends {b : Buffer} (h : Reachable b) (alloc : Allocator) (r : ReadvResult)
    (hf : r.Fits b) (saved : Int) :
    (∀ errno, r = .error errno → readFd alloc r saved b = .ok (-1, errno) b) ∧
    (∀ d, r = .data d →
      (b.writableBytes < extrabufSize → d.length ≤ 131071) ∧
      ((∃ b', readFd alloc r saved b = .ok ((d.length : Int), saved) b' ∧
          b'.readable = b.readable ++ d ∧ b'.readerIndex_ ≤ b'.writerIndex_ ∧
          b'.writerIndex_ ≤ b'.buffer_.length) ∨
        (∃ e b', b.writableBytes < d.length ∧
          GrowthRefused alloc (b.buffer_.length + (d.length - b.writableBytes)) e ∧
          readFd alloc r saved b = .error e b' ∧ b'.readerIndex_ ≤ b'.writerIndex_ ∧
          b'.writerIndex_ ≤ b'.buffer_.length))) := by
  constructor
  · rintro errno rfl
    exact readFd_error alloc b errno saved
  · rintro d rfl
    refine ⟨fits_bound hf, ?_⟩
    rcases readFd_data alloc h.valid hf saved with ⟨b', he, hv, hc⟩ | ⟨e, b', hs, hg, he, hv, -⟩
    · exact Or.inl ⟨b', he, hc, hv.ordered, hv.inside⟩
    · exact Or.inr ⟨e, b', hs, hg, he, hv.ordered, hv.inside⟩

/-- Five bytes arrive at a full four-byte area: one is spilled and the storage grows. -/
theorem readFd_appends_spill :
    ∃ b', readFd (fun _ => true) (.data [1, 2, 3, 4, 5]) 0
        ⟨List.replicate 12 0, kCheapPrepend, kCheapPrepend⟩ = .ok (5, 0) b' ∧
      b'.readable = [1, 2, 3, 4, 5] := by
  have hb : Reachable ⟨List.replicate 12 0, kCheapPrepend, kCheapPrepend⟩ :=
    .new (by decide) (show Buffer.new (fun _ => true) 4 = .ok _ from rfl)
  obtain ⟨-, hd⟩ := readFd_appends hb (fun _ => true) (.data [1, 2, 3, 4, 5])
    (show 5 ≤ (iovecs _).sum by decide) 0
  rcases (hd _ rfl).2 with ⟨b', he, hc, -, -⟩ | ⟨e, b', -, hg, -⟩
  · exact ⟨b', he, hc⟩
  · rcases hg with ⟨-, hm⟩ | ⟨-, ha⟩
    · exact absurd hm (by decide)
    · cases ha

end MyNet.Net.Buffer
