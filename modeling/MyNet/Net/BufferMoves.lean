import MyNet.Net.BufferInts
import MyNet.Net.BufferRequests

/-!
# What the calls do to the indices of a `Buffer`

The code is read for a buffer in any state, so that what follows a request whose sums have
wrapped is covered too: first what a call leaves that returns, then which calls can throw.
-/
namespace MyNet.Net.Buffer

open MyNet.Base
open Lib Lib.ListStore Lib.SizeT Lib.FaultState

/-! ## Calls that return -/

section Returns

variable {b b' : Buffer}

theorem store_ok {i : Nat} {data : List Byte} (h : store i data b = .ok () b') :
    i + data.length ≤ b.buffer_.length ∧ b'.readerIndex_ = b.readerIndex_ ∧
      b'.writerIndex_ = b.writerIndex_ ∧ b'.buffer_.length = b.buffer_.length := by
  simp only [store, bind_apply, get_apply, if_apply, set_apply, throw_apply] at h
  split at h
  · next hfits =>
    cases h
    exact ⟨hfits, rfl, rfl, length_overwrite hfits⟩
  · cases h

theorem store_error {i : Nat} {data : List Byte} {e : Fault}
    (h : store i data b = .error e b') : e = .outOfRange ∧ b' = b := by
  simp only [store, bind_apply, get_apply, if_apply, set_apply, throw_apply] at h
  split at h
  · cases h
  · cases h
    exact ⟨rfl, rfl⟩

theorem hasWritten_ok {len : Nat} (h : hasWritten len b = .ok () b') :
    b' = { b with writerIndex_ := addSize b.writerIndex_ len } := by
  rw [hasWritten, get_bind_apply] at h
  obtain ⟨_, _, hassert, h⟩ := bind_ok h
  obtain ⟨-, rfl⟩ := assert_ok hassert
  cases h
  rfl

/-- Writing `n` bytes behind the content. -/
def Advanced (n : Nat) (b b' : Buffer) : Prop :=
  b.writerIndex_ + n ≤ b.buffer_.length ∧ b'.readerIndex_ = b.readerIndex_ ∧
    b'.writerIndex_ = addSize b.writerIndex_ n ∧ b'.buffer_.length = b.buffer_.length

theorem write_ok {data : List Byte} (h : write data b = .ok () b') :
    Advanced data.length b b' := by
  rw [write, get_bind_apply] at h
  obtain ⟨_, b₁, hstore, h⟩ := bind_ok h
  obtain ⟨hfits, hreader, hwriter, hsize⟩ := store_ok hstore
  obtain rfl := hasWritten_ok h
  exact ⟨hfits, hreader, congrArg (addSize · data.length) hwriter, hsize⟩

theorem append_ok {alloc : Allocator} {data : List Byte} (h : append alloc data b = .ok () b') :
    ∃ b₁, Spaced data.length b b₁ ∧ Advanced data.length b₁ b' := by
  obtain ⟨_, b₁, hspace, h⟩ := bind_ok h
  exact ⟨b₁, (ensureWritableBytes_ok hspace).1, write_ok h⟩

theorem unwrite_ok {len : Nat} (h : unwrite len b = .ok () b') :
    len ≤ b.readableBytes ∧ b' = { b with writerIndex_ := subSize b.writerIndex_ len } := by
  rw [unwrite, get_bind_apply] at h
  obtain ⟨_, _, hassert, h⟩ := bind_ok h
  obtain ⟨hlen, rfl⟩ := assert_ok hassert
  cases h
  exact ⟨hlen, rfl⟩

/-- `len` bytes gone from the front; the indices are reset if that is all. -/
def Retrieved (len : Nat) (b b' : Buffer) : Prop :=
  if len < b.readableBytes then b' = { b with readerIndex_ := addSize b.readerIndex_ len }
  else b' = { b with readerIndex_ := kCheapPrepend, writerIndex_ := kCheapPrepend }

theorem retrieve_ok {len : Nat} (h : retrieve len b = .ok () b') : Retrieved len b b' := by
  rw [retrieve, get_bind_apply] at h
  obtain ⟨_, _, hassert, h⟩ := bind_ok h
  obtain ⟨-, rfl⟩ := assert_ok hassert
  rw [get_bind_apply] at h
  unfold Retrieved
  split
  · next hpart =>
    rw [if_pos hpart] at h
    cases h
    rfl
  · next hall =>
    rw [if_neg hall] at h
    cases h
    rfl

theorem retrieveUntil_ok {n : Nat} (h : retrieveUntil (b.peek + n) b = .ok () b') :
    Retrieved n b b' := by
  rw [retrieveUntil, get_bind_apply] at h
  obtain ⟨_, _, hassert, h⟩ := bind_ok h
  obtain ⟨-, rfl⟩ := assert_ok hassert
  rw [get_bind_apply] at h
  obtain ⟨_, _, hassert, h⟩ := bind_ok h
  obtain ⟨-, rfl⟩ := assert_ok hassert
  rw [get_bind_apply, Nat.add_sub_cancel_left] at h
  exact retrieve_ok h

theorem retrieveAsString_ok {len : Nat} {result : List Byte}
    (h : retrieveAsString len b = .ok result b') : Retrieved len b b' := by
  rw [retrieveAsString, get_bind_apply] at h
  obtain ⟨_, _, hassert, h⟩ := bind_ok h
  obtain ⟨-, rfl⟩ := assert_ok hassert
  rw [get_bind_apply] at h
  by_cases hread : b.buffer_.length < b.peek + len
  · rw [if_pos hread] at h
    cases h
  · rw [if_neg hread] at h
    obtain ⟨_, _, hretrieve, h⟩ := bind_ok h
    cases h
    exact retrieve_ok hretrieve

theorem prepend_ok {data : List Byte} (h : prepend data b = .ok () b') :
    data.length ≤ b.readerIndex_ ∧ b'.readerIndex_ = subSize b.readerIndex_ data.length ∧
      b'.writerIndex_ = b.writerIndex_ ∧ b'.buffer_.length = b.buffer_.length := by
  rw [prepend, get_bind_apply] at h
  obtain ⟨_, _, hassert, h⟩ := bind_ok h
  obtain ⟨hlen, rfl⟩ := assert_ok hassert
  rw [modify_bind_apply, get_bind_apply] at h
  obtain ⟨-, hreader, hwriter, hsize⟩ := store_ok h
  exact ⟨hlen, hreader, hwriter, hsize⟩

/-- No content, right behind the reserve. -/
structure Fresh (b : Buffer) : Prop where
  reader : b.readerIndex_ = kCheapPrepend
  writer : b.writerIndex_ = kCheapPrepend
  bounded : b.buffer_.length ≤ maxSize

theorem Spaced.fresh {len : Nat} (h : Spaced len b b') (hb : Fresh b) : Fresh b' := by
  cases h with
  | enough => exact hb
  | resized _ _ hreader hwriter _ hbound =>
    have hmax := hb.bounded
    exact ⟨hreader.trans hb.reader, hwriter.trans hb.writer, by omega⟩
  | compacted _ _ hfront => exact absurd hb.reader (Nat.ne_of_gt hfront)

theorem new_fresh {alloc : Allocator} {n : Nat} (h : new alloc n = .ok b) : Fresh b := by
  obtain ⟨rfl, hmax⟩ := new_ok h
  exact ⟨rfl, rfl, by rwa [List.length_replicate]⟩

/-- The fresh buffer that `shrink` swaps in. -/
theorem shrink_ok {alloc : Allocator} {reserve : Nat} (h : shrink alloc reserve b = .ok () b') :
    b'.readerIndex_ = kCheapPrepend ∧ kCheapPrepend ≤ b'.writerIndex_ ∧
      b'.writerIndex_ ≤ b'.buffer_.length ∧ b'.buffer_.length ≤ maxSize := by
  rw [shrink, get_bind_apply] at h
  cases hnew : new alloc kInitialSize with
  | error e =>
    rw [hnew] at h
    cases h
  | ok other =>
    rw [hnew] at h
    cases hfill : (do ensureWritableBytes alloc (addSize b.readableBytes reserve)
                      append alloc b.readable : BufferM Unit) other with
    | error e o =>
      simp only [hfill] at h
      cases h
    | ok u filled =>
      simp only [hfill] at h
      cases h
      obtain ⟨_, o₁, hreserve, happend⟩ := bind_ok hfill
      obtain ⟨o₂, hspace, hroom, hreader, hwriter, hsize⟩ := append_ok happend
      have hreserved := (ensureWritableBytes_ok hreserve).1.fresh (new_fresh hnew)
      obtain ⟨hr, hw, hmax⟩ := hspace.fresh hreserved
      have hlt := maxSize_lt_modulus
      rw [hw] at hroom hwriter
      rw [addSize_of_lt (by omega)] at hwriter
      have hswap : (b.swap filled).1 = filled := rfl
      rw [hswap]
      exact ⟨hreader.trans hr, by omega, by omega, by omega⟩

/-- All that was delivered fits behind the content. -/
theorem readFd_ok_within {alloc : Allocator} {d : List Byte} {saved : Int} {result : Int × Int}
    (hd : d.length ≤ b.writableBytes)
    (h : readFd alloc (.data d) saved b = .ok result b') : Advanced d.length b b' := by
  cases hstore : store b.beginWrite (d.take b.writableBytes) b with
  | error e b₁ =>
    simp only [readFd, bind_apply, get_apply, hstore] at h
    cases h
  | ok u b₁ =>
    simp only [readFd, bind_apply, get_apply, hstore, if_pos hd, modify_apply, pure_apply] at h
    cases h
    obtain ⟨hfits, hreader, hwriter, hsize⟩ := store_ok hstore
    rw [List.take_of_length_le hd] at hfits
    exact ⟨hfits, hreader, congrArg (addSize · d.length) hwriter, hsize⟩

/-- The writable area is full and the write index at the end of the storage. -/
structure Forced (b b₁ : Buffer) : Prop where
  inside : b.writerIndex_ + b.writableBytes ≤ b.buffer_.length
  reader : b₁.readerIndex_ = b.readerIndex_
  writer : b₁.writerIndex_ = b.buffer_.length
  size : b₁.buffer_.length = b.buffer_.length

/-- What was spilled is appended then. -/
theorem readFd_spilled {alloc : Allocator} {d : List Byte} {saved : Int}
    (hd : b.writableBytes < d.length) :
    readFd alloc (.data d) saved b = .error .outOfRange b ∨
    ∃ b₁, Forced b b₁ ∧ readFd alloc (.data d) saved b =
      match append alloc (d.drop b.writableBytes) b₁ with
      | .ok _ b' => .ok ((d.length : Int), saved) b'
      | .error e b' => .error e b' := by
  have hall : (d.drop b.writableBytes).take (d.length - b.writableBytes) =
      d.drop b.writableBytes := List.take_of_length_le (by rw [List.length_drop])
  cases hstore : store b.beginWrite (d.take b.writableBytes) b with
  | error e b₁ =>
    obtain ⟨rfl, rfl⟩ := store_error hstore
    left
    simp only [readFd, bind_apply, get_apply, hstore]
  | ok u b₁ =>
    obtain ⟨hfits, hreader, hwriter, hsize⟩ := store_ok hstore
    rw [List.length_take, Nat.min_eq_left (Nat.le_of_lt hd)] at hfits
    refine Or.inr ⟨{ b₁ with writerIndex_ := b₁.buffer_.length }, ⟨hfits, hreader, hsize, hsize⟩, ?_⟩
    simp only [readFd, bind_apply, get_apply, hstore, if_neg (Nat.not_le.mpr hd), modify_apply, hall]
    cases append alloc (d.drop b.writableBytes) { b₁ with writerIndex_ := b₁.buffer_.length } <;> rfl

theorem load_ok {host : ByteOrder} {i n : Nat} {x : BitVec (8 * n)}
    (h : load host i n b = .ok x b') : b = b' := by
  rw [load, get_bind_apply] at h
  by_cases hend : i + n ≤ b.buffer_.length
  · rw [if_pos hend] at h
    cases h
    rfl
  · rw [if_neg hend] at h
    cases h

theorem peekInt_ok {host : ByteOrder} {n : Nat} {toHost : BitVec (8 * n) → BitVec (8 * n)}
    {x : BitVec (8 * n)} (h : peekInt host n toHost b = .ok x b') : b = b' := by
  rw [peekInt, get_bind_apply] at h
  obtain ⟨_, _, hassert, h⟩ := bind_ok h
  obtain ⟨-, rfl⟩ := assert_ok hassert
  rw [get_bind_apply] at h
  obtain ⟨y, b₁, hload, h⟩ := bind_ok h
  obtain rfl := load_ok hload
  cases h
  rfl

theorem peekInt8_ok {host : ByteOrder} {x : BitVec 8} (h : peekInt8 host b = .ok x b') :
    b = b' := by
  rw [peekInt8, get_bind_apply] at h
  obtain ⟨_, _, hassert, h⟩ := bind_ok h
  obtain ⟨-, rfl⟩ := assert_ok hassert
  exact load_ok h

theorem peekTyped_ok {host : ByteOrder} {w : Width} {x : BitVec (8 * w.bytes)}
    (h : peekTyped host w b = .ok x b') : b = b' := by
  cases w with
  | int8 => exact peekInt8_ok h
  | int16 => exact peekInt_ok h
  | int32 => exact peekInt_ok h
  | int64 => exact peekInt_ok h

theorem readTyped_ok {host : ByteOrder} {w : Width} {x : BitVec (8 * w.bytes)}
    (h : readTyped host w b = .ok x b') : Retrieved w.bytes b b' := by
  rw [readTyped_eq] at h
  obtain ⟨_, _, hpeek, h⟩ := bind_ok h
  obtain rfl := peekTyped_ok hpeek
  obtain ⟨_, _, hretrieve, h⟩ := bind_ok h
  cases h
  exact retrieve_ok hretrieve

end Returns

/-! ## Calls that throw -/

/-- No exception, only an assertion or an access outside the storage. -/
def NeverThrows {α : Type} (m : BufferM α) : Prop := FaultsIn (fun e => e.isThrown = false) m

section Throws

variable {b b' : Buffer} {e : Fault}

theorem NeverThrows.absurd {α : Type} {m : BufferM α} (hm : NeverThrows m)
    (h : m b = .error e b') (he : e.isThrown = true) : False := by
  have hbug : e.isThrown = false := hm b e b' h
  rw [he] at hbug
  cases hbug

theorem neverThrows_assert (p : Prop) [Decidable p] : NeverThrows (assert p) :=
  .ite (.pure _) (.throw rfl)

theorem neverThrows_store (i : Nat) (data : List Byte) : NeverThrows (store i data) :=
  .bind .get fun _ => .ite (.set _) (.throw rfl)

theorem neverThrows_hasWritten (len : Nat) : NeverThrows (hasWritten len) :=
  .bind .get fun _ => .bind (neverThrows_assert _) fun _ => .modify _

theorem neverThrows_write (data : List Byte) : NeverThrows (write data) :=
  .bind .get fun _ => .bind (neverThrows_store _ _) fun _ => neverThrows_hasWritten _

theorem neverThrows_unwrite (len : Nat) : NeverThrows (unwrite len) :=
  .bind .get fun _ => .bind (neverThrows_assert _) fun _ => .modify _

theorem neverThrows_retrieve (len : Nat) : NeverThrows (retrieve len) :=
  .bind .get fun _ => .bind (neverThrows_assert _) fun _ =>
    .bind .get fun _ => .ite (.modify _) (.modify _)

theorem neverThrows_retrieveUntil (n : Nat) : NeverThrows (retrieveUntil n) :=
  .bind .get fun _ => .bind (neverThrows_assert _) fun _ =>
    .bind .get fun _ => .bind (neverThrows_assert _) fun _ =>
      .bind .get fun _ => neverThrows_retrieve _

theorem neverThrows_retrieveAsString (len : Nat) : NeverThrows (retrieveAsString len) :=
  .bind .get fun _ => .bind (neverThrows_assert _) fun _ =>
    .bind .get fun _ => .ite (.throw rfl) (.bind (neverThrows_retrieve _) fun _ => .pure _)

theorem neverThrows_prepend (data : List Byte) : NeverThrows (prepend data) :=
  .bind .get fun _ => .bind (neverThrows_assert _) fun _ =>
    .bind (.modify _) fun _ => .bind .get fun _ => neverThrows_store _ _

theorem neverThrows_load (host : ByteOrder) (i n : Nat) : NeverThrows (load host i n) :=
  .bind .get fun _ => .ite (.pure _) (.throw rfl)

theorem neverThrows_peekTyped (host : ByteOrder) (w : Width) : NeverThrows (peekTyped host w) := by
  have hpeek : ∀ n toHost, NeverThrows (peekInt host n toHost) := fun n toHost =>
    .bind .get fun _ => .bind (neverThrows_assert _) fun _ =>
      .bind .get fun _ => .bind (neverThrows_load _ _ _) fun _ => .pure _
  cases w with
  | int8 =>
    exact .bind .get fun _ => .bind (neverThrows_assert _) fun _ =>
      .bind .get fun _ => neverThrows_load _ _ _
  | int16 => exact hpeek 2 _
  | int32 => exact hpeek 4 _
  | int64 => exact hpeek 8 _

theorem neverThrows_readTyped (host : ByteOrder) (w : Width) : NeverThrows (readTyped host w) := by
  rw [readTyped_eq]
  exact .bind (neverThrows_peekTyped host w) fun _ =>
    .bind (neverThrows_retrieve _) fun _ => .pure _

/-- An append that throws has changed nothing. -/
theorem append_thrown {alloc : Allocator} {data : List Byte}
    (h : append alloc data b = .error e b') (he : e.isThrown = true) : b' = b := by
  rcases bind_error h with hspace | ⟨_, b₁, -, h⟩
  · exact (ensureWritableBytes_thrown hspace he).1
  · exact ((neverThrows_write data).absurd h he).elim

theorem shrink_error {alloc : Allocator} {reserve : Nat}
    (h : shrink alloc reserve b = .error e b') : b' = b := by
  rw [shrink, get_bind_apply] at h
  cases hnew : new alloc kInitialSize with
  | error f =>
    rw [hnew] at h
    cases h
    rfl
  | ok other =>
    rw [hnew] at h
    cases hfill : (do ensureWritableBytes alloc (addSize b.readableBytes reserve)
                      append alloc b.readable : BufferM Unit) other with
    | error f o =>
      simp only [hfill] at h
      cases h
      rfl
    | ok u filled =>
      simp only [hfill] at h
      cases h

end Throws

end MyNet.Net.Buffer
