import MyNet.Net.BufferInvariant
import MyNet.Lib.Machine
import Mathlib.Logic.Function.Basic

/-!
# `Buffer` refines a byte queue

The queue is a list of bytes: appending at the back, removing at either end and
prepending. A family of buffers is run next to a family of queues on the same
calls. A call is labelled with what its caller sees, the bytes returned or an
exception, so the queues have to give the same answers. A refused growth is the
only call that ends early, and it changes neither side.
-/
namespace MyNet.Net.Buffer

open MyNet.Base
open Lib Lib.ListStore Lib.SizeT Lib.FaultState

/-- Writing through `beginWrite()` and then `hasWritten`. -/
def write (data : List Byte) : BufferM Unit := do
  store (← get).beginWrite data
  hasWritten data.length

/-- The calls a user makes; the end of `retrieveUntil` is given as an offset from `peek()`. -/
inductive Op where
  | append (data : List Byte)
  | ensureWritableBytes (len : Nat)
  | write (data : List Byte)
  | unwrite (len : Nat)
  | retrieve (len : Nat)
  | retrieveUntil (n : Nat)
  | retrieveAll
  | retrieveAsString (len : Nat)
  | retrieveAllAsString
  | prepend (data : List Byte)

namespace Op

/-- The call with the bytes it returns; a call that returns nothing gives `[]`. -/
def exec (alloc : Allocator) : Op → BufferM (List Byte)
  | append data => do Buffer.append alloc data; return []
  | ensureWritableBytes len => do Buffer.ensureWritableBytes alloc len; return []
  | write data => do Buffer.write data; return []
  | unwrite len => do Buffer.unwrite len; return []
  | retrieve len => do Buffer.retrieve len; return []
  | retrieveUntil n => do Buffer.retrieveUntil ((← get).peek + n); return []
  | retrieveAll => do Buffer.retrieveAll; return []
  | retrieveAsString len => Buffer.retrieveAsString len
  | retrieveAllAsString => Buffer.retrieveAllAsString
  | prepend data => do Buffer.prepend data; return []

/-- The caller's side of the assertions, in the state before the call. -/
def Meets (b : Buffer) : Op → Prop
  | write data => data.length ≤ b.writableBytes
  | unwrite len | retrieve len | retrieveAsString len => len ≤ b.readableBytes
  | retrieveUntil n => b.peek + n ≤ b.beginWrite
  | prepend data => data.length ≤ b.prependableBytes
  | append _ | ensureWritableBytes _ | retrieveAll | retrieveAllAsString => True

/-- The sums of `size_t` values that the call forms do not wrap. -/
def Exact (b : Buffer) : Op → Prop
  | append data => SpaceFits b data.length
  | ensureWritableBytes len => SpaceFits b len
  | _ => True

instance (b : Buffer) : (op : Op) → Decidable (op.Meets b)
  | append _ | ensureWritableBytes _ | retrieveAll | retrieveAllAsString =>
    inferInstanceAs (Decidable True)
  | write _ | unwrite _ | retrieve _ | retrieveAsString _ | retrieveUntil _ | prepend _ =>
    inferInstanceAs (Decidable (_ ≤ _))

instance (b : Buffer) : (op : Op) → Decidable (op.Exact b)
  | append _ | ensureWritableBytes _ => inferInstanceAs (Decidable (SpaceFits b _))
  | retrieveAll | retrieveAllAsString | write _ | unwrite _ | retrieve _ | retrieveAsString _
  | retrieveUntil _ | prepend _ => inferInstanceAs (Decidable True)

/-- What the call means for a queue: the bytes returned and the bytes left. -/
def onQueue (q : List Byte) : Op → List Byte × List Byte
  | append data | write data => ([], q ++ data)
  | ensureWritableBytes _ => ([], q)
  | unwrite len => ([], q.take (q.length - len))
  | retrieve len | retrieveUntil len => ([], q.drop len)
  | retrieveAll => ([], [])
  | retrieveAsString len => (q.take len, q.drop len)
  | retrieveAllAsString => (q, [])
  | prepend data => ([], data ++ q)

end Op

/-! ## One call -/

/-- `data` stored right behind the content. -/
def written (b : Buffer) (data : List Byte) : Buffer :=
  ⟨overwrite b.buffer_ b.writerIndex_ data, b.readerIndex_, b.writerIndex_ + data.length⟩

theorem written_valid {b : Buffer} (h : b.Valid) {data : List Byte}
    (hroom : b.writerIndex_ + data.length ≤ b.buffer_.length) : (b.written data).Valid := by
  have hlen := length_overwrite hroom
  exact ⟨h.ordered.trans (Nat.le_add_right _ _), hlen.symm ▸ hroom, hlen.symm ▸ h.reserve,
    hlen.symm ▸ h.bounded⟩

theorem written_readable {b : Buffer} (h : b.Valid) {data : List Byte}
    (hroom : b.writerIndex_ + data.length ≤ b.buffer_.length) :
    (b.written data).readable = b.readable ++ data := slice_overwrite_back h.ordered hroom

theorem write_eq {b : Buffer} (h : b.Valid) {data : List Byte}
    (hroom : b.writerIndex_ + data.length ≤ b.buffer_.length) :
    write data b = .ok () (b.written data) := by
  have hlen := length_overwrite hroom
  have hlt := h.length_lt
  have hsum : addSize b.writerIndex_ data.length = b.writerIndex_ + data.length :=
    addSize_of_lt (by omega)
  have hstored : Valid { b with buffer_ := overwrite b.buffer_ b.writerIndex_ data } :=
    ⟨h.ordered, hlen.symm ▸ h.inside, hlen.symm ▸ h.reserve, hlen.symm ▸ h.bounded⟩
  have hw : data.length ≤
      writableBytes { b with buffer_ := overwrite b.buffer_ b.beginWrite data } := by
    rw [show b.beginWrite = b.writerIndex_ from rfl, writableBytes_eq hstored]
    dsimp only
    rw [hlen]
    omega
  have hend : b.beginWrite + data.length ≤ b.buffer_.length := hroom
  simp only [write, store, hasWritten, bind_apply, get_apply, if_apply, set_apply,
    modify_apply, assert_apply, if_pos hend, if_pos hw, hsum]
  rfl

/-- With room behind the content nothing is asked of the allocator. -/
theorem append_within (alloc : Allocator) {b : Buffer} (h : b.Valid) {data : List Byte}
    (hroom : b.writerIndex_ + data.length ≤ b.buffer_.length) :
    append alloc data b = .ok () (b.written data) := by
  have henough : data.length ≤ b.writableBytes := by
    rw [writableBytes_eq h]
    omega
  rw [← write_eq h hroom]
  simp only [append, write, bind_apply, ensureWritableBytes_enough alloc henough]

theorem append_spec (alloc : Allocator) {b : Buffer} (h : b.Valid) {data : List Byte}
    (hfit : SpaceFits b data.length) :
    (∃ b', append alloc data b = .ok () b' ∧ b'.Valid ∧ b'.readable = b.readable ++ data) ∨
    (∃ e, GrowthRefused alloc (b.writerIndex_ + data.length) e ∧
      append alloc data b = .error e b) := by
  rcases ensureWritableBytes_spec alloc h hfit with ⟨b₁, he, hv, hc, hroom⟩ | ⟨e, hg, he⟩
  · refine Or.inl ⟨b₁.written data, ?_, written_valid hv hroom, ?_⟩
    · rw [← write_eq hv hroom]
      simp only [append, write, bind_apply, he]
    · rw [written_readable hv hroom, hc]
  · refine Or.inr ⟨e, hg, ?_⟩
    simp only [append, bind_apply, he]

theorem unwrite_spec {b : Buffer} (h : b.Valid) {len : Nat} (hl : len ≤ b.readableBytes) :
    ∃ b', unwrite len b = .ok () b' ∧ b'.Valid ∧
      b'.readable = b.readable.take (b.readable.length - len) := by
  have hr := readableBytes_eq h
  have ho := h.ordered
  have hi := h.inside
  have hlt := h.length_lt
  have hsub : subSize b.writerIndex_ len = b.writerIndex_ - len :=
    subSize_of_le (by omega) (by omega)
  refine ⟨{ b with writerIndex_ := b.writerIndex_ - len }, ?_, ?_, ?_⟩
  · simp only [unwrite, bind_apply, get_apply, modify_apply, assert_apply, if_pos hl, hsub]
  · exact ⟨by dsimp only; omega, (Nat.sub_le _ _).trans hi, h.reserve, h.bounded⟩
  · have hcount : b.readable.length - len = b.writerIndex_ - len - b.readerIndex_ := by
      rw [length_readable h]; omega
    have hend : b.readerIndex_ + (b.writerIndex_ - len - b.readerIndex_) =
        b.writerIndex_ - len := by omega
    rw [hcount, readable, readable, ← slice_take b.buffer_ (by omega), hend]

theorem retrieveAll_spec {b : Buffer} (h : b.Valid) :
    ∃ b', retrieveAll b = .ok () b' ∧ b'.Valid ∧ b'.readable = [] := by
  refine ⟨_, modify_apply _ b, ⟨Nat.le_refl _, ?_, ?_, ?_⟩, slice_self _ _⟩
  · exact h.reserve
  · exact h.reserve
  · exact h.bounded

/-- Taking everything resets the indices; taking less moves the reader. -/
theorem retrieve_spec {b : Buffer} (h : b.Valid) {len : Nat} (hl : len ≤ b.readableBytes) :
    ∃ b', retrieve len b = .ok () b' ∧ b'.Valid ∧ b'.readable = b.readable.drop len := by
  have hr := readableBytes_eq h
  have ho := h.ordered
  have hi := h.inside
  have hlt := h.length_lt
  by_cases hpart : len < b.readableBytes
  · have hsum : addSize b.readerIndex_ len = b.readerIndex_ + len := addSize_of_lt (by omega)
    refine ⟨{ b with readerIndex_ := b.readerIndex_ + len }, ?_, ?_, slice_drop _ _ _ _⟩
    · simp only [retrieve, bind_apply, get_apply, if_apply, modify_apply, assert_apply,
        if_pos hl, if_pos hpart, hsum]
    · exact ⟨by dsimp only; omega, hi, h.reserve, h.bounded⟩
  · obtain ⟨b', he, hv, hc⟩ := retrieveAll_spec h
    refine ⟨b', ?_, hv, ?_⟩
    · simp only [retrieve, bind_apply, get_apply, if_apply, assert_apply, if_pos hl,
        if_neg hpart, he]
    · rw [hc, List.drop_eq_nil_of_le]
      rw [← readableBytes_length h]
      omega

theorem retrieveUntil_spec {b : Buffer} (h : b.Valid) {n : Nat}
    (hn : b.peek + n ≤ b.beginWrite) :
    ∃ b', retrieveUntil (b.peek + n) b = .ok () b' ∧ b'.Valid ∧
      b'.readable = b.readable.drop n := by
  have hl : n ≤ b.readableBytes := by
    rw [readableBytes_eq h]
    simp only [peek, beginWrite] at hn
    omega
  obtain ⟨b', he, hv, hc⟩ := retrieve_spec h hl
  refine ⟨b', ?_, hv, hc⟩
  simp only [retrieveUntil, bind_apply, get_apply, assert_apply, if_pos hn,
    if_pos (Nat.le_add_right b.peek n), Nat.add_sub_cancel_left, he]

theorem retrieveAsString_spec {b : Buffer} (h : b.Valid) {len : Nat}
    (hl : len ≤ b.readableBytes) :
    ∃ b', retrieveAsString len b = .ok (b.readable.take len) b' ∧ b'.Valid ∧
      b'.readable = b.readable.drop len := by
  obtain ⟨b', he, hv, hc⟩ := retrieve_spec h hl
  have hr := readableBytes_eq h
  have ho := h.ordered
  have hi := h.inside
  have hread : ¬ b.buffer_.length < b.peek + len := by
    simp only [peek]
    omega
  refine ⟨b', ?_, hv, hc⟩
  rw [readable, ← slice_take b.buffer_ (by omega : b.readerIndex_ + len ≤ b.writerIndex_)]
  simp only [retrieveAsString, bind_apply, get_apply, if_apply, pure_apply, assert_apply,
    if_pos hl, if_neg hread, he]
  rfl

theorem prepend_spec {b : Buffer} (h : b.Valid) {data : List Byte}
    (hl : data.length ≤ b.prependableBytes) :
    ∃ b', prepend data b = .ok () b' ∧ b'.Valid ∧ b'.readable = data ++ b.readable := by
  have hd : data.length ≤ b.readerIndex_ := hl
  have ho := h.ordered
  have hi := h.inside
  have hlt := h.length_lt
  have hsub : subSize b.readerIndex_ data.length = b.readerIndex_ - data.length :=
    subSize_of_le hd (by omega)
  have hback : b.readerIndex_ - data.length + data.length = b.readerIndex_ := by omega
  have hfit : b.readerIndex_ - data.length + data.length ≤ b.buffer_.length := by omega
  have hfit' : subSize b.readerIndex_ data.length + data.length ≤ b.buffer_.length :=
    hsub.symm ▸ hfit
  have hlen := length_overwrite hfit
  refine ⟨⟨overwrite b.buffer_ (b.readerIndex_ - data.length) data,
    b.readerIndex_ - data.length, b.writerIndex_⟩, ?_, ?_, ?_⟩
  · simp only [prepend, store, bind_apply, get_apply, if_apply, set_apply, modify_apply,
      assert_apply, if_pos hl, if_pos hfit']
    rw [hsub]
  · exact ⟨(Nat.sub_le _ _).trans ho, hlen.symm ▸ hi, hlen.symm ▸ h.reserve,
      hlen.symm ▸ h.bounded⟩
  · have hj : b.readerIndex_ - data.length + data.length ≤ b.writerIndex_ := by omega
    have hs := slice_overwrite_front hj hi
    rw [hback] at hs
    exact hs

/-- A call without a result that ends well, or throws and changes nothing, answers `[]`. -/
theorem answers_nothing {m : BufferM Unit} {b : Buffer} {q : List Byte}
    (h : (∃ b', m b = .ok () b' ∧ b'.Valid ∧ b'.readable = q) ∨
      ∃ e, Fault.isThrown e = true ∧ m b = .error e b) :
    (∃ b', (m >>= fun _ => pure []) b = .ok ([] : List Byte) b' ∧ b'.Valid ∧ b'.readable = q) ∨
    (∃ e, Fault.isThrown e = true ∧ (m >>= fun _ => pure ([] : List Byte)) b = .error e b) := by
  rcases h with ⟨b', he, hv, hc⟩ | ⟨e, hf, he⟩
  · exact Or.inl ⟨b', by simp only [bind_apply, he, pure_apply], hv, hc⟩
  · exact Or.inr ⟨e, hf, by simp only [bind_apply, he]⟩

/-- Every call that meets its assertion answers as the queue does, or is a refused
growth that changed nothing. -/
theorem Op.exec_spec (alloc : Allocator) {b : Buffer} (h : b.Valid) {op : Op}
    (hm : op.Meets b) (hx : op.Exact b) :
    (∃ b', op.exec alloc b = .ok (op.onQueue b.readable).1 b' ∧ b'.Valid ∧
      b'.readable = (op.onQueue b.readable).2) ∨
    (∃ e, e.isThrown = true ∧ op.exec alloc b = .error e b) := by
  cases op with
  | append data =>
    exact answers_nothing ((append_spec alloc h hx).imp_right fun ⟨e, hg, he⟩ =>
      ⟨e, hg.isThrown, he⟩)
  | ensureWritableBytes len =>
    refine answers_nothing ?_
    rcases ensureWritableBytes_spec alloc h hx with ⟨b', he, hv, hc, -⟩ | ⟨e, hg, he⟩
    · exact Or.inl ⟨b', he, hv, hc⟩
    · exact Or.inr ⟨e, hg.isThrown, he⟩
  | write data =>
    have hroom : b.writerIndex_ + data.length ≤ b.buffer_.length := by
      have hw : data.length ≤ b.writableBytes := hm
      rw [writableBytes_eq h] at hw
      have hi := h.inside
      omega
    exact answers_nothing (Or.inl ⟨b.written data, write_eq h hroom, written_valid h hroom,
      written_readable h hroom⟩)
  | unwrite len => exact answers_nothing (Or.inl (unwrite_spec h hm))
  | retrieve len => exact answers_nothing (Or.inl (retrieve_spec h hm))
  | retrieveUntil n => exact answers_nothing (Or.inl (retrieveUntil_spec h hm))
  | retrieveAll => exact answers_nothing (Or.inl (retrieveAll_spec h))
  | retrieveAsString len => exact Or.inl (retrieveAsString_spec h hm)
  | retrieveAllAsString =>
    obtain ⟨b', he, hv, hc⟩ := retrieveAsString_spec h (Nat.le_refl b.readableBytes)
    rw [readableBytes_length h, List.take_length] at he
    rw [readableBytes_length h, List.drop_length] at hc
    refine Or.inl ⟨b', ?_, hv, hc⟩
    simp only [exec, Buffer.retrieveAllAsString, bind_apply, get_apply, readableBytes_length h, he,
      onQueue]
  | prepend data => exact answers_nothing (Or.inl (prepend_spec h hm))

/-! ## Runs of a family of buffers -/

/-- A call on one buffer with what its caller sees (`none` is an exception), or a swap. -/
inductive Event (ι : Type) where
  | call (i : ι) (op : Op) (alloc : Allocator) (result : Option (List Byte))
  | swap (i j : ι)

section Family

variable {ι : Type} [DecidableEq ι]

def buffers (initialSize : ι → Nat) : Machine (ι → Buffer) (Event ι) where
  init w := ∀ i, ∃ alloc, new alloc (initialSize i) = .ok (w i)
  step w
    | .call i op alloc result =>
      match op.exec alloc (w i) with
      | .ok r b => if result = some r then some (Function.update w i b) else none
      | .error e b =>
        if e.isThrown = true ∧ result = none then some (Function.update w i b) else none
    | .swap i j =>
      let (a, b) := Buffer.swap (w i) (w j)
      some (Function.update (Function.update w i a) j b)

def queues : Machine (ι → List Byte) (Event ι) where
  init q := ∀ i, q i = []
  step q
    | .call i op _ (some r) =>
      if r = (op.onQueue (q i)).1 then some (Function.update q i (op.onQueue (q i)).2) else none
    | .call _ _ _ none => some q
    | .swap i j => some (Function.update (Function.update q i (q j)) j (q i))

/-- The calls a run may make in a state. -/
def Allowed (w : ι → Buffer) : Event ι → Prop
  | .call i op _ _ => op.Meets (w i) ∧ op.Exact (w i)
  | .swap _ _ => True

instance (w : ι → Buffer) : (e : Event ι) → Decidable (Allowed w e)
  | .call _ _ _ _ => inferInstanceAs (Decidable (_ ∧ _))
  | .swap _ _ => inferInstanceAs (Decidable True)

def Represents (w : ι → Buffer) (q : ι → List Byte) : Prop :=
  ∀ i, (w i).Valid ∧ (w i).readable = q i

theorem Represents.update {w : ι → Buffer} {q : ι → List Byte} (h : Represents w q) (i : ι)
    {b : Buffer} {c : List Byte} (hb : b.Valid ∧ b.readable = c) :
    Represents (Function.update w i b) (Function.update q i c) := by
  intro k
  by_cases hk : k = i
  · subst k
    rw [Function.update_self, Function.update_self]
    exact hb
  · rw [Function.update_of_ne hk, Function.update_of_ne hk]
    exact h k

theorem represents_step {size : ι → Nat} {w w' : ι → Buffer} {q : ι → List Byte} {e : Event ι}
    (h : Represents w q) (ha : Allowed w e) (hs : (buffers size).step w e = some w') :
    ∃ q', queues.step q e = some q' ∧ Represents w' q' := by
  cases e with
  | call i op alloc result =>
    rcases op.exec_spec alloc (h i).1 ha.1 ha.2 with ⟨b', he, hv, hc⟩ | ⟨f, hf, he⟩
    · simp only [buffers, he] at hs
      rw [(h i).2] at hs hc
      by_cases hr : result = some (op.onQueue (q i)).1
      · rw [if_pos hr] at hs
        obtain rfl := Option.some.inj hs
        subst result
        exact ⟨_, if_pos rfl, h.update i ⟨hv, hc⟩⟩
      · rw [if_neg hr] at hs
        cases hs
    · simp only [buffers, he, Function.update_eq_self] at hs
      by_cases hr : f.isThrown = true ∧ result = none
      · rw [if_pos hr] at hs
        obtain rfl := Option.some.inj hs
        obtain rfl := hr.2
        exact ⟨q, rfl, h⟩
      · rw [if_neg hr] at hs
        cases hs
  | swap i j =>
    obtain rfl := Option.some.inj hs
    exact ⟨_, rfl, (h.update i (h j)).update j (h i)⟩

/-- Every run of a family of constructed buffers is a run of the queues with the same
answers. In the state it reaches each buffer is valid and holds its queue, and whatever
is called next (within its own assertion) ends in a result or in an exception that
left the buffer alone: no assertion inside `Buffer` fails and no byte outside the
storage is touched. -/
theorem buffer_refines_queue {initialSize : ι → Nat} {w₀ w : ι → Buffer} {es : List (Event ι)}
    (hsize : ∀ i, kCheapPrepend + initialSize i < modulus)
    (h0 : (buffers initialSize).init w₀)
    (hrun : (buffers initialSize).runIf Allowed w₀ es = some w) :
    ∃ q, queues.run (fun _ => []) es = some q ∧
      (∀ i, (w i).Valid ∧ (w i).readable = q i) ∧
      ∀ i (op : Op) alloc e b, op.Meets (w i) → op.Exact (w i) →
        op.exec alloc (w i) = .error e b → e.isThrown = true ∧ b = w i := by
  have hinit : Represents w₀ (fun _ => []) := fun i => by
    obtain ⟨alloc, ha⟩ := h0 i
    exact new_valid ha (hsize i)
  obtain ⟨q, hq, hrep⟩ := Machine.lockstep (fun _ _ _ _ hr hc hs => represents_step hr hc hs)
    hinit hrun
  refine ⟨q, hq, hrep, ?_⟩
  intro i op alloc e b hm hx he
  rcases op.exec_spec alloc (hrep i).1 hm hx with ⟨b', hok, -, -⟩ | ⟨f, hf, herr⟩
  · rw [hok] at he
    cases he
  · rw [herr] at he
    cases he
    exact ⟨hf, rfl⟩

/-- Two buffers: the first is filled, drained past its reserve, prepended to and
compacted, then swapped with the second. -/
def sampleRun : List (Event Bool) :=
  [.call true (.append [1, 2, 3, 4]) (fun _ => true) (some []),
   .call true (.retrieveAsString 3) (fun _ => true) (some [1, 2, 3]),
   .call true (.prepend [9]) (fun _ => true) (some []),
   .call true (.append [5, 6]) (fun _ => true) (some []),
   .call false (.append [7, 7, 7]) (fun _ => false) none,
   .swap true false]

theorem buffer_refines_queue_sample :
    ∃ w q, (buffers fun b => if b then 4 else 0).runIf Allowed
        (fun b => ⟨List.replicate (if b then 12 else 8) 0, 8, 8⟩) sampleRun = some w ∧
      queues.run (fun _ => []) sampleRun = some q ∧
      (w false).Valid ∧ (w false).readable = q false := by
  have hrun : (buffers fun b => if b then 4 else 0).runIf Allowed
      (fun b => ⟨List.replicate (if b then 12 else 8) 0, 8, 8⟩) sampleRun = some _ := rfl
  obtain ⟨q, hq, hrep, -⟩ := buffer_refines_queue (by decide)
    (fun i => ⟨fun _ => true, by cases i <;> rfl⟩) hrun
  exact ⟨_, q, hrun, hq, hrep false⟩

end Family

end MyNet.Net.Buffer
