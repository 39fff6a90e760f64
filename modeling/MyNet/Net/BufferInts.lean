import MyNet.Lib.ByteOrder
import MyNet.Net.ReadFd

/-!
# Typed integers in a `Buffer`

An `intN_t` is its bit pattern; the conversions between `intN_t` and `uintN_t` in the
source keep the pattern, and its value is `BitVec.toInt`. The host's byte order is a
parameter. Each `appendIntN` turns out to append the big-endian two's complement
numeral of its argument, whatever the host.
-/
namespace MyNet.Net.Buffer

open MyNet.Base
open Lib Lib.ListStore Lib.SizeT Lib.FaultState

/-! ## `Endian.h` -/

def hostToNetwork (host : ByteOrder) (n : Nat) (x : BitVec (8 * n)) : BitVec (8 * n) :=
  BitVec.ofNat (8 * n) (host.toBig n x.toNat)

def networkToHost (host : ByteOrder) (n : Nat) (x : BitVec (8 * n)) : BitVec (8 * n) :=
  BitVec.ofNat (8 * n) (host.fromBig n x.toNat)

def hostToNetwork64 (host : ByteOrder) (host64 : BitVec 64) : BitVec 64 :=
  hostToNetwork host 8 host64
def hostToNetwork32 (host : ByteOrder) (host32 : BitVec 32) : BitVec 32 :=
  hostToNetwork host 4 host32
def hostToNetwork16 (host : ByteOrder) (host16 : BitVec 16) : BitVec 16 :=
  hostToNetwork host 2 host16

def networkToHost64 (host : ByteOrder) (network64 : BitVec 64) : BitVec 64 :=
  networkToHost host 8 network64
def networkToHost32 (host : ByteOrder) (network32 : BitVec 32) : BitVec 32 :=
  networkToHost host 4 network32
def networkToHost16 (host : ByteOrder) (network16 : BitVec 16) : BitVec 16 :=
  networkToHost host 2 network16

/-! ## The calls -/

/-- The bytes of an `intN_t` in memory, `N = 8 * n`. -/
def bytesOf (host : ByteOrder) (n : Nat) (x : BitVec (8 * n)) : List Byte :=
  host.represent n x.toNat

/-- `memcpy` from the storage into an `intN_t`. -/
def load (host : ByteOrder) (i n : Nat) : BufferM (BitVec (8 * n)) := do
  let b ← get
  if i + n ≤ b.buffer_.length then
    return BitVec.ofNat (8 * n) (host.interpret (slice b.buffer_ i (i + n)))
  else throw .outOfRange

def appendInt64 (host : ByteOrder) (alloc : Allocator) (x : BitVec 64) : BufferM Unit :=
  append alloc (bytesOf host 8 (hostToNetwork64 host x))
def appendInt32 (host : ByteOrder) (alloc : Allocator) (x : BitVec 32) : BufferM Unit :=
  append alloc (bytesOf host 4 (hostToNetwork32 host x))
def appendInt16 (host : ByteOrder) (alloc : Allocator) (x : BitVec 16) : BufferM Unit :=
  append alloc (bytesOf host 2 (hostToNetwork16 host x))
def appendInt8 (host : ByteOrder) (alloc : Allocator) (x : BitVec 8) : BufferM Unit :=
  append alloc (bytesOf host 1 x)

/-- What `peekInt64`, `peekInt32` and `peekInt16` share. -/
def peekInt (host : ByteOrder) (n : Nat) (toHost : BitVec (8 * n) → BitVec (8 * n)) :
    BufferM (BitVec (8 * n)) := do
  assert (n ≤ (← get).readableBytes)
  let be ← load host (← get).peek n
  return toHost be

def peekInt64 (host : ByteOrder) : BufferM (BitVec 64) := peekInt host 8 (networkToHost64 host)
def peekInt32 (host : ByteOrder) : BufferM (BitVec 32) := peekInt host 4 (networkToHost32 host)
def peekInt16 (host : ByteOrder) : BufferM (BitVec 16) := peekInt host 2 (networkToHost16 host)
def peekInt8 (host : ByteOrder) : BufferM (BitVec 8) := do
  assert (1 ≤ (← get).readableBytes)
  let x ← load host (← get).peek 1
  return x

def retrieveInt64 : BufferM Unit := retrieve 8
def retrieveInt32 : BufferM Unit := retrieve 4
def retrieveInt16 : BufferM Unit := retrieve 2
def retrieveInt8 : BufferM Unit := retrieve 1

def readInt64 (host : ByteOrder) : BufferM (BitVec 64) := do
  let result ← peekInt64 host
  retrieveInt64
  return result
def readInt32 (host : ByteOrder) : BufferM (BitVec 32) := do
  let result ← peekInt32 host
  retrieveInt32
  return result
def readInt16 (host : ByteOrder) : BufferM (BitVec 16) := do
  let result ← peekInt16 host
  retrieveInt16
  return result
def readInt8 (host : ByteOrder) : BufferM (BitVec 8) := do
  let result ← peekInt8 host
  retrieveInt8
  return result

def prependInt64 (host : ByteOrder) (x : BitVec 64) : BufferM Unit :=
  prepend (bytesOf host 8 (hostToNetwork64 host x))
def prependInt32 (host : ByteOrder) (x : BitVec 32) : BufferM Unit :=
  prepend (bytesOf host 4 (hostToNetwork32 host x))
def prependInt16 (host : ByteOrder) (x : BitVec 16) : BufferM Unit :=
  prepend (bytesOf host 2 (hostToNetwork16 host x))
def prependInt8 (host : ByteOrder) (x : BitVec 8) : BufferM Unit :=
  prepend (bytesOf host 1 x)

/-! ## The four widths together -/

inductive Width where
  | int8
  | int16
  | int32
  | int64
  deriving DecidableEq

def Width.bytes : Width → Nat
  | .int8 => 1
  | .int16 => 2
  | .int32 => 4
  | .int64 => 8

structure TypedInt where
  width : Width
  value : BitVec (8 * width.bytes)
  deriving DecidableEq

/-- The big-endian two's complement numeral of the value. -/
def TypedInt.encoding (v : TypedInt) : List Byte :=
  bigEndian v.width.bytes (v.value.toInt % 256 ^ v.width.bytes).toNat

def encodings (vs : List TypedInt) : List Byte := (vs.map TypedInt.encoding).flatten

def appendTyped (host : ByteOrder) (alloc : Allocator) : TypedInt → BufferM Unit
  | ⟨.int8, x⟩ => appendInt8 host alloc x
  | ⟨.int16, x⟩ => appendInt16 host alloc x
  | ⟨.int32, x⟩ => appendInt32 host alloc x
  | ⟨.int64, x⟩ => appendInt64 host alloc x

def prependTyped (host : ByteOrder) : TypedInt → BufferM Unit
  | ⟨.int8, x⟩ => prependInt8 host x
  | ⟨.int16, x⟩ => prependInt16 host x
  | ⟨.int32, x⟩ => prependInt32 host x
  | ⟨.int64, x⟩ => prependInt64 host x

def peekTyped (host : ByteOrder) : (w : Width) → BufferM (BitVec (8 * w.bytes))
  | .int8 => peekInt8 host
  | .int16 => peekInt16 host
  | .int32 => peekInt32 host
  | .int64 => peekInt64 host

def readTyped (host : ByteOrder) : (w : Width) → BufferM (BitVec (8 * w.bytes))
  | .int8 => readInt8 host
  | .int16 => readInt16 host
  | .int32 => readInt32 host
  | .int64 => readInt64 host

/-! ## One call -/

theorem two_pow_bits (n : Nat) : 2 ^ (8 * n) = 256 ^ n := Nat.pow_mul 2 8 n

theorem toNat_lt_bytes {n : Nat} (x : BitVec (8 * n)) : x.toNat < 256 ^ n :=
  two_pow_bits n ▸ x.isLt

/-- An integer turned to network order is its numeral in memory. -/
theorem bytesOf_hostToNetwork (host : ByteOrder) (n : Nat) (x : BitVec (8 * n)) :
    bytesOf host n (hostToNetwork host n x) = bigEndian n x.toNat := by
  have hlt := host.toBig_lt (toNat_lt_bytes x)
  rw [bytesOf, hostToNetwork, BitVec.toNat_ofNat, two_pow_bits, Nat.mod_eq_of_lt hlt,
    host.represent_toBig]

/-- One byte has no order. -/
theorem bytesOf_int8 (host : ByteOrder) (x : BitVec 8) :
    bytesOf host 1 x = bigEndian 1 x.toNat := by
  cases host <;> rfl

theorem TypedInt.encoding_eq (v : TypedInt) :
    v.encoding = bigEndian v.width.bytes v.value.toNat := by
  have h : v.value.toInt % 256 ^ v.width.bytes = v.value.toNat := by
    have hbmod : Int.bmod v.value.toNat (256 ^ v.width.bytes) % 256 ^ v.width.bytes =
        v.value.toNat % 256 ^ v.width.bytes := mod_cast Int.bmod_emod
    rw [BitVec.toInt_eq_toNat_bmod, two_pow_bits, hbmod]
    exact mod_cast Nat.mod_eq_of_lt (toNat_lt_bytes v.value)
  rw [TypedInt.encoding, h, Int.toNat_natCast]

@[simp] theorem TypedInt.length_encoding (v : TypedInt) : v.encoding.length = v.width.bytes :=
  length_bigEndian _ _

theorem appendTyped_eq (host : ByteOrder) (alloc : Allocator) (v : TypedInt) :
    appendTyped host alloc v = append alloc v.encoding := by
  obtain ⟨w, x⟩ := v
  rw [TypedInt.encoding_eq]
  cases w with
  | int8 => exact congrArg (append alloc) (bytesOf_int8 host x)
  | int16 => exact congrArg (append alloc) (bytesOf_hostToNetwork host 2 x)
  | int32 => exact congrArg (append alloc) (bytesOf_hostToNetwork host 4 x)
  | int64 => exact congrArg (append alloc) (bytesOf_hostToNetwork host 8 x)

theorem prependTyped_eq (host : ByteOrder) (v : TypedInt) :
    prependTyped host v = prepend v.encoding := by
  obtain ⟨w, x⟩ := v
  rw [TypedInt.encoding_eq]
  cases w with
  | int8 => exact congrArg prepend (bytesOf_int8 host x)
  | int16 => exact congrArg prepend (bytesOf_hostToNetwork host 2 x)
  | int32 => exact congrArg prepend (bytesOf_hostToNetwork host 4 x)
  | int64 => exact congrArg prepend (bytesOf_hostToNetwork host 8 x)

/-- Loading the first bytes of the content. -/
theorem load_front (host : ByteOrder) {b : Buffer} (h : b.Valid) {n u : Nat} {rest : List Byte}
    (hc : b.readable = bigEndian n u ++ rest) :
    n ≤ b.readableBytes ∧
      load host b.peek n b = .ok (BitVec.ofNat (8 * n) (host.interpret (bigEndian n u))) b := by
  have hlen : n ≤ b.readableBytes := by
    rw [readableBytes_length h, hc, List.length_append, length_bigEndian]
    exact Nat.le_add_right _ _
  have hr := readableBytes_eq h
  have hi := h.inside
  have ho := h.ordered
  have hend : b.peek + n ≤ b.buffer_.length := by
    show b.readerIndex_ + n ≤ b.buffer_.length
    omega
  have hfront : slice b.buffer_ b.peek (b.peek + n) = bigEndian n u := by
    have ht := slice_take b.buffer_ (show b.readerIndex_ + n ≤ b.writerIndex_ by omega)
    show slice b.buffer_ b.readerIndex_ (b.readerIndex_ + n) = bigEndian n u
    rw [ht, show slice b.buffer_ b.readerIndex_ b.writerIndex_ = b.readable from rfl, hc]
    exact List.take_left' (length_bigEndian n u)
  refine ⟨hlen, ?_⟩
  simp only [load, bind_apply, get_apply, if_apply, if_pos hend, pure_apply, hfront]

/-- What lies in front as a numeral is read back as the number. -/
theorem networkToHost_interpret (host : ByteOrder) (n : Nat) (x : BitVec (8 * n)) :
    networkToHost host n (BitVec.ofNat (8 * n) (host.interpret (bigEndian n x.toNat))) = x := by
  have hlt := host.interpret_lt (bigEndian n x.toNat)
  have hback := host.fromBig_interpret (bigEndian n x.toNat)
  rw [length_bigEndian] at hlt hback
  apply BitVec.eq_of_toNat_eq
  rw [networkToHost, BitVec.toNat_ofNat, BitVec.toNat_ofNat, two_pow_bits,
    Nat.mod_eq_of_lt hlt, hback, ofBigEndian_bigEndian, Nat.mod_mod,
    Nat.mod_eq_of_lt (toNat_lt_bytes x)]

theorem peekInt_front (host : ByteOrder) {b : Buffer} (h : b.Valid) {n : Nat}
    {x : BitVec (8 * n)} {rest : List Byte} (hc : b.readable = bigEndian n x.toNat ++ rest) :
    peekInt host n (networkToHost host n) b = .ok x b := by
  obtain ⟨hlen, hload⟩ := load_front host h hc
  simp only [peekInt, bind_apply, get_apply, assert_apply, if_pos hlen, hload, pure_apply,
    networkToHost_interpret]

theorem peekInt8_front (host : ByteOrder) {b : Buffer} (h : b.Valid) {x : BitVec 8}
    {rest : List Byte} (hc : b.readable = bigEndian 1 x.toNat ++ rest) :
    peekInt8 host b = .ok x b := by
  obtain ⟨hlen, hload⟩ := load_front host h hc
  have hx : BitVec.ofNat 8 (host.interpret (bigEndian 1 x.toNat)) = x := by
    have hone : host.interpret (bigEndian 1 x.toNat) = ofBigEndian (bigEndian 1 x.toNat) := by
      cases host <;> rfl
    apply BitVec.eq_of_toNat_eq
    rw [hone, ofBigEndian_bigEndian, Nat.mod_eq_of_lt (toNat_lt_bytes (n := 1) x),
      BitVec.toNat_ofNat, Nat.mod_eq_of_lt x.isLt]
  simp only [peekInt8, bind_apply, get_apply, assert_apply, if_pos hlen, hload]
  exact congrArg (EStateM.Result.ok · b) hx

/-- Peeking with the width of the value in front returns that value. -/
theorem peekTyped_front (host : ByteOrder) {b : Buffer} (h : b.Valid) {v : TypedInt}
    {rest : List Byte} (hc : b.readable = v.encoding ++ rest) :
    peekTyped host v.width b = .ok v.value b := by
  rw [TypedInt.encoding_eq] at hc
  obtain ⟨w, x⟩ := v
  cases w with
  | int8 => exact peekInt8_front host h hc
  | int16 => exact peekInt_front host h hc
  | int32 => exact peekInt_front host h hc
  | int64 => exact peekInt_front host h hc

theorem readTyped_eq (host : ByteOrder) (w : Width) :
    readTyped host w = (do
      let result ← peekTyped host w
      retrieve w.bytes
      return result) := by
  cases w <;> rfl

/-- Reading also removes it. -/
theorem readTyped_front (host : ByteOrder) {b : Buffer} (h : b.Valid) {v : TypedInt}
    {rest : List Byte} (hc : b.readable = v.encoding ++ rest) :
    ∃ b', readTyped host v.width b = .ok v.value b' ∧ b'.Valid ∧ b'.readable = rest := by
  have hlen : v.width.bytes ≤ b.readableBytes := by
    rw [readableBytes_length h, hc, List.length_append, TypedInt.length_encoding]
    exact Nat.le_add_right _ _
  obtain ⟨b', he, hv, hrest⟩ := retrieve_spec h hlen
  refine ⟨b', ?_, hv, ?_⟩
  · simp only [readTyped_eq, bind_apply, peekTyped_front host h hc, he, pure_apply]
  · rw [hrest, hc]
    exact List.drop_left' v.length_encoding

/-- A few bytes never make the sums of `makeSpace` wrap. -/
theorem Valid.spaceFits_width {b : Buffer} (h : b.Valid) (w : Width) : SpaceFits b w.bytes := by
  intro _
  have hi := h.inside
  have hb := h.bounded
  have hw : w.bytes ≤ 8 := by cases w <;> decide
  have hm : maxSize + 8 + kCheapPrepend < modulus := by decide
  omega

theorem appendTyped_spec (host : ByteOrder) (alloc : Allocator) {b : Buffer} (h : b.Valid)
    (v : TypedInt) :
    (∃ b', appendTyped host alloc v b = .ok () b' ∧ b'.Valid ∧
      b'.readable = b.readable ++ v.encoding) ∨
    (∃ e, GrowthRefused alloc (b.writerIndex_ + v.width.bytes) e ∧
      appendTyped host alloc v b = .error e b) := by
  have hfit : SpaceFits b v.encoding.length := by
    rw [TypedInt.length_encoding]
    exact h.spaceFits_width v.width
  have hs := append_spec alloc h hfit
  rwa [TypedInt.length_encoding, ← appendTyped_eq host] at hs

def appendAll (host : ByteOrder) (alloc : Allocator) : List TypedInt → BufferM Unit
  | [] => pure ()
  | v :: vs => do
    appendTyped host alloc v
    appendAll host alloc vs

/-- Appending a list adds the concatenated encodings, or stops at the value for which
the allocator refuses room. -/
theorem appendAll_spec (host : ByteOrder) (alloc : Allocator) (vs : List TypedInt) {b : Buffer}
    (h : b.Valid) :
    (∃ b', appendAll host alloc vs b = .ok () b' ∧ b'.readable = b.readable ++ encodings vs) ∨
    (∃ done v rest e b', vs = done ++ v :: rest ∧
      GrowthRefused alloc (b'.writerIndex_ + v.width.bytes) e ∧
      appendAll host alloc vs b = .error e b' ∧ b'.readable = b.readable ++ encodings done) := by
  induction vs generalizing b with
  | nil => exact Or.inl ⟨b, rfl, (List.append_nil _).symm⟩
  | cons v vs ih =>
    rcases appendTyped_spec host alloc h v with ⟨b₁, he, hv, hc⟩ | ⟨e, hg, he⟩
    · have hcons (us : List TypedInt) :
          b₁.readable ++ encodings us = b.readable ++ encodings (v :: us) := by
        rw [hc, List.append_assoc]
        rfl
      rcases ih hv with ⟨b₂, he₂, hc₂⟩ | ⟨done, u, rest, e, b₂, rfl, hg, he₂, hc₂⟩
      · refine Or.inl ⟨b₂, ?_, hc₂.trans (hcons vs)⟩
        simp only [appendAll, bind_apply, he, he₂]
      · refine Or.inr ⟨v :: done, u, rest, e, b₂, rfl, hg, ?_, hc₂.trans (hcons done)⟩
        simp only [appendAll, bind_apply, he, he₂]
    · refine Or.inr ⟨[], v, vs, e, b, rfl, hg, ?_, (List.append_nil _).symm⟩
      simp only [appendAll, bind_apply, he]

/-! ## Interleaved appends and reads -/

/-- A call with what its caller sees: whether the append returned or threw, and the value
read. -/
inductive IntCall where
  | append (v : TypedInt) (alloc : Allocator) (returned : Bool)
  | read (v : TypedInt)
  | peek (v : TypedInt)

/-- A buffer and, recorded next to it, the values appended and not yet read. -/
structure IntClient where
  buffer : Buffer
  unread : List TypedInt

def intCalls (host : ByteOrder) : Machine IntClient IntCall where
  init s := Reachable s.buffer ∧ s.buffer.readable = encodings s.unread
  step s
    | .append v alloc returned =>
      match appendTyped host alloc v s.buffer with
      | .ok _ b => if returned = true then some ⟨b, s.unread ++ [v]⟩ else none
      | .error e b => if e.isThrown = true ∧ returned = false then some ⟨b, s.unread⟩ else none
    | .read v =>
      match readTyped host v.width s.buffer with
      | .ok result b => if result = v.value then some ⟨b, s.unread.tail⟩ else none
      | .error _ _ => none
    | .peek v =>
      match peekTyped host v.width s.buffer with
      | .ok result b => if result = v.value then some ⟨b, s.unread⟩ else none
      | .error _ _ => none

/-- Each read uses the width of the oldest unread value. -/
def OldestWidth (s : IntClient) : IntCall → Prop
  | .append _ _ _ => True
  | .read v | .peek v => s.unread.head?.map TypedInt.width = some v.width

instance (s : IntClient) : (e : IntCall) → Decidable (OldestWidth s e)
  | .append _ _ _ => inferInstanceAs (Decidable True)
  | .read _ | .peek _ => inferInstanceAs (Decidable (_ = _))

/-- The queue of values the calls are meant to work on. -/
def intQueue : Machine (List TypedInt) IntCall where
  init _ := True
  step q
    | .append v _ returned => some (if returned = true then q ++ [v] else q)
    | .read v => if q.head? = some v then some q.tail else none
    | .peek v => if q.head? = some v then some q else none

/-- The content is the encoding of the unread values. -/
structure Holds (s : IntClient) (q : List TypedInt) : Prop where
  valid : s.buffer.Valid
  unread : s.unread = q
  content : s.buffer.readable = encodings q

theorem encodings_concat (vs : List TypedInt) (v : TypedInt) :
    encodings (vs ++ [v]) = encodings vs ++ v.encoding := by
  simp [encodings]

/-- The oldest unread value, when a read or a peek asks for its width. -/
theorem Holds.oldest {s : IntClient} {q : List TypedInt} (h : Holds s q) {w : Width}
    (hw : s.unread.head?.map TypedInt.width = some w) :
    ∃ v rest, q = v :: rest ∧ v.width = w ∧ s.buffer.readable = v.encoding ++ encodings rest := by
  have hc := h.content
  rw [h.unread] at hw
  cases q with
  | nil => cases hw
  | cons v rest => exact ⟨v, rest, rfl, Option.some.inj hw, hc⟩

theorem holds_step {host : ByteOrder} {s s' : IntClient} {q : List TypedInt} {e : IntCall}
    (h : Holds s q) (ho : OldestWidth s e) (hs : (intCalls host).step s e = some s') :
    ∃ q', intQueue.step q e = some q' ∧ Holds s' q' := by
  cases e with
  | append v alloc returned =>
    rcases appendTyped_spec host alloc h.valid v with ⟨b, he, hv, hc⟩ | ⟨e, hg, he⟩
    · simp only [intCalls, he] at hs
      cases returned with
      | true =>
        obtain rfl := Option.some.inj hs
        refine ⟨_, rfl, hv, congrArg (· ++ [v]) h.unread, ?_⟩
        show b.readable = encodings (q ++ [v])
        rw [hc, h.content, encodings_concat]
      | false => cases hs
    · simp only [intCalls, he, hg.isThrown] at hs
      cases returned with
      | true => cases hs
      | false =>
        obtain rfl := Option.some.inj hs
        exact ⟨_, rfl, h⟩
  | read v =>
    obtain ⟨⟨w, x⟩, rest, rfl, hw, hc⟩ := h.oldest ho
    obtain ⟨w', y⟩ := v
    obtain rfl : w = w' := hw
    obtain ⟨b, he, hv, hrest⟩ := readTyped_front host h.valid hc
    simp only [intCalls, he] at hs
    by_cases hx : x = y
    · rw [if_pos hx] at hs
      obtain rfl := Option.some.inj hs
      obtain rfl := hx
      exact ⟨rest, if_pos rfl, hv, congrArg List.tail h.unread, hrest⟩
    · rw [if_neg hx] at hs
      cases hs
  | peek v =>
    obtain ⟨⟨w, x⟩, rest, rfl, hw, hc⟩ := h.oldest ho
    obtain ⟨w', y⟩ := v
    obtain rfl : w = w' := hw
    simp only [intCalls, peekTyped_front host h.valid hc] at hs
    by_cases hx : x = y
    · rw [if_pos hx] at hs
      obtain rfl := Option.some.inj hs
      obtain rfl := hx
      exact ⟨_, if_pos rfl, h⟩
    · rw [if_neg hx] at hs
      cases hs

/-- A prepended value is peeked and read back, and what was there before is left. -/
theorem prependTyped_spec (host : ByteOrder) {b : Buffer} (h : b.Valid) {v : TypedInt}
    (hl : v.width.bytes ≤ b.prependableBytes) :
    ∃ b₁ b₂, prependTyped host v b = .ok () b₁ ∧
      peekTyped host v.width b₁ = .ok v.value b₁ ∧
      readTyped host v.width b₁ = .ok v.value b₂ ∧ b₂.readable = b.readable := by
  rw [← v.length_encoding] at hl
  obtain ⟨b₁, he, hv, hc⟩ := prepend_spec h hl
  obtain ⟨b₂, hr, -, hrest⟩ := readTyped_front host hv hc
  exact ⟨b₁, b₂, by rw [prependTyped_eq, he], peekTyped_front host hv hc, hr, hrest⟩

/-- On either kind of host and from every reachable buffer: appending a list of integers
adds the concatenation of their big-endian two's complement encodings (up to the one for
which the allocator has no room); in every interleaving of appends with reads and peeks
of the oldest width, the calls answer as the queue of the appended values does, and the
next such call can neither fail an assertion nor leave the storage; and a prepended
integer is peeked and read back, which leaves the earlier content. -/
theorem ints_round_trip (host : ByteOrder) :
    (∀ b alloc vs, Reachable b →
      (∃ b', appendAll host alloc vs b = .ok () b' ∧ b'.readable = b.readable ++ encodings vs) ∨
      (∃ done v rest e b', vs = done ++ v :: rest ∧
        GrowthRefused alloc (b'.writerIndex_ + v.width.bytes) e ∧
        appendAll host alloc vs b = .error e b' ∧
        b'.readable = b.readable ++ encodings done)) ∧
    (∀ s s' es, (intCalls host).init s → (intCalls host).runIf OldestWidth s es = some s' →
      intQueue.run s.unread es = some s'.unread ∧
      s'.buffer.readable = encodings s'.unread ∧
      (∀ v alloc, (∃ b', appendTyped host alloc v s'.buffer = .ok () b') ∨
        ∃ e, e.isThrown = true ∧ appendTyped host alloc v s'.buffer = .error e s'.buffer) ∧
      (∀ v rest, s'.unread = v :: rest →
        peekTyped host v.width s'.buffer = .ok v.value s'.buffer ∧
        ∃ b', readTyped host v.width s'.buffer = .ok v.value b')) ∧
    (∀ b v, Reachable b → v.width.bytes ≤ b.prependableBytes →
      ∃ b₁ b₂, prependTyped host v b = .ok () b₁ ∧
        peekTyped host v.width b₁ = .ok v.value b₁ ∧
        readTyped host v.width b₁ = .ok v.value b₂ ∧ b₂.readable = b.readable) := by
  refine ⟨fun b alloc vs hb => appendAll_spec host alloc vs hb.valid, ?_,
    fun b v hb hl => prependTyped_spec host hb.valid hl⟩
  intro s s' es hinit hrun
  have hstart : Holds s s.unread := ⟨hinit.1.valid, rfl, hinit.2⟩
  obtain ⟨q, hq, hholds⟩ := Machine.lockstep (fun _ _ _ _ hr hc hs => holds_step hr hc hs)
    hstart hrun
  obtain rfl := hholds.unread
  refine ⟨hq, hholds.content, ?_, ?_⟩
  · intro v alloc
    rcases appendTyped_spec host alloc hholds.valid v with ⟨b', he, -, -⟩ | ⟨e, hg, he⟩
    · exact Or.inl ⟨b', he⟩
    · exact Or.inr ⟨e, hg.isThrown, he⟩
  · intro v rest hu
    have hc := hholds.content
    rw [hu] at hc
    obtain ⟨b', he, -, -⟩ := readTyped_front host hholds.valid hc
    exact ⟨peekTyped_front host hholds.valid hc, b', he⟩

/-- `INT32_MIN`, a negative byte and a 16-bit value through a buffer of four bytes, which
has to grow for the second and is compacted for the third. -/
def intRun : List IntCall :=
  [.append ⟨.int32, 0x80000000⟩ (fun _ => true) true,
   .append ⟨.int8, 0xfe⟩ (fun _ => false) false,
   .append ⟨.int8, 0xfe⟩ (fun _ => true) true,
   .read ⟨.int32, 0x80000000⟩,
   .append ⟨.int16, 0x0102⟩ (fun _ => false) true,
   .peek ⟨.int8, 0xfe⟩,
   .read ⟨.int8, 0xfe⟩]

theorem ints_round_trip_intRun :
    ∃ s', (intCalls .little).runIf OldestWidth
        ⟨⟨List.replicate 12 0, kCheapPrepend, kCheapPrepend⟩, []⟩ intRun = some s' ∧
      intQueue.run [] intRun = some s'.unread ∧
      s'.buffer.readable = [1, 2] := by
  have hb : Reachable ⟨List.replicate 12 0, kCheapPrepend, kCheapPrepend⟩ :=
    .new (by decide) (show Buffer.new (fun _ => true) 4 = .ok _ from rfl)
  have hrun : (intCalls .little).runIf OldestWidth
      ⟨⟨List.replicate 12 0, kCheapPrepend, kCheapPrepend⟩, []⟩ intRun = some _ := rfl
  obtain ⟨hq, hc, -, -⟩ := (ints_round_trip .little).2.1 _ _ intRun ⟨hb, rfl⟩ hrun
  exact ⟨_, hrun, hq, hc⟩

end MyNet.Net.Buffer
