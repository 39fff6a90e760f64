import MyNet.Base.Runtime
import MyNet.Lib.ListStore
import MyNet.Lib.SizeT

/-!
# `Buffer`

The storage is the vector's content; the two indices are `size_t` values and all
index arithmetic wraps as in the source. An operation is a state transformer that
may end in a fault, and the state a fault leaves behind is kept: an exception thrown
half way is visible in it. A pointer into the storage is its offset from `begin()`.
-/
namespace MyNet.Net

open MyNet.Base
open Lib.ListStore (slice overwrite copyWithin)
open Lib.SizeT (addSize subSize)

structure Buffer where
  buffer_ : List Byte
  readerIndex_ : Nat
  writerIndex_ : Nat
  deriving DecidableEq

abbrev BufferM := EStateM Fault Buffer

namespace Buffer

def kCheapPrepend : Nat := 8
def kInitialSize : Nat := 1024

def assert (p : Prop) [Decidable p] : BufferM Unit := if p then pure () else throw .assertion

def readableBytes (b : Buffer) : Nat := subSize b.writerIndex_ b.readerIndex_
def writableBytes (b : Buffer) : Nat := subSize b.buffer_.length b.writerIndex_
def prependableBytes (b : Buffer) : Nat := b.readerIndex_
def peek (b : Buffer) : Nat := b.readerIndex_
def beginWrite (b : Buffer) : Nat := b.writerIndex_

/-- The bytes in `[readerIndex_, writerIndex_)`. -/
def readable (b : Buffer) : List Byte := slice b.buffer_ b.readerIndex_ b.writerIndex_

/-- `Buffer(initialSize)`; the vector's constructor may throw, then there is no object. -/
def new (alloc : Allocator) (initialSize : Nat) : Except Fault Buffer :=
  let size := addSize kCheapPrepend initialSize
  if maxSize < size then throw .lengthError
  else if alloc size = false then throw .badAlloc
  else
    let b : Buffer := ⟨List.replicate size 0, kCheapPrepend, kCheapPrepend⟩
    if b.readableBytes = 0 ∧ b.writableBytes = initialSize ∧ b.prependableBytes = kCheapPrepend
    then pure b else throw .assertion

/-- `buffer_.resize(size)`. Growing may throw and then leaves the vector as it was. -/
def resize (alloc : Allocator) (size : Nat) : BufferM Unit := do
  let b ← get
  if size ≤ b.buffer_.length then set { b with buffer_ := b.buffer_.take size }
  else if maxSize < size then throw .lengthError
  else if alloc size = false then throw .badAlloc
  else set { b with buffer_ := b.buffer_ ++ List.replicate (size - b.buffer_.length) 0 }

/-- `std::copy` of foreign bytes to `begin() + at`. -/
def store (i : Nat) (data : List Byte) : BufferM Unit := do
  let b ← get
  if i + data.length ≤ b.buffer_.length then
    set { b with buffer_ := overwrite b.buffer_ i data }
  else throw .outOfRange

/-- `std::copy(begin() + readerIndex_, begin() + writerIndex_, begin() + kCheapPrepend)`. -/
def copyToFront : BufferM Unit := do
  let b ← get
  if b.readerIndex_ ≤ b.writerIndex_ ∧ b.writerIndex_ ≤ b.buffer_.length then
    let n := b.writerIndex_ - b.readerIndex_
    set { b with buffer_ := copyWithin b.buffer_ b.readerIndex_ kCheapPrepend n }
  else throw .outOfRange

def makeSpace (alloc : Allocator) (len : Nat) : BufferM Unit := do
  let b ← get
  if addSize b.writableBytes b.prependableBytes < addSize len kCheapPrepend then
    resize alloc (addSize b.writerIndex_ len)
  else
    -- move readable data to the front, make space inside buffer
    assert (kCheapPrepend < b.readerIndex_)
    let readable := b.readableBytes
    copyToFront
    modify fun b =>
      { b with readerIndex_ := kCheapPrepend, writerIndex_ := addSize kCheapPrepend readable }
    assert (readable = (← get).readableBytes)

def ensureWritableBytes (alloc : Allocator) (len : Nat) : BufferM Unit := do
  if (← get).writableBytes < len then
    makeSpace alloc len
  assert (len ≤ (← get).writableBytes)

def hasWritten (len : Nat) : BufferM Unit := do
  assert (len ≤ (← get).writableBytes)
  modify fun b => { b with writerIndex_ := addSize b.writerIndex_ len }

def unwrite (len : Nat) : BufferM Unit := do
  assert (len ≤ (← get).readableBytes)
  modify fun b => { b with writerIndex_ := subSize b.writerIndex_ len }

def append (alloc : Allocator) (data : List Byte) : BufferM Unit := do
  ensureWritableBytes alloc data.length
  store (← get).beginWrite data
  hasWritten data.length

def retrieveAll : BufferM Unit :=
  modify fun b => { b with readerIndex_ := kCheapPrepend, writerIndex_ := kCheapPrepend }

def retrieve (len : Nat) : BufferM Unit := do
  assert (len ≤ (← get).readableBytes)
  if len < (← get).readableBytes then
    modify fun b => { b with readerIndex_ := addSize b.readerIndex_ len }
  else
    retrieveAll

def retrieveUntil (end_ : Nat) : BufferM Unit := do
  assert ((← get).peek ≤ end_)
  assert (end_ ≤ (← get).beginWrite)
  retrieve (end_ - (← get).peek)

def retrieveAsString (len : Nat) : BufferM (List Byte) := do
  assert (len ≤ (← get).readableBytes)
  let b ← get
  if b.buffer_.length < b.peek + len then throw .outOfRange
  let result := slice b.buffer_ b.peek (b.peek + len)
  retrieve len
  return result

def retrieveAllAsString : BufferM (List Byte) := do
  retrieveAsString (← get).readableBytes

def prepend (data : List Byte) : BufferM Unit := do
  assert (data.length ≤ (← get).prependableBytes)
  modify fun b => { b with readerIndex_ := subSize b.readerIndex_ data.length }
  store (← get).readerIndex_ data

def swap (b rhs : Buffer) : Buffer × Buffer := (rhs, b)

/-- A fresh buffer is filled with the content and swapped in; the old one is destroyed. -/
def shrink (alloc : Allocator) (reserve : Nat) : BufferM Unit := do
  let b ← get
  match new alloc kInitialSize with
  | .error e => throw e
  | .ok other =>
    let fill : BufferM Unit := do
      ensureWritableBytes alloc (addSize b.readableBytes reserve)
      append alloc b.readable
    match fill other with
    | .error e _ => throw e
    | .ok _ other => set (swap b other).1

/-! ## `readFd` -/

/-- `sizeof extrabuf`. -/
def extrabufSize : Nat := 65536

/-- The lengths of the `iovec`s passed to `readv`: `extrabuf` is offered only when the
writable area is smaller than it. -/
def iovecs (b : Buffer) : List Nat :=
  if b.writableBytes < extrabufSize then [b.writableBytes, extrabufSize] else [b.writableBytes]

/-- What `readv` reports: `-1` with an `errno`, or the bytes it delivered (none at end of
file), which fill the `iovec`s in order. -/
inductive ReadvResult where
  | error (errno : Int)
  | data (d : List Byte)

/-- The kernel delivers no more than it was given room for. -/
def ReadvResult.Fits (b : Buffer) : ReadvResult → Prop
  | .error _ => True
  | .data d => d.length ≤ (iovecs b).sum

/-- Returns the result of `readv` and the final value of `*savedErrno`. -/
def readFd (alloc : Allocator) (result : ReadvResult) (savedErrno : Int) :
    BufferM (Int × Int) := do
  let writable := (← get).writableBytes
  match result with
  | .error errno => return (-1, errno)
  | .data d =>
    store (← get).beginWrite (d.take writable)
    let extrabuf := d.drop writable
    if d.length ≤ writable then
      modify fun b => { b with writerIndex_ := addSize b.writerIndex_ d.length }
    else
      modify fun b => { b with writerIndex_ := b.buffer_.length }
      append alloc (extrabuf.take (d.length - writable))
    return (d.length, savedErrno)

end Buffer
end MyNet.Net
