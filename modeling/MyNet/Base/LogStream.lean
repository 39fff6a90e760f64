import MyNet.Base.FixedBuffer
import MyNet.Lib.FaultState
import MyNet.Lib.ListStore
import MyNet.Lib.Numeral
import MyNet.Lib.SizeT

/-!
# `LogStream`

The stream over its array of 4000 characters. Numbers are written in place behind the
cursor, so the array and the cursor are both here, and every store that would fall outside
the array is a fault. The inserter of `float`, which calls itself, is in `LogStreamChain`.
-/
namespace MyNet.Base

open Lib.ListStore Lib.Numeral Lib.SizeT

def kSmallBuffer : Nat := 4000

def kMaxNumericSize : Nat := 32

/-- `FixedBuffer<kSmallBuffer>` with its array; `m_cur` is an offset in it. -/
structure LogBuffer where
  m_buff : List Byte
  m_cur : Nat

abbrev LogM := EStateM Fault LogBuffer

namespace LogBuffer

/-- The constructor does not initialise the array. -/
def new (garbage : Vector Byte kSmallBuffer) : LogBuffer := ⟨garbage.toList, 0⟩

/-- `end() - m_cur` as a `size_t`. -/
def avail (b : LogBuffer) : Nat := subSize kSmallBuffer b.m_cur

def content (b : LogBuffer) : List Byte := b.m_buff.take b.m_cur

/-- `*p = c` -/
def store (p : Nat) (c : Byte) : LogM Unit := do
  let b ← get
  if p < b.m_buff.length then set { b with m_buff := b.m_buff.set p c } else throw .outOfRange

def memcpy (p : Nat) (line : List Byte) : LogM Unit := do
  let b ← get
  if p + line.length ≤ b.m_buff.length then
    set { b with m_buff := overwrite b.m_buff p line }
  else throw .outOfRange

/-- `std::reverse(p, q)` -/
def reverse (p q : Nat) : LogM Unit := do
  let b ← get
  memcpy p (slice b.m_buff p q).reverse

def add (len : Nat) : LogM Unit := modify fun b => { b with m_cur := b.m_cur + len }

def append (line : List Byte) : LogM Nat := do
  let b ← get
  if line.length ≤ b.avail then
    memcpy b.m_cur line
    add line.length
    return line.length
  else return 0

def reset : LogM Unit := modify fun b => { b with m_cur := 0 }

end LogBuffer

open LogBuffer (store memcpy)

/-! ## Numbers -/

/-- A base with its table of digits; `zero` is where the digit zero is. -/
structure Radix where
  base : Nat
  one_lt : 1 < base
  table : List Byte
  zero : Nat

/-- The digits of negative numbers are negative, so the table runs both ways. -/
def digits : Radix := ⟨10, by decide, ascii "9876543210123456789", 9⟩

def digitsHex : Radix := ⟨16, by decide, ascii "0123456789ABCDEF", 0⟩

/-- The character for `lsd`. -/
def Radix.digit (r : Radix) (lsd : Int) : LogM Byte :=
  match r.table[(r.zero + lsd).toNat]? with
  | none => throw .outOfRange
  | some c => return c

/-- The `do` loop of `convert` and `convertHex`: the last digit first. -/
def writeDigits (r : Radix) (p : Nat) (i : Int) : LogM Nat := do
  let lsd := i.tmod r.base
  let c ← r.digit lsd
  store p c
  if i.tdiv r.base ≠ 0 then writeDigits r (p + 1) (i.tdiv r.base) else return p + 1
termination_by i.natAbs
decreasing_by
  have hr := r.one_lt
  rw [Int.natAbs_tdiv, Int.natAbs_natCast]
  apply Nat.div_lt_self _ hr
  rw [Int.natAbs_pos]
  rintro rfl
  simp at *

/-- The end of both functions: the NUL, the digits turned round, and how many. -/
def terminate (buf p : Nat) : LogM Nat := do
  store p 0
  LogBuffer.reverse buf p
  return p - buf

def convert (buf : Nat) (value : Int) : LogM Nat := do
  let p ← writeDigits digits buf value
  if value < 0 then
    store p '-'.toUInt8
    terminate buf (p + 1)
  else terminate buf p

def convertHex (buf : Nat) (value : Nat) : LogM Nat := do
  let p ← writeDigits digitsHex buf value
  terminate buf p

/-- What `snprintf` prints of a `double` for `%.12g`: a sign, twelve digits, a point and an
exponent at most. -/
structure Printf where
  g12 : Float → List Byte
  g12_short : ∀ d, (g12 d).length < kMaxNumericSize

/-- It prints at most `size - 1` characters and a NUL, and returns how many there were. -/
def snprintf (buf size : Nat) (text : List Byte) : LogM Nat := do
  memcpy buf (text.take (size - 1) ++ [0])
  return text.length

namespace LogStream

def formatInteger (value : Int) : LogM Unit := do
  let b ← get
  if kMaxNumericSize ≤ b.avail then
    let len ← convert b.m_cur value
    LogBuffer.add len
  else return ()

/-! ## The inserters -/

def append (line : List Byte) : LogM Nat := LogBuffer.append line

def insertString (line : List Byte) : LogM Unit := do
  let _ ← LogBuffer.append line
  return ()

/-- `strlen` finds the first NUL. -/
def insertCString (line : List Byte) : LogM Unit := do
  let _ ← LogBuffer.append (line.takeWhile (· != 0))
  return ()

def insertBool (b : Bool) : LogM Unit := do
  let c := if b then '1'.toUInt8 else '0'.toUInt8
  let _ ← LogBuffer.append [c]
  return ()

def insertChar (c : Byte) : LogM Unit := do
  let _ ← LogBuffer.append [c]
  return ()

def insertUnsignedChar (uc : Byte) : LogM Unit := insertChar uc

def insertInt (i : Int32) : LogM Unit := formatInteger i.toInt

def insertUnsigned (ui : UInt32) : LogM Unit := formatInteger ui.toNat

def insertShort (s : Int16) : LogM Unit := insertInt s.toInt32

def insertUnsignedShort (us : UInt16) : LogM Unit := insertUnsigned us.toUInt32

def insertLong (l : Int64) : LogM Unit := formatInteger l.toInt

def insertLongLong (ll : Int64) : LogM Unit := formatInteger ll.toInt

def insertUnsignedLong (ul : UInt64) : LogM Unit := formatInteger ul.toNat

def insertUnsignedLongLong (ull : UInt64) : LogM Unit := formatInteger ull.toNat

def insertDouble (printf : Printf) (d : Float) : LogM Unit := do
  let b ← get
  if kMaxNumericSize ≤ b.avail then
    let len ← snprintf b.m_cur kMaxNumericSize (printf.g12 d)
    LogBuffer.add len
  else return ()

def insertPointer (p : UInt64) : LogM Unit := do
  let b ← get
  if kMaxNumericSize ≤ b.avail then
    let _ ← LogBuffer.append (ascii "0x")
    let b ← get
    let len ← convertHex b.m_cur p.toNat
    LogBuffer.add len
  else return ()

/-- The inserters, with `append`, as one type. -/
inductive Insertion where
  | string (line : List Byte)
  | cString (line : List Byte)
  | bool (b : Bool)
  | char (c : Byte)
  | unsignedChar (uc : Byte)
  | short (s : Int16)
  | unsignedShort (us : UInt16)
  | int (i : Int32)
  | unsigned (ui : UInt32)
  | long (l : Int64)
  | unsignedLong (ul : UInt64)
  | longLong (ll : Int64)
  | unsignedLongLong (ull : UInt64)
  | double (d : Float)
  | pointer (p : UInt64)
  | append (line : List Byte)

def insert (printf : Printf) : Insertion → LogM Unit
  | .string line => insertString line
  | .cString line => insertCString line
  | .bool b => insertBool b
  | .char c => insertChar c
  | .unsignedChar uc => insertUnsignedChar uc
  | .short s => insertShort s
  | .unsignedShort us => insertUnsignedShort us
  | .int i => insertInt i
  | .unsigned ui => insertUnsigned ui
  | .long l => insertLong l
  | .unsignedLong ul => insertUnsignedLong ul
  | .longLong ll => insertLongLong ll
  | .unsignedLongLong ull => insertUnsignedLongLong ull
  | .double d => insertDouble printf d
  | .pointer p => insertPointer p
  | .append line => do
    let _ ← append line
    return ()

/-- What a client calls. -/
inductive Call where
  | insert (i : Insertion)
  | resetBuffer

def call (printf : Printf) : Call → LogM Unit
  | .insert i => insert printf i
  | .resetBuffer => LogBuffer.reset

def run (printf : Printf) : List Call → LogM Unit
  | [] => return ()
  | c :: cs => do
    call printf c
    run printf cs

end LogStream
end MyNet.Base
