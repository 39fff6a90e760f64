import MyNet.Base.Runtime
import MyNet.Lib.ByteOrder

/-!
# `TimeZone`

A zone file is the list of its bytes, `none` when it cannot be opened, and reading is a
state transformer on the bytes not read yet. `fread` delivers what is left and the source
ignores how much that was, so a short read leaves zeros.

The host says for which sizes `reserve` gets memory and how many bytes a local array may
have; the growth of vectors by `push_back` is taken to find memory.
-/
namespace MyNet.Base

open Lib

structure ZoneHost where
  order : ByteOrder
  alloc : Allocator
  /-- The bytes of stack left for the array of `readBytes`. -/
  stack : Nat
  stack_range : 15 ≤ stack ∧ stack < 2 ^ 63

structure Transition where
  gmtime : Int
  localtime : Int
  localtimeIdx : Nat
  deriving DecidableEq

structure LocalTime where
  gmtOffset : Int
  isDest : Bool
  arrbInx : Nat
  deriving DecidableEq

/-- `TimeZone::Data`; its `names` are never used. -/
structure TimeZoneData where
  transitions : List Transition
  localtimes : List LocalTime
  abbreviation : List Byte
  deriving DecidableEq

/-- `+` on `time_t`, a 64-bit integer. -/
def addTime (a b : Int) : Int := (a + b).bmod (2 ^ 64)

/-- The conversion of an `int32_t` to `size_t`. -/
def toSize (x : BitVec 32) : Nat := (x.signExtend 64).toNat

/-- How often the body of `for (int i = 0; i < n; ++i)` runs. -/
def turns (n : BitVec 32) : Nat := n.toInt.toNat

/-! ## `File` -/

/-- Programs that read a file; the state is what is left of it. -/
abbrev FileM := EStateM Fault (List Byte)

namespace File

/-- The array is on the stack; without room for it the program writes outside. -/
def readBytes (host : ZoneHost) (n : Nat) : FileM (List Byte) := do
  if host.stack < n then throw .outOfRange
  let rest ← get
  set (rest.drop n)
  return rest.take n

def readInt32 (host : ZoneHost) : FileM (BitVec 32) := do
  let rest ← get
  set (rest.drop 4)
  let read := rest.take 4
  let x := host.order.interpret (read ++ List.replicate (4 - read.length) 0)
  return BitVec.ofNat 32 (host.order.fromBig 4 x)

def readUint8 : FileM Byte := do
  let rest ← get
  set (rest.drop 1)
  return rest.headD 0

end File

/-- The values a loop of `n` turns pushes back. -/
def readMany {α : Type} (read : FileM α) : Nat → FileM (List α)
  | 0 => return []
  | n + 1 => do
    let x ← read
    let xs ← readMany read n
    return x :: xs

/-- `trans.reserve(n)` on an empty vector of `int32_t`. -/
def reserve (host : ZoneHost) (n : Nat) : FileM Unit :=
  if maxSize / 4 < n then throw .lengthError
  else if 0 < n ∧ host.alloc (4 * n) = false then throw .badAlloc
  else return ()

def readLocalTime (host : ZoneHost) : FileM LocalTime := do
  let gmtoff ← File.readInt32 host
  let isdst ← File.readUint8
  let abbrind ← File.readUint8
  return ⟨gmtoff.toInt, isdst != 0, abbrind.toNat⟩

/-- The loop over `trans` and `localtimes`, which have the same length. -/
def makeTransitions (localtimes : List LocalTime) :
    List (BitVec 32 × Byte) → FileM (List Transition)
  | [] => return []
  | (time, localIdx) :: rest =>
    match localtimes[localIdx.toNat]? with
    | none => throw .outOfRange
    | some l => do
      let transitions ← makeTransitions localtimes rest
      return ⟨time.toInt, addTime time.toInt l.gmtOffset, localIdx.toNat⟩ :: transitions

/-- `readTimeZoneFile` behind the header. -/
def readSections (host : ZoneHost) (data : TimeZoneData) (timecnt typecnt charcnt : BitVec 32) :
    FileM TimeZoneData := do
  reserve host (toSize timecnt)
  let trans ← readMany (File.readInt32 host) (turns timecnt)
  let localtimes ← readMany File.readUint8 (turns timecnt)
  let types ← readMany (readLocalTime host) (turns typecnt)
  let data := { data with localtimes := data.localtimes ++ types }
  let transitions ← makeTransitions data.localtimes (trans.zip localtimes)
  let data := { data with transitions := data.transitions ++ transitions }
  let abbreviation ← File.readBytes host (toSize charcnt)
  return { data with abbreviation := abbreviation }

/-- `readTimeZoneFile` on a file that is open, behind the magic. -/
def readZone (host : ZoneHost) (data : TimeZoneData) : FileM TimeZoneData := do
  let _version ← File.readBytes host 1
  let _reserved ← File.readBytes host 15
  let _isgmtcnt ← File.readInt32 host
  let _isstdcnt ← File.readInt32 host
  let _leapcnt ← File.readInt32 host
  let timecnt ← File.readInt32 host
  let typecnt ← File.readInt32 host
  let charcnt ← File.readInt32 host
  readSections host data timecnt typecnt charcnt

/-- The result and `*data`; a file that cannot be opened leaves it alone. -/
def readTimeZoneFile (host : ZoneHost) (zonefile : Option (List Byte)) (data : TimeZoneData) :
    Except Fault (Bool × TimeZoneData) :=
  match zonefile with
  | none => .ok (true, data)
  | some bytes =>
    let program : FileM (Bool × TimeZoneData) := do
      let head ← File.readBytes host 4
      if head ≠ ascii "TZif" then return (false, data)
      else return (true, ← readZone host data)
    match program bytes with
    | .ok result _ => .ok result
    | .error e _ => .error e

structure TimeZone where
  m_spDate : Option TimeZoneData
  deriving DecidableEq

namespace TimeZone

def new (host : ZoneHost) (timezone_file : Option (List Byte)) : Except Fault TimeZone := do
  let (result, data) ← readTimeZoneFile host timezone_file ⟨[], [], []⟩
  return ⟨if result = false then none else some data⟩

def valid (tz : TimeZone) : Bool := tz.m_spDate.isSome

end TimeZone

/-! ## `findLocalTime` -/

/-- `Comp`: compare by `gmtime` or by `localtime`. -/
structure Comp where
  compareGMT : Bool

def Comp.less (comp : Comp) (lhs rhs : Transition) : Bool :=
  if comp.compareGMT then lhs.gmtime < rhs.gmtime else lhs.localtime < rhs.localtime

def Comp.equal (comp : Comp) (lhs rhs : Transition) : Bool :=
  if comp.compareGMT then lhs.gmtime = rhs.gmtime else lhs.localtime = rhs.localtime

/-- An element of a vector. -/
def at_ {α : Type} (xs : List α) (i : Nat) : Except Fault α :=
  match xs[i]? with
  | none => .error .outOfRange
  | some x => .ok x

/-- `std::lower_bound` on the `len` elements from `first` on, by halving. -/
def lower_bound (transitions : List Transition) (sentry : Transition) (comp : Comp)
    (first len : Nat) : Except Fault Nat :=
  if len = 0 then .ok first
  else do
    let half := len / 2
    let middle ← at_ transitions (first + half)
    if comp.less middle sentry then
      lower_bound transitions sentry comp (first + half + 1) (len - half - 1)
    else lower_bound transitions sentry comp first half
termination_by len

def findLocalTime (data : TimeZoneData) (sentry : Transition) (comp : Comp) :
    Except Fault LocalTime :=
  match data.transitions with
  | [] => at_ data.localtimes 0
  | front :: _ =>
    if comp.less sentry front then at_ data.localtimes 0
    else do
      let transI ← lower_bound data.transitions sentry comp 0 data.transitions.length
      if transI ≠ data.transitions.length then
        let found ← at_ data.transitions transI
        if comp.equal sentry found then at_ data.localtimes found.localtimeIdx
        else if transI = 0 then .error .assertion
        else
          let before ← at_ data.transitions (transI - 1)
          at_ data.localtimes before.localtimeIdx
      else
        let back ← at_ data.transitions (data.transitions.length - 1)
        at_ data.localtimes back.localtimeIdx

end MyNet.Base
