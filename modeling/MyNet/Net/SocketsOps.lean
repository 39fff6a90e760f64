import MyNet.Base.TimeText
import MyNet.Net.BufferInts

/-!
# `SocketsOps`: address texts

A `sockaddr_in` is sixteen bytes of memory: the family, the port and the address, and eight
bytes of padding. `inet_ntop` and `inet_pton` work on the four bytes they are pointed at, so
a pointer is the memory from there on.
-/
namespace MyNet.Net

open MyNet.Base
open Lib Lib.Numeral
open Buffer (bytesOf hostToNetwork16 networkToHost16)

structure SockaddrIn where
  sin_family : BitVec 16
  sin_port : BitVec 16
  sin_addr : Vector Byte 4
  sin_zero : Vector Byte 8
  deriving DecidableEq

def AF_INET : BitVec 16 := 2

def INET_ADDRSTRLEN : Nat := 16

namespace SockaddrIn

/-- After `bzero`. -/
def zero : SockaddrIn := ⟨0, 0, Vector.replicate 4 0, Vector.replicate 8 0⟩

/-- The struct in memory; the address begins at offset 4. -/
def bytes (host : ByteOrder) (addr : SockaddrIn) : List Byte :=
  bytesOf host 2 addr.sin_family ++ bytesOf host 2 addr.sin_port ++ addr.sin_addr.toList ++
    addr.sin_zero.toList

end SockaddrIn

/-! ## The C library -/

/-- The bytes in decimal with dots between them. -/
def dottedQuad (octets : List Byte) : List Byte :=
  (ascii ".").intercalate (octets.map fun b => decimal b.toNat)

/-- The text of the four bytes at `src`, if it fits `size` characters with its NUL. -/
def inet_ntop (src : List Byte) (size : Nat) : Option (List Byte) :=
  let text := dottedQuad (src.take 4)
  if text.length < size then some text else none

/-- The octets read so far and the one that is being read, if a digit of it has come. An
octet has no leading zero and is at most 255. -/
def scanQuad (octets : List Byte) : Option Nat → List Byte → Option (List Byte)
  | none, [] => none
  | some n, [] => some (octets ++ [UInt8.ofNat n])
  | octet, c :: cs =>
    if 48 ≤ c.toNat ∧ c.toNat ≤ 57 then
      match octet with
      | none => scanQuad octets (some (c.toNat - 48)) cs
      | some n =>
        if n = 0 ∨ 255 < 10 * n + (c.toNat - 48) then none
        else scanQuad octets (some (10 * n + (c.toNat - 48))) cs
    else if c = '.'.toUInt8 then
      match octet with
      | none => none
      | some n => scanQuad (octets ++ [UInt8.ofNat n]) none cs
    else none

/-- Exactly four octets make an address. -/
def inet_pton (src : List Byte) : Option (Vector Byte 4) :=
  (scanQuad [] none src).bind fun octets =>
    if h : octets.length = 4 then some ⟨octets.toArray, by rw [List.size_toArray, h]⟩ else none

/-! ## `namespace sockets` -/

namespace sockets

/-- What lies at the pointer: the struct, from its first byte on. -/
def sockaddr_cast (host : ByteOrder) (addr : SockaddrIn) : List Byte := addr.bytes host

/-- The string in `buf` afterwards; before, it was `buf`. -/
def toIpPort (host : ByteOrder) (buf : List Byte) (size : Nat) (addr : SockaddrIn) :
    Except Fault (List Byte) :=
  if size < INET_ADDRSTRLEN then .error .assertion
  else
    let buf := (inet_ntop (sockaddr_cast host addr) size).getD buf
    let port := networkToHost16 host addr.sin_port
    if size ≤ buf.length then .error .assertion
    else .ok (buf ++ (ascii ":" ++ decimal port.toNat).take (size - buf.length - 1))

def toIp (host : ByteOrder) (buf : List Byte) (size : Nat) (addr : SockaddrIn) :
    Except Fault (List Byte) :=
  if size ≤ INET_ADDRSTRLEN then .error .assertion
  else .ok ((inet_ntop (sockaddr_cast host addr) size).getD buf)

/-- `ip` is a C string; an address that cannot be read leaves `sin_addr` alone. -/
def fromIpPort (host : ByteOrder) (ip : List Byte) (port : BitVec 16) (addr : SockaddrIn) :
    SockaddrIn :=
  { addr with
    sin_family := AF_INET
    sin_port := hostToNetwork16 host port
    sin_addr := (inet_pton ip).getD addr.sin_addr }

end sockets

/-! ## Reading a dotted quad -/

theorem scanQuad_digit {d : Nat} (hd : d < 10) (octets rest : List Byte) (octet : Option Nat)
    (h : ∀ n, octet = some n → n ≠ 0 ∧ 10 * n + d ≤ 255) :
    scanQuad octets octet (digitChar d :: rest) =
      scanQuad octets (some (10 * octet.getD 0 + d)) rest := by
  have hchar : ∀ d < 10, 48 ≤ (digitChar d).toNat ∧ (digitChar d).toNat ≤ 57 ∧
      (digitChar d).toNat - 48 = d := by decide
  obtain ⟨hlow, hup, hvalue⟩ := hchar d hd
  cases octet with
  | none =>
    rw [scanQuad, if_pos ⟨hlow, hup⟩, hvalue, Option.getD_none, Nat.mul_zero, Nat.zero_add]
  | some n =>
    obtain ⟨hn, hsmall⟩ := h n rfl
    rw [scanQuad, if_pos ⟨hlow, hup⟩]
    simp only [hvalue, Option.getD_some]
    rw [if_neg (by omega)]

/-- A number up to 255 is read as an octet, whatever follows. -/
theorem scanQuad_decimal {n : Nat} (h : n ≤ 255) (octets rest : List Byte) :
    scanQuad octets none (decimal n ++ rest) = scanQuad octets (some n) rest := by
  rw [decimal_of_nonneg (by omega), Int.natAbs_natCast]
  induction n using Nat.strong_induction_on generalizing rest with
  | _ n ih =>
    by_cases hn : n < 10
    · rw [numeral_of_lt hn, List.map_singleton, List.singleton_append,
        scanQuad_digit hn octets rest none (fun _ => nofun), Option.getD_none, Nat.mul_zero,
        Nat.zero_add]
    · have hlast : n % 10 < 10 := Nat.mod_lt _ (by decide)
      have hvalue : 10 * (n / 10) + n % 10 = n := Nat.div_add_mod n 10
      rw [numeral_of_le (by decide) (Nat.le_of_not_lt hn), List.map_append, List.append_assoc,
        ih (n / 10) (Nat.div_lt_self (by omega) (by decide)) (by omega) _, List.map_singleton,
        List.singleton_append, scanQuad_digit hlast octets rest (some (n / 10)) _,
        Option.getD_some, hvalue]
      intro m hm
      obtain rfl := Option.some.inj hm
      omega

theorem scanQuad_dot (octets rest : List Byte) (n : Nat) :
    scanQuad octets (some n) (ascii "." ++ rest) =
      scanQuad (octets ++ [UInt8.ofNat n]) none rest := rfl

/-- `inet_pton` reads what `inet_ntop` writes. -/
theorem inet_pton_dottedQuad (q : Vector Byte 4) : inet_pton (dottedQuad q.toList) = some q := by
  obtain ⟨⟨l⟩, hl⟩ := q
  match l, hl with
  | [a, b, c, d], hl =>
    have htext : dottedQuad [a, b, c, d] = decimal a.toNat ++ (ascii "." ++ (decimal b.toNat ++
        (ascii "." ++ (decimal c.toNat ++ (ascii "." ++ (decimal d.toNat ++ [])))))) := by
      simp [dottedQuad, List.intercalate, List.intersperse]
    have hbyte (x : Byte) : x.toNat ≤ 255 := Nat.le_of_lt_succ x.toNat_lt
    have hscan : scanQuad [] none (dottedQuad [a, b, c, d]) = some [a, b, c, d] := by
      rw [htext, scanQuad_decimal (hbyte a), scanQuad_dot, scanQuad_decimal (hbyte b), scanQuad_dot,
        scanQuad_decimal (hbyte c), scanQuad_dot, scanQuad_decimal (hbyte d), scanQuad]
      simp only [UInt8.ofNat_toNat, List.nil_append, List.cons_append]
    change inet_pton (dottedQuad [a, b, c, d]) = _
    rw [inet_pton, hscan]
    rfl

theorem dottedQuad_inj {q r : Vector Byte 4} (h : dottedQuad q.toList = dottedQuad r.toList) :
    q = r := by
  have hread := congrArg inet_pton h
  rw [inet_pton_dottedQuad, inet_pton_dottedQuad] at hread
  exact Option.some.inj hread

end MyNet.Net
