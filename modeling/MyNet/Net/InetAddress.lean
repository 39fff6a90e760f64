import MyNet.Net.SocketsOps

/-!
# `InetAddress`

Address and port as text and back. `fromIpPort` hands `inet_pton` the address field, but
`toIp` and `toIpPort` hand `inet_ntop` the whole struct, which begins with the family and
the port.
-/
namespace MyNet.Net

open MyNet.Base
open Lib
open Buffer (bytesOf hostToNetwork hostToNetwork16 hostToNetwork32 networkToHost networkToHost16)

def INADDR_ANY : BitVec 32 := 0

def INADDR_LOOPBACK : BitVec 32 := 0x7f000001

structure InetAddress where
  addr_ : SockaddrIn
  deriving DecidableEq

namespace InetAddress

/-- `InetAddress(ip_addr, port)` -/
def new (host : ByteOrder) (ip_addr : List Byte) (port : BitVec 16) : InetAddress :=
  ⟨sockets.fromIpPort host (ip_addr.takeWhile (· != 0)) port .zero⟩

/-- `InetAddress(port, loopbackonly)` -/
def ofPort (host : ByteOrder) (port : BitVec 16) (loopbackonly : Bool) : InetAddress :=
  let any := if loopbackonly then INADDR_LOOPBACK else INADDR_ANY
  ⟨{ SockaddrIn.zero with
      sin_family := AF_INET
      sin_port := hostToNetwork16 host port
      sin_addr := Vector.ofFn fun i => (bytesOf host 4 (hostToNetwork32 host any)).getD i 0 }⟩

def setSockAddrInet (addr : SockaddrIn) (_ : InetAddress) : InetAddress := ⟨addr⟩

/-- The buffer is `char buf[32] = {0}`. -/
def toIp (host : ByteOrder) (a : InetAddress) : Except Fault (List Byte) :=
  sockets.toIp host [] 32 a.addr_

def toIpPort (host : ByteOrder) (a : InetAddress) : Except Fault (List Byte) :=
  sockets.toIpPort host [] 32 a.addr_

def toPort (host : ByteOrder) (a : InetAddress) : BitVec 16 := networkToHost16 host a.addr_.sin_port

end InetAddress

open InetAddress

/-! ## What is printed -/

/-- The four bytes that `inet_ntop` is pointed at. -/
def frontBytes (host : ByteOrder) (addr : SockaddrIn) : Vector Byte 4 :=
  ⟨(bytesOf host 2 addr.sin_family ++ bytesOf host 2 addr.sin_port).toArray, by
    rw [List.size_toArray, List.length_append, bytesOf, bytesOf, host.length_represent,
      host.length_represent]⟩

theorem length_dottedQuad (q : Vector Byte 4) : (dottedQuad q.toList).length ≤ 15 := by
  obtain ⟨⟨l⟩, hl⟩ := q
  match l, hl with
  | [a, b, c, d], hl =>
    have hbyte (x : Byte) : (decimal x.toNat).length ≤ 3 := by
      have hsmall := x.toNat_lt
      rw [length_decimal_le 1]
      norm_num
      omega
    have ha := hbyte a
    have hb := hbyte b
    have hc := hbyte c
    have hd := hbyte d
    have hdot : (ascii ".").length = 1 := rfl
    change (dottedQuad [a, b, c, d]).length ≤ 15
    simp [dottedQuad, List.intercalate, List.intersperse, hdot]
    omega

theorem inet_ntop_cast (host : ByteOrder) (addr : SockaddrIn) :
    inet_ntop (sockets.sockaddr_cast host addr) 32 =
      some (dottedQuad (frontBytes host addr).toList) := by
  have hfront : (sockets.sockaddr_cast host addr).take 4 = (frontBytes host addr).toList := by
    rw [sockets.sockaddr_cast, SockaddrIn.bytes, List.append_assoc]
    exact List.take_left' (frontBytes host addr).length_toList
  have hshort := length_dottedQuad (frontBytes host addr)
  rw [inet_ntop, hfront, if_pos (by omega)]

theorem toIp_eq (host : ByteOrder) (addr : SockaddrIn) :
    toIp host ⟨addr⟩ = .ok (dottedQuad (frontBytes host addr).toList) := by
  rw [toIp, sockets.toIp, if_neg (by decide), inet_ntop_cast]
  rfl

theorem toIpPort_eq (host : ByteOrder) (addr : SockaddrIn) :
    toIpPort host ⟨addr⟩ = .ok (dottedQuad (frontBytes host addr).toList ++
      (ascii ":" ++ decimal (networkToHost16 host addr.sin_port).toNat)) := by
  have hshort := length_dottedQuad (frontBytes host addr)
  have hport : (decimal (networkToHost16 host addr.sin_port).toNat).length ≤ 5 := by
    have hsmall := (networkToHost16 host addr.sin_port).isLt
    rw [length_decimal_le 3]
    norm_num at hsmall ⊢
    omega
  have hcolon : (ascii ":").length = 1 := rfl
  rw [toIpPort, sockets.toIpPort, if_neg (by decide), inet_ntop_cast, Option.getD_some]
  simp only
  rw [if_neg (by omega), List.take_of_length_le (by rw [List.length_append]; omega)]

/-! ## The round trip -/

theorem networkToHost16_hostToNetwork16 (host : ByteOrder) (port : BitVec 16) :
    networkToHost16 host (hostToNetwork16 host port) = port := by
  apply BitVec.eq_of_toNat_eq
  have hlt : host.toBig 2 port.toNat < 2 ^ 16 := host.toBig_lt (n := 2) port.isLt
  simp only [networkToHost16, networkToHost, hostToNetwork16, hostToNetwork, BitVec.toNat_ofNat]
  rw [Nat.mod_eq_of_lt hlt, host.fromBig_toBig (n := 2) port.isLt]
  exact Nat.mod_eq_of_lt port.isLt

theorem hostToNetwork16_networkToHost16 (host : ByteOrder) (port : BitVec 16) :
    hostToNetwork16 host (networkToHost16 host port) = port := by
  cases host with
  | little => exact networkToHost16_hostToNetwork16 .little port
  | big => exact networkToHost16_hostToNetwork16 .big port

theorem dottedQuad_ne_zero {octets : List Byte} {c : Byte} (h : c ∈ dottedQuad octets) :
    c ≠ 0 := by
  have hnumber {b : Byte} (hc : c ∈ decimal b.toNat) : c ≠ 0 := (signed_plain (k := 0) hc).1
  induction octets with
  | nil => cases h
  | cons a rest ih =>
    cases rest with
    | nil =>
      rw [dottedQuad, List.map_singleton, List.intercalate_singleton] at h
      exact hnumber h
    | cons b rest =>
      rw [dottedQuad, List.map_cons, List.map_cons, List.intercalate_cons_cons] at h
      rcases List.mem_append.mp h with hfront | hrest
      · rcases List.mem_append.mp hfront with hc | hdot
        · exact hnumber hc
        · rw [List.mem_singleton.mp hdot]
          decide
      · exact ih hrest

theorem new_dottedQuad (host : ByteOrder) (q : Vector Byte 4) (port : BitVec 16) :
    (new host (dottedQuad q.toList) port).addr_ =
      { SockaddrIn.zero with
        sin_family := AF_INET
        sin_port := hostToNetwork16 host port
        sin_addr := q } := by
  have hstring : (dottedQuad q.toList).takeWhile (· != 0) = dottedQuad q.toList :=
    List.takeWhile_eq_self_iff.mpr fun c hc => bne_iff_ne.mpr (dottedQuad_ne_zero hc)
  simp only [new, sockets.fromIpPort, hstring, inet_pton_dottedQuad, Option.getD_some]

/-- The address in canonical text and the port come back from the `InetAddress` made of them. -/
structure TextKept (host : ByteOrder) (q : Vector Byte 4) (port : BitVec 16) : Prop where
  toIp : toIp host (new host (dottedQuad q.toList) port) = .ok (dottedQuad q.toList)
  toIpPort : toIpPort host (new host (dottedQuad q.toList) port) =
    .ok (dottedQuad q.toList ++ (ascii ":" ++ decimal port.toNat))
  toPort : toPort host (new host (dottedQuad q.toList) port) = port

/-- The `InetAddress` made of the texts of another has its address and its port. -/
def Rebuilt (host : ByteOrder) (addr : SockaddrIn) : Prop :=
  ∃ ip, toIp host ⟨addr⟩ = .ok ip ∧
    (new host ip (toPort host ⟨addr⟩)).addr_.sin_addr = addr.sin_addr ∧
    (new host ip (toPort host ⟨addr⟩)).addr_.sin_port = addr.sin_port

theorem textKept_iff (host : ByteOrder) (q : Vector Byte 4) (port : BitVec 16) :
    TextKept host q port ↔ bytesOf host 2 AF_INET ++ bigEndian 2 port.toNat = q.toList := by
  have hnew := new_dottedQuad host q port
  have hback := networkToHost16_hostToNetwork16 host port
  have hip := toIp_eq host (new host (dottedQuad q.toList) port).addr_
  have hipPort := toIpPort_eq host (new host (dottedQuad q.toList) port).addr_
  have hfront : (frontBytes host (new host (dottedQuad q.toList) port).addr_).toList =
      bytesOf host 2 AF_INET ++ bigEndian 2 port.toNat := by
    rw [hnew, ← Buffer.bytesOf_hostToNetwork host 2 port]
    rfl
  constructor
  · intro h
    rw [← hfront, dottedQuad_inj (Except.ok.inj (hip.symm.trans h.toIp))]
  · intro h
    refine ⟨hip.trans ?_, hipPort.trans ?_, ?_⟩
    · rw [hfront, h]
    · rw [hfront, h, hnew, hback]
    · rw [toPort, hnew, hback]

theorem rebuilt_iff (host : ByteOrder) (addr : SockaddrIn) :
    Rebuilt host addr ↔
      bytesOf host 2 addr.sin_family ++ bytesOf host 2 addr.sin_port = addr.sin_addr.toList := by
  have hnew := new_dottedQuad host (frontBytes host addr) (toPort host ⟨addr⟩)
  constructor
  · rintro ⟨ip, hip, haddr, -⟩
    obtain rfl := Except.ok.inj (hip.symm.trans (toIp_eq host addr))
    rw [hnew] at haddr
    rw [← haddr]
    rfl
  · intro h
    refine ⟨_, toIp_eq host addr, ?_, ?_⟩
    · rw [hnew]
      exact Vector.toList_inj.mp h
    · rw [hnew]
      exact hostToNetwork16_networkToHost16 host addr.sin_port

/-- **When the texts are right.** `toIp`, `toIpPort` and `toPort` give back the text and the
port exactly when the four bytes of the address are those of the family and of the port in
network order; and a `sockaddr_in` is rebuilt from its texts exactly when its address has the
bytes of its family and port. -/
theorem address_text_iff (host : ByteOrder) :
    (∀ (q : Vector Byte 4) (port : BitVec 16),
      TextKept host q port ↔ bytesOf host 2 AF_INET ++ bigEndian 2 port.toNat = q.toList) ∧
    ∀ addr : SockaddrIn, Rebuilt host addr ↔
      bytesOf host 2 addr.sin_family ++ bytesOf host 2 addr.sin_port = addr.sin_addr.toList :=
  ⟨textKept_iff host, rebuilt_iff host⟩

/-- On a little-endian host the address 1.2.3.4 and port 80 are shown as 2.0.0.80. -/
theorem address_text_http :
    toIp .little (new .little (ascii "1.2.3.4") 80) = .ok (ascii "2.0.0.80") ∧
      ¬ TextKept .little #v[1, 2, 3, 4] 80 ∧
      ¬ Rebuilt .little (new .little (ascii "1.2.3.4") 80).addr_ := by
  refine ⟨by decide, fun h => ?_, fun h => ?_⟩
  · exact absurd ((textKept_iff _ _ _).mp h) (by decide)
  · exact absurd ((rebuilt_iff _ _).mp h) (by decide)

end MyNet.Net
