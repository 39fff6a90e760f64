import Mathlib.Algebra.Order.Ring.Int

/-!
# Byte order

The numeral of a number in base 256, most significant digit first, and the two orders
in which a host keeps the bytes of an unsigned integer in memory. `toBig` and `fromBig`
are the conversions of `<endian.h>`: they swap the bytes on a little-endian host and do
nothing on a big-endian one.
-/
namespace Lib

/-- The last `n` digits of `v` in base 256, most significant first. -/
def bigEndian : Nat → Nat → List UInt8
  | 0, _ => []
  | n + 1, v => UInt8.ofNat (v / 256 ^ n) :: bigEndian n v

def ofBigEndian : List UInt8 → Nat
  | [] => 0
  | b :: bs => b.toNat * 256 ^ bs.length + ofBigEndian bs

@[simp] theorem length_bigEndian (n v : Nat) : (bigEndian n v).length = n := by
  induction n with
  | zero => rfl
  | succ n ih => simp [bigEndian, ih]

theorem ofBigEndian_lt (bs : List UInt8) : ofBigEndian bs < 256 ^ bs.length := by
  induction bs with
  | nil => decide
  | cons b bs ih =>
    have hb : b.toNat * 256 ^ bs.length ≤ 255 * 256 ^ bs.length :=
      Nat.mul_le_mul_right _ (by have := b.toNat_lt; omega)
    show b.toNat * 256 ^ bs.length + ofBigEndian bs < 256 ^ (bs.length + 1)
    rw [Nat.pow_succ]
    omega

/-- Only the digits above the width are lost. -/
theorem ofBigEndian_bigEndian (n v : Nat) : ofBigEndian (bigEndian n v) = v % 256 ^ n := by
  induction n with
  | zero => rw [Nat.pow_zero, Nat.mod_one]; rfl
  | succ n ih =>
    show (UInt8.ofNat (v / 256 ^ n)).toNat * 256 ^ (bigEndian n v).length +
      ofBigEndian (bigEndian n v) = v % 256 ^ (n + 1)
    rw [ih, length_bigEndian, Nat.pow_succ, Nat.mod_mul, UInt8.toNat_ofNat', Nat.mul_comm]
    exact Nat.add_comm _ _

/-- The digits below the width do not see what is above it. -/
theorem bigEndian_mul_add (n k v : Nat) : bigEndian n (k * 256 ^ n + v) = bigEndian n v := by
  induction n generalizing k with
  | zero => rfl
  | succ n ih =>
    have hpow : k * 256 ^ (n + 1) = k * 256 * 256 ^ n := by
      rw [Nat.pow_succ, Nat.mul_comm (256 ^ n), Nat.mul_assoc]
    have hdigit : (k * 256 * 256 ^ n + v) / 256 ^ n = v / 256 ^ n + k * 256 := by
      rw [Nat.add_comm, Nat.add_mul_div_right _ _ (Nat.pow_pos (by decide))]
    rw [bigEndian, bigEndian, hpow, ih (k * 256), hdigit]
    congr 1
    apply UInt8.toNat_inj.mp
    rw [UInt8.toNat_ofNat', UInt8.toNat_ofNat']
    omega

theorem bigEndian_ofBigEndian (bs : List UInt8) : bigEndian bs.length (ofBigEndian bs) = bs := by
  induction bs with
  | nil => rfl
  | cons b bs ih =>
    have hlt := ofBigEndian_lt bs
    have hdigit : (b.toNat * 256 ^ bs.length + ofBigEndian bs) / 256 ^ bs.length = b.toNat := by
      rw [Nat.add_comm, Nat.add_mul_div_right _ _ (Nat.pow_pos (by decide)),
        Nat.div_eq_of_lt hlt, Nat.zero_add]
    rw [List.length_cons, bigEndian, ofBigEndian, hdigit, bigEndian_mul_add, ih,
      UInt8.ofNat_toNat]

/-- The order in which a host keeps the bytes of an integer. -/
inductive ByteOrder where
  | little
  | big
  deriving DecidableEq

namespace ByteOrder

/-- The bytes of an unsigned integer of `n` bytes in memory, lowest address first. -/
def represent (n v : Nat) : ByteOrder → List UInt8
  | little => (bigEndian n v).reverse
  | big => bigEndian n v

/-- The unsigned integer that these bytes in memory are. -/
def interpret (bs : List UInt8) : ByteOrder → Nat
  | little => ofBigEndian bs.reverse
  | big => ofBigEndian bs

/-- `htobe`, on integers of `n` bytes. -/
def toBig (n v : Nat) : ByteOrder → Nat
  | little => ofBigEndian (bigEndian n v).reverse
  | big => v

/-- `betoh`, on integers of `n` bytes. -/
def fromBig (n v : Nat) : ByteOrder → Nat
  | little => ofBigEndian (bigEndian n v).reverse
  | big => v

@[simp] theorem length_represent (o : ByteOrder) (n v : Nat) : (o.represent n v).length = n := by
  cases o with
  | little => rw [represent, List.length_reverse, length_bigEndian]
  | big => exact length_bigEndian n v

theorem toBig_lt (o : ByteOrder) {n v : Nat} (h : v < 256 ^ n) : o.toBig n v < 256 ^ n := by
  cases o with
  | little =>
    have hlt := ofBigEndian_lt (bigEndian n v).reverse
    rwa [List.length_reverse, length_bigEndian] at hlt
  | big => exact h

/-- An integer turned to network order lies in memory as its numeral, on any host. -/
theorem represent_toBig (o : ByteOrder) (n v : Nat) :
    o.represent n (o.toBig n v) = bigEndian n v := by
  cases o with
  | little =>
    have h := bigEndian_ofBigEndian (bigEndian n v).reverse
    rw [List.length_reverse, length_bigEndian] at h
    rw [represent, toBig, h, List.reverse_reverse]
  | big => rfl

/-- Bytes loaded from memory and turned from network order are read as a numeral. -/
theorem fromBig_interpret (o : ByteOrder) (bs : List UInt8) :
    o.fromBig bs.length (o.interpret bs) = ofBigEndian bs := by
  cases o with
  | little =>
    have h := bigEndian_ofBigEndian bs.reverse
    rw [List.length_reverse] at h
    rw [fromBig, interpret, h, List.reverse_reverse]
  | big => rfl

/-- Both conversions swap the same bytes, so each undoes the other. -/
theorem toBig_fromBig (o : ByteOrder) {n v : Nat} (h : v < 256 ^ n) :
    o.toBig n (o.fromBig n v) = v := by
  cases o with
  | little =>
    have hswap := bigEndian_ofBigEndian (bigEndian n v).reverse
    rw [List.length_reverse, length_bigEndian] at hswap
    rw [fromBig, toBig, hswap, List.reverse_reverse, ofBigEndian_bigEndian, Nat.mod_eq_of_lt h]
  | big => rfl

theorem fromBig_toBig (o : ByteOrder) {n v : Nat} (h : v < 256 ^ n) :
    o.fromBig n (o.toBig n v) = v := by
  cases o with
  | little => exact toBig_fromBig little h
  | big => rfl

theorem interpret_lt (o : ByteOrder) (bs : List UInt8) : o.interpret bs < 256 ^ bs.length := by
  cases o with
  | little =>
    have h := ofBigEndian_lt bs.reverse
    rwa [List.length_reverse] at h
  | big => exact ofBigEndian_lt bs

end ByteOrder
end Lib
