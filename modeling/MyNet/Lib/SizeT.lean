import Mathlib.Algebra.Order.Ring.Int

/-!
# Unsigned 64-bit sizes

Sizes are naturals below `2 ^ 64`; sums and differences wrap. The lemmas say when the wrapped
result is the exact one, and what it is when it is not.
-/
namespace Lib.SizeT

def modulus : Nat := 2 ^ 64

def addSize (a b : Nat) : Nat := (a + b) % modulus

def subSize (a b : Nat) : Nat := (a + (modulus - b)) % modulus

theorem addSize_of_lt {a b : Nat} (h : a + b < modulus) : addSize a b = a + b :=
  Nat.mod_eq_of_lt h

theorem addSize_of_ge {a b : Nat} (h : modulus ≤ a + b) (ha : a < modulus) (hb : b < modulus) :
    addSize a b = a + b - modulus := by
  rw [addSize, Nat.mod_eq_sub_mod h]
  exact Nat.mod_eq_of_lt (by omega)

theorem subSize_of_le {a b : Nat} (hb : b ≤ a) (ha : a < modulus) : subSize a b = a - b := by
  have h : a + (modulus - b) = (a - b) + modulus := by omega
  rw [subSize, h, Nat.add_mod_right]
  exact Nat.mod_eq_of_lt (by omega)

theorem subSize_of_lt {a b : Nat} (ha : a < b) (hb : b < modulus) :
    subSize a b = a + modulus - b := by
  rw [subSize, ← Nat.add_sub_assoc (Nat.le_of_lt hb)]
  exact Nat.mod_eq_of_lt (by omega)

theorem subSize_lt (a b : Nat) : subSize a b < modulus := Nat.mod_lt _ (by decide)

theorem addSize_lt (a b : Nat) : addSize a b < modulus := Nat.mod_lt _ (by decide)

end Lib.SizeT
