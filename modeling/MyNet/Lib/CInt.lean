import Mathlib.Algebra.Order.Ring.Int

/-!
# `int`

C's 32-bit `int` with truncating division. An operation whose exact result is out of
range, or a division by zero, is undefined in C: here the result wraps, as it does on the
machine, and `overflowed` records that this happened somewhere on the way to a value.
-/
namespace Lib

structure CInt where
  value : Int
  overflowed : Bool
  lower : -2147483648 ≤ value
  upper : value ≤ 2147483647
  deriving DecidableEq

namespace CInt

/-- The representative of `v` modulo `2 ^ 32` in the range of `int`. -/
def wrap (v : Int) : Int := (v + 2147483648) % 4294967296 - 2147483648

theorem wrap_of_fits {v : Int} (h : -2147483648 ≤ v ∧ v ≤ 2147483647) : wrap v = v := by
  unfold wrap
  omega

/-- The result of an operation with the exact result `v`. -/
def result (v : Int) (overflowed : Bool) : CInt where
  value := wrap v
  overflowed := overflowed || decide (wrap v ≠ v)
  lower := by unfold wrap; omega
  upper := by unfold wrap; omega

def of (v : Int) : CInt := result v false

instance (n : Nat) : OfNat CInt n := ⟨of n⟩

instance : Add CInt := ⟨fun a b => result (a.value + b.value) (a.overflowed || b.overflowed)⟩
instance : Sub CInt := ⟨fun a b => result (a.value - b.value) (a.overflowed || b.overflowed)⟩
instance : Mul CInt := ⟨fun a b => result (a.value * b.value) (a.overflowed || b.overflowed)⟩
instance : Div CInt := ⟨fun a b =>
  result (a.value.tdiv b.value) (a.overflowed || b.overflowed || b.value == 0)⟩
instance : Mod CInt := ⟨fun a b =>
  result (a.value.tmod b.value) (a.overflowed || b.overflowed || b.value == 0)⟩

theorem lit (n : Nat) : (OfNat.ofNat n : CInt) = of (OfNat.ofNat n) := rfl

theorem add_value (a b : CInt) : (a + b).value = wrap (a.value + b.value) := rfl
theorem sub_value (a b : CInt) : (a - b).value = wrap (a.value - b.value) := rfl

theorem of_value {v : Int} (h : -2147483648 ≤ v ∧ v ≤ 2147483647) : (of v).value = v :=
  wrap_of_fits h

theorem of_overflowed {v : Int} (h : -2147483648 ≤ v ∧ v ≤ 2147483647) :
    (of v).overflowed = false := by
  show (false || decide (wrap v ≠ v)) = false
  rw [wrap_of_fits h]
  simp

/-- `x` is `v`, and nothing overflowed on the way to it. -/
def Is (x : CInt) (v : Int) : Prop := x.value = v ∧ x.overflowed = false

instance (x : CInt) (v : Int) : Decidable (x.Is v) := inferInstanceAs (Decidable (_ ∧ _))

theorem of_is {v : Int} (h : -2147483648 ≤ v ∧ v ≤ 2147483647) : (of v).Is v :=
  ⟨of_value h, of_overflowed h⟩

/-! ## Exact operations -/

section Exact

variable {a b : Int}

theorem add_exact (ha : -2147483648 ≤ a ∧ a ≤ 2147483647)
    (hb : -2147483648 ≤ b ∧ b ≤ 2147483647) : of a + of b = of (a + b) := by
  show result ((of a).value + (of b).value) ((of a).overflowed || (of b).overflowed) = _
  rw [of_value ha, of_value hb, of_overflowed ha, of_overflowed hb]
  rfl

theorem sub_exact (ha : -2147483648 ≤ a ∧ a ≤ 2147483647)
    (hb : -2147483648 ≤ b ∧ b ≤ 2147483647) : of a - of b = of (a - b) := by
  show result ((of a).value - (of b).value) ((of a).overflowed || (of b).overflowed) = _
  rw [of_value ha, of_value hb, of_overflowed ha, of_overflowed hb]
  rfl

theorem mul_exact (ha : -2147483648 ≤ a ∧ a ≤ 2147483647)
    (hb : -2147483648 ≤ b ∧ b ≤ 2147483647) : of a * of b = of (a * b) := by
  show result ((of a).value * (of b).value) ((of a).overflowed || (of b).overflowed) = _
  rw [of_value ha, of_value hb, of_overflowed ha, of_overflowed hb]
  rfl

/-- Truncation is rounding down for a dividend that is not negative. -/
theorem div_exact (ha : 0 ≤ a ∧ a ≤ 2147483647) (hb : 0 < b ∧ b ≤ 2147483647) :
    of a / of b = of (a / b) := by
  have ha' : -2147483648 ≤ a ∧ a ≤ 2147483647 := by omega
  have hb' : -2147483648 ≤ b ∧ b ≤ 2147483647 := by omega
  have hne : (b == 0) = false := by
    rw [beq_eq_false_iff_ne]
    omega
  show result ((of a).value.tdiv (of b).value)
    ((of a).overflowed || (of b).overflowed || (of b).value == 0) = _
  rw [of_value ha', of_value hb', of_overflowed ha', of_overflowed hb', hne,
    Int.tdiv_eq_ediv_of_nonneg ha.1]
  rfl

end Exact

end CInt
end Lib
