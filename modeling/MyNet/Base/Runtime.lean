import Mathlib.Algebra.Order.Ring.Int

/-!
# What the C++ runtime contributes

Bytes, the ways an operation can end without returning, and the size limit of a
`std::vector<char>`. An allocator is a parameter of the operations that grow a
vector: it says for which sizes it has memory. Text is a list of ASCII codes.
-/
namespace MyNet.Base

abbrev Byte := UInt8

/-- `assertion` is a failed `assert`; `outOfRange`, an access outside the object, and
`nullPointer`, a dereference of an empty pointer, are undefined behaviour in C++. The
other two are the exceptions of a vector. -/
inductive Fault where
  | assertion
  | outOfRange
  | nullPointer
  | lengthError
  | badAlloc
  deriving DecidableEq

/-- The exceptions `std::vector::resize` throws; the other faults are bugs. -/
def Fault.isThrown : Fault → Bool
  | .lengthError | .badAlloc => true
  | .assertion | .outOfRange | .nullPointer => false

/-- `max_size()` of `std::vector<char>` on a 64-bit host. -/
def maxSize : Nat := 2 ^ 63 - 1

abbrev Allocator := Nat → Bool

def ascii (text : String) : List Byte := text.toList.map fun c => UInt8.ofNat c.toNat

/-- `++` on an `int`; past `INT_MAX`, where C++ promises nothing, it wraps. -/
def incInt (i : Int) : Int := (i + 1).bmod (2 ^ 32)

end MyNet.Base
