import MyNet.Base.Runtime

/-!
# `FixedBuffer`

An array of `SIZE` characters with a cursor `m_cur`. The characters before the cursor
are the content; those behind it are never read, so they are not represented.
-/
namespace MyNet.Base

def kLargeBuffer : Nat := 4000 * 1000

structure FixedBuffer (SIZE : Nat) where
  /-- The characters between `m_buff` and `m_cur`. -/
  data : List Byte
  inside : data.length ≤ SIZE

namespace FixedBuffer

variable {SIZE : Nat}

def new : FixedBuffer SIZE := ⟨[], Nat.zero_le SIZE⟩

def length (b : FixedBuffer SIZE) : Nat := b.data.length

def avail (b : FixedBuffer SIZE) : Nat := SIZE - b.length

/-- All of the line or, silently, nothing. -/
def append (b : FixedBuffer SIZE) (line : List Byte) : Nat × FixedBuffer SIZE :=
  if h : line.length ≤ b.avail then
    (line.length, ⟨b.data ++ line, by
      have hb := b.inside
      unfold avail length at h
      rw [List.length_append]
      omega⟩)
  else (0, b)

def reset (_ : FixedBuffer SIZE) : FixedBuffer SIZE := new

@[simp] theorem avail_new : (new : FixedBuffer SIZE).avail = SIZE := rfl

/-- A line that fits is kept whole. -/
theorem append_data {b : FixedBuffer SIZE} {line : List Byte} (h : line.length ≤ b.avail) :
    (b.append line).2.data = b.data ++ line := by
  rw [append, dif_pos h]

/-- A line of the size still available fills the buffer to the last character. -/
theorem append_exact {b : FixedBuffer SIZE} {line : List Byte} (h : line.length = b.avail) :
    (b.append line).2.avail = 0 := by
  have hb := b.inside
  unfold avail length at h ⊢
  rw [append_data (Nat.le_of_eq h), List.length_append]
  omega

end FixedBuffer
end MyNet.Base
