import MyNet.Net.BufferInvariant
import Mathlib.Logic.Relation

/-!
# The layout of a `Buffer` and its moves

Only the size of the storage and the two indices are left, and beside them how many bytes were
prepended since the indices were last reset and the most that was ever asked for. The calls of
a `Buffer` come down to a few moves of these numbers, and what the moves keep needs no picture
of the content.
-/
namespace MyNet.Net.Buffer

open MyNet.Base
open Lib.SizeT

structure Layout where
  size : Nat
  reader : Nat
  writer : Nat
  prepended : Nat
  /-- The largest `readableBytes() + len` of the requests so far. -/
  asked : Nat

namespace Layout

def readable (l : Layout) : Nat := subSize l.writer l.reader
def writable (l : Layout) : Nat := subSize l.size l.writer

/-- A request for `len` bytes was made. -/
def ask (l : Layout) (len : Nat) : Layout := { l with asked := max l.asked (l.readable + len) }

/-- One move; only some buffers may `shrink`. -/
inductive Step (mayShrink : Prop) (l : Layout) : Layout → Prop
  /-- There is room, or the vector throws. -/
  | request (len : Nat) : Step mayShrink l (l.ask len)
  | resize {len : Nat} (hshort : l.writable < len)
      (hroom : addSize l.writable l.reader < addSize len kCheapPrepend)
      (hbound : addSize l.writer len ≤ max l.size maxSize) :
      Step mayShrink l { l.ask len with size := addSize l.writer len }
  | compact (len : Nat) (hfront : kCheapPrepend < l.reader) (hordered : l.reader ≤ l.writer)
      (hinside : l.writer ≤ l.size) :
      Step mayShrink l
        { l.ask len with reader := kCheapPrepend, writer := addSize kCheapPrepend l.readable }
  | advance {n : Nat} (hroom : l.writer + n ≤ l.size) :
      Step mayShrink l { l with writer := addSize l.writer n }
  | unwrite {n : Nat} (hn : n ≤ l.readable) :
      Step mayShrink l { l with writer := subSize l.writer n }
  | retrieve {n : Nat} (hn : n < l.readable) :
      Step mayShrink l { l with reader := addSize l.reader n }
  | reset : Step mayShrink l { l with reader := kCheapPrepend, writer := kCheapPrepend, prepended := 0 }
  | prepend {n : Nat} (hn : n ≤ l.reader) :
      Step mayShrink l
        { l with reader := subSize l.reader n, prepended := l.prepended + n }
  | shrink {size writer : Nat} (hshrink : mayShrink) (hfront : kCheapPrepend ≤ writer)
      (hinside : writer ≤ size) (hbound : size ≤ maxSize) :
      Step mayShrink l { l with size := size, reader := kCheapPrepend, writer := writer }

/-- Any number of moves. -/
abbrev Moves (mayShrink : Prop) : Layout → Layout → Prop :=
  Relation.ReflTransGen (Step mayShrink)

/-- What every move keeps, every sequence of moves keeps. -/
theorem Moves.keeps {mayShrink : Prop} {I : Layout → Prop}
    (hstep : ∀ l m, I l → Step mayShrink l m → I m) {l m : Layout} (h : Moves mayShrink l m)
    (hl : I l) : I m := by
  induction h with
  | refl => exact hl
  | tail _ hlast ih => exact hstep _ _ ih hlast

/-- The numbers are `size_t` values and the vector is one that can exist. -/
structure Sized (l : Layout) : Prop where
  reader : l.reader < modulus
  writer : l.writer < modulus
  size : l.size ≤ maxSize

/-- What was not prepended is left of the reserve. -/
structure Reserved (l : Layout) : Prop where
  sized : l.Sized
  ordered : l.reader ≤ l.writer
  reserve : kCheapPrepend ≤ l.reader + l.prepended

section Steps

variable {mayShrink : Prop} {l m : Layout}

theorem cheapPrepend_lt : kCheapPrepend < modulus := by decide

theorem sized_step (h : l.Sized) (hs : Step mayShrink l m) : m.Sized := by
  have hsize := h.size
  have hlt := maxSize_lt_modulus
  cases hs with
  | request len => exact ⟨h.reader, h.writer, hsize⟩
  | resize _ _ hbound => exact ⟨h.reader, h.writer, by dsimp only; omega⟩
  | compact => exact ⟨cheapPrepend_lt, addSize_lt _ _, hsize⟩
  | advance => exact ⟨h.reader, addSize_lt _ _, hsize⟩
  | unwrite => exact ⟨h.reader, subSize_lt _ _, hsize⟩
  | retrieve => exact ⟨addSize_lt _ _, h.writer, hsize⟩
  | reset => exact ⟨cheapPrepend_lt, cheapPrepend_lt, hsize⟩
  | prepend => exact ⟨subSize_lt _ _, h.writer, hsize⟩
  | shrink _ hfront hinside hbound => exact ⟨cheapPrepend_lt, by dsimp only; omega, hbound⟩

theorem reserved_step (h : l.Reserved) (hs : Step mayShrink l m) : m.Reserved := by
  have hsized := sized_step h.sized hs
  have hordered := h.ordered
  have hreserve := h.reserve
  have hsize := h.sized.size
  have hwriter := h.sized.writer
  have hlt := maxSize_lt_modulus
  have hreadable : l.readable = l.writer - l.reader := subSize_of_le hordered hwriter
  cases hs with
  | request len => exact ⟨hsized, hordered, hreserve⟩
  | resize => exact ⟨hsized, hordered, hreserve⟩
  | compact len hfront _ hinside =>
    have hend : addSize kCheapPrepend l.readable = kCheapPrepend + l.readable :=
      addSize_of_lt (by omega)
    exact ⟨hsized, hend ▸ Nat.le_add_right _ _, Nat.le_add_right _ _⟩
  | advance hroom =>
    refine ⟨hsized, ?_, hreserve⟩
    dsimp only
    rw [addSize_of_lt (by omega)]
    omega
  | unwrite hn =>
    refine ⟨hsized, ?_, hreserve⟩
    dsimp only
    rw [subSize_of_le (by omega) hwriter]
    omega
  | @retrieve n hn =>
    have hnext : addSize l.reader n = l.reader + n := addSize_of_lt (by omega)
    refine ⟨hsized, ?_, ?_⟩ <;> dsimp only <;> omega
  | reset => exact ⟨hsized, Nat.le_refl _, Nat.le_refl _⟩
  | @prepend n hn =>
    have hnext : subSize l.reader n = l.reader - n := subSize_of_le hn h.sized.reader
    refine ⟨hsized, ?_, ?_⟩ <;> dsimp only <;> omega
  | shrink _ hfront => exact ⟨hsized, hfront, Nat.le_add_right _ _⟩

/-- If the storage is resized then the request, with the content and the reserve, is more than
it has, and the new size at most twice that. -/
theorem resize_bound (h : l.Sized) {len : Nat} (hshort : l.writable < len)
    (hroom : addSize l.writable l.reader < addSize len kCheapPrepend) :
    l.size < l.readable + len + kCheapPrepend ∧
      addSize l.writer len ≤ 2 * (l.readable + len) + kCheapPrepend := by
  have hreader := h.reader
  have hwriter := h.writer
  have hsize := h.size
  have hlt := maxSize_lt_modulus
  have hless := addSize_lt l.writer len
  by_cases hlen : modulus ≤ len
  · omega
  have hsum : addSize l.writer len = l.writer + len ∨
      addSize l.writer len = l.writer + len - modulus ∧ modulus ≤ l.writer + len := by
    by_cases hw : l.writer + len < modulus
    · exact Or.inl (addSize_of_lt hw)
    · exact Or.inr ⟨addSize_of_ge (Nat.not_lt.mp hw) hwriter (Nat.not_le.mp hlen),
        Nat.not_lt.mp hw⟩
  by_cases hinside : l.writer ≤ l.size
  · have hwritable : l.writable = l.size - l.writer := subSize_of_le hinside (by omega)
    by_cases hordered : l.reader ≤ l.writer
    · have hreadable : l.readable = l.writer - l.reader := subSize_of_le hordered hwriter
      by_cases hcheap : len + kCheapPrepend < modulus
      · rw [addSize_of_lt hcheap, addSize_of_lt (by omega)] at hroom
        omega
      · omega
    · have hreadable : l.readable = l.writer + modulus - l.reader :=
        subSize_of_lt (Nat.not_le.mp hordered) hreader
      omega
  · have hwritable : l.writable = l.size + modulus - l.writer :=
      subSize_of_lt (Nat.not_le.mp hinside) hwriter
    omega

/-- Without `shrink`, the size is the first one or at most twice what was asked for. -/
def Proportional (initial : Nat) (l : Layout) : Prop :=
  l.size ≤ max initial (2 * l.asked + kCheapPrepend)

theorem proportional_step {initial : Nat} (h : l.Sized) (hp : Proportional initial l)
    (hs : Step False l m) : Proportional initial m := by
  unfold Proportional at hp ⊢
  cases hs with
  | request | compact =>
    simp only [ask]
    omega
  | resize hshort hroom =>
    have hlimit := (resize_bound h hshort hroom).2
    simp only [ask]
    omega
  | advance | unwrite | retrieve | reset | prepend => exact hp
  | shrink hshrink => exact hshrink.elim

/-- The storage is resized only for a request that, with the content and the reserve, is more
than it has. -/
def Needed (size : Nat) (l : Layout) : Prop := l.size = size ∨ size < l.asked + kCheapPrepend

theorem needed_step {size : Nat} (h : l.Sized) (hn : Needed size l) (hs : Step False l m) :
    Needed size m := by
  unfold Needed at hn ⊢
  cases hs with
  | request | compact =>
    simp only [ask]
    omega
  | resize hshort hroom =>
    have hlimit := (resize_bound h hshort hroom).1
    simp only [ask]
    omega
  | advance | unwrite | retrieve | reset | prepend => exact hn
  | shrink hshrink => exact hshrink.elim

theorem Moves.sized (h : Moves mayShrink l m) (hl : l.Sized) : m.Sized :=
  h.keeps (fun _ _ hl hs => sized_step hl hs) hl

theorem Moves.reserved (h : Moves mayShrink l m) (hl : l.Reserved) : m.Reserved :=
  h.keeps (fun _ _ hl hs => reserved_step hl hs) hl

theorem Moves.proportional {initial : Nat} (h : Moves False l m) (hl : l.Sized)
    (hp : Proportional initial l) : Proportional initial m :=
  (h.keeps (I := fun l => l.Sized ∧ Proportional initial l)
    (fun _ _ hl hs => ⟨sized_step hl.1 hs, proportional_step hl.1 hl.2 hs⟩) ⟨hl, hp⟩).2

theorem Moves.needed (h : Moves False l m) (hl : l.Sized) : Needed l.size m :=
  (h.keeps (I := fun k => k.Sized ∧ Needed l.size k)
    (fun _ _ hk hs => ⟨sized_step hk.1 hs, needed_step hk.1 hk.2 hs⟩) ⟨hl, Or.inl rfl⟩).2

end Steps

end Layout
end MyNet.Net.Buffer
