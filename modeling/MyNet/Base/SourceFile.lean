import MyNet.Base.Logging
import MyNet.Lib.CInt
import MyNet.Lib.Search
import Mathlib.Data.List.TakeWhile

/-!
# The constructors of `SourceFile`

Both look for the last part of a path. The one for an array searches the last slash, the one
for a pointer the first, so they agree on paths with one slash at most.
-/
namespace MyNet.Base

open Lib Lib.Search

/-- For a character other than NUL. -/
def strchr (str : List Byte) (c : Byte) : Option Nat := (str.takeWhile (· != 0)).idxOf? c

def strrchr (str : List Byte) (c : Byte) : Option Nat := lastIdxOf? c (str.takeWhile (· != 0))

namespace SourceFile

/-- The members of `SourceFile`; the pointer is an offset in the characters of the argument. -/
structure Members where
  m_data : Nat
  m_size : CInt

/-- `SourceFile(const char (&arr)[N])` -/
def ofArray (arr : List Byte) : Members :=
  match strrchr arr '/'.toUInt8 with
  | some slash => ⟨slash + 1, .of arr.length - 1 - .of (slash + 1 : Nat)⟩
  | none => ⟨0, .of arr.length - 1⟩

/-- `SourceFile(const char* filename)` -/
def ofPointer (filename : List Byte) : Members :=
  let m_data := match strchr filename '/'.toUInt8 with
    | some slash => slash + 1
    | none => 0
  ⟨m_data, .of (strlen (filename.drop m_data))⟩

/-- A path as an array of `char`. The number of its elements is an `int`. -/
structure PathArray where
  path : List Byte
  no_nul : ∀ c ∈ path, c ≠ 0
  length_lt : path.length + 1 < 2147483648

def PathArray.arr (a : PathArray) : List Byte := a.path ++ [0]

/-- What is behind the last slash, everything if there is none. -/
def baseName (path : List Byte) : List Byte :=
  (path.reverse.takeWhile (· != '/'.toUInt8)).reverse

/-- The characters that a logger writes for the members. -/
def Members.file (chars : List Byte) (v : Members) : SourceFile :=
  ⟨(chars.drop v.m_data).take v.m_size.value.toNat⟩

/-- The members stand for `name`, and `m_size` is its length. -/
def Members.Designates (v : Members) (chars name : List Byte) : Prop :=
  v.file chars = ⟨name⟩ ∧ v.m_size.Is name.length

/-! ## The last part of a path -/

theorem baseName_append {before after : List Byte} (h : '/'.toUInt8 ∉ after) :
    baseName (before ++ '/'.toUInt8 :: after) = after := by
  rw [baseName, List.reverse_append, List.reverse_cons, List.append_assoc, List.singleton_append,
    takeWhile_ne_append_cons (mt List.mem_reverse.mp h), List.reverse_reverse]

theorem baseName_of_notMem {path : List Byte} (h : '/'.toUInt8 ∉ path) : baseName path = path := by
  rw [baseName, takeWhile_ne_of_notMem (mt List.mem_reverse.mp h), List.reverse_reverse]

/-! ## What the constructors designate -/

theorem PathArray.zero_notMem (a : PathArray) : 0 ∉ a.path := fun h => a.no_nul 0 h rfl

theorem PathArray.takeWhile_arr (a : PathArray) : a.arr.takeWhile (· != 0) = a.path :=
  takeWhile_ne_append_cons a.zero_notMem

/-- Members that point behind `front` and have the length of what is left of the path. -/
theorem designates_of_eq {a : PathArray} {front name : List Byte} {v : Members}
    (hpath : a.path = front ++ name) (hdata : v.m_data = front.length)
    (hsize : v.m_size = .of name.length) : v.Designates a.arr name := by
  have hlength := a.length_lt
  rw [hpath, List.length_append] at hlength
  have his : v.m_size.Is name.length := hsize ▸ CInt.of_is (by omega)
  refine ⟨?_, his⟩
  rw [Members.file, his.1, hdata, PathArray.arr, hpath, List.append_assoc,
    List.drop_left, Int.toNat_natCast, List.take_left]

/-- The array gives the base name, for every path. -/
theorem ofArray_designates (a : PathArray) : (ofArray a.arr).Designates a.arr (baseName a.path) := by
  have hlength := a.length_lt
  have harr : (a.arr.length : Int) = a.path.length + 1 := by
    rw [PathArray.arr, List.length_append, List.length_singleton]
    omega
  by_cases hmem : '/'.toUInt8 ∈ a.path
  · obtain ⟨before, after, hpath, hfree⟩ := exists_last_of_mem hmem
    have hcut : a.path = (before ++ ['/'.toUInt8]) ++ after :=
      hpath.trans (List.append_cons _ _ _)
    have hslash : strrchr a.arr '/'.toUInt8 = some before.length := by
      rw [strrchr, a.takeWhile_arr, hpath, lastIdxOf?_append_cons hfree]
    have hparts : a.path.length = before.length + 1 + after.length := by
      rw [hcut, List.length_append, List.length_append, List.length_singleton]
    rw [hpath, baseName_append hfree]
    simp only [ofArray, hslash]
    apply designates_of_eq hcut
    · rw [List.length_append, List.length_singleton]
    · rw [harr, CInt.lit, CInt.sub_exact (by omega) (by omega),
        CInt.sub_exact (by omega) (by omega)]
      apply congrArg CInt.of
      omega
  · have hslash : strrchr a.arr '/'.toUInt8 = none := by
      rw [strrchr, a.takeWhile_arr, lastIdxOf?_of_notMem hmem]
    rw [baseName_of_notMem hmem]
    simp only [ofArray, hslash]
    apply designates_of_eq (List.nil_append _).symm rfl
    rw [harr, CInt.lit, CInt.sub_exact (by omega) (by omega)]
    apply congrArg CInt.of
    omega

theorem strlen_arr {a : PathArray} {front name : List Byte} (hpath : a.path = front ++ name) :
    strlen (a.arr.drop front.length) = name.length := by
  have hname : 0 ∉ name := by
    intro hmem
    apply a.zero_notMem
    rw [hpath]
    exact List.mem_append_right front hmem
  rw [strlen, PathArray.arr, hpath, List.append_assoc, List.drop_left,
    takeWhile_ne_append_cons hname]

/-- The pointer gives everything behind the first slash. -/
theorem ofPointer_designates {a : PathArray} {before after : List Byte}
    (hpath : a.path = before ++ '/'.toUInt8 :: after) (hfree : '/'.toUInt8 ∉ before) :
    (ofPointer a.arr).Designates a.arr after := by
  have hcut : a.path = (before ++ ['/'.toUInt8]) ++ after := hpath.trans (List.append_cons _ _ _)
  have hslash : strchr a.arr '/'.toUInt8 = some before.length := by
    rw [strchr, a.takeWhile_arr, hpath, idxOf?_append_cons hfree]
  have hfront : before.length + 1 = (before ++ ['/'.toUInt8]).length := by
    rw [List.length_append, List.length_singleton]
  simp only [ofPointer, hslash]
  apply designates_of_eq hcut hfront
  rw [hfront, strlen_arr hcut]

theorem ofPointer_whole {a : PathArray} (hfree : '/'.toUInt8 ∉ a.path) :
    (ofPointer a.arr).Designates a.arr a.path := by
  have hslash : strchr a.arr '/'.toUInt8 = none := by
    rw [strchr, a.takeWhile_arr, List.idxOf?_eq_none_iff.mpr hfree]
  have hlength := strlen_arr (List.nil_append a.path).symm
  simp only [ofPointer, hslash]
  apply designates_of_eq (List.nil_append _).symm rfl
  rw [← hlength]
  rfl

/-- There is one text that members stand for. -/
theorem Members.Designates.unique {v : Members} {chars name other : List Byte}
    (h : v.Designates chars name) (h' : v.Designates chars other) : name = other := by
  have hfile := h.1.symm.trans h'.1
  cases hfile
  rfl

/-- **When the constructors agree.** Both give the base name, with its length, exactly for the
paths with at most one slash. -/
theorem constructors_agree_iff (a : PathArray) :
    ((ofArray a.arr).Designates a.arr (baseName a.path) ∧
      (ofPointer a.arr).Designates a.arr (baseName a.path)) ↔
      a.path.count '/'.toUInt8 ≤ 1 := by
  rw [and_iff_right (ofArray_designates a)]
  by_cases hmem : '/'.toUInt8 ∈ a.path
  · obtain ⟨before, after, hpath, hfree⟩ := List.eq_append_cons_of_mem hmem
    have hpointer := ofPointer_designates hpath hfree
    have hcount : a.path.count '/'.toUInt8 = after.count '/'.toUInt8 + 1 := by
      rw [hpath, List.count_append, List.count_eq_zero_of_not_mem hfree, List.count_cons_self,
        Nat.zero_add]
    rw [hcount]
    by_cases hmore : '/'.toUInt8 ∈ after
    · have hpos := List.count_pos_iff.mpr hmore
      constructor
      · intro h
        -- the base name has no slash, the text behind the first one does
        have hbase := hpointer.unique h
        rw [hbase, baseName, List.mem_reverse] at hmore
        have hne := List.mem_takeWhile_imp hmore
        simp at hne
      · intro h
        omega
    · have hzero := List.count_eq_zero_of_not_mem hmore
      constructor
      · intro _
        omega
      · intro _
        rw [hpath, baseName_append hmore]
        exact hpointer
  · have hzero := List.count_eq_zero_of_not_mem hmem
    constructor
    · intro _
      omega
    · intro _
      rw [baseName_of_notMem hmem]
      exact ofPointer_whole hmem

/-- `base/tests/a.cc` is `a.cc` as an array and `tests/a.cc` as a pointer. -/
def twoSlashes : PathArray :=
  ⟨ascii "base/tests/a.cc", fun _ hc => ne_of_mem_of_not_mem hc (by decide), by decide⟩

theorem constructors_disagree :
    (ofArray twoSlashes.arr).file twoSlashes.arr = ⟨ascii "a.cc"⟩ ∧
      (ofPointer twoSlashes.arr).file twoSlashes.arr = ⟨ascii "tests/a.cc"⟩ ∧
      ¬(ofPointer twoSlashes.arr).Designates twoSlashes.arr (baseName twoSlashes.path) := by
  refine ⟨rfl, rfl, ?_⟩
  intro h
  exact absurd h.2 (by decide)

end SourceFile
end MyNet.Base
