import MyNet.Base.LogStreamText
import MyNet.Lib.CInt
import MyNet.Lib.Search

/-!
# `procname`

The kernel puts the name of a process between parentheses and escapes nothing, so the name
ends at the last closing parenthesis. The source takes the first, which is the last one as
long as the name has none of its own.
-/
namespace MyNet.Base.ProcessInfo

open Lib Lib.Numeral Lib.Search

/-- `std::string(s, n)`. A negative `int` becomes a `size_t` beyond every length. -/
def string (s : List Byte) (n : CInt) : Except Fault (List Byte) :=
  if n.value < 0 then .error .lengthError else .ok (s.take n.value.toNat)

def procname (stat : List Byte) : Except Fault (List Byte) :=
  let lp := stat.idxOf? '('.toUInt8
  let rp := stat.idxOf? ')'.toUInt8
  match lp, rp with
  | some lp, some rp =>
    if lp < rp then string (stat.drop (lp + 1)) (.of (rp - lp - 1 : Nat)) else .ok []
  | _, _ => .ok []

/-- What the kernel writes to `/proc/self/stat`. -/
def render (pid : Int) (name remainder : List Byte) : List Byte :=
  decimal pid ++ ascii " (" ++ name ++ ascii ") " ++ remainder

/-- A closing parenthesis somewhere behind an opening one. -/
def Paired (text : List Byte) : Prop :=
  ∃ i j : Nat, i < j ∧ text[i]? = some '('.toUInt8 ∧ text[j]? = some ')'.toUInt8

example : procname (ascii "17 (bash) S 1 17") = .ok (ascii "bash") := by decide

/-- A number has no parentheses. -/
theorem parenthesis_notMem_decimal (pid : Int) {c : Byte}
    (hc : c = '('.toUInt8 ∨ c = ')'.toUInt8) : c ∉ decimal pid := by
  have hdigit : ∀ d < 10, digitChar d ≠ '('.toUInt8 ∧ digitChar d ≠ ')'.toUInt8 := by decide
  have hnumeral : c ∉ (numeral 10 pid.natAbs).map digitChar := by
    intro hmem
    obtain ⟨d, hd, rfl⟩ := List.mem_map.mp hmem
    have hne := hdigit d (mem_numeral_lt (by decide) hd)
    rcases hc with hc | hc
    · exact hne.1 hc
    · exact hne.2 hc
  by_cases hneg : pid < 0
  · rw [decimal_of_neg hneg, List.mem_cons, not_or]
    refine ⟨?_, hnumeral⟩
    rcases hc with rfl | rfl <;> decide
  · rw [decimal_of_nonneg hneg]
    exact hnumeral

/-- Text before the first opening parenthesis, then a closing one: what is between them. -/
theorem procname_cut {front inner rest : List Byte}
    (hfront : '('.toUInt8 ∉ front) (hfront' : ')'.toUInt8 ∉ front) (hinner : ')'.toUInt8 ∉ inner) :
    procname (front ++ '('.toUInt8 :: (inner ++ ')'.toUInt8 :: rest)) =
      string (inner ++ ')'.toUInt8 :: rest) (.of inner.length) := by
  have hlp : (front ++ '('.toUInt8 :: (inner ++ ')'.toUInt8 :: rest)).idxOf? '('.toUInt8 =
      some front.length := idxOf?_append_cons hfront
  have hcut : front ++ '('.toUInt8 :: (inner ++ ')'.toUInt8 :: rest) =
      (front ++ '('.toUInt8 :: inner) ++ ')'.toUInt8 :: rest := by
    rw [List.append_assoc, List.cons_append]
  have hfree : ')'.toUInt8 ∉ front ++ '('.toUInt8 :: inner := by
    rw [List.mem_append, List.mem_cons, not_or, not_or]
    exact ⟨hfront', by decide, hinner⟩
  have hrp : (front ++ '('.toUInt8 :: (inner ++ ')'.toUInt8 :: rest)).idxOf? ')'.toUInt8 =
      some (front ++ '('.toUInt8 :: inner).length := by
    rw [hcut]
    exact idxOf?_append_cons hfree
  have hdrop : (front ++ '('.toUInt8 :: (inner ++ ')'.toUInt8 :: rest)).drop (front.length + 1) =
      inner ++ ')'.toUInt8 :: rest := by
    rw [← List.drop_drop, List.drop_left]
    rfl
  have hwidth : (front ++ '('.toUInt8 :: inner).length - front.length - 1 = inner.length := by
    rw [List.length_append, List.length_cons]
    omega
  have hlt : front.length < (front ++ '('.toUInt8 :: inner).length := by
    rw [List.length_append, List.length_cons]
    omega
  simp only [procname, hlp, hrp, if_pos hlt, hdrop, hwidth]

theorem string_ok {s text : List Byte} {n : CInt} (h : string s n = .ok text) :
    0 ≤ n.value ∧ s.take n.value.toNat = text := by
  by_cases hneg : n.value < 0
  · rw [string, if_pos hneg] at h
    cases h
  · rw [string, if_neg hneg] at h
    exact ⟨Int.not_lt.mp hneg, Except.ok.inj h⟩

/-- The characters are the name exactly when their number is an `int`. -/
theorem string_whole_iff (name rest : List Byte) :
    string (name ++ rest) (.of name.length) = .ok name ↔ name.length < 2147483648 := by
  constructor
  · intro h
    have hlength := congrArg List.length (string_ok h).2
    have hupper := (CInt.of name.length).upper
    rw [List.length_take, List.length_append] at hlength
    omega
  · intro hlt
    have hvalue : (CInt.of name.length).value = name.length := CInt.of_value (by omega)
    rw [string, hvalue, if_neg (by omega), Int.toNat_natCast, List.take_left]

/-- A string made of the characters before a place is no longer than that. -/
theorem length_string_le {s text : List Byte} {n : Nat} (h : string s (.of n) = .ok text) :
    text.length ≤ n := by
  obtain ⟨hnonneg, htake⟩ := string_ok h
  have hwrap : (CInt.of n).value ≤ n := by
    show CInt.wrap n ≤ n
    unfold CInt.wrap
    omega
  have hlength := congrArg List.length htake
  rw [List.length_take] at hlength
  omega

theorem render_eq (pid : Int) (name remainder : List Byte) :
    render pid name remainder =
      (decimal pid ++ [' '.toUInt8]) ++ '('.toUInt8 :: (name ++ ')'.toUInt8 ::
        (' '.toUInt8 :: remainder)) := by
  have hopen : ascii " (" = [' '.toUInt8, '('.toUInt8] := rfl
  have hclose : ascii ") " = [')'.toUInt8, ' '.toUInt8] := rfl
  simp only [render, hopen, hclose, List.append_assoc, List.cons_append, List.nil_append]

/-- The name comes back exactly when it has no closing parenthesis and its length is an `int`. -/
theorem procname_render_iff (pid : Int) (name remainder : List Byte) :
    procname (render pid name remainder) = .ok name ↔
      ')'.toUInt8 ∉ name ∧ name.length < 2147483648 := by
  have hfree {c : Byte} (hc : c = '('.toUInt8 ∨ c = ')'.toUInt8) :
      c ∉ decimal pid ++ [' '.toUInt8] := by
    rw [List.mem_append, List.mem_singleton, not_or]
    refine ⟨parenthesis_notMem_decimal pid hc, ?_⟩
    rcases hc with rfl | rfl <;> decide
  rw [render_eq]
  by_cases hmem : ')'.toUInt8 ∈ name
  · obtain ⟨inner, rest, rfl, hinner⟩ := List.eq_append_cons_of_mem hmem
    rw [List.append_assoc inner, List.cons_append,
      procname_cut (hfree (.inl rfl)) (hfree (.inr rfl)) hinner]
    constructor
    · intro h
      have hshort := length_string_le h
      rw [List.length_append, List.length_cons] at hshort
      omega
    · intro h
      exact absurd hmem h.1
  · rw [procname_cut (hfree (.inl rfl)) (hfree (.inr rfl)) hmem, string_whole_iff,
      and_iff_right hmem]

theorem procname_unpaired {text : List Byte} (h : ¬Paired text) : procname text = .ok [] := by
  unfold procname
  cases hlp : text.idxOf? '('.toUInt8 with
  | none => rfl
  | some lp =>
    cases hrp : text.idxOf? ')'.toUInt8 with
    | none => rfl
    | some rp =>
      obtain ⟨hl, hlget, -⟩ := List.idxOf?_eq_some_iff.mp hlp
      obtain ⟨hr, hrget, -⟩ := List.idxOf?_eq_some_iff.mp hrp
      have hnot : ¬lp < rp := by
        intro hlt
        apply h
        exact ⟨lp, rp, hlt, List.getElem?_eq_some_iff.mpr ⟨hl, hlget⟩,
          List.getElem?_eq_some_iff.mpr ⟨hr, hrget⟩⟩
      simp only [if_neg hnot]

/-- **When `procname` inverts the kernel.** For every pid and every remainder it returns exactly
the names that have no closing parenthesis and fewer than 2^31 bytes; for a text without a
parenthesis that closes an earlier one it returns the empty string. -/
theorem procname_inverts_iff (pid : Int) (name remainder text : List Byte) :
    (procname (render pid name remainder) = .ok name ↔
        ')'.toUInt8 ∉ name ∧ name.length < 2147483648) ∧
      (¬Paired text → procname text = .ok []) :=
  ⟨procname_render_iff pid name remainder, procname_unpaired⟩

/-- A process called `a)b` is called `a`. -/
theorem procname_truncates :
    procname (render 42 (ascii "a)b") (ascii "S 1 42")) = .ok (ascii "a") ∧
      procname (render 42 (ascii "a)b") (ascii "S 1 42")) ≠ .ok (ascii "a)b") := by
  decide

end MyNet.Base.ProcessInfo
