import MyNet.Base.LogStreamText

/-!
# All or nothing

Every inserter asks for room before it writes: a string for its length, a number for
`kMaxNumericSize`, which is more than any number with its NUL takes. So it puts its whole
text behind the content or leaves the stream alone, and the content of a stream is the
texts of the insertions it accepted.
-/
namespace MyNet.Base

open Lib.FaultState Lib.ListStore Lib.SizeT

/-- The array keeps its size and the cursor is inside it or at its end. -/
structure LogBuffer.Inside (s : LogBuffer) : Prop where
  size : s.m_buff.length = kSmallBuffer
  cur : s.m_cur ≤ kSmallBuffer

theorem LogBuffer.new_inside (garbage : Vector Byte kSmallBuffer) : (new garbage).Inside :=
  ⟨garbage.length_toList, Nat.zero_le _⟩

theorem LogBuffer.Inside.avail {s : LogBuffer} (h : s.Inside) :
    s.avail = kSmallBuffer - s.m_cur :=
  subSize_of_le h.cur (by decide)

theorem LogBuffer.Inside.length_content {s : LogBuffer} (h : s.Inside) :
    s.content.length = s.m_cur := by
  have hsize := h.size
  have hcur := h.cur
  rw [content, List.length_take]
  omega

/-- The text is behind the content. -/
structure Appends (text : List Byte) (s s' : LogBuffer) : Prop where
  inside : s'.Inside
  content : s'.content = s.content ++ text
  cur : s'.m_cur = s.m_cur + text.length

/-- Writing the text, and whatever follows it, at the cursor. -/
theorem appends_overwrite {text extra : List Byte} {s : LogBuffer} (h : s.Inside)
    (hroom : s.m_cur + (text ++ extra).length ≤ kSmallBuffer) :
    Appends text s ⟨overwrite s.m_buff s.m_cur (text ++ extra), s.m_cur + text.length⟩ := by
  have hsize := h.size
  have htext : text.length ≤ (text ++ extra).length := by
    rw [List.length_append]
    omega
  have hfront : (s.m_buff.take s.m_cur ++ text).length = s.m_cur + text.length := by
    rw [List.length_append, List.length_take]
    omega
  refine ⟨⟨?_, ?_⟩, ?_, rfl⟩
  · rw [length_overwrite (by omega), hsize]
  · show s.m_cur + text.length ≤ kSmallBuffer
    omega
  · show (overwrite s.m_buff s.m_cur (text ++ extra)).take (s.m_cur + text.length) = _
    rw [overwrite, ← List.append_assoc, List.append_assoc, List.take_left' hfront]
    rfl

/-- The program puts the whole text when there is as much room as it asks for. -/
def Puts (program : LogM Unit) (room : Nat) (text : List Byte) : Prop :=
  ∀ s : LogBuffer, s.Inside → ∃ s', program s = .ok () s' ∧
    if room ≤ s.avail then Appends text s s' else s' = s

theorem append_ok {line : List Byte} {s : LogBuffer} (h : s.Inside)
    (hroom : line.length ≤ s.avail) :
    ∃ s', LogBuffer.append line s = .ok line.length s' ∧ Appends line s s' := by
  have hsize := h.size
  have hcur := h.cur
  have hend : s.m_cur + line.length ≤ kSmallBuffer := by
    rw [h.avail] at hroom
    omega
  have happends : Appends line s
      ⟨overwrite s.m_buff s.m_cur (line ++ []), s.m_cur + line.length⟩ :=
    appends_overwrite h (by rwa [List.append_nil])
  rw [List.append_nil] at happends
  refine ⟨_, ?_, happends⟩
  simp only [LogBuffer.append, LogBuffer.add, bind_apply, get_apply, if_apply, if_pos hroom,
    memcpy_ok (hsize ▸ hend), modify_apply, pure_apply]

theorem append_full {line : List Byte} {s : LogBuffer} (hroom : ¬line.length ≤ s.avail) :
    LogBuffer.append line s = .ok 0 s := by
  simp only [LogBuffer.append, bind_apply, get_apply, if_apply, if_neg hroom, pure_apply]

theorem puts_append (line : List Byte) :
    Puts (do let _ ← LogBuffer.append line; return ()) line.length line := by
  intro s h
  by_cases hroom : line.length ≤ s.avail
  · obtain ⟨s', happend, happends⟩ := append_ok h hroom
    refine ⟨s', ?_, ?_⟩
    · simp only [bind_apply, happend, pure_apply]
    · rwa [if_pos hroom]
  · refine ⟨s, ?_, ?_⟩
    · simp only [bind_apply, append_full hroom, pure_apply]
    · rw [if_neg hroom]

/-- A program that writes a text with its NUL at the cursor and moves it over the text. -/
theorem puts_numeric (write : LogBuffer → LogM Nat) {text : List Byte}
    (htext : text.length < kMaxNumericSize)
    (hwrite : ∀ s : LogBuffer, s.m_cur + text.length < s.m_buff.length →
      write s s = .ok text.length { s with m_buff := overwrite s.m_buff s.m_cur (text ++ [0]) }) :
    Puts (do
      let b ← get
      if kMaxNumericSize ≤ b.avail then
        let len ← write b
        LogBuffer.add len
      else return ()) kMaxNumericSize text := by
  intro s h
  by_cases hroom : kMaxNumericSize ≤ s.avail
  · have hsize := h.size
    have hend : s.m_cur + text.length < kSmallBuffer := by
      rw [h.avail] at hroom
      omega
    refine ⟨⟨overwrite s.m_buff s.m_cur (text ++ [0]), s.m_cur + text.length⟩, ?_, ?_⟩
    · simp only [bind_apply, get_apply, if_apply, if_pos hroom, hwrite s (hsize ▸ hend),
        LogBuffer.add, modify_apply]
    · rw [if_pos hroom]
      apply appends_overwrite h
      rw [List.length_append, List.length_singleton]
      omega
  · refine ⟨s, ?_, ?_⟩
    · simp only [bind_apply, get_apply, if_apply, if_neg hroom, pure_apply]
    · rw [if_neg hroom]

theorem puts_formatInteger {value : Int} (hlow : -9223372036854775808 ≤ value)
    (hup : value < 18446744073709551616) :
    Puts (LogStream.formatInteger value) kMaxNumericSize (decimal value) := by
  have hlength := length_decimal hlow hup
  apply puts_numeric (fun b => convert b.m_cur value)
  · unfold kMaxNumericSize
    omega
  · intro s h
    exact convert_spec h

theorem puts_signed (l : Int64) :
    Puts (LogStream.formatInteger l.toInt) kMaxNumericSize (decimal l.toInt) := by
  have hlow := l.le_toInt
  have hup := l.toInt_lt
  apply puts_formatInteger <;> omega

theorem puts_unsigned (ul : UInt64) :
    Puts (LogStream.formatInteger ul.toNat) kMaxNumericSize (decimal ul.toNat) := by
  have hup := ul.toNat_lt
  apply puts_formatInteger <;> omega

theorem puts_int (i : Int32) :
    Puts (LogStream.insertInt i) kMaxNumericSize (decimal i.toInt) := by
  have hlow := i.le_toInt
  have hup := i.toInt_lt
  apply puts_formatInteger <;> omega

theorem puts_unsignedInt (ui : UInt32) :
    Puts (LogStream.insertUnsigned ui) kMaxNumericSize (decimal ui.toNat) := by
  have hup := ui.toNat_lt
  apply puts_formatInteger <;> omega

theorem puts_double (printf : Printf) (d : Float) :
    Puts (LogStream.insertDouble printf d) kMaxNumericSize (printf.g12 d) := by
  have hshort := printf.g12_short d
  apply puts_numeric (fun b => snprintf b.m_cur kMaxNumericSize (printf.g12 d)) hshort
  intro s h
  have htake : (printf.g12 d).take (kMaxNumericSize - 1) = printf.g12 d :=
    List.take_of_length_le (by omega)
  have hroom : s.m_cur + (printf.g12 d ++ [0]).length ≤ s.m_buff.length := by
    rw [List.length_append, List.length_singleton]
    omega
  simp only [snprintf, bind_apply, htake, memcpy_ok hroom, pure_apply]

theorem Appends.append {a b : List Byte} {s t u : LogBuffer} (hst : Appends a s t)
    (htu : Appends b t u) : Appends (a ++ b) s u where
  inside := htu.inside
  content := by rw [htu.content, hst.content, List.append_assoc]
  cur := by rw [htu.cur, hst.cur, List.length_append, Nat.add_assoc]

/-- The prefix and the digits of a pointer are two writes under one check. -/
theorem puts_pointer (p : UInt64) :
    Puts (LogStream.insertPointer p) kMaxNumericSize (ascii "0x" ++ hexadecimal p.toNat) := by
  intro s h
  by_cases hroom : kMaxNumericSize ≤ s.avail
  · have hprefix : (ascii "0x").length ≤ s.avail := Nat.le_trans (by decide) hroom
    obtain ⟨t, happend, ht⟩ := append_ok h hprefix
    have hlength := length_hexadecimal p.toNat_lt
    have hsize := ht.inside.size
    have hcur : t.m_cur = s.m_cur + 2 := ht.cur
    have hend : t.m_cur + 17 ≤ kSmallBuffer := by
      rw [h.avail] at hroom
      unfold kMaxNumericSize at hroom
      omega
    have hdigits : Appends (hexadecimal p.toNat) t
        ⟨overwrite t.m_buff t.m_cur (hexadecimal p.toNat ++ [0]),
          t.m_cur + (hexadecimal p.toNat).length⟩ := by
      apply appends_overwrite ht.inside
      rw [List.length_append, List.length_singleton]
      omega
    refine ⟨_, ?_, (if_pos hroom).mpr (ht.append hdigits)⟩
    simp only [LogStream.insertPointer, bind_apply, get_apply, if_apply, if_pos hroom, happend,
      convertHex_spec (show t.m_cur + (hexadecimal p.toNat).length < t.m_buff.length by omega),
      LogBuffer.add, modify_apply]
  · refine ⟨s, ?_, ?_⟩
    · simp only [LogStream.insertPointer, bind_apply, get_apply, if_apply, if_neg hroom,
        pure_apply]
    · rw [if_neg hroom]

/-! ## Sequences of insertions -/

namespace LogStream

/-- The complete text of an insertion. -/
def Insertion.text (printf : Printf) : Insertion → List Byte
  | .string line => line
  | .cString line => line.takeWhile (· != 0)
  | .bool b => [if b then '1'.toUInt8 else '0'.toUInt8]
  | .char c => [c]
  | .unsignedChar uc => [uc]
  | .short s => decimal s.toInt
  | .unsignedShort us => decimal us.toNat
  | .int i => decimal i.toInt
  | .unsigned ui => decimal ui.toNat
  | .long l => decimal l.toInt
  | .unsignedLong ul => decimal ul.toNat
  | .longLong ll => decimal ll.toInt
  | .unsignedLongLong ull => decimal ull.toNat
  | .double d => printf.g12 d
  | .pointer p => ascii "0x" ++ hexadecimal p.toNat
  | .append line => line

/-- What has to be available: the length of a string, and for a number the numeric size. -/
def Insertion.room : Insertion → Nat
  | .string line => line.length
  | .cString line => (line.takeWhile (· != 0)).length
  | .bool _ => 1
  | .char _ => 1
  | .unsignedChar _ => 1
  | .short _ => kMaxNumericSize
  | .unsignedShort _ => kMaxNumericSize
  | .int _ => kMaxNumericSize
  | .unsigned _ => kMaxNumericSize
  | .long _ => kMaxNumericSize
  | .unsignedLong _ => kMaxNumericSize
  | .longLong _ => kMaxNumericSize
  | .unsignedLongLong _ => kMaxNumericSize
  | .double _ => kMaxNumericSize
  | .pointer _ => kMaxNumericSize
  | .append line => line.length

theorem insert_puts (printf : Printf) (i : Insertion) :
    Puts (insert printf i) i.room (i.text printf) := by
  cases i with
  | string line => exact puts_append line
  | cString line => exact puts_append _
  | bool b => exact puts_append _
  | char c => exact puts_append [c]
  | unsignedChar uc => exact puts_append [uc]
  | short s =>
    show Puts _ _ (decimal s.toInt)
    rw [← Int16.toInt_toInt32]
    exact puts_int s.toInt32
  | unsignedShort us => exact puts_unsignedInt us.toUInt32
  | int i => exact puts_int i
  | unsigned ui => exact puts_unsignedInt ui
  | long l => exact puts_signed l
  | unsignedLong ul => exact puts_unsigned ul
  | longLong ll => exact puts_signed ll
  | unsignedLongLong ull => exact puts_unsigned ull
  | double d => exact puts_double printf d
  | pointer p => exact puts_pointer p
  | append line => exact puts_append line

/-- The insertions accepted since the last reset, after one more call. -/
def accept (printf : Printf) (accepted : List Insertion) : Call → List Insertion
  | .insert i =>
    if i.room ≤ kSmallBuffer - (accepted.flatMap (·.text printf)).length then accepted ++ [i]
    else accepted
  | .resetBuffer => []

/-- One call keeps the content the texts of the accepted insertions. -/
theorem call_content (printf : Printf) (c : Call) {accepted : List Insertion} {s : LogBuffer}
    (h : s.Inside) (hcontent : s.content = accepted.flatMap (·.text printf)) :
    ∃ s', call printf c s = .ok () s' ∧ s'.Inside ∧
      s'.content = (accept printf accepted c).flatMap (·.text printf) := by
  cases c with
  | insert i =>
    obtain ⟨s', hinsert, hputs⟩ := insert_puts printf i s h
    refine ⟨s', hinsert, ?_⟩
    rw [h.avail, ← h.length_content] at hputs
    rw [accept, ← hcontent]
    by_cases hroom : i.room ≤ kSmallBuffer - s.content.length
    · rw [if_pos hroom] at hputs
      rw [if_pos hroom, List.flatMap_append, List.flatMap_singleton, ← hcontent]
      exact ⟨hputs.inside, hputs.content⟩
    · rw [if_neg hroom] at hputs
      rw [if_neg hroom, hputs]
      exact ⟨h, hcontent⟩
  | resetBuffer => exact ⟨_, rfl, ⟨h.size, Nat.zero_le _⟩, rfl⟩

theorem run_content (printf : Printf) (cs : List Call) :
    ∀ {accepted : List Insertion} {s : LogBuffer}, s.Inside →
      s.content = accepted.flatMap (·.text printf) →
      ∃ s', run printf cs s = .ok () s' ∧ s'.Inside ∧
        s'.content = (cs.foldl (accept printf) accepted).flatMap (·.text printf) := by
  induction cs with
  | nil =>
    intro accepted s h hcontent
    exact ⟨s, rfl, h, hcontent⟩
  | cons c cs ih =>
    intro accepted s h hcontent
    obtain ⟨t, hcall, ht, htcontent⟩ := call_content printf c h hcontent
    obtain ⟨u, hrun, hu, hucontent⟩ := ih ht htcontent
    refine ⟨u, ?_, hu, hucontent⟩
    simp only [run, bind_apply, hcall, hrun]

/-- **Insertions are all or nothing.** No call stores outside the array; the length stays in
it; the next insertion puts its complete text behind the content or changes nothing; and
the content is the texts of the insertions accepted since the last reset. -/
theorem insertions_all_or_nothing (printf : Printf) (garbage : Vector Byte kSmallBuffer)
    (cs : List Call) :
    ∃ s, run printf cs (.new garbage) = .ok () s ∧
      s.m_buff.length = 4000 ∧ s.m_cur ≤ 4000 ∧
      s.content = (cs.foldl (accept printf) []).flatMap (·.text printf) ∧
      ∀ i : Insertion, ∃ s', insert printf i s = .ok () s' ∧
        if i.room ≤ s.avail then
          s'.content = s.content ++ i.text printf ∧
            s'.m_cur = s.m_cur + (i.text printf).length ∧ s'.m_cur ≤ 4000
        else s' = s := by
  have hempty : (LogBuffer.new garbage).content = [].flatMap (Insertion.text printf) := rfl
  obtain ⟨s, hrun, h, hcontent⟩ := run_content printf cs (LogBuffer.new_inside garbage) hempty
  refine ⟨s, hrun, h.size, h.cur, hcontent, fun i => ?_⟩
  obtain ⟨s', hinsert, hputs⟩ := insert_puts printf i s h
  refine ⟨s', hinsert, ?_⟩
  by_cases hroom : i.room ≤ s.avail
  · rw [if_pos hroom] at hputs ⊢
    exact ⟨hputs.content, hputs.cur, hputs.inside.cur⟩
  · rw [if_neg hroom] at hputs ⊢
    exact hputs

end LogStream
end MyNet.Base
