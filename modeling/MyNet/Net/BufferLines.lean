import MyNet.Net.BufferQueue
import MyNet.Lib.Search

/-!
# Lines in a `Buffer`

The searches look at the bytes between `start` and `beginWrite()` only, and what they report is
the first place where the word begins inside the readable bytes. A user who takes the line before
each CRLF and drops the CRLF gets the content cut into lines, and what is left holds no CRLF.
-/
namespace MyNet.Net.Buffer

open MyNet.Base
open Lib.ListStore Lib.FaultState Lib.Search

def kCRLF : List Byte := [13, 10]

/-- `std::search(start, beginWrite(), kCRLF, kCRLF+2)` and the test of what it returns. -/
def searchCRLF (start : Nat) : BufferM (Option Nat) := do
  let b ← get
  if start ≤ b.beginWrite ∧ b.beginWrite ≤ b.buffer_.length then
    let crlf := start + search kCRLF (slice b.buffer_ start b.beginWrite)
    return if crlf = b.beginWrite then none else some crlf
  else throw .outOfRange

def findCRLF : BufferM (Option Nat) := do
  searchCRLF (← get).peek

/-- `findCRLF(start)`. -/
def findCRLFFrom (start : Nat) : BufferM (Option Nat) := do
  assert ((← get).peek ≤ start)
  assert (start ≤ (← get).beginWrite)
  searchCRLF start

def findEOL (start : Nat) : BufferM (Option Nat) := do
  assert ((← get).peek ≤ start)
  assert (start ≤ (← get).beginWrite)
  let b ← get
  if b.beginWrite ≤ b.buffer_.length then
    -- memchr(start, '\n', beginWrite() - start)
    let eol := (slice b.buffer_ start b.beginWrite).idxOf? 10
    return eol.map (start + ·)
  else throw .outOfRange

/-- One turn of the user's loop: the line before the first CRLF, if there is one. -/
def extractLine : BufferM (Option (List Byte)) := do
  match ← findCRLF with
  | none => return none
  | some p =>
    let line ← retrieveAsString (p - (← get).peek)
    retrieve 2
    return some line

/-- The turns until `findCRLF` returns `NULL`; `none` if that takes more than `fuel` turns. -/
def extractLines : Nat → BufferM (Option (List (List Byte)))
  | 0 => return none
  | fuel + 1 => do
    match ← extractLine with
    | none => return some []
    | some line => return (← extractLines fuel).map (line :: ·)

/-! ## The searches -/

/-- `word` begins at `p` inside the readable bytes. -/
def Begins (word : List Byte) (b : Buffer) (p : Nat) : Prop :=
  p + word.length ≤ b.beginWrite ∧ slice b.buffer_ p (p + word.length) = word

instance (word : List Byte) (b : Buffer) (p : Nat) : Decidable (Begins word b p) :=
  inferInstanceAs (Decidable (_ ∧ _))

theorem prefix_drop_iff_begins {b : Buffer} (h : b.Valid) {word : List Byte} (hword : word ≠ [])
    (start i : Nat) :
    word <+: (slice b.buffer_ start b.beginWrite).drop i ↔ Begins word b (start + i) := by
  rw [← slice_drop]
  exact prefix_slice_iff hword h.inside

/-- What `std::search` gives, as a result of the library's search. -/
theorem searchCRLF_eq {b : Buffer} (h : b.Valid) {start : Nat} (hstart : start ≤ b.beginWrite) :
    searchCRLF start b =
      let text := slice b.buffer_ start b.beginWrite
      .ok ((if search kCRLF text = text.length then none
        else some (search kCRLF text)).map (start + ·)) b := by
  have hinside : start ≤ b.beginWrite ∧ b.beginWrite ≤ b.buffer_.length := ⟨hstart, h.inside⟩
  have hlength : (slice b.buffer_ start b.beginWrite).length = b.beginWrite - start :=
    length_slice h.inside
  simp only [searchCRLF, bind_apply, get_apply, if_apply, pure_apply, if_pos hinside]
  by_cases hend : search kCRLF (slice b.buffer_ start b.beginWrite) =
      (slice b.buffer_ start b.beginWrite).length
  · rw [if_pos hend, if_pos (by omega)]
    rfl
  · rw [if_neg hend, if_neg (by omega)]
    rfl

theorem searchCRLF_spec {b : Buffer} (h : b.Valid) {start : Nat} (hstart : start ≤ b.beginWrite) :
    ∃ r, searchCRLF start b = .ok r b ∧ IsFirst (Begins kCRLF b) start r := by
  have hword : kCRLF ≠ [] := List.cons_ne_nil _ _
  refine ⟨_, searchCRLF_eq h hstart, ?_⟩
  apply (search_isFirst hword _).shift
  exact prefix_drop_iff_begins h hword start

theorem findCRLF_spec {b : Buffer} (h : b.Valid) :
    ∃ r, findCRLF b = .ok r b ∧ IsFirst (Begins kCRLF b) b.peek r := by
  simp only [findCRLF, bind_apply, get_apply]
  exact searchCRLF_spec h h.ordered

theorem findCRLFFrom_spec {b : Buffer} (h : b.Valid) {start : Nat} (hpeek : b.peek ≤ start)
    (hstart : start ≤ b.beginWrite) :
    ∃ r, findCRLFFrom start b = .ok r b ∧ IsFirst (Begins kCRLF b) start r := by
  simp only [findCRLFFrom, bind_apply, get_apply, assert_apply, if_pos hpeek, if_pos hstart]
  exact searchCRLF_spec h hstart

theorem findEOL_spec {b : Buffer} (h : b.Valid) {start : Nat} (hpeek : b.peek ≤ start)
    (hstart : start ≤ b.beginWrite) :
    ∃ r, findEOL start b = .ok r b ∧ IsFirst (Begins [10] b) start r := by
  have hword : ([10] : List Byte) ≠ [] := List.cons_ne_nil _ _
  have hinside : b.beginWrite ≤ b.buffer_.length := h.inside
  refine ⟨_, ?_, (idxOf?_isFirst 10 _).shift (prefix_drop_iff_begins h hword start)⟩
  simp only [findEOL, bind_apply, get_apply, assert_apply, if_apply, pure_apply, if_pos hpeek,
    if_pos hstart, if_pos hinside]

/-! ## The lines -/

/-- `findCRLF()` in terms of the content. -/
theorem findCRLF_eq {b : Buffer} (h : b.Valid) :
    findCRLF b = .ok ((if search kCRLF b.readable = b.readable.length then none
      else some (search kCRLF b.readable)).map (b.peek + ·)) b := by
  simp only [findCRLF, bind_apply, get_apply]
  exact searchCRLF_eq h h.ordered

theorem extractLine_none {b : Buffer} (h : b.Valid) (hfree : ¬ kCRLF <:+: b.readable) :
    extractLine b = .ok none b := by
  have hword : kCRLF ≠ [] := List.cons_ne_nil _ _
  have hnull : findCRLF b = .ok none b := by
    rw [findCRLF_eq h, if_pos ((search_eq_length_iff hword _).mpr hfree)]
    rfl
  simp only [extractLine, bind_apply, hnull, pure_apply]

theorem extractLine_some {b : Buffer} (h : b.Valid) (hcrlf : kCRLF <:+: b.readable) :
    ∃ line b', extractLine b = .ok (some line) b' ∧ b'.Valid ∧ ¬ kCRLF <:+: line ∧
      line ++ kCRLF ++ b'.readable = b.readable := by
  have hword : kCRLF ≠ [] := List.cons_ne_nil _ _
  have hne : search kCRLF b.readable ≠ b.readable.length := fun hend =>
    (search_eq_length_iff hword b.readable).mp hend hcrlf
  have hlt : search kCRLF b.readable < b.readable.length :=
    Nat.lt_of_le_of_ne (search_le _ _) hne
  have hfit := lt_length_of_prefix_drop hword (search_found hlt)
  have hcut := search_cut hlt
  have hfound : findCRLF b = .ok (some (b.peek + search kCRLF b.readable)) b := by
    rw [findCRLF_eq h, if_neg hne]
    rfl
  generalize hn : search kCRLF b.readable = n at hfit hcut hfound hlt
  have htake : n ≤ b.readableBytes := by
    rw [readableBytes_length h]
    exact hlt.le
  obtain ⟨b₁, hline, hvalid, hrest⟩ := retrieveAsString_spec h htake
  have htwo : 2 ≤ b₁.readableBytes := by
    rw [readableBytes_length hvalid, hrest, List.length_drop]
    have : kCRLF.length = 2 := rfl
    omega
  obtain ⟨b', hdrop, hvalid', hrest'⟩ := retrieve_spec hvalid htwo
  refine ⟨b.readable.take n, b', ?_, hvalid', ?_, ?_⟩
  · simp only [extractLine, bind_apply, hfound, get_apply, Nat.add_sub_cancel_left, hline,
      hdrop, pure_apply]
  · rw [← hn]
    exact search_take_free hword b.readable
  · rw [hrest', hrest, List.drop_drop]
    exact hcut

/-- One line leaves fewer bytes, so the loop ends. -/
theorem extractLines_spec {b : Buffer} (h : b.Valid) :
    ∃ lines b', (∀ fuel, b.readable.length < fuel → extractLines fuel b = .ok (some lines) b') ∧
      (∀ line ∈ lines, ¬ kCRLF <:+: line) ∧ ¬ kCRLF <:+: b'.readable ∧
      lines.flatMap (· ++ kCRLF) ++ b'.readable = b.readable := by
  induction hsize : b.readable.length using Nat.strong_induction_on generalizing b with
  | _ n ih =>
    by_cases hcrlf : kCRLF <:+: b.readable
    · obtain ⟨line, b₁, hline, hvalid, hfree, hcut⟩ := extractLine_some h hcrlf
      have hshort : b₁.readable.length < n := by
        rw [← hsize, ← hcut, List.length_append, List.length_append]
        have : kCRLF.length = 2 := rfl
        omega
      obtain ⟨lines, b', hruns, hlines, hrest, hjoin⟩ := ih _ hshort hvalid rfl
      refine ⟨line :: lines, b', ?_, ?_, hrest, ?_⟩
      · intro fuel hfuel
        cases fuel with
        | zero => exact absurd hfuel (Nat.not_lt_zero _)
        | succ fuel =>
          have hmore := hruns fuel (by omega)
          simp only [extractLines, bind_apply, hline, hmore, pure_apply, Option.map_some]
      · exact List.forall_mem_cons.mpr ⟨hfree, hlines⟩
      · rw [List.flatMap_cons, List.append_assoc, hjoin, hcut]
    · refine ⟨[], b, ?_, List.forall_mem_nil _, hcrlf, rfl⟩
      intro fuel hfuel
      cases fuel with
      | zero => exact absurd hfuel (Nat.not_lt_zero _)
      | succ fuel =>
        simp only [extractLines, bind_apply, extractLine_none h hcrlf, pure_apply]

/-- The searches from every place in the content, and the lines they cut it into. -/
theorem lines_exact {b : Buffer} (h : b.Valid) :
    (∀ start, b.peek ≤ start → start ≤ b.beginWrite →
      (∃ r, findCRLFFrom start b = .ok r b ∧ IsFirst (Begins kCRLF b) start r) ∧
      (∃ r, findEOL start b = .ok r b ∧ IsFirst (Begins [10] b) start r)) ∧
    (∃ r, findCRLF b = .ok r b ∧ IsFirst (Begins kCRLF b) b.peek r) ∧
    ∃ lines b', (∀ fuel, b.readable.length < fuel → extractLines fuel b = .ok (some lines) b') ∧
      (∀ line ∈ lines, ¬ kCRLF <:+: line) ∧ ¬ kCRLF <:+: b'.readable ∧
      lines.flatMap (· ++ kCRLF) ++ b'.readable = b.readable := by
  refine ⟨?_, findCRLF_spec h, extractLines_spec h⟩
  intro start hpeek hstart
  exact ⟨findCRLFFrom_spec h hpeek hstart, findEOL_spec h hpeek hstart⟩

/-- The content is `a\r\n\r\n\r`, and a stale `\n` stands behind it. -/
def staleLF : Buffer :=
  ⟨List.replicate 8 0 ++ [97, 13, 10, 13, 10, 13, 10], kCheapPrepend, 14⟩

example : findCRLFFrom 12 staleLF = .ok none staleLF := rfl

theorem lines_exact_staleLF :
    ∃ lines b', extractLines 7 staleLF = .ok (some lines) b' ∧
      (∀ line ∈ lines, ¬ kCRLF <:+: line) ∧
      lines.flatMap (· ++ kCRLF) ++ b'.readable = [97, 13, 10, 13, 10, 13] := by
  have hvalid : staleLF.Valid := ⟨by decide, by decide, by decide, by decide⟩
  obtain ⟨-, -, lines, b', hruns, hfree, -, hjoin⟩ := lines_exact hvalid
  exact ⟨lines, b', hruns 7 (by decide), hfree, hjoin⟩

end MyNet.Net.Buffer
