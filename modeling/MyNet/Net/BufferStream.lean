import MyNet.Lib.Delimited
import MyNet.Lib.Machine
import MyNet.Net.BufferLines
import MyNet.Net.ReadFd

/-!
# Lines of a stream

A connection is read with `readFd` whenever there is something to read, and a user takes lines
from its buffer with `findCRLF`, as many as he likes at a time. The kernel decides how the stream
is cut into reads. The lines do not depend on that, nor on when they are taken.
-/
namespace MyNet.Net

open MyNet.Base
open Lib Lib.Delimited Lib.Search
open Buffer

structure LineReader where
  buffer : Buffer
  /-- The lines taken, the oldest first. -/
  lines : List (List Byte)
  /-- What all calls of `readFd` have delivered. -/
  received : List Byte

inductive ReaderMove where
  | readFd (alloc : Allocator) (r : ReadvResult) (saved : Int)
  | extractLine

/-- The bytes that `readv` delivers. -/
def Buffer.ReadvResult.delivered : ReadvResult → List Byte
  | .error _ => []
  | .data d => d

namespace LineReader

/-- An exception ends the run. -/
def step (s : LineReader) : ReaderMove → Option LineReader
  | .readFd alloc r saved =>
    match Buffer.readFd alloc r saved s.buffer with
    | .ok _ b => some { s with buffer := b, received := s.received ++ r.delivered }
    | .error _ _ => none
  | .extractLine =>
    match Buffer.extractLine s.buffer with
    | .ok (some line) b => some { s with buffer := b, lines := s.lines ++ [line] }
    | .ok none b => some { s with buffer := b }
    | .error _ _ => none

def reader : Machine LineReader ReaderMove where
  init s := ∃ alloc n, kCheapPrepend + n < SizeT.modulus ∧ Buffer.new alloc n = .ok s.buffer ∧
    s.lines = [] ∧ s.received = []
  step := step

/-- `readv` delivers no more than it was offered room for. -/
def Offered (s : LineReader) : ReaderMove → Prop
  | .readFd _ r _ => r.Fits s.buffer
  | .extractLine => True

instance (s : LineReader) : (e : ReaderMove) → Decidable (Offered s e)
  | .readFd _ (.error _) _ => inferInstanceAs (Decidable True)
  | .readFd _ (.data _) _ => inferInstanceAs (Decidable (_ ≤ _))
  | .extractLine => inferInstanceAs (Decidable True)

/-- The lines taken, each with its CRLF, and the bytes in the buffer are what was received. -/
structure Follows (s : LineReader) : Prop where
  valid : s.buffer.Valid
  free : ∀ line ∈ s.lines, ¬ kCRLF <:+: line
  join : s.lines.flatMap (· ++ kCRLF) ++ s.buffer.readable = s.received

variable {s t : LineReader}

theorem follows_readFd {alloc : Allocator} {r : ReadvResult} {saved : Int} (h : Follows s)
    (hf : r.Fits s.buffer) (hs : s.step (.readFd alloc r saved) = some t) : Follows t := by
  simp only [step] at hs
  cases r with
  | error errno =>
    rw [readFd_error] at hs
    obtain rfl := Option.some.inj hs
    exact ⟨h.valid, h.free, h.join.trans (List.append_nil _).symm⟩
  | data d =>
    rcases readFd_data alloc h.valid hf saved with ⟨b, he, hv, hc⟩ | ⟨e, b, -, -, he, -⟩
    · rw [he] at hs
      obtain rfl := Option.some.inj hs
      refine ⟨hv, h.free, ?_⟩
      change s.lines.flatMap (· ++ kCRLF) ++ b.readable = s.received ++ d
      rw [hc, ← List.append_assoc, h.join]
    · rw [he] at hs
      cases hs

theorem follows_extractLine (h : Follows s) (hs : s.step .extractLine = some t) : Follows t := by
  simp only [step] at hs
  by_cases hcrlf : kCRLF <:+: s.buffer.readable
  · obtain ⟨line, b, he, hv, hfree, hcut⟩ := extractLine_some h.valid hcrlf
    rw [he] at hs
    obtain rfl := Option.some.inj hs
    refine ⟨hv, ?_, ?_⟩
    · intro l hl
      rcases List.mem_append.mp hl with hold | hnew
      · exact h.free l hold
      · rw [List.mem_singleton.mp hnew]
        exact hfree
    · change (s.lines ++ [line]).flatMap (· ++ kCRLF) ++ b.readable = s.received
      rw [List.flatMap_append, List.flatMap_singleton, List.append_assoc, hcut, h.join]
  · rw [extractLine_none h.valid hcrlf] at hs
    obtain rfl := Option.some.inj hs
    exact h

theorem follows_inductive : reader.Inductive Offered Follows where
  init := by
    rintro ⟨b, lines, received⟩ ⟨alloc, n, hn, hb, rfl, rfl⟩
    obtain ⟨hv, hempty⟩ := new_valid hb hn
    exact ⟨hv, List.forall_mem_nil _, hempty⟩
  step s e t h hc hs := by
    cases e with
    | readFd alloc r saved => exact follows_readFd h hc hs
    | extractLine => exact follows_extractLine h hs

theorem findCRLF_none_iff {b : Buffer} (h : b.Valid) :
    findCRLF b = .ok none b ↔ ¬ kCRLF <:+: b.readable := by
  have hword : kCRLF ≠ [] := List.cons_ne_nil _ _
  rw [findCRLF_eq h, ← search_eq_length_iff hword]
  by_cases hend : search kCRLF b.readable = b.readable.length
  · rw [if_pos hend]
    exact iff_of_true rfl hend
  · rw [if_neg hend]
    exact iff_of_false nofun hend

theorem crlf_unbordered : Unbordered kCRLF := by
  intro d hpos hlt
  obtain rfl : d = 1 := by
    have hlength : kCRLF.length = 2 := rfl
    omega
  decide

/-- **The lines follow the stream.** They are the first pieces of what was received, cut at each
CRLF, which can be done in one way only; `findCRLF` returns `NULL` exactly when they are all of
them, and then the rest is in the buffer. -/
theorem lines_follow_stream (h : reader.ReachIf Offered s) :
    ∃ pieces rest, Cut kCRLF s.received pieces rest ∧ s.lines <+: pieces ∧
      (findCRLF s.buffer = .ok none s.buffer ↔ s.lines = pieces) ∧
      (s.lines = pieces → s.buffer.readable = rest) := by
  have hfollows := follows_inductive.reach h
  have hword : kCRLF ≠ [] := List.cons_ne_nil _ _
  obtain ⟨pieces, rest, hcut⟩ := exists_cut hword s.received
  obtain ⟨more, rfl, hleft⟩ := hcut.taken crlf_unbordered hfollows.free hfollows.join
  have hall : s.lines = s.lines ++ more ↔ more = [] :=
    ⟨fun heq => List.append_right_eq_self.mp heq.symm, fun heq => by rw [heq, List.append_nil]⟩
  refine ⟨s.lines ++ more, rest, hcut, List.prefix_append _ _, ?_, ?_⟩
  · rw [findCRLF_none_iff hfollows.valid, hall, hleft.pieces_eq_nil_iff]
  · intro heq
    obtain rfl := hall.mp heq
    exact hleft.join.symm

/-- The CRLF comes in two reads, and the line is taken in between. -/
def splitCRLF : List ReaderMove :=
  [.readFd (fun _ => true) (.data [97, 13]) 0, .extractLine, .readFd (fun _ => true) (.error 11) 0,
    .readFd (fun _ => true) (.data [10, 98]) 0, .extractLine]

theorem lines_follow_stream_split :
    ∃ s, reader.runIf Offered ⟨⟨List.replicate 12 0, 8, 8⟩, [], []⟩ splitCRLF = some s ∧
      s.lines = [[97]] ∧ ∃ pieces rest, Cut kCRLF [97, 13, 10, 98] pieces rest ∧
        s.lines <+: pieces ∧ (s.lines = pieces → s.buffer.readable = rest) := by
  have hrun : reader.runIf Offered ⟨⟨List.replicate 12 0, 8, 8⟩, [], []⟩ splitCRLF = some _ := rfl
  have hinit : reader.init ⟨⟨List.replicate 12 0, 8, 8⟩, [], []⟩ :=
    ⟨fun _ => true, 4, by decide, rfl, rfl, rfl⟩
  obtain ⟨pieces, rest, hcut, hprefix, -, hrest⟩ :=
    lines_follow_stream (Machine.reachIf_of_runIf (.init hinit) hrun)
  exact ⟨_, hrun, rfl, pieces, rest, hcut, hprefix, hrest⟩

end LineReader
end MyNet.Net
