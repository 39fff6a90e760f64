import MyNet.Base.Runtime
import MyNet.Lib.SizeT

/-!
# `WriteFile`

A file open for appending. What stdio accepts is decided by the results of
`fwrite_unlocked`, one for each call: how many bytes it took and whether the stream's
error flag is set afterwards.
-/
namespace MyNet.Base

open Lib.SizeT

structure FwriteResult where
  count : Nat
  ferror : Bool
  deriving DecidableEq

structure WriteFile where
  m_filename : List Byte
  m_nBytesWritten : Nat
  m_valid : Bool
  /-- What stdio has accepted. -/
  accepted : List Byte

namespace WriteFile

/-- `opened` says whether `fopen` succeeded. -/
def new (filename : List Byte) (opened : Bool) : WriteFile := ⟨filename, 0, opened, []⟩

/-- The loop of `writeLine` on what remains of the line: the bytes accepted by calls of
`fwrite_unlocked` with exactly these results, if the loop ends after them. -/
def writeLoop : List FwriteResult → List Byte → Option (List Byte)
  | [], _ => none
  | r :: rs, line =>
    if r.count ≤ line.length then
      -- nothing written and the error flag set: `break`
      if r.count = 0 ∧ r.ferror = true then if rs = [] then some [] else none
      else if line.length - r.count = 0 then if rs = [] then some line else none
      else (writeLoop rs (line.drop r.count)).map (line.take r.count ++ ·)
    else none

/-- `m_nBytesWritten` grows by `n` however the loop ended. -/
def writeLine (f : WriteFile) (rs : List FwriteResult) (line : List Byte) :
    Option (Nat × WriteFile) :=
  if f.m_valid then
    (writeLoop rs line).map fun taken =>
      (line.length,
        { f with
          m_nBytesWritten := addSize f.m_nBytesWritten line.length
          accepted := f.accepted ++ taken })
  else some (0, f)

/-- `WritenBytes()` once `writeLine` has returned for a line of `n` bytes. -/
def writenAfter (f : WriteFile) (n : Nat) : Nat :=
  if f.m_valid then addSize f.m_nBytesWritten n else f.m_nBytesWritten

theorem writeLine_writen {f f' : WriteFile} {rs : List FwriteResult} {line : List Byte} {n : Nat}
    (h : f.writeLine rs line = some (n, f')) : f'.m_nBytesWritten = f.writenAfter line.length := by
  unfold writeLine at h
  unfold writenAfter
  by_cases hv : f.m_valid = true
  · rw [if_pos hv] at h ⊢
    obtain ⟨taken, -, he⟩ := Option.map_eq_some_iff.mp h
    rw [← (Prod.mk.inj he).2]
  · rw [if_neg hv] at h ⊢
    rw [← (Prod.mk.inj (Option.some.inj h)).2]

/-- If stdio takes the whole line at once, the loop ends after one call. -/
theorem writeLine_whole (f : WriteFile) (line : List Byte) :
    ∃ p, f.writeLine [⟨line.length, false⟩] line = some p := by
  unfold writeLine
  by_cases hv : f.m_valid = true
  · rw [if_pos hv]
    simp [writeLoop]
  · rw [if_neg hv]
    exact ⟨_, rfl⟩

end WriteFile
end MyNet.Base
