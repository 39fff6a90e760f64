import MyNet.Base.ReadSmallFile
import MyNet.Lib.ListStore
import Mathlib.Data.Nat.Find

/-!
# `ReadSmallFile::readToBuffer`

The condition of its loop assigns to `errno` where it should compare, so the loop goes on after
every error: `readToBuffer` returns from an opened file only once a `pread` has succeeded. The
calls of `pread` have results without end, and the loop is given fuel.
-/
namespace MyNet.Base

open Lib.ListStore (overwrite length_overwrite overwrite_append slice slice_overwrite)

namespace ReadSmallFile

/-- The content of `m_buff`. -/
structure Buff where
  bytes : List Byte
  size_eq : bytes.length = kBUFF_SIZE

/-- Bytes that one `pread` of `sizeof(m_buff) - 1` can deliver. -/
structure Part where
  bytes : List Byte
  fits : bytes.length < kBUFF_SIZE

end ReadSmallFile

inductive PreadResult where
  | data (p : ReadSmallFile.Part)
  | error (errno : Nat)

/-- What `readToBuffer` writes to; `size` is `none` if the pointer is null. -/
structure BuffOuts where
  m_buff : ReadSmallFile.Buff
  size : Option Int

namespace ReadSmallFile

/-- The bytes that `pread` stores, and then the NUL. -/
def Buff.terminated (b : Buff) (p : Part) : Buff where
  bytes := overwrite (overwrite b.bytes 0 p.bytes) p.bytes.length [0]
  size_eq := by
    have hfits := p.fits
    have hsize := b.size_eq
    have hfirst : (overwrite b.bytes 0 p.bytes).length = b.bytes.length :=
      length_overwrite (by omega)
    rw [length_overwrite (by rw [hfirst, List.length_singleton]; omega), hfirst, hsize]

/-- `*size` is set if the pointer is not null. -/
def filled (o : BuffOuts) (p : Part) : BuffOuts where
  m_buff := o.m_buff.terminated p
  size := o.size.map fun _ => p.bytes.length

/-- The loop from its `k`-th call on, with the number of calls made in the end. -/
def preadLoop (preads : Nat → PreadResult) : Nat → Nat → Option (PreadResult × Nat)
  | 0, _ => none
  | fuel + 1, k =>
    match preads k with
    | .data p => some (.data p, k + 1)
    | .error _ =>
      -- `errno = EINTR`
      let errno := EINTR
      if errno ≠ 0 then preadLoop preads fuel (k + 1) else some (.error errno, k + 1)

/-- The result, what was written, and how often `pread` was called. -/
def readToBuffer (f : ReadSmallFile) (preads : Nat → PreadResult) (fuel : Nat) (o : BuffOuts) :
    Option (Nat × BuffOuts × Nat) :=
  match f.m_fd with
  | none => some (f.m_err, o, 0)
  | some _ =>
    (preadLoop preads fuel 0).map fun
      | (.data p, calls) => (f.m_err, filled o p, calls)
      | (.error errno, calls) => (errno, o, calls)

theorem terminated_take (b : Buff) (p : Part) :
    (b.terminated p).bytes.take (p.bytes.length + 1) = p.bytes ++ [0] := by
  have hfits := p.fits
  have hsize := b.size_eq
  have hstored : (b.terminated p).bytes = overwrite b.bytes 0 ((p.bytes ++ [0]) ++ []) := by
    rw [List.append_nil, overwrite_append (by omega), Nat.zero_add]
    rfl
  have hslice := slice_overwrite (Nat.zero_le b.bytes.length) (p.bytes ++ [0]) []
  rw [hstored]
  simpa [slice] using hslice

section Loop

variable {preads : Nat → PreadResult}

/-- The first success ends the loop. -/
theorem preadLoop_succeeds {p : Part} (m : Nat) :
    ∀ {k : Nat}, preads (k + m) = .data p →
      (∀ j, j < m → ∃ errno, preads (k + j) = .error errno) →
      preadLoop preads (m + 1) k = some (.data p, k + m + 1) := by
  induction m with
  | zero =>
    intro k hdata _
    rw [Nat.add_zero] at hdata
    rw [preadLoop, hdata]
  | succ m ih =>
    intro k hdata hfails
    obtain ⟨errno, hfirst⟩ := hfails 0 (Nat.zero_lt_succ m)
    have hshift : ∀ j, k + 1 + j = k + (j + 1) := fun j => by omega
    have hrest := ih (k := k + 1) (hshift m ▸ hdata) fun j hj =>
      hshift j ▸ hfails (j + 1) (Nat.succ_lt_succ hj)
    rw [Nat.add_zero] at hfirst
    rw [preadLoop, hfirst]
    dsimp only
    rw [if_pos (by decide), hrest, hshift]

/-- Nothing else does. -/
theorem preadLoop_some {fuel k calls : Nat} {r : PreadResult}
    (h : preadLoop preads fuel k = some (r, calls)) :
    ∃ n p, calls = n + 1 ∧ r = .data p ∧ preads n = .data p := by
  induction fuel generalizing k with
  | zero => cases h
  | succ fuel ih =>
    rw [preadLoop] at h
    split at h
    · next p hp =>
      cases h
      exact ⟨k, p, rfl, rfl, hp⟩
    · exact ih h

end Loop

/-- The `n`-th call is the first that is not interrupted. -/
def FirstAnswer (preads : Nat → PreadResult) (n : Nat) : Prop :=
  preads n ≠ .error EINTR ∧ ∀ k, k < n → preads k = .error EINTR

/-- With this call the file was opened, `readToBuffer` returns what `r` comes to after
`calls` calls. -/
def Reported (fd : Nat) (preads : Nat → PreadResult) (o : BuffOuts) (r : PreadResult)
    (calls : Nat) : Prop :=
  ∃ fuel err o', (new (.ok fd)).readToBuffer preads fuel o = some (err, o', calls) ∧
    match r with
    | .error errno => err = errno
    | .data p =>
      err = 0 ∧ o'.m_buff.bytes.take (p.bytes.length + 1) = p.bytes ++ [0] ∧
        o'.size = o.size.map fun _ => (p.bytes.length : Int)

theorem readToBuffer_succeeds (fd : Nat) {preads : Nat → PreadResult} (o : BuffOuts) {n : Nat}
    {p : Part} (hdata : preads n = .data p)
    (hfails : ∀ k, k < n → ∃ errno, preads k = .error errno) :
    (new (.ok fd)).readToBuffer preads (n + 1) o = some (0, filled o p, n + 1) := by
  have hloop := preadLoop_succeeds n (k := 0) (by rwa [Nat.zero_add]) fun k hk => by
    rw [Nat.zero_add]
    exact hfails k hk
  change (preadLoop preads (n + 1) 0).map _ = _
  rw [hloop, Nat.zero_add]
  rfl

/-- It returns from an opened file only if a call succeeds. -/
theorem readToBuffer_returns_iff (fd : Nat) (preads : Nat → PreadResult) (o : BuffOuts) :
    (∃ fuel r, (new (.ok fd)).readToBuffer preads fuel o = some r) ↔
      ∃ n p, preads n = .data p := by
  classical
  constructor
  · rintro ⟨fuel, r, hrun⟩
    obtain ⟨⟨last, calls⟩, hloop, -⟩ := Option.map_eq_some_iff.mp hrun
    obtain ⟨n, p, -, -, hdata⟩ := preadLoop_some hloop
    exact ⟨n, p, hdata⟩
  · intro hsome
    obtain ⟨p, hdata⟩ := Nat.find_spec hsome
    refine ⟨_, _, readToBuffer_succeeds fd o hdata fun k hk => ?_⟩
    cases hfail : preads k with
    | data q => exact absurd ⟨q, hfail⟩ (Nat.find_min hsome hk)
    | error errno => exact ⟨errno, rfl⟩

/-- **When `readToBuffer` reports its first answer**: when that is a success. -/
theorem readToBuffer_iff (fd : Nat) (preads : Nat → PreadResult) (o : BuffOuts) :
    (∃ n, FirstAnswer preads n ∧ Reported fd preads o (preads n) (n + 1)) ↔
      ∃ n p, FirstAnswer preads n ∧ preads n = .data p := by
  constructor
  · rintro ⟨n, hfirst, fuel, err, o', hrun, -⟩
    obtain ⟨⟨r, calls⟩, hloop, hout⟩ := Option.map_eq_some_iff.mp hrun
    obtain ⟨m, p, rfl, rfl, hdata⟩ := preadLoop_some hloop
    cases hout
    exact ⟨n, p, hfirst, hdata⟩
  · rintro ⟨n, p, hfirst, hdata⟩
    have hrun := readToBuffer_succeeds fd o hdata fun k hk => ⟨EINTR, hfirst.2 k hk⟩
    refine ⟨n, hfirst, n + 1, 0, filled o p, hrun, ?_⟩
    rw [hdata]
    exact ⟨rfl, terminated_take o.m_buff p, rfl⟩

/-- A directory fails every `pread` with `EISDIR`. -/
theorem readToBuffer_directory :
    ¬ ∀ (preads : Nat → PreadResult) (o : BuffOuts),
      (∀ k, ∃ n, k ≤ n ∧ preads n ≠ .error EINTR) →
      ∃ n, FirstAnswer preads n ∧ Reported 3 preads o (preads n) (n + 1) := by
  intro h
  have hother : (.error EISDIR : PreadResult) ≠ .error EINTR := nofun
  obtain ⟨n, -, fuel, err, o', hrun, -⟩ := h (fun _ => .error EISDIR)
    ⟨⟨List.replicate kBUFF_SIZE 0, List.length_replicate⟩, none⟩ fun k => ⟨k, Nat.le_refl k, hother⟩
  obtain ⟨m, p, hdata⟩ := (readToBuffer_returns_iff 3 _ _).mp ⟨fuel, _, hrun⟩
  cases hdata

end ReadSmallFile
end MyNet.Base
