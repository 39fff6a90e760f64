import MyNet.Base.Runtime
import MyNet.Lib.SizeT

/-!
# `ReadSmallFile::readToString`

What the calls of `read` come to is given: the chunks in which the bytes arrive and the
errors between them. The stream of the file is what the chunks hold together; behind the last
one is its end. The string that takes the bytes says for which lengths it has memory: `reserve`
asks it once, before the first call, and `append` again when more arrives than was reserved.
-/
namespace MyNet.Base

open Lib.SizeT

def EINTR : Nat := 4
def EISDIR : Nat := 21

inductive FileKind where
  | regular
  | directory
  /-- A device, a pipe or a socket. -/
  | other
  deriving DecidableEq

/-- `struct stat` -/
structure Stat where
  st_mode : FileKind
  st_size : Int
  st_mtime : Int
  st_ctime : Int

/-- The memory of a `std::string`: it has room for a length or is given it if `grants` says so,
and never for more than `max_size()`. -/
structure StringMemory where
  max_size : Nat
  grants : Allocator
  max_size_lt : max_size < 2 ^ 63
  grants_zero : grants 0 = true

namespace StringMemory

def reserve (m : StringMemory) (n : Nat) : Except Fault Unit :=
  if m.max_size < n then .error .lengthError
  else if m.grants n then .ok () else .error .badAlloc

@[simp] theorem reserve_zero (m : StringMemory) : m.reserve 0 = .ok () := by
  rw [reserve, if_neg (Nat.not_lt_zero _), if_pos m.grants_zero]

/-- `append` to a string that has room for `capacity` bytes. -/
def append (m : StringMemory) (capacity : Nat) (data chunk : List Byte) :
    Except Fault (List Byte) :=
  if (data ++ chunk).length ≤ capacity then .ok (data ++ chunk)
  else (m.reserve (data ++ chunk).length).map fun _ => data ++ chunk

variable {m : StringMemory} {capacity : Nat} {data chunk : List Byte}

/-- So many bytes are in the string without more memory or with it. -/
def Holds (m : StringMemory) (capacity n : Nat) : Prop := n ≤ capacity ∨ m.reserve n = .ok ()

instance (m : StringMemory) (capacity n : Nat) : Decidable (m.Holds capacity n) :=
  inferInstanceAs (Decidable (_ ∨ m.reserve n = .ok ()))

theorem append_ok {data' : List Byte} (h : m.append capacity data chunk = .ok data') :
    data' = data ++ chunk ∧ m.Holds capacity (data ++ chunk).length := by
  unfold append at h
  split at h
  · next hroom => exact ⟨(Except.ok.inj h).symm, Or.inl hroom⟩
  · cases hreserve : m.reserve (data ++ chunk).length with
    | error e =>
      rw [hreserve] at h
      cases h
    | ok =>
      rw [hreserve] at h
      exact ⟨(Except.ok.inj h).symm, Or.inr hreserve⟩

theorem append_error {e : Fault} (h : m.append capacity data chunk = .error e) :
    capacity < (data ++ chunk).length ∧ m.reserve (data ++ chunk).length = .error e := by
  unfold append at h
  split at h
  · cases h
  · next hroom =>
    refine ⟨not_le.mp hroom, ?_⟩
    cases hreserve : m.reserve (data ++ chunk).length with
    | error e' =>
      rw [hreserve] at h
      cases h
      rfl
    | ok =>
      rw [hreserve] at h
      cases h

theorem append_refused {e : Fault} (hbeyond : capacity < (data ++ chunk).length)
    (h : m.reserve (data ++ chunk).length = .error e) :
    m.append capacity data chunk = .error e := by
  rw [append, if_neg (Nat.not_le.mpr hbeyond), h]
  rfl

end StringMemory

namespace ReadSmallFile

def kBUFF_SIZE : Nat := 64 * 1024

/-- Bytes that one `read` into `m_buff` can deliver. -/
structure Chunk where
  bytes : List Byte
  nonempty : bytes ≠ []
  fits : bytes.length ≤ kBUFF_SIZE

end ReadSmallFile

inductive ReadResult where
  | data (c : ReadSmallFile.Chunk)
  | error (errno : Nat)

/-- `m_fd` is `none` if the file could not be opened. -/
structure ReadSmallFile where
  m_fd : Option Nat
  m_err : Nat

/-- The arguments of `readToString` that it writes to; `none` is a null pointer. -/
structure ReadOuts where
  data : List Byte
  fileSize : Option Int
  modifyTime : Option Int
  createTime : Option Int

namespace ReadSmallFile

/-- The constructor, on what `open` comes to. -/
def new : Except Nat Nat → ReadSmallFile
  | .ok fd => ⟨some fd, 0⟩
  | .error errno => ⟨none, errno⟩

/-- What is left when `need` bytes of a chunk are gone. -/
def leave (c : Chunk) (need : Nat) (reads : List ReadResult) : List ReadResult :=
  if h : c.bytes.drop need = [] then reads
  else .data ⟨c.bytes.drop need, h, by
    rw [List.length_drop]
    exact (Nat.sub_le ..).trans c.fits⟩ :: reads

/-- `::read(m_fd, m_buff, need)`; the end of the file gives no bytes. -/
def read (need : Nat) : List ReadResult → Except Nat (List Byte) × List ReadResult
  | [] => (.ok [], [])
  | .error errno :: reads => (.error errno, reads)
  | .data c :: reads => (.ok (c.bytes.take need), leave c need reads)

def weight : List ReadResult → Nat
  | [] => 0
  | .error _ :: reads => weight reads + 1
  | .data c :: reads => weight reads + c.bytes.length + 1

theorem weight_leave_le (c : Chunk) (need : Nat) (reads : List ReadResult) :
    weight (leave c need reads) ≤ weight reads + (c.bytes.length - need) + 1 := by
  unfold leave
  split
  · omega
  · rw [weight, List.length_drop]

/-- A call that does not find the end of the file uses some of the results up. -/
theorem weight_read {need : Nat} {reads rest : List ReadResult}
    {r : Except Nat (List Byte)} (h : read need reads = (r, rest)) (hr : r ≠ .ok []) :
    weight rest < weight reads := by
  cases reads with
  | nil =>
    cases h
    exact absurd rfl hr
  | cons x reads =>
    cases x with
    | error errno =>
      cases h
      exact Nat.lt_succ_self _
    | data c =>
      cases h
      have hneed : need ≠ 0 := by
        rintro rfl
        exact hr rfl
      have hpos := List.length_pos_iff.mpr c.nonempty
      have hle := weight_leave_le c need reads
      rw [weight]
      omega

/-- The loop on `readed` bytes: the result or the exception of `data.append`, and the bytes in
`data`, which has room for `readSize`. -/
def readLoop (m : StringMemory) (maxSize readSize : Int) (err : Nat) (readed : Int)
    (data : List Byte) (reads : List ReadResult) : Except Fault Nat × List Byte :=
  if readed < readSize then
    let need_read := min kBUFF_SIZE (subSize (maxSize % modulus).toNat data.length)
    match _h : read need_read reads with
    | (.ok (b :: bs), rest) =>
      match m.append readSize.toNat data (b :: bs) with
      | .error e => (.error e, data)
      | .ok data => readLoop m maxSize readSize err (readed + (b :: bs).length) data rest
    | (.ok [], _) => (.ok err, data)
    | (.error errno, rest) =>
      if errno ≠ EINTR then (.ok errno, data)
      else readLoop m maxSize readSize err readed data rest
  else (.ok err, data)
termination_by weight reads
decreasing_by
  · exact weight_read _h nofun
  · exact weight_read _h nofun

/-- The times, where they are asked for. -/
def timed (o : ReadOuts) (st : Stat) : ReadOuts :=
  { o with
    modifyTime := o.modifyTime.map fun _ => st.st_mtime
    createTime := o.createTime.map fun _ => st.st_ctime }

/-- On the result of `fstat` and of the calls of `read`; an exception leaves the outputs as they
are when it is thrown. -/
def readToString (m : StringMemory) (f : ReadSmallFile) (fstat : Except Nat Stat)
    (reads : List ReadResult) (maxSize : Int) (o : ReadOuts) : Except Fault Nat × ReadOuts :=
  match f.m_fd with
  | none => (.ok f.m_err, o)
  | some _ =>
    let o := { o with data := [] }
    match fstat with
    | .error errno => (.ok errno, o)
    | .ok st =>
      if st.st_mode = .regular ∧ o.fileSize.isSome then
        let o := { o with fileSize := some st.st_size }
        let readSize := min maxSize st.st_size
        match m.reserve (readSize % modulus).toNat with
        | .error e => (.error e, o)
        | .ok () =>
          let o := timed o st
          let (r, data) :=
            if 0 < readSize then readLoop m maxSize readSize f.m_err 0 [] reads
            else (.ok f.m_err, [])
          (r, { o with data := data })
      else (.ok (if st.st_mode = .directory then EISDIR else f.m_err), timed o st)

end ReadSmallFile

/-- What the calls on a file come to, and the memory of the string that is read to. -/
structure FileCalls where
  opened : Except Nat Nat
  fstat : Except Nat Stat
  reads : List ReadResult
  memory : StringMemory

def readFile (f : FileCalls) (maxSize : Int) (o : ReadOuts) : Except Fault Nat × ReadOuts :=
  (ReadSmallFile.new f.opened).readToString f.memory f.fstat f.reads maxSize o

namespace ReadSmallFile

/-- The bytes of the file. -/
def stream : List ReadResult → List Byte
  | [] => []
  | .error _ :: reads => stream reads
  | .data c :: reads => c.bytes ++ stream reads

/-- As long as the bytes that have arrived are fewer than `total`, they are fewer than
`readSize`; `got` of them arrived before these reads. -/
def Expected (readSize total : Int) (got : Nat) (reads : List ReadResult) : Prop :=
  ∀ p, p <+: reads → (got + (stream p).length : Int) < total → got + (stream p).length < readSize

section Expected

variable {readSize total : Int} {got errno : Nat} {c : Chunk} {reads : List ReadResult}

theorem Expected.now (h : Expected readSize total got reads) (hmore : got < total) :
    got < readSize := by
  have hnone := h [] List.nil_prefix
  rw [stream, List.length_nil, Nat.cast_zero, add_zero] at hnone
  exact hnone hmore

theorem expected_nil : Expected readSize total got [] ↔ ((got : Int) < total → got < readSize) := by
  refine ⟨fun h => h.now, fun h p hp => ?_⟩
  rw [List.prefix_nil.mp hp, stream, List.length_nil, Nat.cast_zero, add_zero]
  exact h

theorem expected_error :
    Expected readSize total got (.error errno :: reads) ↔ Expected readSize total got reads := by
  constructor
  · intro h p hp
    exact h (.error errno :: p) (List.cons_prefix_cons.mpr ⟨rfl, hp⟩)
  · intro h p hp
    rcases List.prefix_cons_iff.mp hp with rfl | ⟨q, rfl, hq⟩
    · exact h [] List.nil_prefix
    · exact h q hq

theorem expected_data :
    Expected readSize total got (.data c :: reads) ↔
      ((got : Int) < total → got < readSize) ∧
        Expected readSize total (got + c.bytes.length) reads := by
  have hcons : ∀ q, (got + (stream (.data c :: q)).length : Int) =
      (got + c.bytes.length : Nat) + (stream q).length := by
    intro q
    rw [stream, List.length_append]
    push_cast
    exact (add_assoc ..).symm
  constructor
  · intro h
    refine ⟨h.now, fun p hp => ?_⟩
    rw [← hcons]
    exact h (.data c :: p) (List.cons_prefix_cons.mpr ⟨rfl, hp⟩)
  · rintro ⟨hnow, h⟩ p hp
    rcases List.prefix_cons_iff.mp hp with rfl | ⟨q, rfl, hq⟩
    · exact expected_nil.mpr hnow [] List.nil_prefix
    · rw [hcons]
      exact h q hq

/-- Nothing more is wanted. -/
theorem expected_of_le (h : total ≤ got) : Expected readSize total got reads := by
  intro p _ hless
  omega

end Expected

/-- A call delivers the next bytes of the stream. -/
theorem stream_leave (c : Chunk) (need : Nat) (reads : List ReadResult) :
    c.bytes.take need ++ stream (leave c need reads) = c.bytes ++ stream reads := by
  unfold leave
  split
  · next hall =>
    rw [List.take_of_length_le (List.drop_eq_nil_iff.mp hall)]
  · rw [stream, ← List.append_assoc, List.take_append_drop]

theorem need_read_eq {maxSize : Int} {data : List Byte} (hmax : maxSize < 2 ^ 63)
    (hle : data.length ≤ maxSize) :
    min kBUFF_SIZE (subSize (maxSize % modulus).toNat data.length) =
      min kBUFF_SIZE (maxSize.toNat - data.length) := by
  have hmod : modulus = 18446744073709551616 := rfl
  have hsmall : maxSize % modulus = maxSize := Int.emod_eq_of_lt (by omega) (by omega)
  rw [hsmall, subSize_of_le (by omega) (by omega)]

theorem read_data {need : Nat} {chunk : List Byte} {reads rest : List ReadResult}
    (h : read need reads = (.ok chunk, rest)) (hchunk : chunk ≠ []) :
    ∃ c tail, reads = .data c :: tail ∧ chunk = c.bytes.take need ∧ rest = leave c need tail := by
  cases reads with
  | nil =>
    cases h
    exact absurd rfl hchunk
  | cons x tail =>
    cases x with
    | error errno => cases h
    | data c =>
      cases h
      exact ⟨c, tail, rfl, rfl, rfl⟩

theorem read_end {need : Nat} {reads rest : List ReadResult} (h : read need reads = (.ok [], rest))
    (hneed : 0 < need) : reads = [] := by
  cases reads with
  | nil => rfl
  | cons x tail =>
    cases x with
    | error errno => cases h
    | data c =>
      have hnone : c.bytes.take need = [] := Except.ok.inj (Prod.mk.inj h).1
      rcases List.take_eq_nil_iff.mp hnone with hzero | hempty
      · omega
      · exact absurd hempty c.nonempty

theorem read_error {need errno : Nat} {reads rest : List ReadResult}
    (h : read need reads = (.error errno, rest)) : reads = .error errno :: rest := by
  cases reads with
  | nil => cases h
  | cons x tail =>
    cases x with
    | error errno' =>
      cases h
      rfl
    | data c => cases h

theorem error_mem_leave {c : Chunk} {need errno : Nat} {reads : List ReadResult}
    (h : .error errno ∈ leave c need reads) : .error errno ∈ reads := by
  unfold leave at h
  split at h
  · exact h
  · rcases List.mem_cons.mp h with hsame | hmem
    · cases hsame
    · exact hmem

/-- A chunk that fits is taken whole. -/
theorem leave_of_le {c : Chunk} {need : Nat} {reads : List ReadResult}
    (h : c.bytes.length ≤ need) : leave c need reads = reads :=
  dif_pos (List.drop_eq_nil_of_le h)

/-- The loop with a string that never asks for memory. -/
def readFreely (maxSize readSize : Int) (err : Nat) (readed : Int) (data : List Byte)
    (reads : List ReadResult) : Nat × List Byte :=
  if readed < readSize then
    let need_read := min kBUFF_SIZE (subSize (maxSize % modulus).toNat data.length)
    match _h : read need_read reads with
    | (.ok (b :: bs), rest) =>
      readFreely maxSize readSize err (readed + (b :: bs).length) (data ++ b :: bs) rest
    | (.ok [], _) => (err, data)
    | (.error errno, rest) =>
      if errno ≠ EINTR then (errno, data)
      else readFreely maxSize readSize err readed data rest
  else (err, data)
termination_by weight reads
decreasing_by
  · exact weight_read _h nofun
  · exact weight_read _h nofun

section Freely

variable {m : StringMemory} {maxSize readSize readed : Int} {err : Nat} {data : List Byte}
  {reads rest : List ReadResult}

theorem readFreely_done (h : ¬ readed < readSize) :
    readFreely maxSize readSize err readed data reads = (err, data) := by
  rw [readFreely, if_neg h]

theorem readLoop_done (h : ¬ readed < readSize) :
    readLoop m maxSize readSize err readed data reads = (.ok err, data) := by
  rw [readLoop, if_neg h]

/-- What the next call makes of the loop. -/
theorem readFreely_read {r : Except Nat (List Byte)} (hmore : readed < readSize) :
    read (min kBUFF_SIZE (subSize (maxSize % modulus).toNat data.length)) reads = (r, rest) →
    readFreely maxSize readSize err readed data reads =
      match r with
      | .ok (b :: bs) =>
        readFreely maxSize readSize err (readed + (b :: bs).length) (data ++ b :: bs) rest
      | .ok [] => (err, data)
      | .error errno =>
        if errno ≠ EINTR then (errno, data)
        else readFreely maxSize readSize err readed data rest := by
  intro hread
  rw [readFreely, if_pos hmore]
  dsimp only
  split
  all_goals
    next heq =>
      cases hread.symm.trans heq
      rfl

theorem ended_iff {capacity e e' : Nat} {bytes : List Byte} (hheld : m.Holds capacity data.length) :
    ((.ok e', data) : Except Fault Nat × List Byte) = (.ok e, bytes) ↔
      (e', data) = (e, bytes) ∧ m.Holds capacity bytes.length := by
  refine ⟨fun heq => ?_, fun heq => ?_⟩
  · cases heq
    exact ⟨rfl, hheld⟩
  · cases heq.1
    rfl

/-- Only the last chunk can take the string beyond what was reserved, so memory is asked for at
most once more, and for all that has arrived. -/
theorem readLoop_ok_iff {e : Nat} {bytes : List Byte} (hreaded : readed = data.length)
    (hheld : m.Holds readSize.toNat data.length) :
    readLoop m maxSize readSize err readed data reads = (.ok e, bytes) ↔
      readFreely maxSize readSize err readed data reads = (e, bytes) ∧
        m.Holds readSize.toNat bytes.length := by
  fun_induction readLoop m maxSize readSize err readed data reads with
  | case1 readed data reads hmore need_read b bs rest hread f happend =>
    obtain ⟨hbeyond, hrefused⟩ := StringMemory.append_error happend
    have hlength : (data ++ b :: bs).length = data.length + (b :: bs).length := List.length_append
    have hdone : ¬ readed + (b :: bs).length < readSize := by omega
    rw [readFreely_read hmore hread]
    dsimp only
    rw [readFreely_done hdone]
    refine iff_of_false (fun heq => by cases heq) ?_
    rintro ⟨heq, hholds⟩
    rw [← (Prod.mk.inj heq).2, StringMemory.Holds, hrefused] at hholds
    rcases hholds with hroom | hok
    · omega
    · cases hok
  | case2 readed data reads hmore need_read b bs rest hread data' happend ih =>
    obtain ⟨rfl, hholds⟩ := StringMemory.append_ok happend
    rw [readFreely_read hmore hread]
    refine ih ?_ hholds
    rw [hreaded, List.length_append]
    push_cast
    rfl
  | case3 readed data reads hmore need_read rest hread =>
    rw [readFreely_read hmore hread]
    exact ended_iff hheld
  | case4 readed data reads hmore need_read errno rest hread hother =>
    rw [readFreely_read hmore hread]
    dsimp only
    rw [if_pos hother]
    exact ended_iff hheld
  | case5 readed data reads hmore need_read errno rest hread hagain ih =>
    rw [readFreely_read hmore hread]
    dsimp only
    rw [if_neg hagain]
    exact ih hreaded hheld
  | case6 readed data reads hdone =>
    rw [readFreely_done hdone]
    exact ended_iff hheld

end Freely

/-- The loop ends with the right bytes exactly if they do not keep it waiting: the total of the
reads passes `readSize` only together with the end or with `maxSize`. -/
theorem readFreely_iff (err : Nat) {maxSize readSize readed : Int} {data : List Byte}
    {reads : List ReadResult} (hmax : maxSize < 2 ^ 63) (hsize : readSize ≤ maxSize)
    (hle : data.length ≤ maxSize) (hreaded : readed = data.length)
    (herror : ∀ errno, .error errno ∈ reads → errno = EINTR) :
    readFreely maxSize readSize err readed data reads =
        (err, (data ++ stream reads).take maxSize.toNat) ↔
      Expected readSize (min maxSize (data ++ stream reads).length) data.length reads := by
  fun_induction readFreely maxSize readSize err readed data reads with
  | case1 readed data reads hmore need_read b bs rest hread ih =>
    obtain ⟨c, tail, rfl, hchunk, rfl⟩ := read_data hread nofun
    have hneed : need_read = _ := need_read_eq hmax hle
    rw [hchunk] at ih ⊢
    have htake : (c.bytes.take need_read).length = min need_read c.bytes.length := List.length_take
    have hall : data ++ c.bytes.take need_read ++ stream (leave c need_read tail) =
        data ++ stream (.data c :: tail) := by
      rw [List.append_assoc, stream_leave, stream]
    have hfits := c.fits
    rw [← hall]
    refine (ih ?_ ?_ fun errno he => ?_).trans ?_
    · rw [List.length_append, htake]
      omega
    · rw [List.length_append, hreaded]
      push_cast
      rfl
    · exact herror errno (List.mem_cons_of_mem _ (error_mem_leave he))
    · have hlen : (data ++ c.bytes.take need_read).length =
          data.length + min need_read c.bytes.length := by rw [List.length_append, htake]
      rw [expected_data, and_iff_right (fun _ => hreaded ▸ hmore), hlen]
      by_cases hfit : c.bytes.length ≤ need_read
      · rw [leave_of_le hfit, Nat.min_eq_right hfit]
      · -- a chunk longer than what was asked for reaches `maxSize`
        refine iff_of_true (expected_of_le ?_) (expected_of_le ?_) <;> omega
  | case2 readed data reads hmore need_read rest hread =>
    have hneed : need_read = _ := need_read_eq hmax hle
    have hpos : 0 < min kBUFF_SIZE (maxSize.toNat - data.length) := by
      have hbuff : 0 < kBUFF_SIZE := by decide
      omega
    obtain rfl := read_end hread (hneed ▸ hpos)
    rw [stream, List.append_nil, List.take_of_length_le (by omega)]
    refine iff_of_true rfl (expected_of_le ?_)
    omega
  | case3 readed data reads hmore need_read errno rest hread hother =>
    obtain rfl := read_error hread
    exact absurd (herror errno List.mem_cons_self) hother
  | case4 readed data reads hmore need_read errno rest hread hother ih =>
    obtain rfl := read_error hread
    rw [expected_error, stream]
    exact ih hle hreaded fun e he => herror e (List.mem_cons_of_mem _ he)
  | case5 readed data reads hdone =>
    have htaken : ((data ++ stream reads).take maxSize.toNat).length =
        min maxSize.toNat (data ++ stream reads).length := List.length_take
    have happend : (data ++ stream reads).length = data.length + (stream reads).length :=
      List.length_append
    by_cases hend : min maxSize ((data ++ stream reads).length : Int) ≤ data.length
    · refine iff_of_true ?_ (expected_of_le hend)
      have hbefore : data <+: (data ++ stream reads).take maxSize.toNat :=
        List.prefix_of_prefix_length_le (List.prefix_append ..) (List.take_prefix ..) (by omega)
      rw [← hbefore.eq_of_length (by omega)]
    · refine iff_of_false (fun heq => ?_) fun h => ?_
      · rw [← (Prod.mk.inj heq).2] at htaken
        omega
      · have hmore := h.now (by omega)
        omega

/-- What `readToString` sets out to read. -/
def readSize (maxSize : Int) (st : Stat) (o : ReadOuts) : Int :=
  if st.st_mode = .regular ∧ o.fileSize.isSome then min maxSize st.st_size else 0

/-- What a caller is told besides the optional outputs. -/
def outcome (r : Except Fault Nat × ReadOuts) : Except Fault Nat × List Byte := (r.1, r.2.data)

/-- It returned this, without an error. -/
def Returned (r : Except Fault Nat × ReadOuts) (bytes : List Byte) : Prop :=
  outcome r = (.ok 0, bytes)

/-- There is memory for what is reserved, and for `n` bytes if they are more. -/
def Affordable (m : StringMemory) (readSize : Int) (n : Nat) : Prop :=
  m.reserve (readSize % modulus).toNat = .ok () ∧ m.Holds readSize.toNat n

section ReadToString

variable {m : StringMemory} {maxSize : Int} {fd : Nat} {st : Stat} {reads : List ReadResult}
  {o : ReadOuts}

/-- What an opened file and its `stat` come to. -/
theorem outcome_opened (m : StringMemory) (fd : Nat) (st : Stat) (reads : List ReadResult)
    (maxSize : Int) (o : ReadOuts) :
    outcome ((new (.ok fd)).readToString m (.ok st) reads maxSize o) =
      if st.st_mode = .directory then (.ok EISDIR, [])
      else
        match m.reserve (readSize maxSize st o % modulus).toNat with
        | .error e => (.error e, [])
        | .ok () => readLoop m maxSize (readSize maxSize st o) 0 0 [] reads := by
  unfold outcome readToString readSize new
  by_cases hregular : st.st_mode = .regular ∧ o.fileSize.isSome
  · have hdir : st.st_mode ≠ .directory := by
      rw [hregular.1]
      decide
    simp only [if_pos hregular, if_neg hdir]
    cases m.reserve (min maxSize st.st_size % modulus).toNat with
    | error e => rfl
    | ok =>
      dsimp only
      split
      · rfl
      · next hnone => rw [readLoop_done hnone]
  · simp only [if_neg hregular, Int.zero_emod, Int.toNat_zero, StringMemory.reserve_zero]
    split
    · rfl
    · rw [readLoop_done (Int.lt_irrefl 0)]
      rfl

theorem returned_iff {bytes : List Byte} (hdir : st.st_mode ≠ .directory) :
    Returned ((new (.ok fd)).readToString m (.ok st) reads maxSize o) bytes ↔
      readFreely maxSize (readSize maxSize st o) 0 0 [] reads = (0, bytes) ∧
        Affordable m (readSize maxSize st o) bytes.length := by
  rw [Returned, outcome_opened, if_neg hdir, Affordable]
  cases m.reserve (readSize maxSize st o % modulus).toNat with
  | error e => exact iff_of_false (fun h => by cases h) fun h => by cases h.2.1
  | ok =>
    rw [and_iff_right rfl]
    exact readLoop_ok_iff rfl (Or.inl (Nat.zero_le _))

/-- **What `readToString` returns of a file.** It is opened and no directory; its reads fail with
`EINTR` at most. Then the first `maxSize` bytes are returned exactly if, as long as they are not
all there, the file is regular, its size is asked for, and it is more than what is there; and if
the string gets the memory for the size and for these bytes. -/
theorem readToString_iff (hmax : 0 ≤ maxSize ∧ maxSize < 2 ^ 63)
    (hdir : st.st_mode ≠ .directory) (herror : ∀ errno, .error errno ∈ reads → errno = EINTR) :
    Returned ((new (.ok fd)).readToString m (.ok st) reads maxSize o)
        ((stream reads).take maxSize.toNat) ↔
      (∀ p, p <+: reads → ((stream p).length : Int) < min maxSize (stream reads).length →
        (st.st_mode = .regular ∧ o.fileSize.isSome) ∧ (stream p).length < st.st_size) ∧
      (st.st_mode = .regular ∧ o.fileSize.isSome →
        Affordable m (min maxSize st.st_size) (min maxSize.toNat (stream reads).length)) := by
  have hsize : readSize maxSize st o ≤ maxSize := by
    unfold readSize
    split <;> omega
  have hempty : (([] : List Byte).length : Int) ≤ maxSize := hmax.1
  have hread := readFreely_iff 0 hmax.2 hsize hempty rfl herror
  rw [List.length_nil, Nat.cast_zero, List.nil_append] at hread
  rw [returned_iff hdir, List.length_take]
  by_cases hregular : st.st_mode = .regular ∧ o.fileSize.isSome
  · rw [readSize, if_pos hregular] at hread ⊢
    refine and_congr (hread.trans (forall_congr' fun p => imp_congr_right fun _ => ?_))
      ⟨fun h _ => h, fun h => h hregular⟩
    rw [Nat.cast_zero, zero_add, and_iff_right hregular]
    refine imp_congr_right fun hmore => ?_
    omega
  · rw [readSize, if_neg hregular] at hread ⊢
    -- nothing is reserved and nothing read, so there must be nothing to read
    have hnothing : readFreely maxSize 0 0 0 [] reads = (0, (stream reads).take maxSize.toNat) →
        Affordable m 0 (min maxSize.toNat (stream reads).length) := by
      intro heq
      rw [readFreely_done (Int.lt_irrefl 0)] at heq
      rw [← List.length_take, ← (Prod.mk.inj heq).2]
      exact ⟨m.reserve_zero, Or.inl (Nat.le_refl 0)⟩
    rw [and_iff_left_of_imp hnothing, and_iff_left fun h => absurd h hregular]
    refine hread.trans (forall_congr' fun p => imp_congr_right fun _ => ?_)
    rw [Nat.cast_zero, zero_add]
    refine imp_congr_right fun hmore => ?_
    exact iff_of_false (by omega) fun h => hregular h.1

end ReadToString

def chunkOf (b : Byte) : Chunk := ⟨[b], nofun, (by decide : 1 ≤ kBUFF_SIZE)⟩

/-- A string that may grow to a mebibyte. -/
def mebibyte : StringMemory := ⟨2 ^ 62, fun n => n ≤ 1048576, by decide, rfl⟩

/-- A regular file of two bytes that come one by one, with an interruption. -/
theorem readToString_iff_regular :
    Returned ((new (.ok 3)).readToString mebibyte (.ok ⟨.regular, 2, 0, 0⟩)
      [.data (chunkOf 97), .error EINTR, .data (chunkOf 98)] 1024 ⟨[], some 0, none, none⟩)
      [97, 98] := by
  refine (readToString_iff (by decide) (by decide) ?_).mpr
    ⟨fun p _ hless => ⟨⟨rfl, rfl⟩, ?_⟩, fun _ => ⟨rfl, Or.inl (by decide)⟩⟩
  · intro errno he
    rcases List.mem_cons.mp he with hdata | he
    · cases hdata
    · rcases List.mem_cons.mp he with herror | he
      · exact ReadResult.error.inj herror
      · cases List.mem_singleton.mp he
  · exact hless.trans_le (min_le_right ..)

/-- A file under `/proc` holds a byte and says that its size is 0. -/
theorem readToString_proc :
    ¬ ∀ (st : Stat) (reads : List ReadResult) (size : Int), st.st_mode ≠ .directory →
      (∀ errno, .error errno ∈ reads → errno = EINTR) →
      Returned ((new (.ok 3)).readToString mebibyte (.ok st) reads 1024
        ⟨[], some size, none, none⟩) ((stream reads).take 1024) := by
  intro h
  have herror : ∀ errno, ReadResult.error errno ∈ [ReadResult.data (chunkOf 97)] →
      errno = EINTR := fun errno he => nomatch List.mem_singleton.mp he
  cases h ⟨.regular, 0, 0, 0⟩ _ 0 (by decide) herror

end ReadSmallFile
end MyNet.Base
