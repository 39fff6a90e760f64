import MyNet.Base.ReadSmallFile
import Mathlib.Data.Nat.Find
import Mathlib.Tactic.Push

/-!
# The calls of `read` in `readToString`

`readToString` reads only if its caller asks for the size of the file, so two callers that
differ in this alone may be told different things. Where it does read, its loop is followed
call by call here: the file may change under it, so the answers are any sequence, without end,
in which a call is interrupted finitely often.
-/
namespace MyNet.Base

open Lib.SizeT

def ReadResult.interrupted : ReadResult → Bool
  | .error errno => errno = EINTR
  | .data _ => false

namespace ReadSmallFile

/-! ## What a caller is told besides the optional outputs -/

/-- The answer of the first call that is not interrupted; `none` is the end of the file. -/
def firstAnswer (reads : List ReadResult) : Option ReadResult :=
  reads.find? fun r => !r.interrupted

/-- Bytes that have arrived are not given up. -/
theorem prefix_readFreely (maxSize readSize : Int) (err : Nat) (readed : Int) (data : List Byte)
    (reads : List ReadResult) : data <+: (readFreely maxSize readSize err readed data reads).2 := by
  fun_induction readFreely maxSize readSize err readed data reads with
  | case1 readed data reads hmore need_read b bs rest hread ih =>
    exact (List.prefix_append data _).trans ih
  | case2 readed data reads hmore need_read rest hread => exact List.prefix_rfl
  | case3 readed data reads hmore need_read errno rest hread hother => exact List.prefix_rfl
  | case4 readed data reads hmore need_read errno rest hread hother ih => exact ih
  | case5 readed data reads hdone => exact List.prefix_rfl

section Nothing

variable {maxSize readSize readed : Int} {err : Nat} {data : List Byte} {reads : List ReadResult}

/-- The loop comes to nothing exactly if the first call that is not interrupted does. -/
theorem readFreely_nothing (hmax : maxSize < 2 ^ 63) (hsize : readSize ≤ maxSize)
    (hstart : readed = 0) (hempty : data = []) (hmore : 0 < readSize) :
    readFreely maxSize readSize err readed data reads = (err, []) ↔
      ∀ r, firstAnswer reads = some r → r = .error err := by
  fun_induction readFreely maxSize readSize err readed data reads with
  | case1 readed data reads _ need_read b bs rest hread ih =>
    obtain ⟨c, tail, rfl, -, -⟩ := read_data hread (List.cons_ne_nil b bs)
    refine iff_of_false (fun heq => ?_) fun h => ?_
    · have hprefix := prefix_readFreely maxSize readSize err (readed + (b :: bs).length)
        (data ++ b :: bs) rest
      rw [heq, List.prefix_nil] at hprefix
      exact List.append_ne_nil_of_right_ne_nil _ (List.cons_ne_nil _ _) hprefix
    · cases h (.data c) rfl
  | case2 readed data reads _ need_read rest hread =>
    have hle : (data.length : Int) ≤ maxSize := by
      rw [hempty, List.length_nil]
      omega
    have hneed : need_read = _ := need_read_eq hmax hle
    have hlength : data.length = 0 := by rw [hempty, List.length_nil]
    have hbuff : 0 < kBUFF_SIZE := by decide
    obtain rfl := read_end hread (by omega)
    rw [hempty]
    refine iff_of_true rfl fun r hr => ?_
    exact absurd hr (Option.some_ne_none r).symm
  | case3 readed data reads _ need_read errno rest hread hother =>
    obtain rfl := read_error hread
    have hfirst : firstAnswer (.error errno :: rest) = some (.error errno) :=
      List.find?_cons_of_pos (by simpa [ReadResult.interrupted] using hother)
    rw [hfirst, hempty]
    constructor
    · intro heq r hr
      rw [← Option.some.inj hr, (Prod.mk.inj heq).1]
    · intro h
      rw [ReadResult.error.inj (h _ rfl)]
  | case4 readed data reads _ need_read errno rest hread hother ih =>
    obtain rfl := read_error hread
    have hfirst : firstAnswer (.error errno :: rest) = firstAnswer rest :=
      List.find?_cons_of_neg (by simpa [ReadResult.interrupted] using hother)
    rw [hfirst]
    exact ih hstart hempty
  | case5 readed data reads hdone => exact absurd (hstart ▸ hmore) hdone

end Nothing

/-- One of the two callers asks for the size of a regular file. -/
def AskDifferently (st : Stat) (o₁ o₂ : ReadOuts) : Prop :=
  st.st_mode = .regular ∧ o₁.fileSize.isSome ≠ o₂.fileSize.isSome

/-- A caller who asks for the size gets it reserved, and then nothing is read. -/
def ReadsNothing (m : StringMemory) (maxSize : Int) (st : Stat) (reads : List ReadResult) : Prop :=
  m.reserve (min maxSize st.st_size % modulus).toNat = .ok () ∧
    (0 < min maxSize st.st_size → ∀ r, firstAnswer reads = some r → r = .error 0)

/-- One call asks for the size of a regular file and the other does not. -/
theorem outcome_asked_iff {m : StringMemory} {fd : Nat} {st : Stat} {reads : List ReadResult}
    {maxSize : Int} {o o' : ReadOuts} (hmax : maxSize < 2 ^ 63) (hregular : st.st_mode = .regular)
    (hasks : o.fileSize.isSome = true) (hnot : o'.fileSize.isSome = false) :
    outcome ((new (.ok fd)).readToString m (.ok st) reads maxSize o) =
        outcome ((new (.ok fd)).readToString m (.ok st) reads maxSize o') ↔
      ReadsNothing m maxSize st reads := by
  have hdir : st.st_mode ≠ .directory := by
    rw [hregular]
    decide
  have hsize : readSize maxSize st o = min maxSize st.st_size := if_pos ⟨hregular, hasks⟩
  have hnone : readSize maxSize st o' = 0 := if_neg (by rw [hnot]; exact fun h => nomatch h.2)
  have hother : outcome ((new (.ok fd)).readToString m (.ok st) reads maxSize o') = (.ok 0, []) :=
    (returned_iff hdir).mpr (by
      rw [hnone]
      exact ⟨readFreely_done (Int.lt_irrefl 0), m.reserve_zero, Or.inl (Nat.le_refl 0)⟩)
  have hheld : m.Holds (min maxSize st.st_size).toNat ([] : List Byte).length :=
    Or.inl (Nat.zero_le _)
  rw [hother]
  refine (returned_iff hdir).trans ?_
  rw [hsize, Affordable, and_iff_left hheld, and_comm, ReadsNothing]
  refine and_congr_right fun _ => ?_
  by_cases hmore : 0 < min maxSize st.st_size
  · rw [readFreely_nothing hmax (min_le_left ..) rfl rfl hmore]
    exact ⟨fun h _ => h, fun h => h hmore⟩
  · rw [readFreely_done hmore]
    exact iff_of_true rfl fun h => absurd h hmore

theorem outcome_opened_iff {m : StringMemory} {fd : Nat} {st : Stat} {reads : List ReadResult}
    {maxSize : Int} {o₁ o₂ : ReadOuts} (hmax : maxSize < 2 ^ 63) :
    outcome ((new (.ok fd)).readToString m (.ok st) reads maxSize o₁) =
        outcome ((new (.ok fd)).readToString m (.ok st) reads maxSize o₂) ↔
      (AskDifferently st o₁ o₂ → ReadsNothing m maxSize st reads) := by
  by_cases hdiffer : AskDifferently st o₁ o₂
  · rw [forall_prop_of_true hdiffer]
    obtain ⟨hregular, hask⟩ := hdiffer
    cases h₁ : o₁.fileSize.isSome with
    | true =>
      rw [h₁] at hask
      exact outcome_asked_iff hmax hregular h₁ (Bool.eq_false_iff.mpr hask.symm)
    | false =>
      rw [h₁] at hask
      exact eq_comm.trans
        (outcome_asked_iff hmax hregular (Bool.eq_true_of_not_eq_false hask.symm) h₁)
  · have hsame : readSize maxSize st o₁ = readSize maxSize st o₂ := by
      unfold readSize
      by_cases hregular : st.st_mode = .regular
      · have hask := Decidable.not_not.mp fun h => hdiffer ⟨hregular, h⟩
        rw [hask]
      · rw [if_neg fun h => hregular h.1, if_neg fun h => hregular h.1]
    rw [outcome_opened, outcome_opened, hsame]
    exact iff_of_true rfl fun h => absurd h hdiffer

/-- **Two calls that differ in their optional outputs.** They come to the same exactly if they
agree on asking for the size of a regular file, or the one who asks gets it reserved and it turns
out that nothing can be read. -/
theorem readToString_outputs_iff {m : StringMemory} {opened : Except Nat Nat}
    {fstat : Except Nat Stat} {reads : List ReadResult} {maxSize : Int} {o₁ o₂ : ReadOuts}
    (hmax : 0 ≤ maxSize ∧ maxSize < 2 ^ 63) (hdata : o₁.data = o₂.data) :
    outcome ((new opened).readToString m fstat reads maxSize o₁) =
        outcome ((new opened).readToString m fstat reads maxSize o₂) ↔
      ∀ fd st, opened = .ok fd → fstat = .ok st → AskDifferently st o₁ o₂ →
        ReadsNothing m maxSize st reads := by
  cases opened with
  | error errno => exact iff_of_true (congrArg (Prod.mk (Except.ok errno)) hdata) nofun
  | ok fd =>
    cases fstat with
    | error errno => exact iff_of_true rfl nofun
    | ok st =>
      refine (outcome_opened_iff hmax.2).trans ⟨fun h fd' st' _ hst => ?_, fun h => h fd st rfl rfl⟩
      rw [← Except.ok.inj hst]
      exact h

/-- A file that is cut off before its first read. -/
theorem readToString_outputs_iff_truncated :
    outcome ((new (.ok 3)).readToString mebibyte (.ok ⟨.regular, 1, 0, 0⟩) [.error EINTR] 1024
        ⟨[], some 0, none, none⟩) =
      outcome ((new (.ok 3)).readToString mebibyte (.ok ⟨.regular, 1, 0, 0⟩) [.error EINTR] 1024
        ⟨[], none, some 0, none⟩) := by
  have hmax : (0 : Int) ≤ 1024 ∧ (1024 : Int) < 2 ^ 63 := by decide
  have hdata : (⟨[], some 0, none, none⟩ : ReadOuts).data =
      (⟨[], none, some 0, none⟩ : ReadOuts).data := rfl
  refine (readToString_outputs_iff hmax hdata).mpr fun fd st _ hst _ => ?_
  cases hst
  refine ⟨rfl, fun _ r hr => ?_⟩
  cases (show (none : Option ReadResult) = some r from hr)

/-- A regular file of one byte, read with a pointer for its size and without. -/
theorem readToString_outputs_differ :
    ¬ ∀ (st : Stat) (reads : List ReadResult) (o₁ o₂ : ReadOuts), o₁.data = o₂.data →
      outcome ((new (.ok 3)).readToString mebibyte (.ok st) reads 1024 o₁) =
        outcome ((new (.ok 3)).readToString mebibyte (.ok st) reads 1024 o₂) := by
  intro h
  have heq := (outcome_asked_iff (by decide) rfl rfl rfl).mp
    (h ⟨.regular, 1, 0, 0⟩ [.data (chunkOf 97)] ⟨[], some 0, none, none⟩ ⟨[], none, none, none⟩ rfl)
  cases heq.2 (by decide) (.data (chunkOf 97)) rfl

/-- Without a pointer for the size nothing is read, whatever the calls come to. -/
theorem readFile_unasked (f : FileCalls) (maxSize : Int) {o : ReadOuts}
    (hnull : o.fileSize = none) (hempty : o.data = []) :
    ∃ err, outcome (readFile f maxSize o) = (.ok err, []) := by
  rw [readFile, outcome, readToString]
  cases f.opened with
  | error errno => exact ⟨errno, congrArg (Prod.mk _) hempty⟩
  | ok fd =>
    cases f.fstat with
    | error errno => exact ⟨errno, rfl⟩
    | ok st =>
      have hnot : ¬ (st.st_mode = .regular ∧ o.fileSize.isSome) := by
        rw [hnull]
        exact fun h => Bool.false_ne_true h.2
      refine ⟨if st.st_mode = .directory then EISDIR else 0, ?_⟩
      simp only [new, if_neg hnot]
      rfl

/-! ## The loop, call by call -/

/-- The loop before a call of `read`, or what it ended with. -/
inductive LoopState where
  | reading (readed : Int) (data : List Byte)
  | ended (r : Except Fault Nat) (data : List Byte)

/-- The length the loop asks for. -/
def need_read (maxSize : Int) (data : List Byte) : Nat :=
  min kBUFF_SIZE (subSize (maxSize % modulus).toNat data.length)

/-- `while(readed < readSize)` -/
def test (readSize : Int) (err : Nat) (readed : Int) (data : List Byte) : LoopState :=
  if readed < readSize then .reading readed data else .ended (.ok err) data

/-- The body of the loop; the call is answered with bytes, an error or the end of the file. -/
def body (mem : StringMemory) (readSize : Int) (err : Nat) :
    LoopState → Option ReadResult → LoopState
  | .reading readed data, some (.data c) =>
    match mem.append readSize.toNat data c.bytes with
    | .error e => .ended (.error e) data
    | .ok data => test readSize err (readed + c.bytes.length) data
  | .reading _ data, none => .ended (.ok err) data
  | .reading readed data, some (.error errno) =>
    if errno ≠ EINTR then .ended (.ok errno) data else test readSize err readed data
  | .ended r data, _ => .ended r data

/-- The loop after `n` calls with these answers. -/
def after (mem : StringMemory) (readSize : Int) (err : Nat) (answers : Nat → Option ReadResult) :
    Nat → LoopState
  | 0 => test readSize err 0 []
  | n + 1 => body mem readSize err (after mem readSize err answers n) (answers n)

/-- No call delivers more than it was asked for. -/
def Consistent (mem : StringMemory) (maxSize readSize : Int) (err : Nat)
    (answers : Nat → Option ReadResult) : Prop :=
  ∀ n readed data c, after mem readSize err answers n = .reading readed data →
    answers n = some (.data c) → c.bytes.length ≤ need_read maxSize data

def delivered : Option ReadResult → List Byte
  | some (.data c) => c.bytes
  | some (.error _) | none => []

/-- The bytes of the first `n` answers. -/
def arrived (answers : Nat → Option ReadResult) (n : Nat) : List Byte :=
  (List.range n).flatMap fun k => delivered (answers k)

/-- None of the first `n` calls fails. -/
def Quiet (answers : Nat → Option ReadResult) (n : Nat) : Prop :=
  ∀ k, k < n → ∀ errno, answers k = some (.error errno) → errno = EINTR

theorem arrived_succ (answers : Nat → Option ReadResult) (n : Nat) :
    arrived answers (n + 1) = arrived answers n ++ delivered (answers n) := by
  rw [arrived, List.range_succ, List.flatMap_append, List.flatMap_singleton]
  rfl

theorem Quiet.succ {answers : Nat → Option ReadResult} {n : Nat} (h : Quiet answers n)
    (hn : ∀ errno, answers n = some (.error errno) → errno = EINTR) : Quiet answers (n + 1) := by
  intro k hk errno he
  rcases Nat.lt_succ_iff_lt_or_eq.mp hk with hlt | rfl
  · exact h k hlt errno he
  · exact hn errno he

section Calls

variable {mem : StringMemory} {maxSize readSize : Int} {err : Nat}
  {answers : Nat → Option ReadResult}

theorem test_reading {readed readed' : Int} {data data' : List Byte}
    (h : test readSize err readed data = .reading readed' data') :
    readed' = readed ∧ data' = data ∧ readed < readSize := by
  unfold test at h
  split at h
  · next hmore =>
    cases h
    exact ⟨rfl, rfl, hmore⟩
  · cases h

theorem test_ended {readed : Int} {data data' : List Byte} {r : Except Fault Nat}
    (h : test readSize err readed data = .ended r data') :
    r = .ok err ∧ data' = data ∧ readSize ≤ readed := by
  unfold test at h
  split at h
  · cases h
  · next hdone =>
    cases h
    exact ⟨rfl, rfl, not_lt.mp hdone⟩

/-- What an answer makes of a loop that has read `data`. -/
inductive Answered (mem : StringMemory) (readSize : Int) (err : Nat) (readed : Int)
    (data : List Byte) : Option ReadResult → LoopState → Prop
  | nothing : Answered mem readSize err readed data none (.ended (.ok err) data)
  | failed {errno : Nat} (h : errno ≠ EINTR) :
      Answered mem readSize err readed data (some (.error errno)) (.ended (.ok errno) data)
  | interrupted :
      Answered mem readSize err readed data (some (.error EINTR)) (test readSize err readed data)
  | refused (c : Chunk) {e : Fault} (hbeyond : readSize.toNat < (data ++ c.bytes).length)
      (h : mem.reserve (data ++ c.bytes).length = .error e) :
      Answered mem readSize err readed data (some (.data c)) (.ended (.error e) data)
  | delivered (c : Chunk) (h : mem.append readSize.toNat data c.bytes = .ok (data ++ c.bytes)) :
      Answered mem readSize err readed data (some (.data c))
        (test readSize err (readed + c.bytes.length) (data ++ c.bytes))

theorem answered {n : Nat} {readed : Int} {data : List Byte}
    (h : after mem readSize err answers n = .reading readed data) :
    Answered mem readSize err readed data (answers n) (after mem readSize err answers (n + 1)) := by
  rw [after, h]
  cases answers n with
  | none => exact .nothing
  | some a =>
    cases a with
    | data c =>
      rw [body]
      split
      · next e happend =>
        obtain ⟨hbeyond, hrefused⟩ := StringMemory.append_error happend
        exact .refused c hbeyond hrefused
      · next data' happend =>
        obtain ⟨rfl, -⟩ := StringMemory.append_ok happend
        exact .delivered c happend
    | error errno =>
      rw [body]
      by_cases hother : errno ≠ EINTR
      · rw [if_pos hother]
        exact .failed hother
      · rw [if_neg hother, not_not.mp hother]
        exact .interrupted

/-- While the loop reads, all that has arrived is in `data`, which is less than `readSize`. -/
structure Reading (readSize : Int) (answers : Nat → Option ReadResult) (n : Nat) (readed : Int)
    (data : List Byte) : Prop where
  counted : readed = data.length
  all : data = arrived answers n
  more : readed < readSize
  quiet : Quiet answers n

theorem reading_after {n : Nat} {readed : Int} {data : List Byte}
    (h : after mem readSize err answers n = .reading readed data) :
    Reading readSize answers n readed data := by
  induction n generalizing readed data with
  | zero =>
    obtain ⟨rfl, rfl, hmore⟩ := test_reading h
    exact ⟨rfl, rfl, hmore, fun k hk => absurd hk (Nat.not_lt_zero k)⟩
  | succ n ih =>
    cases hbefore : after mem readSize err answers n with
    | ended e d =>
      rw [after, hbefore, body] at h
      cases h
    | reading r d =>
      obtain ⟨hcounted, hall, hless, hquiet⟩ := ih hbefore
      have hturn := answered hbefore
      generalize after mem readSize err answers (n + 1) = t at h hturn
      generalize hanswer : answers n = a at hturn
      cases hturn with
      | nothing => cases h
      | failed => cases h
      | refused => cases h
      | interrupted =>
        obtain ⟨rfl, rfl, hmore⟩ := test_reading h
        refine ⟨hcounted, ?_, hmore, hquiet.succ fun e he => ?_⟩
        · rw [arrived_succ, hanswer, delivered, List.append_nil]
          exact hall
        · cases hanswer.symm.trans he
          rfl
      | delivered c _ =>
        obtain ⟨rfl, rfl, hmore⟩ := test_reading h
        refine ⟨?_, ?_, hmore, hquiet.succ fun e he => ?_⟩
        · rw [hcounted, List.length_append]
          push_cast
          rfl
        · rw [arrived_succ, hanswer, delivered, hall]
        · cases hanswer.symm.trans he

/-- How the loop comes to end after so many calls, and what is in `data` then: nothing has failed,
the last call did, or the string got no memory for what the last call brought. -/
inductive Ended (mem : StringMemory) (readSize : Int) (answers : Nat → Option ReadResult)
    (err : Nat) : Nat → Except Fault Nat → List Byte → Prop
  | quiet {n : Nat} (h : Quiet answers n) : Ended mem readSize answers err n (.ok err)
      (arrived answers n)
  | failed {n errno : Nat} (h : Quiet answers n) (hanswer : answers n = some (.error errno))
      (hother : errno ≠ EINTR) : Ended mem readSize answers err (n + 1) (.ok errno)
      (arrived answers (n + 1))
  | refused {n : Nat} {e : Fault} (h : Quiet answers (n + 1))
      (hbeyond : readSize < (arrived answers (n + 1)).length)
      (hrefused : mem.reserve (arrived answers (n + 1)).length = .error e) :
      Ended mem readSize answers err (n + 1) (.error e) (arrived answers n)

theorem need_read_le (hmax : maxSize < 2 ^ 63) (data : List Byte) (hle : data.length ≤ maxSize) :
    (need_read maxSize data : Int) = min (kBUFF_SIZE : Int) (maxSize - data.length) := by
  unfold need_read
  rw [need_read_eq hmax hle]
  omega

theorem ended_after (hmax : 0 ≤ maxSize ∧ maxSize < 2 ^ 63) (hsize : readSize ≤ maxSize)
    (hconsistent : Consistent mem maxSize readSize err answers) {n : Nat} {r : Except Fault Nat}
    {data : List Byte}
    (hbefore : ∀ k, k < n → ∃ readed d, after mem readSize err answers k = .reading readed d)
    (h : after mem readSize err answers n = .ended r data) :
    data.length ≤ maxSize ∧ Ended mem readSize answers err n r data := by
  cases n with
  | zero =>
    obtain ⟨rfl, rfl, -⟩ := test_ended h
    exact ⟨hmax.1, .quiet fun k hk => absurd hk (Nat.not_lt_zero k)⟩
  | succ n =>
    obtain ⟨readed, d, hreading⟩ := hbefore n (Nat.lt_succ_self n)
    obtain ⟨hcounted, hall, hmore, hquiet⟩ := reading_after hreading
    have hturn := answered hreading
    have hnext := arrived_succ answers n
    generalize after mem readSize err answers (n + 1) = t at h hturn
    generalize hanswer : answers n = a at hturn hnext
    cases hturn with
    | nothing =>
      cases h
      rw [delivered, List.append_nil, ← hall] at hnext
      refine ⟨by omega, hnext ▸ .quiet (hquiet.succ fun e he => ?_)⟩
      cases hanswer.symm.trans he
    | failed hother =>
      cases h
      rw [delivered, List.append_nil, ← hall] at hnext
      exact ⟨by omega, hnext ▸ .failed hquiet hanswer hother⟩
    | interrupted =>
      obtain ⟨-, -, hdone⟩ := test_ended h
      omega
    | refused c hbeyond hrefused =>
      cases h
      rw [delivered, ← hall] at hnext
      rw [← hnext] at hbeyond hrefused
      refine ⟨by omega, hall ▸ .refused (hquiet.succ fun e he => ?_) (by omega) hrefused⟩
      cases hanswer.symm.trans he
    | delivered c _ =>
      obtain ⟨rfl, rfl, -⟩ := test_ended h
      have hfits := hconsistent n readed d c hreading hanswer
      have hneed := need_read_le hmax.2 d (by omega)
      rw [delivered, ← hall] at hnext
      refine ⟨?_, hnext ▸ .quiet (hquiet.succ fun e he => ?_)⟩
      · rw [List.length_append]
        push_cast
        omega
      · cases hanswer.symm.trans he

/-- From the last interruption on, every call that does not end the loop brings a byte. -/
theorem progress {N : Nat} (hquiet : ∀ k, N ≤ k → answers k ≠ some (.error EINTR))
    (hgoes : ∀ k, ∃ r d, after mem readSize err answers k = .reading r d) (m : Nat) :
    ∃ r d, after mem readSize err answers (N + m) = .reading r d ∧ m ≤ d.length := by
  induction m with
  | zero =>
    obtain ⟨r, d, h⟩ := hgoes N
    exact ⟨r, d, h, Nat.zero_le _⟩
  | succ m ih =>
    obtain ⟨r, d, h, hm⟩ := ih
    obtain ⟨r', d', h'⟩ := hgoes (N + m + 1)
    refine ⟨r', d', h', ?_⟩
    have hturn := answered h
    rw [show after mem readSize err answers (N + m + 1) = .reading r' d' from h'] at hturn
    generalize hanswer : answers (N + m) = a at hturn
    generalize ht : LoopState.reading r' d' = t at hturn
    cases hturn with
    | nothing => cases ht
    | failed => cases ht
    | refused => cases ht
    | interrupted => exact absurd hanswer (hquiet _ (Nat.le_add_right N m))
    | delivered c _ =>
      obtain ⟨-, rfl, -⟩ := test_reading ht.symm
      have hpos := List.length_pos_iff.mpr c.nonempty
      rw [List.length_append]
      omega

/-- Only finitely many interruptions: the loop ends, after a first number of calls. -/
theorem ends (hinterrupted : ∃ N, ∀ k, N ≤ k → answers k ≠ some (.error EINTR)) :
    ∃ n r data, after mem readSize err answers n = .ended r data ∧
      ∀ k, k < n → ∃ readed d, after mem readSize err answers k = .reading readed d := by
  classical
  obtain ⟨N, hquiet⟩ := hinterrupted
  have hstops : ∃ n, ¬ ∃ r d, after mem readSize err answers n = .reading r d := by
    by_contra hnever
    push Not at hnever
    obtain ⟨readed, d, h, hlong⟩ := progress hquiet hnever (readSize.toNat)
    have hreading := reading_after h
    have hcounted := hreading.counted
    have hmore := hreading.more
    omega
  refine ⟨Nat.find hstops, ?_⟩
  cases hlast : after mem readSize err answers (Nat.find hstops) with
  | reading r d => exact absurd ⟨r, d, hlast⟩ (Nat.find_spec hstops)
  | ended r data => exact ⟨r, data, rfl, fun k hk => not_not.mp (Nat.find_min hstops hk)⟩

/-- What the next call makes of the loop. -/
theorem readLoop_read {readed : Int} {data : List Byte} {reads rest : List ReadResult}
    {r : Except Nat (List Byte)} (hmore : readed < readSize) :
    read (need_read maxSize data) reads = (r, rest) →
    readLoop mem maxSize readSize err readed data reads =
      match r with
      | .ok (b :: bs) =>
        match mem.append readSize.toNat data (b :: bs) with
        | .error e => (.error e, data)
        | .ok data => readLoop mem maxSize readSize err (readed + (b :: bs).length) data rest
      | .ok [] => (.ok err, data)
      | .error errno =>
        if errno ≠ EINTR then (.ok errno, data)
        else readLoop mem maxSize readSize err readed data rest := by
  intro hread
  rw [readLoop, if_pos hmore]
  dsimp only
  split
  all_goals
    next heq =>
      cases hread.symm.trans heq
      rfl

/-- A chunk that fits the request is taken whole. -/
theorem readLoop_data {readed : Int} {data : List Byte} {c : Chunk} {reads : List ReadResult}
    (hmore : readed < readSize) (hfits : c.bytes.length ≤ need_read maxSize data) :
    readLoop mem maxSize readSize err readed data (.data c :: reads) =
      match mem.append readSize.toNat data c.bytes with
      | .error e => (.error e, data)
      | .ok data => readLoop mem maxSize readSize err (readed + c.bytes.length) data reads := by
  have hread : read (need_read maxSize data) (.data c :: reads) = (.ok c.bytes, reads) := by
    rw [read, List.take_of_length_le hfits, leave_of_le hfits]
  rw [readLoop_read hmore hread]
  cases hbytes : c.bytes with
  | nil => exact absurd hbytes c.nonempty
  | cons b bs => rfl

/-- `readLoop` makes these calls. -/
theorem readLoop_after (hconsistent : Consistent mem maxSize readSize err answers)
    {r : Except Fault Nat} {data : List Byte} (m : Nat) :
    ∀ k readed d, after mem readSize err answers k = .reading readed d →
      (∀ j, j < k + m → ∃ readed d, after mem readSize err answers j = .reading readed d) →
      after mem readSize err answers (k + m) = .ended r data →
      readLoop mem maxSize readSize err readed d ((List.range' k m).filterMap answers) =
        (r, data) := by
  induction m with
  | zero =>
    intro k readed d hstart _ hend
    cases hstart.symm.trans hend
  | succ m ih =>
    intro k readed d hstart hgoes hend
    have hmore := (reading_after hstart).more
    have hnext : k + (m + 1) = k + 1 + m := by omega
    have hlast : ∀ r' d', after mem readSize err answers (k + 1) = .ended r' d' →
        m = 0 ∧ (r', d') = (r, data) := by
      intro r' d' h
      have hzero : m = 0 := by
        by_contra hpos
        obtain ⟨readed', d'', hreading⟩ := hgoes (k + 1) (by omega)
        cases h.symm.trans hreading
      subst hzero
      cases h.symm.trans hend
      exact ⟨rfl, rfl⟩
    have hrest : ∀ readed' d', after mem readSize err answers (k + 1) =
        test readSize err readed' d' →
        readLoop mem maxSize readSize err readed' d' ((List.range' (k + 1) m).filterMap answers) =
          (r, data) := by
      intro readed' d' htest
      by_cases hless : readed' < readSize
      · rw [test, if_pos hless] at htest
        exact ih (k + 1) readed' d' htest (hnext ▸ hgoes) (hnext ▸ hend)
      · rw [test, if_neg hless] at htest
        rw [readLoop_done hless]
        exact (hlast _ _ htest).2
    rw [List.range'_succ, List.filterMap_cons]
    have hturn := answered hstart
    generalize after mem readSize err answers (k + 1) = t at hturn hlast hrest
    generalize hanswer : answers k = a at hturn
    cases hturn with
    | nothing =>
      obtain ⟨rfl, heq⟩ := hlast _ _ rfl
      rw [List.range'_zero, List.filterMap_nil, readLoop_read hmore rfl]
      exact heq
    | failed hother =>
      dsimp only
      rw [readLoop_read hmore rfl]
      dsimp only
      rw [if_pos hother]
      exact (hlast _ _ rfl).2
    | interrupted =>
      dsimp only
      rw [readLoop_read hmore rfl]
      dsimp only
      rw [if_neg (not_not.mpr rfl)]
      exact hrest _ _ rfl
    | refused c hbeyond hrefused =>
      dsimp only
      rw [readLoop_data hmore (hconsistent k readed d c hstart hanswer),
        StringMemory.append_refused hbeyond hrefused]
      exact (hlast _ _ rfl).2
    | delivered c happend =>
      dsimp only
      rw [readLoop_data hmore (hconsistent k readed d c hstart hanswer), happend]
      exact hrest _ _ rfl

/-- **The read loop.** A regular file is read by a caller who asks for its size, and the answers
are consistent and interrupted finitely often. If `min(maxSize, st_size)` cannot be reserved,
`readToString` throws before any call. Otherwise the loop ends. Until then each request is the
exact `min(sizeof(m_buff), maxSize - data.size())` and at least 1; afterwards `data` holds what
arrived, at most `maxSize` bytes, and the result is 0 or the error of the last call, unless there
is no memory for the last chunk. -/
theorem readToString_loop (hmax : 0 ≤ maxSize ∧ maxSize < 2 ^ 63) {fd : Nat} {st : Stat}
    {o : ReadOuts} (hregular : st.st_mode = .regular) (hsize : o.fileSize.isSome = true)
    (hconsistent : Consistent mem maxSize (min maxSize st.st_size) 0 answers)
    (hinterrupted : ∃ N, ∀ k, N ≤ k → answers k ≠ some (.error EINTR)) :
    (∀ e, mem.reserve (min maxSize st.st_size % modulus).toNat = .error e → ∀ reads,
      (new (.ok fd)).readToString mem (.ok st) reads maxSize o =
        (.error e, { o with data := [], fileSize := some st.st_size })) ∧
    (mem.reserve (min maxSize st.st_size % modulus).toNat = .ok () → ∃ n r data,
      (∀ k, k < n → ∃ d, after mem (min maxSize st.st_size) 0 answers k = .reading d.length d ∧
        d = arrived answers k ∧ 1 ≤ need_read maxSize d ∧
        (need_read maxSize d : Int) = min (kBUFF_SIZE : Int) (maxSize - d.length)) ∧
      after mem (min maxSize st.st_size) 0 answers n = .ended r data ∧
      outcome ((new (.ok fd)).readToString mem (.ok st) ((List.range n).filterMap answers)
        maxSize o) = (r, data) ∧
      data.length ≤ maxSize ∧ Ended mem (min maxSize st.st_size) answers 0 n r data) := by
  have hasks : st.st_mode = .regular ∧ o.fileSize.isSome := ⟨hregular, hsize⟩
  refine ⟨fun e hrefused reads => ?_, fun hreserved => ?_⟩
  · rw [readToString, new]
    dsimp only
    rw [if_pos hasks, hrefused]
  · obtain ⟨n, r, data, hend, hgoes⟩ := ends hinterrupted
    have hle := min_le_left maxSize st.st_size
    refine ⟨n, r, data, fun k hk => ?_, hend, ?_, ended_after hmax hle hconsistent hgoes hend⟩
    · obtain ⟨readed, d, hreading⟩ := hgoes k hk
      obtain ⟨rfl, hall, hmore, -⟩ := reading_after hreading
      have hneed := need_read_le hmax.2 d (by omega)
      have hbuff : 0 < kBUFF_SIZE := by decide
      exact ⟨d, hreading, hall, by omega, hneed⟩
    · have hdir : st.st_mode ≠ .directory := by
        rw [hregular]
        decide
      rw [outcome_opened, if_neg hdir, readSize, if_pos hasks, hreserved]
      dsimp only
      by_cases hmore : 0 < min maxSize st.st_size
      · rw [List.range_eq_range']
        exact readLoop_after hconsistent n 0 0 [] (if_pos hmore) (by simpa using hgoes)
          (by simpa using hend)
      · have hnone : n = 0 := by
          by_contra hpos
          obtain ⟨readed, d, hreading⟩ := hgoes 0 (Nat.pos_of_ne_zero hpos)
          exact hmore (test_reading hreading).2.2
        subst hnone
        rw [after, test, if_neg hmore] at hend
        cases hend
        exact readLoop_done hmore

end Calls

/-- A byte, an interruption, and the end of a file that said it had two bytes. -/
def truncated : Nat → Option ReadResult
  | 0 => some (.data (chunkOf 97))
  | 1 => some (.error EINTR)
  | _ => none

theorem consistent_truncated : Consistent mebibyte 1024 2 0 truncated := by
  intro n readed data c hreading hanswer
  obtain ⟨hcounted, -, hmore, -⟩ := reading_after hreading
  have hneed := need_read_le (by decide : (1024 : Int) < 2 ^ 63) data (by omega)
  have hbuff : 0 < kBUFF_SIZE := by decide
  match n, hanswer with
  | 0, hanswer =>
    cases hanswer
    change 1 ≤ need_read 1024 data
    omega
  | 1, hanswer => cases hanswer
  | n + 2, hanswer => cases hanswer

theorem readToString_loop_truncated :
    ∃ n r data, outcome ((new (.ok 3)).readToString mebibyte (.ok ⟨.regular, 2, 0, 0⟩)
        ((List.range n).filterMap truncated) 1024 ⟨[], some 0, none, none⟩) = (r, data) ∧
      data.length ≤ (1024 : Int) ∧ Ended mebibyte 2 truncated 0 n r data := by
  have hinterrupted : ∃ N, ∀ k, N ≤ k → truncated k ≠ some (.error EINTR) := by
    refine ⟨2, fun k hk => ?_⟩
    match k, hk with
    | k + 2, _ => exact nofun
  have hregular : (⟨.regular, 2, 0, 0⟩ : Stat).st_mode = .regular := rfl
  have hsize : (⟨[], some 0, none, none⟩ : ReadOuts).fileSize.isSome = true := rfl
  have hmax : (0 : Int) ≤ 1024 ∧ (1024 : Int) < 2 ^ 63 := by decide
  obtain ⟨n, r, data, -, -, hout, hle, hend⟩ :=
    (readToString_loop hmax hregular hsize consistent_truncated hinterrupted).2 rfl
  exact ⟨n, r, data, hout, hle, hend⟩

/-- A file that says it is as long as a file can be. -/
theorem readToString_loop_huge :
    ¬ ∀ (mem : StringMemory) (st : Stat) (reads : List ReadResult) (maxSize size : Int),
      0 ≤ maxSize ∧ maxSize < 2 ^ 63 → st.st_mode = .regular →
      ∃ err data, outcome ((new (.ok 3)).readToString mem (.ok st) reads maxSize
        ⟨[], some size, none, none⟩) = (.ok err, data) := by
  intro h
  obtain ⟨err, data, hout⟩ :=
    h mebibyte ⟨.regular, 2 ^ 63 - 1, 0, 0⟩ [] (2 ^ 63 - 1) 0 (by decide) rfl
  rw [outcome_opened, if_neg (by decide)] at hout
  cases hout

end ReadSmallFile
end MyNet.Base
