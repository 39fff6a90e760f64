import MyNet.Base.LogStreamText
import MyNet.Base.ProcessInfo
import MyNet.Base.ReadLoop
import MyNet.Lib.Delimited
import Mathlib.Data.List.Sort
import Mathlib.Order.Interval.Finset.Defs
import Mathlib.Data.Int.Interval

/-!
# The threads of the process

Two ways to count the threads: `threads` goes through a directory with a filter that notes the
ids and selects nothing, `numThreads` looks for a number in `/proc/self/status`. But `procStatus`
passes no pointer for the size of that file, so it returns nothing to look in. Were the text
there, it would begin with the name of the process, in which anything may stand.
-/
namespace MyNet.Base.ProcessInfo

open Lib Lib.Numeral Lib.Search Lib.Delimited

def isdigit (c : Byte) : Bool := '0'.toUInt8 ≤ c && c ≤ '9'.toUInt8

def isspace (c : Byte) : Bool := c == ' '.toUInt8 || 9 ≤ c && c ≤ 13

/-- The sign and what stands behind it. -/
def sign : List Byte → Bool × List Byte
  | [] => (false, [])
  | c :: s =>
    if c = '-'.toUInt8 then (true, s) else if c = '+'.toUInt8 then (false, s) else (false, c :: s)

/-- `strtol(s, NULL, 10)`: blanks, a sign, digits; it stays at the ends of `long`. -/
def strtol (s : List Byte) : Int :=
  let (negative, s) := sign (s.dropWhile isspace)
  let n : Int := value 10 ((s.takeWhile isdigit).map (·.toNat - 48))
  if negative then max (-9223372036854775808) (-n) else min 9223372036854775807 n

def atoi (s : List Byte) : Int := CInt.wrap (strtol s)

/-- `isdigit(d->d_name[0])`; a name that is empty has its NUL there. -/
def startsWithDigit (d_name : List Byte) : Bool := d_name.head?.any isdigit

def fdDirFilter (t_numOpenedFiles : CInt) (d_name : List Byte) : CInt × Int :=
  (if startsWithDigit d_name then t_numOpenedFiles + 1 else t_numOpenedFiles, 0)

def taskDirFilter (t_pids : List Int) (d_name : List Byte) : List Int × Int :=
  (if startsWithDigit d_name then t_pids ++ [atoi d_name] else t_pids, 0)

/-- With what `scandir` returns; the filter changes a variable of the thread. A directory is the
names in the order it lists them, `none` one that cannot be opened. -/
def scanDir {σ : Type} (dirpath : Option (List (List Byte))) (filter : σ → List Byte → σ × Int)
    (s : σ) : Except Fault (σ × Int) :=
  match dirpath with
  | none => .ok (s, -1)
  | some names =>
    let r := names.foldl
      (fun (p : σ × Nat) d_name =>
        let r := filter p.1 d_name
        (r.1, if r.2 = 0 then p.2 else p.2 + 1)) (s, 0)
    -- `assert(namelist == NULL)`: it is allocated for the first name that is selected
    if r.2 = 0 then .ok (r.1, 0) else .error .assertion

def openedFiles (fds : Option (List (List Byte))) : Except Fault CInt :=
  (scanDir fds fdDirFilter 0).map (·.1)

def threads (tasks : Option (List (List Byte))) : Except Fault (List Int) :=
  (scanDir tasks taskDirFilter []).map fun r => r.1.insertionSort (· ≤ ·)

/-- `kernel` says what the calls on a file come to. -/
def procStatus (kernel : List Byte → FileCalls) : Except Fault (List Byte) :=
  match readFile (kernel (ascii "/proc/self/status")) 65536 ⟨[], none, none, none⟩ with
  | (.ok _, o) => .ok o.data
  | (.error e, _) => .error e

/-- What `numThreads` makes of the status. -/
def threadsIn (status : List Byte) : Int :=
  let pos := search (ascii "Threads:") status
  if pos = status.length then 0 else atoi (status.drop (pos + 8))

def numThreads (kernel : List Byte → FileCalls) : Except Fault Int :=
  (procStatus kernel).map threadsIn

example : threadsIn (ascii "Name:\tbash\nThreads:\t3\nSigQ:\t0") = 3 := by decide

/-! ## Reading a number -/

theorem digitChar_isdigit {d : Nat} (h : d < 10) :
    isdigit (digitChar d) = true ∧ (digitChar d).toNat - 48 = d := by
  have hall : ∀ d < 10, isdigit (digitChar d) = true ∧ (digitChar d).toNat - 48 = d := by decide
  exact hall d h

/-- The digits of a numeral, up to what is no digit. -/
theorem takeWhile_numeral (n : Nat) {rest : List Byte} (hrest : startsWithDigit rest = false) :
    (((numeral 10 n).map digitChar ++ rest).takeWhile isdigit).map (·.toNat - 48) =
      numeral 10 n := by
  have hdigits : ∀ c ∈ (numeral 10 n).map digitChar, isdigit c = true := by
    intro c hc
    obtain ⟨d, hd, rfl⟩ := List.mem_map.mp hc
    exact (digitChar_isdigit (mem_numeral_lt (by decide) hd)).1
  have hstop : rest.takeWhile isdigit = [] := by
    cases rest with
    | nil => rfl
    | cons c rest => exact List.takeWhile_cons_of_neg (by simpa [startsWithDigit] using hrest)
  rw [List.takeWhile_append_of_pos hdigits, hstop, List.append_nil, List.map_map]
  refine (List.map_congr_left fun d hd => ?_).trans (List.map_id _)
  exact (digitChar_isdigit (mem_numeral_lt (by decide) hd)).2

/-- A digit is neither blank nor a sign. -/
theorem sign_numeral (n : Nat) (rest : List Byte) :
    sign (((numeral 10 n).map digitChar ++ rest).dropWhile isspace) =
      (false, (numeral 10 n).map digitChar ++ rest) := by
  have hplain : ∀ d < 10, isspace (digitChar d) = false ∧ digitChar d ≠ '-'.toUInt8 ∧
      digitChar d ≠ '+'.toUInt8 := by decide
  cases hn : numeral 10 n with
  | nil => exact absurd hn (numeral_canonical (by decide) n).nonempty
  | cons d ds =>
    have hd : d < 10 := mem_numeral_lt (n := n) (by decide) (by rw [hn]; exact List.mem_cons_self)
    obtain ⟨hspace, hminus, hplus⟩ := hplain d hd
    rw [List.map_cons, List.cons_append, List.dropWhile_cons_of_neg (by rw [hspace]; decide), sign,
      if_neg hminus, if_neg hplus]

theorem atoi_decimal {n : Int} (hn : 0 ≤ n ∧ n ≤ 2147483647) {rest : List Byte}
    (hrest : startsWithDigit rest = false) : atoi (decimal n ++ rest) = n := by
  have htext : decimal n = (numeral 10 n.natAbs).map digitChar := decimal_of_nonneg (by omega)
  have hvalue : strtol (decimal n ++ rest) = n := by
    rw [strtol, htext, sign_numeral]
    simp only [takeWhile_numeral _ hrest, value_numeral]
    rw [if_neg Bool.false_ne_true]
    omega
  rw [atoi, hvalue]
  exact CInt.wrap_of_fits (by omega)

/-! ## Going through a directory -/

/-- A filter that selects nothing is run on every name, and the assertion holds. -/
theorem scanDir_quiet {σ : Type} (filter : σ → List Byte → σ × Int)
    (hquiet : ∀ s d_name, (filter s d_name).2 = 0) (names : List (List Byte)) (s : σ) :
    scanDir (some names) filter s =
      .ok (names.foldl (fun s d_name => (filter s d_name).1) s, 0) := by
  have hfold : names.foldl (fun (p : σ × Nat) d_name =>
      ((filter p.1 d_name).1, if (filter p.1 d_name).2 = 0 then p.2 else p.2 + 1)) (s, 0) =
        (names.foldl (fun s d_name => (filter s d_name).1) s, 0) := by
    induction names generalizing s with
    | nil => rfl
    | cons d_name names ih =>
      rw [List.foldl_cons, List.foldl_cons, if_pos (hquiet s d_name)]
      exact ih _
  change (if (names.foldl _ (s, 0)).2 = 0 then _ else _) = _
  rw [hfold]
  rfl

theorem foldl_taskDirFilter (names : List (List Byte)) (t_pids : List Int) :
    names.foldl (fun s d_name => (taskDirFilter s d_name).1) t_pids =
      t_pids ++ (names.filter startsWithDigit).map atoi := by
  induction names generalizing t_pids with
  | nil => rw [List.foldl_nil, List.filter_nil, List.map_nil, List.append_nil]
  | cons d_name names ih =>
    rw [List.foldl_cons, ih, taskDirFilter, List.filter_cons]
    split
    · rw [List.map_cons, List.append_assoc, List.singleton_append]
    · rfl

/-- A directory of `/proc` with an entry for each number, in any order. -/
def Lists (names : List (List Byte)) (ids : List Int) : Prop :=
  names.Perm (ascii "." :: ascii ".." :: ids.map decimal)

instance (names : List (List Byte)) (ids : List Int) : Decidable (Lists names ids) :=
  inferInstanceAs (Decidable (List.Perm _ _))

theorem startsWithDigit_decimal {n : Int} (hn : 0 ≤ n) : startsWithDigit (decimal n) = true := by
  rw [decimal_of_nonneg (by omega)]
  cases hds : numeral 10 n.natAbs with
  | nil => exact absurd hds (numeral_canonical (by decide) _).nonempty
  | cons d ds =>
    have hd : d < 10 :=
      mem_numeral_lt (n := n.natAbs) (by decide) (by rw [hds]; exact List.mem_cons_self)
    exact (digitChar_isdigit hd).1

theorem Lists.numerals {names : List (List Byte)} {ids : List Int} (h : Lists names ids)
    (hids : ∀ id ∈ ids, 0 ≤ id) : (names.filter startsWithDigit).Perm (ids.map decimal) := by
  have hnumerals : (ids.map decimal).filter startsWithDigit = ids.map decimal := by
    refine List.filter_eq_self.mpr fun d_name hd => ?_
    obtain ⟨id, hid, rfl⟩ := List.mem_map.mp hd
    exact startsWithDigit_decimal (hids id hid)
  have hperm := List.Perm.filter startsWithDigit h
  rwa [List.filter_cons_of_neg (by decide), List.filter_cons_of_neg (by decide), hnumerals]
    at hperm

theorem map_atoi {ids : List Int} (hids : ∀ id ∈ ids, 0 ≤ id ∧ id ≤ 2147483647) :
    (ids.map decimal).map atoi = ids := by
  rw [List.map_map]
  refine (List.map_congr_left fun id hid => ?_).trans (List.map_id _)
  have hread := atoi_decimal (hids id hid) (show startsWithDigit [] = false from rfl)
  rwa [List.append_nil] at hread

theorem foldl_fdDirFilter (names : List (List Byte)) (k : Nat)
    (hfew : k + (names.filter startsWithDigit).length ≤ 2147483647) :
    names.foldl (fun s d_name => (fdDirFilter s d_name).1) (.of k) =
      .of (k + (names.filter startsWithDigit).length : Nat) := by
  induction names generalizing k with
  | nil => rfl
  | cons d_name names ih =>
    rw [List.filter_cons] at hfew
    rw [List.foldl_cons, fdDirFilter, List.filter_cons]
    split
    · next hdigit =>
      rw [if_pos hdigit, List.length_cons] at hfew
      have hnext : CInt.of k + 1 = .of (k + 1 : Nat) :=
        CInt.add_exact (by omega) (by decide)
      simp only [hnext]
      rw [ih (k + 1) (by omega), List.length_cons]
      congr 2
      omega
    · next hdigit =>
      rw [if_neg hdigit] at hfew
      exact ih k hfew

/-- The descriptors that are open, the one of the directory itself among them. -/
theorem openedFiles_lists {names : List (List Byte)} {fds : List Int} (h : Lists names fds)
    (hfds : ∀ fd ∈ fds, 0 ≤ fd) (hfew : fds.length ≤ 2147483647) :
    openedFiles (some names) = .ok (.of fds.length) := by
  have hlength := (h.numerals hfds).length_eq
  rw [List.length_map] at hlength
  have hcount := foldl_fdDirFilter names 0 (by omega)
  rw [Nat.zero_add, hlength] at hcount
  have hscan := scanDir_quiet fdDirFilter (fun _ _ => rfl) names (.of (0 : Nat))
  rw [hcount] at hscan
  exact congrArg (Except.map (·.1)) hscan

/-- The number behind the first `Threads:`. -/
theorem threadsIn_first {front : List Byte} (hfront : ¬ ascii "Threads:" <:+: front)
    (rest : List Byte) : threadsIn (front ++ ascii "Threads:" ++ rest) = atoi rest := by
  have hlength : (ascii "Threads:").length = 8 := rfl
  have hword : Unbordered (ascii "Threads:") := by
    have hall : ∀ d < 8, 0 < d → ¬ (ascii "Threads:").drop d <+: ascii "Threads:" := by decide
    exact fun d h0 h8 => hall d h8 h0
  have hpos : search (ascii "Threads:") (front ++ ascii "Threads:" ++ rest) = front.length := by
    have hfound : search (ascii "Threads:") (front ++ ascii "Threads:" ++ rest) <
        (front ++ ascii "Threads:" ++ rest).length := by
      refine Nat.lt_of_le_of_ne (search_le _ _) fun hend => ?_
      exact (search_eq_length_iff (by decide) _).mp hend ⟨front, rest, rfl⟩
    have hcut := search_cut hfound
    have hfree : ¬ ascii "Threads:" <:+: (front ++ ascii "Threads:" ++ rest).take _ :=
      search_take_free (by decide) (front ++ ascii "Threads:" ++ rest)
    have hsame := (piece_unique hword hfree hfront hcut).1
    have hlengths := congrArg List.length hsame
    rwa [List.length_take, Nat.min_eq_left hfound.le] at hlengths
  have hne : front.length ≠ (front ++ ascii "Threads:" ++ rest).length := by
    rw [List.length_append, List.length_append, hlength]
    omega
  rw [threadsIn, hpos, if_neg hne, List.append_assoc, ← List.drop_drop, List.drop_left, ← hlength,
    List.drop_left]

/-- There are no more different ids than positive `int`s. -/
theorem length_le_of_ids {ids : List Int} (hids : ∀ id ∈ ids, 0 < id ∧ id ≤ 2147483647)
    (hnodup : ids.Nodup) : ids.length ≤ 2147483647 := by
  have hsubset : ids.toFinset ⊆ Finset.Icc 1 2147483647 := fun id hid => by
    have hbounds := hids id (List.mem_toFinset.mp hid)
    rw [Finset.mem_Icc]
    omega
  have hcard := Finset.card_le_card hsubset
  rw [List.toFinset_card_of_nodup hnodup, Int.card_Icc] at hcard
  omega

/-- Whatever the kernel has to say, none of it is read. -/
theorem numThreads_eq (kernel : List Byte → FileCalls) : numThreads kernel = .ok 0 := by
  obtain ⟨err, hread⟩ := ReadSmallFile.readFile_unasked (kernel (ascii "/proc/self/status")) 65536
    (o := ⟨[], none, none, none⟩) rfl rfl
  have hstatus : procStatus kernel = .ok [] := by
    rw [procStatus]
    cases hr : readFile (kernel (ascii "/proc/self/status")) 65536 ⟨[], none, none, none⟩ with
    | mk r o =>
      rw [hr] at hread
      obtain ⟨rfl, hdata⟩ := Prod.mk.inj hread
      exact congrArg Except.ok hdata
  rw [numThreads, hstatus]
  rfl

/-- The kernel's status of a process: its name in front, the number of its threads further on. -/
theorem threadsIn_status {front : List Byte} (hfront : ¬ ascii "Threads:" <:+: front) {n : Nat}
    (hn : n ≤ 2147483647) (lines : List Byte) :
    threadsIn (front ++ ascii "Threads:" ++
      ('\t'.toUInt8 :: (decimal n ++ '\n'.toUInt8 :: lines))) = n := by
  have hblank : atoi ('\t'.toUInt8 :: (decimal n ++ '\n'.toUInt8 :: lines)) =
      atoi (decimal n ++ '\n'.toUInt8 :: lines) := by
    rw [atoi, strtol, List.dropWhile_cons_of_pos (by decide)]
    rfl
  rw [threadsIn_first hfront, hblank, atoi_decimal (by omega) rfl]

/-- **The ways to count do not agree.** Whatever order the directories are listed in, `threads`
gives the ids of the threads, each once and ascending, and `openedFiles` the number of the open
descriptors; `numThreads` is 0 whatever the kernel says, though what it looks for would be the
length of that list. -/
theorem thread_counts_disagree {names fdNames : List (List Byte)} {ids fds : List Int}
    (h : Lists names ids) (hids : ∀ id ∈ ids, 0 < id ∧ id ≤ 2147483647) (hnodup : ids.Nodup)
    (hfds : Lists fdNames fds) (hfd : ∀ fd ∈ fds, 0 ≤ fd) (hfew : fds.length ≤ 2147483647) :
    (∃ result, threads (some names) = .ok result ∧ result.Perm ids ∧ result.Pairwise (· < ·) ∧
      ∀ front, ¬ ascii "Threads:" <:+: front → ∀ lines, threadsIn (front ++ ascii "Threads:" ++
        ('\t'.toUInt8 :: (decimal ids.length ++ '\n'.toUInt8 :: lines))) = result.length) ∧
    openedFiles (some fdNames) = .ok (.of fds.length) ∧
    ∀ kernel, numThreads kernel = .ok 0 := by
  have hnumerals := h.numerals fun id hid => (hids id hid).1.le
  have hread := map_atoi fun id hid => ⟨(hids id hid).1.le, (hids id hid).2⟩
  have hperm : ((names.filter startsWithDigit).map atoi).Perm ids := by
    have hperm := hnumerals.map atoi
    rwa [hread] at hperm
  have hscan := scanDir_quiet taskDirFilter (fun _ _ => rfl) names []
  rw [foldl_taskDirFilter, List.nil_append] at hscan
  have hsame := (List.perm_insertionSort (· ≤ ·) ((names.filter startsWithDigit).map atoi)).trans
    hperm
  have hsorted := List.pairwise_insertionSort (· ≤ ·) ((names.filter startsWithDigit).map atoi)
  refine ⟨⟨_, congrArg (Except.map _) hscan, hsame, ?_, fun front hfront lines => ?_⟩,
    openedFiles_lists hfds hfd hfew, numThreads_eq⟩
  · exact (hsorted.and (hsame.nodup_iff.mpr hnodup)).imp fun hle => lt_of_le_of_ne hle.1 hle.2
  · rw [threadsIn_status hfront (length_le_of_ids hids hnodup), hsame.length_eq]

/-- A process of two threads, whose status says so. -/
theorem thread_counts_disagree_two :
    threads (some [ascii "12", ascii ".", ascii "7", ascii ".."]) = .ok [7, 12] ∧
      openedFiles (some [ascii ".", ascii "..", ascii "0", ascii "3"]) = .ok (.of 2) ∧
      ∀ kernel, numThreads kernel = .ok 0 := by
  have hnames : Lists [ascii "12", ascii ".", ascii "7", ascii ".."] [12, 7] := by decide
  have hfds : Lists [ascii ".", ascii "..", ascii "0", ascii "3"] [0, 3] := by decide
  obtain ⟨⟨result, hresult, -⟩, hopened, hnone⟩ :=
    thread_counts_disagree hnames (by decide) (by decide) hfds (by decide) (by decide)
  have hlist : result = [7, 12] := Except.ok.inj (hresult.symm.trans (by decide +kernel))
  exact ⟨hlist ▸ hresult, hopened, hnone⟩

/-- A process that calls itself so would be misread. -/
example : threadsIn (ascii "Name:\tThreads:9\nThreads:\t3\n") = 9 := by decide

end MyNet.Base.ProcessInfo
