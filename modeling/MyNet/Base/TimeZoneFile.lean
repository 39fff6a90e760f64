import MyNet.Base.TimeZone
import MyNet.Lib.FaultState

/-!
# The zone file format

A zone in the version-1 format: the header with its six counts, the transition times,
their type indices, the type records and the abbreviation characters. Reading undoes
writing, section by section, whatever follows the last one.
-/
namespace MyNet.Base

open Lib Lib.FaultState

/-- The bytes of an `int32_t` in network order. -/
def int32 (x : BitVec 32) : List Byte := bigEndian 4 x.toNat

structure ZoneType where
  offset : BitVec 32
  dst : Bool
  abbrind : Byte

structure Zone where
  /-- The transition times with their type indices. -/
  times : List (BitVec 32 × Byte)
  types : List ZoneType
  abbreviation : List Byte
  types_nonempty : types ≠ []
  index_lt : ∀ t ∈ times, t.2.toNat < types.length
  times_lt : times.length < 2147483648
  types_lt : types.length < 2147483648
  chars_lt : abbreviation.length < 2147483648

/-- The header fields that do not describe the sections read. -/
structure Header where
  version : Byte
  reserved : List Byte
  isgmtcnt : BitVec 32
  isstdcnt : BitVec 32
  leapcnt : BitVec 32
  reserved_length : reserved.length = 15

namespace ZoneType

def encode (t : ZoneType) : List Byte :=
  int32 t.offset ++ [if t.dst = true then 1 else 0, t.abbrind]

def localTime (t : ZoneType) : LocalTime := ⟨t.offset.toInt, t.dst, t.abbrind.toNat⟩

end ZoneType

namespace Zone

def encode (z : Zone) (h : Header) : List Byte :=
  ascii "TZif" ++ [h.version] ++ h.reserved ++
    int32 h.isgmtcnt ++ int32 h.isstdcnt ++ int32 h.leapcnt ++
    int32 (.ofNat 32 z.times.length) ++ int32 (.ofNat 32 z.types.length) ++
    int32 (.ofNat 32 z.abbreviation.length) ++
    z.times.flatMap (fun t => int32 t.1) ++ z.times.flatMap (fun t => [t.2]) ++
    z.types.flatMap ZoneType.encode ++ z.abbreviation

/-- The offset of the type with this index. -/
def offsetOf (z : Zone) (i : Nat) : Int := ((z.types[i]?).map fun t => t.offset.toInt).getD 0

/-- What the zone says. -/
def data (z : Zone) : TimeZoneData where
  transitions := z.times.map fun t =>
    ⟨t.1.toInt, t.1.toInt + z.offsetOf t.2.toNat, t.2.toNat⟩
  localtimes := z.types.map ZoneType.localTime
  abbreviation := z.abbreviation

end Zone

/-! ## Reading one value -/

theorem toNat_lt_256 (x : BitVec 32) : x.toNat < 256 ^ 4 := x.isLt

/-- The value of four bytes is their numeral, on any host. -/
theorem readInt32_four (host : ZoneHost) {read rest : List Byte} (h : read.length = 4) :
    File.readInt32 host (read ++ rest) = .ok (BitVec.ofNat 32 (ofBigEndian read)) rest := by
  have htake : (read ++ rest).take 4 = read := List.take_left' h
  have hdrop : (read ++ rest).drop 4 = rest := List.drop_left' h
  have hvalue := host.order.fromBig_interpret read
  rw [h] at hvalue
  simp only [File.readInt32, bind_apply, get_apply, set_apply, pure_apply, htake, hdrop, h,
    Nat.sub_self, List.replicate_zero, List.append_nil, hvalue]

theorem readInt32_int32 (host : ZoneHost) (x : BitVec 32) (rest : List Byte) :
    File.readInt32 host (int32 x ++ rest) = .ok x rest := by
  rw [int32, readInt32_four host (length_bigEndian 4 _), ofBigEndian_bigEndian,
    Nat.mod_eq_of_lt (toNat_lt_256 x), BitVec.ofNat_toNat, BitVec.setWidth_eq]

theorem readUint8_cons (b : Byte) (rest : List Byte) :
    File.readUint8 (b :: rest) = .ok b rest := rfl

theorem readBytes_take (host : ZoneHost) {n : Nat} (hn : n ≤ host.stack) (s : List Byte) :
    File.readBytes host n s = .ok (s.take n) (s.drop n) := by
  simp only [File.readBytes, bind_apply, pure_apply, get_apply, set_apply,
    if_neg (Nat.not_lt.mpr hn)]

theorem readBytes_append (host : ZoneHost) {read rest : List Byte} {n : Nat} (h : read.length = n)
    (hn : n ≤ host.stack) : File.readBytes host n (read ++ rest) = .ok read rest := by
  rw [readBytes_take host hn, List.take_left' h, List.drop_left' h]

/-- A counted loop reads back what was written item by item. -/
theorem readMany_flatMap {α β : Type} {read : FileM β} (write : α → List Byte)
    {value : α → β} (h : ∀ x rest, read (write x ++ rest) = .ok (value x) rest)
    (xs : List α) (rest : List Byte) :
    readMany read xs.length (xs.flatMap write ++ rest) = .ok (xs.map value) rest := by
  induction xs with
  | nil => rfl
  | cons x xs ih =>
    rw [List.flatMap_cons, List.append_assoc]
    simp only [List.length_cons, readMany, bind_apply, h, ih, pure_apply, List.map_cons]

theorem readLocalTime_encode (host : ZoneHost) (t : ZoneType) (rest : List Byte) :
    readLocalTime host (t.encode ++ rest) = .ok t.localTime rest := by
  have hdst : ((if t.dst = true then 1 else 0 : Byte) != 0) = t.dst := by
    cases t.dst <;> rfl
  rw [ZoneType.encode, List.append_assoc]
  simp only [readLocalTime, bind_apply, readInt32_int32, List.cons_append, List.nil_append,
    readUint8_cons, pure_apply, hdst, ZoneType.localTime]

theorem toInt_ofNat {n : Nat} (h : n < 2147483648) : (BitVec.ofNat 32 n).toInt = n := by
  have hn : (BitVec.ofNat 32 n).toNat = n := by
    rw [BitVec.toNat_ofNat]
    exact Nat.mod_eq_of_lt (by omega)
  rw [BitVec.toInt_eq_toNat_of_lt (by omega), hn]

theorem turns_ofNat {n : Nat} (h : n < 2147483648) : turns (.ofNat 32 n) = n := by
  rw [turns, toInt_ofNat h, Int.toNat_natCast]

/-- An `int32_t` that is not negative is the same `size_t`. -/
theorem toSize_of_nonneg {x : BitVec 32} (h : 0 ≤ x.toInt) : toSize x = turns x := by
  have hlt : 2 * (x.signExtend 64).toNat < 2 ^ 64 := by
    by_contra hge
    have hneg := BitVec.toInt_neg_iff.mpr (Nat.le_of_not_lt hge)
    rw [BitVec.toInt_signExtend_of_le (by decide)] at hneg
    omega
  have heq := BitVec.toInt_eq_toNat_of_lt hlt
  rw [BitVec.toInt_signExtend_of_le (by decide)] at heq
  rw [toSize, turns, heq, Int.toNat_natCast]

theorem toSize_ofNat {n : Nat} (h : n < 2147483648) : toSize (.ofNat 32 n) = n := by
  have hnonneg : 0 ≤ (BitVec.ofNat 32 n).toInt := by
    rw [toInt_ofNat h]
    omega
  rw [toSize_of_nonneg hnonneg, turns_ofNat h]

/-! ## Reading a zone -/

/-- Reading the header leaves the sections and their counts. -/
theorem readZone_header (host : ZoneHost) (data : TimeZoneData) (h : Header)
    (timecnt typecnt charcnt : BitVec 32) (sections : List Byte) :
    readZone host data ([h.version] ++ (h.reserved ++ (int32 h.isgmtcnt ++ (int32 h.isstdcnt ++
      (int32 h.leapcnt ++ (int32 timecnt ++ (int32 typecnt ++ (int32 charcnt ++ sections)))))))) =
    readSections host data timecnt typecnt charcnt sections := by
  have hone : 1 ≤ host.stack := by have := host.stack_range; omega
  have hversion (rest : List Byte) :
      File.readBytes host 1 ([h.version] ++ rest) = .ok [h.version] rest :=
    readBytes_append host List.length_singleton hone
  have hreserved (rest : List Byte) :
      File.readBytes host 15 (h.reserved ++ rest) = .ok h.reserved rest :=
    readBytes_append host h.reserved_length host.stack_range.1
  simp only [readZone, bind_apply, hversion, hreserved, readInt32_int32]

/-- The transition the loop makes of a time and the index of its type. -/
def transitionOf (localtimes : List LocalTime) (t : BitVec 32 × Byte) : Transition :=
  ⟨t.1.toInt, addTime t.1.toInt ((localtimes[t.2.toNat]?).map LocalTime.gmtOffset |>.getD 0),
    t.2.toNat⟩

theorem makeTransitions_ok {localtimes : List LocalTime} {ts : List (BitVec 32 × Byte)}
    (h : ∀ t ∈ ts, t.2.toNat < localtimes.length) (rest : List Byte) :
    makeTransitions localtimes ts rest = .ok (ts.map (transitionOf localtimes)) rest := by
  induction ts with
  | nil => rfl
  | cons t ts ih =>
    obtain ⟨time, i⟩ := t
    have hi : i.toNat < localtimes.length := h _ List.mem_cons_self
    have hrest := ih fun t ht => h t (List.mem_cons_of_mem _ ht)
    have hget := List.getElem?_eq_getElem hi
    simp only [makeTransitions, hget, bind_apply, hrest, pure_apply, List.map_cons, transitionOf,
      Option.map_some, Option.getD_some]

/-- Two 32-bit times never overflow a `time_t`. -/
theorem addTime_toInt (x y : BitVec 32) : addTime x.toInt y.toInt = x.toInt + y.toInt := by
  have hx := BitVec.toInt_lt (x := x)
  have hy := BitVec.toInt_lt (x := y)
  have hx' := BitVec.le_toInt x
  have hy' := BitVec.le_toInt y
  apply Int.bmod_eq_of_le <;> omega

theorem transitionOf_zone (z : Zone) (t : BitVec 32 × Byte) :
    transitionOf (z.types.map ZoneType.localTime) t =
      ⟨t.1.toInt, t.1.toInt + z.offsetOf t.2.toNat, t.2.toNat⟩ := by
  rw [transitionOf, Zone.offsetOf, List.getElem?_map]
  cases z.types[t.2.toNat]? with
  | none =>
    have h := addTime_toInt t.1 0
    exact congrArg (Transition.mk _ · _) h
  | some y => exact congrArg (Transition.mk _ · _) (addTime_toInt t.1 y.offset)

theorem reserve_small (host : ZoneHost) {n : Nat} (h : n < 2147483648) (rest : List Byte) :
    reserve host n rest =
      if 0 < n ∧ host.alloc (4 * n) = false then .error .badAlloc rest else .ok () rest := by
  have hmax : ¬maxSize / 4 < n := by
    unfold maxSize
    omega
  rw [reserve, if_neg hmax]
  split <;> rfl

/-- The vectors read from the sections of a zone make the zone's transitions. -/
theorem makeTransitions_zone (z : Zone) (rest : List Byte) :
    makeTransitions (z.types.map ZoneType.localTime)
      ((z.times.map Prod.fst).zip (z.times.map Prod.snd)) rest =
      .ok z.data.transitions rest := by
  have hzip : (z.times.map Prod.fst).zip (z.times.map Prod.snd) = z.times := by
    rw [List.zip_map']
    exact List.map_id z.times
  rw [hzip, makeTransitions_ok]
  · rw [Zone.data]
    exact congrArg (EStateM.Result.ok · rest) (List.map_congr_left fun t _ => transitionOf_zone z t)
  · intro t ht
    rw [List.length_map]
    exact z.index_lt t ht

/-- With memory for the times, all but the abbreviation of a zone is read. -/
theorem readSections_encode (host : ZoneHost) (z : Zone) (rest : List Byte)
    (h : ¬(0 < z.times.length ∧ host.alloc (4 * z.times.length) = false)) :
    readSections host ⟨[], [], []⟩ (.ofNat 32 z.times.length) (.ofNat 32 z.types.length)
      (.ofNat 32 z.abbreviation.length)
      (z.times.flatMap (fun t => int32 t.1) ++ (z.times.flatMap (fun t => [t.2]) ++
        (z.types.flatMap ZoneType.encode ++ (z.abbreviation ++ rest)))) =
    match File.readBytes host z.abbreviation.length (z.abbreviation ++ rest) with
    | .ok abbreviation left => .ok { z.data with abbreviation := abbreviation } left
    | .error e left => .error e left := by
  have htimes := readMany_flatMap (fun t : BitVec 32 × Byte => int32 t.1)
    (fun t => readInt32_int32 host t.1) z.times
  have hindices := readMany_flatMap (fun t : BitVec 32 × Byte => [t.2])
    (fun t => readUint8_cons t.2) z.times
  have htypes := readMany_flatMap ZoneType.encode (readLocalTime_encode host) z.types
  simp only [readSections, bind_apply, toSize_ofNat, turns_ofNat, z.times_lt, z.types_lt,
    z.chars_lt, reserve_small, if_neg h, htimes, hindices, htypes, List.nil_append,
    makeTransitions_zone, pure_apply]
  cases File.readBytes host z.abbreviation.length (z.abbreviation ++ rest) <;> rfl

/-- **Decoding undoes encoding.** What the format writes for a zone, followed by anything,
is read back as that zone. The host can only fail to give the memory it is asked for. -/
theorem decode_encode (host : ZoneHost) (z : Zone) (h : Header) (rest : List Byte) :
    readTimeZoneFile host (some (z.encode h ++ rest)) ⟨[], [], []⟩ =
      if 0 < z.times.length ∧ host.alloc (4 * z.times.length) = false then .error .badAlloc
      else if host.stack < z.abbreviation.length then .error .outOfRange
      else .ok (true, z.data) := by
  have hfour : 4 ≤ host.stack := by have := host.stack_range; omega
  have hmagic (rest : List Byte) :
      File.readBytes host 4 (ascii "TZif" ++ rest) = .ok (ascii "TZif") rest :=
    readBytes_append host rfl hfour
  simp only [readTimeZoneFile, Zone.encode, List.append_assoc, bind_apply, if_apply, hmagic,
    ne_eq, not_true_eq_false, if_false, readZone_header, pure_apply]
  by_cases hmemory : 0 < z.times.length ∧ host.alloc (4 * z.times.length) = false
  · simp only [readSections, bind_apply, toSize_ofNat, z.times_lt, reserve_small, if_pos hmemory]
  · rw [if_neg hmemory, readSections_encode host z rest hmemory]
    by_cases hstack : host.stack < z.abbreviation.length
    · simp only [File.readBytes, bind_apply, if_pos hstack, throw_apply]
    · rw [readBytes_append host rfl (Nat.le_of_not_lt hstack), if_neg hstack]
      rfl

end MyNet.Base
