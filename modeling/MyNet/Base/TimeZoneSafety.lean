import MyNet.Base.TimeZoneFile

/-!
# Which zone files are safe to read

Nothing the reader takes from the file is checked: a short read is ignored, a count is
used as it stands, and a file that cannot be opened counts as read. `WellFormed` is what a
file has to be for the constructor to end without a fault and to leave data that
`findLocalTime` can use.
-/
namespace MyNet.Base

open Lib Lib.FaultState

/-! ## Queries -/

/-- The data `findLocalTime` relies on. -/
structure Usable (data : TimeZoneData) : Prop where
  localtimes_nonempty : data.localtimes ≠ []
  index_lt : ∀ t ∈ data.transitions, t.localtimeIdx < data.localtimes.length

theorem at_lt {α : Type} {xs : List α} {i : Nat} (h : i < xs.length) : at_ xs i = .ok xs[i] := by
  rw [at_, List.getElem?_eq_getElem h]

/-- The halving stays in its interval, and when it ends at the front then the last element
it looked at was the front one. -/
theorem lower_bound_spec (transitions : List Transition) (sentry : Transition) (comp : Comp)
    (first len : Nat) (h : first + len ≤ transitions.length) :
    ∃ k, lower_bound transitions sentry comp first len = .ok k ∧ first ≤ k ∧ k ≤ first + len ∧
      (0 < len → k = first → ∀ front, transitions[first]? = some front →
        comp.less front sentry = false) := by
  induction first, len using lower_bound.induct with
  | case1 first =>
    refine ⟨first, ?_, Nat.le_refl _, Nat.le_refl _, fun hlen => absurd hlen (Nat.lt_irrefl 0)⟩
    rw [lower_bound, if_pos rfl]
  | case2 first len hlen half ihright ihleft =>
    have hhalf : half < len := Nat.div_lt_self (Nat.pos_of_ne_zero hlen) (by decide)
    have hmiddle : first + half < transitions.length := by omega
    rw [lower_bound, if_neg hlen]
    show ∃ k, (at_ transitions (first + half) >>= _) = _ ∧ _
    rw [at_lt hmiddle]
    cases hless : comp.less transitions[first + half] sentry with
    | true =>
      obtain ⟨k, hk, hfirst, hlast, -⟩ := ihright (by omega)
      refine ⟨k, ?_, by omega, by omega, by omega⟩
      simpa only [bind, Except.bind, hless, if_true] using hk
    | false =>
      obtain ⟨k, hk, hfirst, hlast, hfront⟩ := ihleft (by omega)
      refine ⟨k, ?_, hfirst, by omega, fun _ hkf front hget => ?_⟩
      · simpa only [bind, Except.bind, hless, Bool.false_eq_true, if_false] using hk
      · by_cases hzero : half = 0
        · rw [List.getElem?_eq_some_iff] at hget
          obtain ⟨_, rfl⟩ := hget
          simpa only [hzero, Nat.add_zero] using hless
        · exact hfront (by omega) hkf front hget

/-- Two transitions of which neither comes first are equal. -/
theorem Comp.equal_of_not_less (comp : Comp) {a b : Transition} (hab : comp.less a b = false)
    (hba : comp.less b a = false) : comp.equal a b = true := by
  obtain ⟨gmt⟩ := comp
  cases gmt <;> simp [Comp.less, Comp.equal] at * <;> omega

theorem findLocalTime_usable {data : TimeZoneData} (h : Usable data) (sentry : Transition)
    (comp : Comp) : ∃ l, findLocalTime data sentry comp = .ok l := by
  have hzero : at_ data.localtimes 0 = .ok (data.localtimes.head h.localtimes_nonempty) := by
    rw [at_lt (List.length_pos_iff.mpr h.localtimes_nonempty), List.head_eq_getElem]
  have hindex {i : Nat} (hi : i < data.transitions.length) :
      ∃ l, at_ data.localtimes (data.transitions[i]).localtimeIdx = .ok l :=
    ⟨_, at_lt (h.index_lt _ (List.getElem_mem hi))⟩
  unfold findLocalTime
  split
  · exact ⟨_, hzero⟩
  next front later htransitions =>
    by_cases hbefore : comp.less sentry front = true
    · rw [if_pos hbefore]
      exact ⟨_, hzero⟩
    rw [if_neg hbefore]
    have hpos : 0 < data.transitions.length := by simp [htransitions]
    obtain ⟨k, hk, -, hlast, hfront⟩ :=
      lower_bound_spec data.transitions sentry comp 0 data.transitions.length (by omega)
    simp only [hk, bind, Except.bind]
    by_cases hend : k = data.transitions.length
    · rw [if_neg (not_not_intro hend), at_lt (Nat.sub_lt hpos Nat.one_pos)]
      exact hindex _
    rw [if_pos hend]
    have hlt : k < data.transitions.length := by omega
    simp only [at_lt hlt]
    by_cases hequal : comp.equal sentry data.transitions[k] = true
    · rw [if_pos hequal]
      exact hindex hlt
    rw [if_neg hequal]
    -- an unequal transition found at the front would come before and after the sentry
    have hk0 : k ≠ 0 := by
      intro hk0
      have hhead : data.transitions[k] = front := by simp [hk0, htransitions]
      have hless := hfront hpos hk0 front (by simp [htransitions])
      rw [hhead] at hequal
      exact hequal (comp.equal_of_not_less (Bool.not_eq_true _ ▸ hbefore) hless)
    rw [if_neg hk0, at_lt (by omega : k - 1 < data.transitions.length)]
    exact hindex _

/-! ## Reading any bytes -/

/-- A counted loop over reads of `k` bytes always returns as many values. -/
theorem readMany_total {α : Type} {read : FileM α} {k : Nat}
    (h : ∀ s, ∃ x, read s = .ok x (s.drop k)) (n : Nat) (s : List Byte) :
    ∃ xs, xs.length = n ∧ readMany read n s = .ok xs (s.drop (k * n)) := by
  induction n generalizing s with
  | zero => exact ⟨[], rfl, rfl⟩
  | succ n ih =>
    obtain ⟨x, hx⟩ := h s
    obtain ⟨xs, hlength, hxs⟩ := ih (s.drop k)
    refine ⟨x :: xs, by rw [List.length_cons, hlength], ?_⟩
    rw [List.drop_drop, Nat.add_comm k, ← Nat.mul_succ] at hxs
    simp only [readMany, bind_apply, pure_apply, hx, hxs]

theorem readInt32_total (host : ZoneHost) (s : List Byte) :
    ∃ x, File.readInt32 host s = .ok x (s.drop 4) := ⟨_, rfl⟩

theorem readUint8_total (s : List Byte) : ∃ b, File.readUint8 s = .ok b (s.drop 1) := ⟨_, rfl⟩

theorem readLocalTime_total (host : ZoneHost) (s : List Byte) :
    ∃ l, readLocalTime host s = .ok l (s.drop 6) := by
  obtain ⟨gmtoff, hgmtoff⟩ := readInt32_total host s
  obtain ⟨isdst, hisdst⟩ := readUint8_total (s.drop 4)
  obtain ⟨abbrind, habbrind⟩ := readUint8_total (s.drop (4 + 1))
  simp only [readLocalTime, bind_apply, pure_apply, hgmtoff, hisdst, habbrind, List.drop_drop]
  exact ⟨_, rfl⟩

/-- Bytes that are there are read as they are. -/
theorem readMany_readUint8 {n : Nat} {s : List Byte} (h : n ≤ s.length) :
    readMany File.readUint8 n s = .ok (s.take n) (s.drop n) := by
  have hread := readMany_flatMap (fun b : Byte => [b]) readUint8_cons (s.take n) (s.drop n)
  rw [List.flatMap_singleton', List.take_append_drop, List.map_id', List.length_take,
    Nat.min_eq_left h] at hread
  exact hread

/-! ## What the sections need -/

/-- The host gives what the counts ask for. -/
structure Room (host : ZoneHost) (timecnt charcnt : BitVec 32) : Prop where
  times_nonneg : 0 ≤ timecnt.toInt
  memory : 0 < turns timecnt → host.alloc (4 * turns timecnt) = true
  chars_nonneg : 0 ≤ charcnt.toInt
  stack : turns charcnt ≤ host.stack

/-- A count that is negative as an `int32_t` is a huge `size_t`. -/
theorem toSize_of_neg {x : BitVec 32} (h : x.toInt < 0) : maxSize < toSize x := by
  have hneg : (x.signExtend 64).toInt < 0 := by
    rwa [BitVec.toInt_signExtend_of_le (by decide)]
  have hge := BitVec.toInt_neg_iff.mp hneg
  unfold maxSize toSize
  omega

theorem reserve_room {host : ZoneHost} {timecnt : BitVec 32} {s t : List Byte} {u : Unit}
    (h : reserve host (toSize timecnt) s = .ok u t) :
    t = s ∧ 0 ≤ timecnt.toInt ∧ (0 < turns timecnt → host.alloc (4 * turns timecnt) = true) := by
  have hnonneg : 0 ≤ timecnt.toInt := by
    by_contra hneg
    have hbig := toSize_of_neg (Int.not_le.mp hneg)
    rw [reserve, if_pos (by omega)] at h
    cases h
  rw [toSize_of_nonneg hnonneg] at h
  have hlt := BitVec.toInt_lt (x := timecnt)
  rw [reserve_small host (by unfold turns; omega)] at h
  split at h
  · cases h
  next hmemory =>
    cases h
    refine ⟨rfl, hnonneg, fun hpos => ?_⟩
    by_contra hfalse
    exact hmemory ⟨hpos, Bool.not_eq_true _ ▸ hfalse⟩

theorem readBytes_room {host : ZoneHost} {charcnt : BitVec 32} {s t abbreviation : List Byte}
    (h : File.readBytes host (toSize charcnt) s = .ok abbreviation t) :
    0 ≤ charcnt.toInt ∧ turns charcnt ≤ host.stack := by
  have hstack : toSize charcnt ≤ host.stack := by
    by_contra hbig
    rw [File.readBytes, if_pos (Nat.not_le.mp hbig)] at h
    cases h
  have hrange := host.stack_range
  have hnonneg : 0 ≤ charcnt.toInt := by
    by_contra hneg
    have hbig := toSize_of_neg (Int.not_le.mp hneg)
    unfold maxSize at hbig
    omega
  exact ⟨hnonneg, toSize_of_nonneg hnonneg ▸ hstack⟩

/-- The loop over the transitions checks every type index by using it. -/
theorem makeTransitions_range {localtimes : List LocalTime} {ts : List (BitVec 32 × Byte)}
    {transitions : List Transition} {s t : List Byte}
    (h : makeTransitions localtimes ts s = .ok transitions t) :
    ∀ p ∈ ts, p.2.toNat < localtimes.length := by
  induction ts generalizing transitions s t with
  | nil => intro p hp; cases hp
  | cons p ts ih =>
    obtain ⟨time, i⟩ := p
    cases hget : localtimes[i.toNat]? with
    | none =>
      simp only [makeTransitions, hget, throw_apply] at h
      cases h
    | some l =>
      simp only [makeTransitions, hget] at h
      obtain ⟨later, s', hlater, -⟩ := bind_ok h
      intro p hp
      rcases List.mem_cons.mp hp with rfl | hp
      · exact (List.getElem?_eq_some_iff.mp hget).1
      · exact ih hlater p hp

/-- The bytes of the type indices. -/
def indexBytes (timecnt : BitVec 32) (sections : List Byte) : List Byte :=
  (sections.drop (4 * turns timecnt)).take (turns timecnt)

/-- What is known of the data once the sections have been read. -/
structure SectionsRead (host : ZoneHost) (timecnt typecnt charcnt : BitVec 32)
    (sections : List Byte) (data : TimeZoneData) : Prop where
  room : Room host timecnt charcnt
  transitions_length : data.transitions.length = turns timecnt
  localtimes_length : data.localtimes.length = turns typecnt
  index_lt : ∀ t ∈ data.transitions, t.localtimeIdx < data.localtimes.length
  indexBytes_lt : 5 * turns timecnt ≤ sections.length →
    ∀ b ∈ indexBytes timecnt sections, b.toNat < turns typecnt

theorem readSections_ok {host : ZoneHost} {timecnt typecnt charcnt : BitVec 32}
    {sections left : List Byte} {data : TimeZoneData}
    (h : readSections host ⟨[], [], []⟩ timecnt typecnt charcnt sections = .ok data left) :
    SectionsRead host timecnt typecnt charcnt sections data := by
  obtain ⟨_, _, hreserve, hread⟩ := bind_ok h
  obtain ⟨rfl, htimes, hmemory⟩ := reserve_room hreserve
  obtain ⟨trans, _, htrans, hread⟩ := bind_ok hread
  obtain ⟨indices, _, hindices, hread⟩ := bind_ok hread
  obtain ⟨types, _, htypes, hread⟩ := bind_ok hread
  obtain ⟨transitions, _, htransitions, hread⟩ := bind_ok hread
  obtain ⟨abbreviation, _, habbreviation, hread⟩ := bind_ok hread
  cases hread
  obtain ⟨hchars, hstack⟩ := readBytes_room habbreviation
  obtain ⟨_, htranslen, hxs⟩ := readMany_total (readInt32_total host) (turns timecnt) _
  cases hxs.symm.trans htrans
  obtain ⟨_, hindiceslen, hys⟩ := readMany_total readUint8_total (turns timecnt) _
  cases hys.symm.trans hindices
  obtain ⟨_, htypeslen, hzs⟩ := readMany_total (readLocalTime_total host) (turns typecnt) _
  cases hzs.symm.trans htypes
  have hrange := makeTransitions_range htransitions
  rw [makeTransitions_ok hrange] at htransitions
  cases htransitions
  have hsnd : (trans.zip indices).map Prod.snd = indices := List.map_snd_zip (by omega)
  exact {
    room := ⟨htimes, hmemory, hchars, hstack⟩
    transitions_length := by
      simp only [List.nil_append, List.length_map, List.length_zip, htranslen, hindiceslen,
        Nat.min_self]
    localtimes_length := htypeslen
    index_lt := by
      intro t ht
      obtain ⟨p, hp, rfl⟩ := List.mem_map.mp ht
      exact hrange p hp
    indexBytes_lt := by
      intro hlength b hb
      rw [readMany_readUint8 (by rw [List.length_drop]; omega)] at hys
      have hbytes : indexBytes timecnt _ = indices := (EStateM.Result.ok.inj hys).1
      rw [hbytes, ← hsnd] at hb
      obtain ⟨p, hp, rfl⟩ := List.mem_map.mp hb
      exact htypeslen ▸ hrange p hp }

theorem readSections_returns {host : ZoneHost} {timecnt charcnt : BitVec 32} (typecnt : BitVec 32)
    {sections : List Byte} (hroom : Room host timecnt charcnt)
    (hlength : 5 * turns timecnt ≤ sections.length)
    (hindex : ∀ b ∈ indexBytes timecnt sections, b.toNat < turns typecnt) :
    ∃ data left, readSections host ⟨[], [], []⟩ timecnt typecnt charcnt sections =
      .ok data left := by
  obtain ⟨trans, htranslen, htrans⟩ :=
    readMany_total (readInt32_total host) (turns timecnt) sections
  have hindices : readMany File.readUint8 (turns timecnt) (sections.drop (4 * turns timecnt)) =
      .ok (indexBytes timecnt sections)
        ((sections.drop (4 * turns timecnt)).drop (turns timecnt)) :=
    readMany_readUint8 (by rw [List.length_drop]; omega)
  obtain ⟨types, htypeslen, htypes⟩ := readMany_total (readLocalTime_total host) (turns typecnt)
    ((sections.drop (4 * turns timecnt)).drop (turns timecnt))
  have hrange : ∀ p ∈ trans.zip (indexBytes timecnt sections), p.2.toNat < types.length := by
    intro p hp
    rw [htypeslen]
    exact hindex p.2 (List.of_mem_zip hp).2
  have hsmall : turns timecnt < 2147483648 := by
    have hlt := BitVec.toInt_lt (x := timecnt)
    unfold turns
    omega
  have hmemory : ¬(0 < turns timecnt ∧ host.alloc (4 * turns timecnt) = false) := by
    rintro ⟨hpos, hfalse⟩
    exact Bool.false_ne_true (hfalse.symm.trans (hroom.memory hpos))
  simp only [readSections, bind_apply, toSize_of_nonneg hroom.times_nonneg,
    toSize_of_nonneg hroom.chars_nonneg, reserve_small host hsmall, if_neg hmemory, htrans,
    hindices, htypes, List.nil_append, makeTransitions_ok hrange,
    readBytes_take host hroom.stack, pure_apply]
  exact ⟨_, _, rfl⟩

/-! ## The header -/

/-- The count in the four bytes from `i` on. -/
def countAt (bytes : List Byte) (i : Nat) : BitVec 32 :=
  .ofNat 32 (ofBigEndian ((bytes.drop i).take 4))

def timecnt (bytes : List Byte) : BitVec 32 := countAt bytes 32

def typecnt (bytes : List Byte) : BitVec 32 := countAt bytes 36

def charcnt (bytes : List Byte) : BitVec 32 := countAt bytes 40

/-- Any four bytes are the count they say. -/
theorem drop_int32 {bytes : List Byte} {i : Nat} (h : i + 4 ≤ bytes.length) :
    bytes.drop i = int32 (countAt bytes i) ++ bytes.drop (i + 4) := by
  have hfour : ((bytes.drop i).take 4).length = 4 := by
    rw [List.length_take, List.length_drop]
    omega
  have hlt := ofBigEndian_lt ((bytes.drop i).take 4)
  rw [hfour] at hlt
  have hvalue : (countAt bytes i).toNat = ofBigEndian ((bytes.drop i).take 4) := by
    rw [countAt, BitVec.toNat_ofNat]
    exact Nat.mod_eq_of_lt hlt
  have hbytes := bigEndian_ofBigEndian ((bytes.drop i).take 4)
  rw [hfour] at hbytes
  rw [int32, hvalue, hbytes, ← List.drop_drop, List.take_append_drop]

/-- Behind the magic, a file with all of a header is read by its counts. -/
theorem readZone_any (host : ZoneHost) {bytes : List Byte} (h : 44 ≤ bytes.length) :
    readZone host ⟨[], [], []⟩ (bytes.drop 4) =
      readSections host ⟨[], [], []⟩ (timecnt bytes) (typecnt bytes) (charcnt bytes)
        (bytes.drop 44) := by
  have hlength : ((bytes.drop 5).take 15).length = 15 := by
    rw [List.length_take, List.length_drop]
    omega
  have hversion : bytes.drop 4 = [bytes[4]] ++ bytes.drop 5 := List.drop_eq_getElem_cons (by omega)
  have hreserved : bytes.drop 5 = (bytes.drop 5).take 15 ++ bytes.drop 20 := by
    rw [← List.drop_drop (i := 15), List.take_append_drop]
  rw [hversion, hreserved, drop_int32 (i := 20) (by omega), drop_int32 (i := 24) (by omega),
    drop_int32 (i := 28) (by omega), drop_int32 (i := 32) (by omega),
    drop_int32 (i := 36) (by omega), drop_int32 (i := 40) (by omega)]
  exact readZone_header host _ ⟨bytes[4], (bytes.drop 5).take 15, countAt bytes 20,
    countAt bytes 24, countAt bytes 28, hlength⟩ _ _ _ _

/-! ## The constructor -/

theorem new_other (host : ZoneHost) {bytes : List Byte} (h : bytes.take 4 ≠ ascii "TZif") :
    TimeZone.new host (some bytes) = .ok ⟨none⟩ := by
  have hfour : 4 ≤ host.stack := by have := host.stack_range; omega
  simp only [TimeZone.new, readTimeZoneFile, bind_apply, readBytes_take host hfour, if_apply,
    if_pos h, pure_apply]
  rfl

theorem new_magic (host : ZoneHost) {bytes : List Byte} (h : bytes.take 4 = ascii "TZif") :
    TimeZone.new host (some bytes) =
      match readZone host ⟨[], [], []⟩ (bytes.drop 4) with
      | .ok data _ => .ok ⟨some data⟩
      | .error e _ => .error e := by
  have hfour : 4 ≤ host.stack := by have := host.stack_range; omega
  simp only [TimeZone.new, readTimeZoneFile, bind_apply, readBytes_take host hfour, if_apply, h,
    ne_eq, not_true_eq_false, if_false, pure_apply]
  cases readZone host ⟨[], [], []⟩ (bytes.drop 4) <;> rfl

/-- As many transitions and types as the header counts are in the data and in the file. -/
structure CountsPresent (bytes : List Byte) (data : TimeZoneData) : Prop where
  transitions : (data.transitions.length : Int) = (timecnt bytes).toInt
  localtimes : (data.localtimes.length : Int) = (typecnt bytes).toInt
  present : 44 + 5 * data.transitions.length + 6 * data.localtimes.length ≤ bytes.length

/-- The constructor ends without a fault, and a zone that says it is valid was read from
what is in the file and answers every query. -/
def Sound (host : ZoneHost) (timezone_file : Option (List Byte)) : Prop :=
  ∃ tz, TimeZone.new host timezone_file = .ok tz ∧
    (tz.valid = true → ∃ bytes data, timezone_file = some bytes ∧ tz.m_spDate = some data ∧
      Usable data ∧ CountsPresent bytes data ∧
      ∀ sentry comp, ∃ l, findLocalTime data sentry comp = .ok l)

/-- The counts are sizes the host has room for, the file has all they count, there is a
type, and every transition has one of the types. -/
structure WellFormed (host : ZoneHost) (bytes : List Byte) : Prop where
  room : Room host (timecnt bytes) (charcnt bytes)
  types_pos : 0 < (typecnt bytes).toInt
  present : 44 + 5 * turns (timecnt bytes) + 6 * turns (typecnt bytes) ≤ bytes.length
  indexBytes_lt : ∀ b ∈ indexBytes (timecnt bytes) (bytes.drop 44),
    b.toNat < turns (typecnt bytes)

theorem turns_nonneg {x : BitVec 32} (h : 0 ≤ x.toInt) : (turns x : Int) = x.toInt :=
  Int.toNat_of_nonneg h

theorem sound_of_wellFormed {host : ZoneHost} {bytes : List Byte}
    (hmagic : bytes.take 4 = ascii "TZif") (h : WellFormed host bytes) :
    Sound host (some bytes) := by
  have hpresent := h.present
  have hlength : 5 * turns (timecnt bytes) ≤ (bytes.drop 44).length := by
    rw [List.length_drop]
    omega
  obtain ⟨data, left, hdata⟩ :=
    readSections_returns (typecnt bytes) h.room hlength h.indexBytes_lt
  have hread := readSections_ok hdata
  have htypes := turns_nonneg (Int.le_of_lt h.types_pos)
  have husable : Usable data := by
    refine ⟨fun hempty => ?_, hread.index_lt⟩
    have hnone := hread.localtimes_length
    have hpos := h.types_pos
    rw [hempty, List.length_nil] at hnone
    omega
  refine ⟨⟨some data⟩, ?_, fun _ => ⟨bytes, data, rfl, rfl, husable, ?_,
    findLocalTime_usable husable⟩⟩
  · rw [new_magic host hmagic, readZone_any host (by omega), hdata]
  · constructor
    · rw [hread.transitions_length, turns_nonneg h.room.times_nonneg]
    · rw [hread.localtimes_length, htypes]
    · rw [hread.transitions_length, hread.localtimes_length]
      exact h.present

theorem wellFormed_of_sound {host : ZoneHost} {bytes : List Byte}
    (hmagic : bytes.take 4 = ascii "TZif") (h : Sound host (some bytes)) :
    WellFormed host bytes := by
  obtain ⟨tz, hnew, hvalid⟩ := h
  rw [new_magic host hmagic] at hnew
  split at hnew
  · next data left hdata =>
      cases hnew
      obtain ⟨_, _, hbytes, htz, husable, hcounts, -⟩ := hvalid rfl
      cases hbytes
      cases htz
      have hpresent := hcounts.present
      rw [readZone_any host (by omega)] at hdata
      have hread := readSections_ok hdata
      have hpos := List.length_pos_iff.mpr husable.localtimes_nonempty
      rw [hread.transitions_length, hread.localtimes_length] at hpresent
      exact {
        room := hread.room
        types_pos := by rw [← hcounts.localtimes]; omega
        present := hpresent
        indexBytes_lt := hread.indexBytes_lt (by rw [List.length_drop]; omega) }
  · cases hnew

/-- **When the constructor is safe.** It ends without a fault, and leaves data that queries
can use, exactly for the files that open and that either are rejected by their first four
bytes or have all that their header promises. -/
theorem constructor_sound_iff (host : ZoneHost) (timezone_file : Option (List Byte)) :
    Sound host timezone_file ↔
      ∃ bytes, timezone_file = some bytes ∧
        (bytes.take 4 ≠ ascii "TZif" ∨ WellFormed host bytes) := by
  constructor
  · intro h
    cases timezone_file with
    | none =>
      obtain ⟨tz, hnew, hvalid⟩ := h
      cases hnew
      obtain ⟨bytes, _, hnone, -⟩ := hvalid rfl
      cases hnone
    | some bytes =>
      refine ⟨bytes, rfl, ?_⟩
      by_cases hmagic : bytes.take 4 = ascii "TZif"
      · exact .inr (wellFormed_of_sound hmagic h)
      · exact .inl hmagic
  · rintro ⟨bytes, rfl, hother | hwell⟩
    · refine ⟨⟨none⟩, new_other host hother, fun hvalid => ?_⟩
      cases hvalid
    · by_cases hmagic : bytes.take 4 = ascii "TZif"
      · exact sound_of_wellFormed hmagic hwell
      · exact ⟨⟨none⟩, new_other host hmagic, fun hvalid => by cases hvalid⟩

/-- A host with memory for everything and a stack of 8 MiB. -/
def roomyHost : ZoneHost := ⟨.little, fun _ => true, 8388608, by decide⟩

/-- A file that cannot be opened gives a valid zone on which every query reads outside. -/
theorem constructor_unopened :
    TimeZone.new roomyHost none = .ok ⟨some ⟨[], [], []⟩⟩ ∧
      (∀ sentry comp, findLocalTime ⟨[], [], []⟩ sentry comp = .error .outOfRange) ∧
      ¬Sound roomyHost none := by
  refine ⟨rfl, fun _ _ => rfl, ?_⟩
  rintro ⟨tz, hnew, hvalid⟩
  cases hnew
  obtain ⟨bytes, _, hnone, -⟩ := hvalid rfl
  cases hnone

end MyNet.Base
