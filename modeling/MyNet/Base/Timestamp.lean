import MyNet.Base.FieldOrder
import MyNet.Base.LoggingTime
import MyNet.Base.LogStreamNumeral

/-!
# `Timestamp`

Microseconds since 1970 in an `int64_t`. `toString` loses nothing of any value, and from 1970
to 9999 the texts of `toFormatedString` are in the order of the timestamps. A record of a
`Logger` that has no time zone begins with that text, although most of it is taken from the
thread's cache.
-/
namespace MyNet.Base

open Lib Lib.FaultState Lib.Gregorian Lib.Numeral Lib.TextOrder

structure Timestamp where
  m_microSecsSinceEpoch : Int64
  deriving DecidableEq

/-- What `gettimeofday` fills in. -/
structure Timeval where
  tv_sec : Int64
  tv_usec : Int64

namespace Timestamp

def kMicroSecsPerSecond : Int64 := 1000 * 1000

def secsSinceEpoch (t : Timestamp) : Int64 := t.m_microSecsSinceEpoch / kMicroSecsPerSecond

def toString (t : Timestamp) : List Byte :=
  let seconds := t.m_microSecsSinceEpoch / kMicroSecsPerSecond
  let microSeconds := t.m_microSecsSinceEpoch % kMicroSecsPerSecond
  printed 31 (decimal seconds.toInt ++ ascii "." ++ zeroPadded 6 microSeconds.toInt)

def toFormatedString (t : Timestamp) : List Byte :=
  let seconds := t.m_microSecsSinceEpoch / kMicroSecsPerSecond
  let microseconds := (t.m_microSecsSinceEpoch % kMicroSecsPerSecond).toInt32
  let tm_time := gmtime seconds.toInt
  printed 32 (timeText tm_time ++ ascii "." ++ zeroPadded 6 microseconds.toInt)

def now (tv : Timeval) : Timestamp := ⟨tv.tv_sec * kMicroSecsPerSecond + tv.tv_usec⟩

def invalid : Timestamp := ⟨0⟩

def valid (t : Timestamp) : Bool := t.m_microSecsSinceEpoch > 0

/-- `operator <` -/
def lt (a b : Timestamp) : Bool := a.m_microSecsSinceEpoch < b.m_microSecsSinceEpoch

/-- `operator ==` -/
def eq (a b : Timestamp) : Bool := a.m_microSecsSinceEpoch = b.m_microSecsSinceEpoch

/-! ## Seconds and microseconds -/

/-- The value, not in `int64_t` but as a number. -/
def micros (t : Timestamp) : Int := t.m_microSecsSinceEpoch.toInt

theorem micros_range (t : Timestamp) : -2 ^ 63 ≤ t.micros ∧ t.micros < 2 ^ 63 :=
  ⟨t.m_microSecsSinceEpoch.le_toInt, t.m_microSecsSinceEpoch.toInt_lt⟩

theorem seconds_eq (t : Timestamp) :
    (t.m_microSecsSinceEpoch / kMicroSecsPerSecond).toInt = t.micros.tdiv 1000000 :=
  Int64.toInt_div_of_ne_right _ _ (by decide)

theorem microSeconds_eq (t : Timestamp) :
    (t.m_microSecsSinceEpoch % kMicroSecsPerSecond).toInt = t.micros.tmod 1000000 :=
  Int64.toInt_mod _ _

theorem tmod_range (v : Int) : -1000000 < v.tmod 1000000 ∧ v.tmod 1000000 < 1000000 := by
  have hlt := Int.tmod_lt_of_pos v (by decide : (0 : Int) < 1000000)
  have hgt := Int.tmod_lt_of_pos (-v) (by decide : (0 : Int) < 1000000)
  rw [Int.neg_tmod] at hgt
  omega

/-- The microseconds keep their value in an `int`. -/
theorem microseconds_int (t : Timestamp) :
    (t.m_microSecsSinceEpoch % kMicroSecsPerSecond).toInt32.toInt = t.micros.tmod 1000000 := by
  have hrange := tmod_range t.micros
  rw [Int64.toInt_toInt32, microSeconds_eq, Int.bmod_eq_of_le (by omega) (by omega)]

/-! ## Reading `toString` back -/

theorem parseInt_signed (k : Nat) (v : Int) : parseInt (signed k v) = some v := by
  have hdigits : ∀ d ∈ List.replicate k 0 ++ numeral 10 v.natAbs, d < 10 := fun d => digit_lt
  have hne : List.replicate k 0 ++ numeral 10 v.natAbs ≠ [] :=
    List.append_ne_nil_of_right_ne_nil _ (numeral_canonical (by decide) _).nonempty
  have hall : (List.replicate k 0 ++ numeral 10 v.natAbs).all (· < 10) = true :=
    List.all_eq_true.mpr fun d hd => decide_eq_true (hdigits d hd)
  have hparse : parseNat 10 (zeroed k v.natAbs) = some v.natAbs := by
    rw [zeroed, parseNat, mapM_digitValue fun d hd => Nat.lt_trans (hdigits d hd) (by decide)]
    exact (if_pos ⟨hne, hall⟩).trans (congrArg some (value_zeroed k v.natAbs))
  unfold signed
  by_cases hneg : v < 0
  · rw [if_pos hneg, List.singleton_append, parseInt, if_pos rfl, hparse, Option.map_some]
    congr 1
    omega
  · rw [if_neg hneg, List.nil_append]
    cases hzeroed : zeroed k v.natAbs with
    | nil => exact absurd (List.map_eq_nil_iff.mp hzeroed) hne
    | cons c rest =>
      have hc : c ∈ zeroed k v.natAbs := by
        rw [hzeroed]
        exact List.mem_cons_self
      rw [hzeroed] at hparse
      rw [parseInt, if_neg (zeroed_plain hc).2.2, hparse, Option.map_some]
      congr 1
      omega

/-- The number in front of the point and the one behind it. -/
def read (text : List Byte) : Option Int := do
  let seconds ← parseInt (text.takeWhile (· != '.'.toUInt8))
  let microSeconds ← parseInt ((text.dropWhile (· != '.'.toUInt8)).drop 1)
  return seconds * 1000000 + microSeconds

theorem signed_ne_point {k : Nat} {v : Int} {c : Byte} (h : c ∈ signed k v) :
    (c != '.'.toUInt8) = true := by
  have hdigit : ∀ d < 10, (digitChar d != '.'.toUInt8) = true := by decide
  rcases List.mem_append.mp h with hsign | hnumber
  · split at hsign
    · rw [List.mem_singleton.mp hsign]
      decide
    · cases hsign
  · obtain ⟨d, hd, rfl⟩ := List.mem_map.mp hnumber
    exact hdigit d (digit_lt hd)

theorem read_texts (j k : Nat) (v w : Int) :
    read (signed j v ++ ascii "." ++ signed k w) = some (v * 1000000 + w) := by
  have hfront : ∀ c ∈ signed j v, (c != '.'.toUInt8) = true := fun c => signed_ne_point
  have hpoint : ascii "." ++ signed k w = '.'.toUInt8 :: signed k w := rfl
  have hstop : ('.'.toUInt8 != '.'.toUInt8) = false := by decide
  rw [read, List.append_assoc, hpoint, List.takeWhile_append_of_pos hfront,
    List.dropWhile_append_of_pos hfront, List.takeWhile_cons, List.dropWhile_cons, hstop]
  simp only [Bool.false_eq_true, if_false, List.append_nil, List.drop_succ_cons, List.drop_zero,
    parseInt_signed]
  rfl

/-- `snprintf` leaves out nothing. -/
theorem toString_whole (t : Timestamp) :
    t.toString = decimal (t.micros.tdiv 1000000) ++ ascii "." ++
        zeroPadded 6 (t.micros.tmod 1000000) ∧ t.toString.length ≤ 22 := by
  obtain ⟨hlow, hup⟩ := t.micros_range
  have hrange := tmod_range t.micros
  have hsplit := Int.mul_tdiv_add_tmod t.micros 1000000
  have hseconds := (length_decimal_le 12 (t.micros.tdiv 1000000)).mpr (by norm_num; omega)
  have hmicro := (length_decimal_le 5 (t.micros.tmod 1000000)).mpr (by norm_num; omega)
  have hlength : (decimal (t.micros.tdiv 1000000) ++ ascii "." ++
      zeroPadded 6 (t.micros.tmod 1000000)).length ≤ 22 := by
    rw [List.length_append, List.length_append, length_zeroPadded]
    change (decimal (t.micros.tdiv 1000000)).length + 1 + max 6 _ ≤ 22
    omega
  have htext : t.toString = decimal (t.micros.tdiv 1000000) ++ ascii "." ++
      zeroPadded 6 (t.micros.tmod 1000000) := by
    rw [toString, printed, seconds_eq, microSeconds_eq, List.take_of_length_le (by omega)]
  exact ⟨htext, htext ▸ hlength⟩

theorem minus_mem_zeroPadded (width : Nat) (v : Int) :
    '-'.toUInt8 ∈ zeroPadded width v ↔ v < 0 := by
  obtain ⟨k, hk⟩ := zeroPadded_signed width v
  rw [hk, signed, List.mem_append]
  constructor
  · rintro (hsign | hdigit)
    · by_contra hpos
      rw [if_neg hpos] at hsign
      cases hsign
    · exact absurd rfl (zeroed_plain hdigit).2.2
  · intro hneg
    rw [if_pos hneg]
    exact .inl (List.mem_singleton.mpr rfl)

/-- **`toString` loses nothing.** Whatever the `int64_t`, the text fits its array, and the
numbers in front of and behind the point give the value back; so different timestamps have
different texts. A sign stands behind the point exactly when the microseconds left over are
negative, and then it is no decimal number. -/
theorem toString_reads_back (t : Timestamp) :
    t.toString.length ≤ 30 ∧ read t.toString = some t.micros ∧
      (∀ u : Timestamp, u.toString = t.toString → u = t) ∧
      ('-'.toUInt8 ∈ t.toString.dropWhile (· != '.'.toUInt8) ↔ t.micros.tmod 1000000 < 0) := by
  have hread (u : Timestamp) : read u.toString = some u.micros := by
    obtain ⟨k, hk⟩ := zeroPadded_signed 6 (u.micros.tmod 1000000)
    have hsplit := Int.mul_tdiv_add_tmod u.micros 1000000
    rw [u.toString_whole.1, hk, show decimal (u.micros.tdiv 1000000) =
      signed 0 (u.micros.tdiv 1000000) from rfl, read_texts]
    congr 1
    omega
  refine ⟨Nat.le_trans t.toString_whole.2 (by decide), hread t, fun u hu => ?_, ?_⟩
  · have hsame := hread u
    rw [hu, hread t] at hsame
    exact congrArg Timestamp.mk (Int64.toInt_inj.mp (Option.some.inj hsame).symm)
  · have hfront : ∀ c ∈ decimal (t.micros.tdiv 1000000), (c != '.'.toUInt8) = true :=
      fun c => signed_ne_point (k := 0)
    have hpoint : ascii "." ++ zeroPadded 6 (t.micros.tmod 1000000) =
      '.'.toUInt8 :: zeroPadded 6 (t.micros.tmod 1000000) := rfl
    have hstop : ('.'.toUInt8 != '.'.toUInt8) = false := by decide
    rw [t.toString_whole.1, List.append_assoc, hpoint, List.dropWhile_append_of_pos hfront,
      List.dropWhile_cons, hstop, if_neg (by decide), List.mem_cons, minus_mem_zeroPadded]
    exact or_iff_right (by decide)

example : toString ⟨-1⟩ = ascii "0.-00001" := by decide

/-! ## The order of `toFormatedString` -/

/-- From 1970 to 9999. -/
def InYears (t : Timestamp) : Prop := 0 ≤ t.micros ∧ t.micros < 253402300800000000

instance (t : Timestamp) : Decidable t.InYears := inferInstanceAs (Decidable (_ ∧ _))

theorem InYears.seconds {t : Timestamp} (h : t.InYears) : Years (t.micros.tdiv 1000000) := by
  obtain ⟨hlow, hup⟩ := h
  rw [Int.tdiv_eq_ediv_of_nonneg hlow]
  constructor <;> omega

theorem InYears.keeps {t : Timestamp} (h : t.InYears) : Keeps 6 (t.micros.tmod 1000000) := by
  rw [Int.tmod_eq_emod_of_nonneg h.1]
  constructor <;> norm_num <;> omega

/-- `snprintf` leaves out nothing. -/
theorem toFormatedString_whole {t : Timestamp} (h : t.InYears) :
    t.toFormatedString = timeText (gmtime (t.micros.tdiv 1000000)) ++
        (ascii "." ++ zeroPadded 6 (t.micros.tmod 1000000)) ∧ t.toFormatedString.length = 24 := by
  have hlength : (timeText (gmtime (t.micros.tdiv 1000000)) ++
      (ascii "." ++ zeroPadded 6 (t.micros.tmod 1000000))).length = 24 := by
    rw [List.length_append, List.length_append, (length_timeText _).mpr (gmtime_fits h.seconds),
      h.keeps.length_zeroPadded (by decide)]
    rfl
  have htext : t.toFormatedString = timeText (gmtime (t.micros.tdiv 1000000)) ++
      (ascii "." ++ zeroPadded 6 (t.micros.tmod 1000000)) := by
    rw [toFormatedString, printed, seconds_eq, microseconds_int, List.append_assoc,
      List.take_of_length_le (by omega)]
  exact ⟨htext, htext ▸ hlength⟩

/-- **The formatted texts are in the order of time.** From 1970 to 9999 every text has its 24
characters, and the texts of two timestamps compare as the timestamps do. -/
theorem toFormatedString_in_order {t u : Timestamp} (ht : t.InYears) (hu : u.InYears) :
    t.toFormatedString.length = 24 ∧
      (t.toFormatedString < u.toFormatedString ↔ t.lt u = true) ∧
      (t.toFormatedString = u.toFormatedString ↔ t.eq u = true) := by
  obtain ⟨hsecond, hsecond'⟩ := timeText_lt_iff ht.seconds hu.seconds
  obtain ⟨hmicro, hmicro'⟩ := zeroPadded_lt_iff (by decide) ht.keeps hu.keeps
  have hlength : (timeText (gmtime (t.micros.tdiv 1000000))).length =
      (timeText (gmtime (u.micros.tdiv 1000000))).length :=
    ((length_timeText _).mpr (gmtime_fits ht.seconds)).trans
      ((length_timeText _).mpr (gmtime_fits hu.seconds)).symm
  have hsplit := Int.mul_tdiv_add_tmod t.micros 1000000
  have hsplit' := Int.mul_tdiv_add_tmod u.micros 1000000
  have hrange := tmod_range t.micros
  have hrange' := tmod_range u.micros
  have hlow := ht.keeps.1
  have hlow' := hu.keeps.1
  have hlt : t.lt u = true ↔ t.micros < u.micros :=
    decide_eq_true_iff.trans Int64.lt_iff_toInt_lt
  have heq : t.eq u = true ↔ t.micros = u.micros :=
    decide_eq_true_iff.trans Int64.toInt_inj.symm
  refine ⟨(toFormatedString_whole ht).2, ?_, ?_⟩
  · rw [(toFormatedString_whole ht).1, (toFormatedString_whole hu).1, append_lt_append_iff hlength,
      append_lt_append_iff rfl, hsecond, hsecond', hmicro, hlt]
    have hpoint : ¬ascii "." < ascii "." := List.lt_irrefl _
    simp only [hpoint, true_and, false_or]
    omega
  · rw [(toFormatedString_whole ht).1, (toFormatedString_whole hu).1, heq]
    constructor
    · intro h
      obtain ⟨hfront, hbehind⟩ := List.append_inj h hlength
      have hfirst := hsecond'.mp hfront
      have hlast := hmicro'.mp (List.append_cancel_left hbehind)
      omega
    · intro h
      rw [h]

/-- The last microsecond of 2015 and the first of 2016. -/
theorem toFormatedString_in_order_newYear :
    toFormatedString ⟨1451606399999999⟩ < toFormatedString ⟨1451606400000000⟩ :=
  (toFormatedString_in_order (by decide) (by decide)).2.1.mpr (by decide)

end Timestamp

/-! ## The front of a record -/

namespace LogThreads

/-- Without a time zone the whole text of `formatTime` is known. -/
theorem formatTime_content {env : LogEnv} {m_time : Int} {t time : LogTime} {s buf : LogBuffer}
    (hs : s.Inside) (hcur : s.m_cur = 0) (hzone : env.g_logTimeZone.valid = false)
    (h : Logger.formatTime env m_time t s = .ok time buf) :
    buf.content = time.t_time.take 17 ++
      (ascii "." ++ zeroPadded 6 (m_time.tmod kMicroSecsPerSecond) ++ ascii "Z ") := by
  obtain ⟨hup, hstr, hus⟩ := formatTime_requires h
  have hpieces : Logger.insertTime env time.t_time (m_time.tmod kMicroSecsPerSecond) =
      insertPieces time.t_time
        (ascii "." ++ zeroPadded 6 (m_time.tmod kMicroSecsPerSecond) ++ ascii "Z ") 9 := by
    rw [Logger.insertTime, if_neg (by rw [hzone]; decide)]
    rfl
  have hsix := (length_sixWide (tmod_lt_micros m_time)).mpr hus
  have hlength : (ascii "." ++ zeroPadded 6 (m_time.tmod kMicroSecsPerSecond) ++
      ascii "Z ").length = 9 := by
    rw [List.length_append, List.length_append, hsix]
    rfl
  obtain ⟨buf', hinsert, hcontent⟩ := insertPieces_ok hs hcur hstr
    (fun c hc => micros_ne_zero zulu_ne_zero hc) hlength (by decide)
  have hformat : Logger.formatTime env m_time t s = .ok time buf' := by
    simp only [LogThreads.seconds] at hup
    simp only [Logger.formatTime, bind_apply, hup, hpieces, hinsert, pure_apply]
  rw [h] at hformat
  rw [(EStateM.Result.ok.inj hformat).2, hcontent, List.take_of_length_le (Nat.le_of_eq hlength)]

variable {ι : Type} [DecidableEq ι]

/-- No zone is set, and the clock shows a second after the first of 1970 and before 10000. -/
def Greenwich (events : List (LogEvent ι)) : Prop :=
  ∀ e ∈ events, match e with
    | .setTimeZone tz => tz.valid = false
    | .record _ m_time _ => 1000000 ≤ m_time ∧ m_time < 253402300800000000

theorem Greenwich.history {events : List (LogEvent ι)} (h : Greenwich events) :
    (LogHistory.of events).zone.valid = false ∧
      ∀ t p, (LogHistory.of events).last t = some p → p.1.valid = false := by
  induction events using List.reverseRecOn with
  | nil => exact ⟨rfl, nofun⟩
  | append_singleton events e ih =>
    obtain ⟨hzone, hlast⟩ := ih fun e he => h e (List.mem_append_left _ he)
    have hevent := h e (List.mem_append_right _ (List.mem_singleton.mpr rfl))
    rw [LogHistory.of_concat]
    cases e with
    | setTimeZone tz => exact ⟨hevent, hlast⟩
    | record u m_time garbage =>
      refine ⟨hzone, fun t p hp => ?_⟩
      change Function.update (LogHistory.of events).last u _ t = some p at hp
      by_cases ht : t = u
      · subst ht
        rw [Function.update_self] at hp
        rw [← Option.some.inj hp]
        exact hzone
      · rw [Function.update_of_ne ht] at hp
        exact hlast t p hp

theorem localTime_greenwich (env : LogEnv) {tz : TimeZone} (h : tz.valid = false) (s : Int) :
    env.localTime tz s = gmtime s := by
  rw [LogEnv.localTime, if_neg (by rw [h]; decide)]

theorem Greenwich.showable {env : LogEnv} {events : List (LogEvent ι)} (h : Greenwich events) :
    AllShowable env events := by
  intro es t m_time garbage hp
  obtain ⟨hzone, hlast⟩ := Greenwich.history fun e he => h e (hp.subset (List.mem_append_left _ he))
  obtain ⟨hlow, hup⟩ := h _ (hp.subset (List.mem_append_right _ (List.mem_singleton.mpr rfl)))
  have hsecond : seconds m_time = m_time / 1000000 := Int.tdiv_eq_ediv_of_nonneg (by omega)
  have hyears : Years (seconds m_time) := by
    rw [hsecond]
    constructor <;> omega
  refine ⟨?_, ?_, ?_⟩
  · rw [localTime_greenwich env hzone]
    exact gmtime_fits hyears
  · exact Int.lt_of_lt_of_le (by decide) (Int.tmod_nonneg _ (show 0 ≤ m_time by omega))
  · unfold LogHistory.Reusable
    cases hseen : (LogHistory.of es).last t with
    | none =>
      change seconds m_time ≠ 0
      omega
    | some p =>
      intro _
      rw [localTime_greenwich env hzone, localTime_greenwich env (hlast t p hseen)]

/-- What one record puts in front, and keeps for the next one. -/
theorem formatTime_front {env : LogEnv} {events : List (LogEvent ι)} {s : LogThreads ι} {t : ι}
    {time : Timestamp} {garbage : Vector Byte kSmallBuffer}
    (h : Greenwich (events ++ [.record t time.micros garbage]))
    (hk : Keeps env (LogHistory.of events) s) :
    ∃ cached buf, s.formatTime env t time.micros garbage = .ok cached buf ∧
      buf.content = time.toFormatedString ++ ascii "Z " ∧
      Keeps env (LogHistory.of (events ++ [.record t time.micros garbage]))
        { s with times := Function.update s.times t cached } := by
  have hshow : AllShowable env _ := h.showable
  obtain ⟨cached, buf, hok, hcached, -⟩ :=
    formatTime_shows hk (hshow events t time.micros garbage (List.prefix_refl _)) garbage
  obtain ⟨hzone, -⟩ := Greenwich.history fun e he => h e (List.mem_append_left _ he)
  obtain ⟨hlow, hup⟩ : 1000000 ≤ time.micros ∧ time.micros < 253402300800000000 :=
    h _ (List.mem_append_right _ (List.mem_singleton.mpr rfl))
  refine ⟨cached, buf, hok, ?_, ?_⟩
  · have hvalid : ({ env with g_logTimeZone := s.g_logTimeZone } : LogEnv).g_logTimeZone.valid =
        false := hk.zone ▸ hzone
    have hcontent := formatTime_content (LogBuffer.new_inside garbage) rfl hvalid hok
    obtain ⟨hfits, rfl⟩ := hcached
    rw [hcontent, take_timeText hfits, localTime_greenwich env hzone,
      (Timestamp.toFormatedString_whole ⟨by omega, hup⟩).1]
    simp only [List.append_assoc]
    rfl
  · rw [LogHistory.of_concat]
    exact keeps_record hk garbage hcached

end LogThreads
end MyNet.Base
