import MyNet.Base.LogStreamInsert
import MyNet.Lib.Numeral

/-!
# Canonical integers

The text of an integer is its canonical numeral: an optional `-`, the digits of the value,
no zero in front. Reading it back gives the value. This holds for every width up to 64 bits,
signed or unsigned; the loop of `convert` divides in the type of the value and never leaves it.
-/
namespace MyNet.Base

open Lib.FaultState Lib.ListStore Lib.Numeral

/-- An integer type of the compiler. -/
structure IntType where
  signed : Bool
  bits : Nat

namespace IntType

def least (t : IntType) : Int := if t.signed then -2 ^ (t.bits - 1) else 0

def greatest (t : IntType) : Int := if t.signed then 2 ^ (t.bits - 1) - 1 else 2 ^ t.bits - 1

def Holds (t : IntType) (value : Int) : Prop := t.least ≤ value ∧ value ≤ t.greatest

/-- `i /= 10` is exact in the type of `i`, also from the least value on. -/
theorem Holds.tdiv {t : IntType} {i : Int} (h : t.Holds i) (base : Nat) :
    t.Holds (i.tdiv base) := by
  have hzero : t.least ≤ 0 ∧ 0 ≤ t.greatest := by
    have hhalf : (0 : Int) < 2 ^ (t.bits - 1) := by positivity
    have hwhole : (0 : Int) < 2 ^ t.bits := by positivity
    unfold least greatest
    split <;> constructor <;> omega
  obtain ⟨hleast, hgreatest⟩ := h
  obtain ⟨n, rfl | rfl⟩ := i.eq_nat_or_neg
  · have hsmaller : n / base ≤ n := Nat.div_le_self n base
    rw [← Int.ofNat_tdiv]
    generalize n / base = m at hsmaller ⊢
    constructor <;> omega
  · have hsmaller : n / base ≤ n := Nat.div_le_self n base
    rw [Int.neg_tdiv, ← Int.ofNat_tdiv]
    generalize n / base = m at hsmaller ⊢
    constructor <;> omega

/-- The integer types have at most 64 bits. -/
theorem Holds.bounds {t : IntType} (ht : t.bits ≤ 64) {value : Int} (h : t.Holds value) :
    -9223372036854775808 ≤ value ∧ value < 18446744073709551616 := by
  have hhalf : (2 : Int) ^ (t.bits - 1) ≤ 2 ^ 63 :=
    pow_le_pow_right₀ (by decide) (by omega)
  have hwhole : (2 : Int) ^ t.bits ≤ 2 ^ 64 := pow_le_pow_right₀ (by decide) ht
  obtain ⟨hleast, hgreatest⟩ := h
  unfold least at hleast
  unfold greatest at hgreatest
  split at hleast <;> split at hgreatest <;> omega

end IntType

/-! ## Reading a numeral -/

/-- The value of a digit in upper case. -/
def digitValue (c : Byte) : Option Nat :=
  if '0'.toUInt8 ≤ c ∧ c ≤ '9'.toUInt8 then some (c.toNat - 48)
  else if 'A'.toUInt8 ≤ c ∧ c ≤ 'F'.toUInt8 then some (c.toNat - 55)
  else none

/-- The digits of a text, if it has at least one and all are digits of the base. -/
def parseNat (base : Nat) (text : List Byte) : Option Nat :=
  match text.mapM digitValue with
  | none => none
  | some ds => if ds ≠ [] ∧ ds.all (· < base) then some (value base ds) else none

def parseInt (text : List Byte) : Option Int :=
  match text with
  | [] => none
  | c :: rest =>
    if c = '-'.toUInt8 then (parseNat 10 rest).map fun n : Nat => -(n : Int)
    else (parseNat 10 text).map fun n : Nat => (n : Int)

/-- A canonical numeral in characters. -/
def CanonicalNat (base : Nat) (text : List Byte) : Prop :=
  ∃ ds, Canonical base ds ∧ text = ds.map digitChar

/-- A canonical numeral with an optional sign, which zero does not have. -/
def CanonicalInt (text : List Byte) : Prop :=
  CanonicalNat 10 text ∨ ∃ rest, CanonicalNat 10 rest ∧ rest ≠ ['0'.toUInt8] ∧
    text = '-'.toUInt8 :: rest

theorem digitValue_digitChar {d : Nat} (h : d < 16) : digitValue (digitChar d) = some d := by
  revert h
  revert d
  decide

theorem mapM_digitValue {ds : List Nat} (h : ∀ d ∈ ds, d < 16) :
    (ds.map digitChar).mapM digitValue = some ds := by
  induction ds with
  | nil => rfl
  | cons d ds ih =>
    obtain ⟨hd, hds⟩ := List.forall_mem_cons.mp h
    simp [digitValue_digitChar hd, ih hds]

/-- A canonical numeral is read as the number it spells. -/
theorem parseNat_map {base : Nat} {ds : List Nat} (hbase : base ≤ 16) (h : Canonical base ds) :
    parseNat base (ds.map digitChar) = some (value base ds) := by
  have hdigits : ∀ d ∈ ds, d < 16 := fun d hd => Nat.lt_of_lt_of_le (h.digit d hd) hbase
  have hall : ds.all (· < base) = true := by simpa using h.digit
  rw [parseNat, mapM_digitValue hdigits]
  exact if_pos ⟨h.nonempty, hall⟩

theorem digitChar_ne_minus {d : Nat} (h : d < 16) : digitChar d ≠ '-'.toUInt8 := by
  revert h
  revert d
  decide

theorem parseInt_of_nat {ds : List Nat} (h : Canonical 10 ds) :
    parseInt (ds.map digitChar) = some (value 10 ds : Int) := by
  have hparse := parseNat_map (by decide) h
  cases ds with
  | nil => exact absurd rfl h.nonempty
  | cons d ds =>
    have hd : d < 10 := h.digit d List.mem_cons_self
    rw [List.map_cons] at hparse ⊢
    rw [parseInt, if_neg (digitChar_ne_minus (by omega)), hparse, Option.map_some]

theorem parseInt_of_minus {ds : List Nat} (h : Canonical 10 ds) :
    parseInt ('-'.toUInt8 :: ds.map digitChar) = some (-(value 10 ds : Int)) := by
  rw [parseInt, if_pos rfl, parseNat_map (by decide) h, Option.map_some]

/-! ## The text of a value -/

theorem hexadecimal_canonical (n : Nat) : CanonicalNat 16 (hexadecimal n) :=
  ⟨_, numeral_canonical (by decide) n, rfl⟩

theorem parseNat_hexadecimal (n : Nat) : parseNat 16 (hexadecimal n) = some n := by
  rw [hexadecimal, parseNat_map (by decide) (numeral_canonical (by decide) n), value_numeral]

theorem hexadecimal_unique {text : List Byte} {n : Nat} (h : CanonicalNat 16 text)
    (hparse : parseNat 16 text = some n) : text = hexadecimal n := by
  obtain ⟨ds, hds, rfl⟩ := h
  rw [parseNat_map (by decide) hds] at hparse
  rw [hexadecimal, ← Option.some.inj hparse, ← hds.eq_numeral (by decide)]

theorem decimal_canonical (v : Int) : CanonicalInt (decimal v) := by
  have hcanonical := numeral_canonical (b := 10) (by decide) v.natAbs
  by_cases hneg : v < 0
  · rw [decimal_of_neg hneg]
    refine .inr ⟨_, ⟨_, hcanonical, rfl⟩, ?_, rfl⟩
    intro hzero
    have hparse := parseNat_map (by decide) hcanonical
    rw [hzero, value_numeral] at hparse
    have hvalue : v.natAbs = 0 := (Option.some.inj hparse).symm
    omega
  · rw [decimal_of_nonneg hneg]
    exact .inl ⟨_, hcanonical, rfl⟩

theorem parseInt_decimal (v : Int) : parseInt (decimal v) = some v := by
  have hcanonical := numeral_canonical (b := 10) (by decide) v.natAbs
  by_cases hneg : v < 0
  · rw [decimal_of_neg hneg, parseInt_of_minus hcanonical, value_numeral]
    congr 1
    omega
  · rw [decimal_of_nonneg hneg, parseInt_of_nat hcanonical, value_numeral]
    congr 1
    omega

theorem decimal_unique {text : List Byte} {v : Int} (h : CanonicalInt text)
    (hparse : parseInt text = some v) : text = decimal v := by
  rcases h with ⟨ds, hds, rfl⟩ | ⟨_, ⟨ds, hds, rfl⟩, hzero, rfl⟩
  · rw [parseInt_of_nat hds] at hparse
    obtain rfl := Option.some.inj hparse
    rw [decimal_of_nonneg (by omega), Int.natAbs_natCast, ← hds.eq_numeral (by decide)]
  · rw [parseInt_of_minus hds] at hparse
    obtain rfl := Option.some.inj hparse
    have hpos : value 10 ds ≠ 0 := by
      intro hvalue
      have hnumeral := hds.eq_numeral (by decide)
      rw [hvalue] at hnumeral
      exact hzero (by rw [hnumeral]; rfl)
    rw [decimal_of_neg (by omega), Int.natAbs_neg, Int.natAbs_natCast,
      ← hds.eq_numeral (by decide)]

/-! ## `convert` and `convertHex` -/

/-- `write` puts `text` and a NUL into any array that has room for both, stores nothing else,
and returns the length of `text`. -/
def Writes (write : Nat → LogM Nat) (text : List Byte) : Prop :=
  ∀ (buf : Nat) (s : LogBuffer), buf + text.length < s.m_buff.length →
    write buf s = .ok text.length { s with m_buff := overwrite s.m_buff buf (text ++ [0]) }

theorem writes_convert (v : Int) : Writes (convert · v) (decimal v) := by
  intro buf s h
  exact convert_spec h

theorem writes_convertHex (n : Nat) : Writes (convertHex · n) (hexadecimal n) := by
  intro buf s h
  exact convertHex_spec h

/-- **Integers are canonical.** A value of an integer type of at most 64 bits is written as the
only canonical decimal numeral that is read back as it, and a pointer as the only canonical
upper-case hexadecimal one; with the NUL, and the prefix of a pointer, neither takes more
than `kMaxNumericSize`, so an inserter that finds as much room puts all of it. -/
theorem integers_canonical :
    (∀ t : IntType, t.bits ≤ 64 → ∀ v : Int, t.Holds v → ∃ text,
      CanonicalInt text ∧ parseInt text = some v ∧
        (∀ other, CanonicalInt other → parseInt other = some v → other = text) ∧
        Writes (convert · v) text ∧ text.length + 1 ≤ kMaxNumericSize ∧
        Puts (LogStream.formatInteger v) kMaxNumericSize text) ∧
    ∀ p : UInt64, ∃ text,
      CanonicalNat 16 text ∧ parseNat 16 text = some p.toNat ∧
        (∀ other, CanonicalNat 16 other → parseNat 16 other = some p.toNat → other = text) ∧
        Writes (convertHex · p.toNat) text ∧
        (ascii "0x").length + text.length + 1 ≤ kMaxNumericSize ∧
        Puts (LogStream.insertPointer p) kMaxNumericSize (ascii "0x" ++ text) := by
  constructor
  · intro t ht v hv
    obtain ⟨hlow, hup⟩ := hv.bounds ht
    have hlength := length_decimal hlow hup
    refine ⟨decimal v, decimal_canonical v, parseInt_decimal v,
      fun other h hparse => decimal_unique h hparse, writes_convert v, ?_,
      puts_formatInteger hlow hup⟩
    unfold kMaxNumericSize
    omega
  · intro p
    have hlength := length_hexadecimal p.toNat_lt
    have hprefix : (ascii "0x").length = 2 := rfl
    refine ⟨hexadecimal p.toNat, hexadecimal_canonical _, parseNat_hexadecimal _,
      fun other h hparse => hexadecimal_unique h hparse, writes_convertHex _, ?_, puts_pointer p⟩
    unfold kMaxNumericSize
    omega

end MyNet.Base
