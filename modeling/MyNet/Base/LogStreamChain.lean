import MyNet.Base.LogStreamInsert

/-!
# Chains of inserters

An inserter either writes or passes its value on as `*this << v`, and the static type of `v`
resolves to the next inserter. Such a chain ends for every type but `float`, whose inserter
passes the value on as it is, a `float`.
-/
namespace MyNet.Base.LogStream

open Lib.FaultState

/-- A value of a type that has an inserter. -/
inductive Operand where
  | string (line : List Byte)
  | cString (line : List Byte)
  | bool (b : Bool)
  | char (c : Byte)
  | unsignedChar (uc : Byte)
  | short (s : Int16)
  | unsignedShort (us : UInt16)
  | int (i : Int32)
  | unsigned (ui : UInt32)
  | long (l : Int64)
  | longLong (ll : Int64)
  | unsignedLong (ul : UInt64)
  | unsignedLongLong (ull : UInt64)
  | float (f : Float32)
  | double (d : Float)
  | pointer (p : UInt64)

/-- What the body of an inserter comes to. -/
inductive Body where
  | call (o : Operand)
  | write (program : LogM Unit)

/-- The inserter that the type of the operand resolves to. -/
def inserter (printf : Printf) : Operand → Body
  | .string line => .write (insertString line)
  | .cString line => .write (insertCString line)
  | .bool b => .write (insertBool b)
  | .char c => .write (insertChar c)
  | .unsignedChar uc => .call (.char uc)
  | .short s => .call (.int s.toInt32)
  | .unsignedShort us => .call (.unsigned us.toUInt32)
  | .int i => .write (formatInteger i.toInt)
  | .unsigned ui => .write (formatInteger ui.toNat)
  | .long l => .write (formatInteger l.toInt)
  | .longLong ll => .write (formatInteger ll.toInt)
  | .unsignedLong ul => .write (formatInteger ul.toNat)
  | .unsignedLongLong ull => .write (formatInteger ull.toNat)
  -- `*this << f`, and `f` is still a `float`
  | .float f => .call (.float f)
  | .double d => .write (insertDouble printf d)
  | .pointer p => .write (insertPointer p)

/-- `*this << o` on a stack that holds `depth` calls. -/
def chain (printf : Printf) : Nat → Operand → Option (LogM Unit)
  | 0, _ => none
  | depth + 1, o =>
    match inserter printf o with
    | .call o' => chain printf depth o'
    | .write program => some program

/-- The chain is finite, and `program` is what it does to the buffer. -/
def Ends (printf : Printf) (o : Operand) (program : LogM Unit) : Prop :=
  ∃ depth, chain printf depth o = some program

/-- The wider type that an inserter leaves its value to, with the value converted. -/
def Operand.widened : Operand → Option Operand
  | .unsignedChar uc => some (.char uc)
  | .short s => some (.int s.toInt32)
  | .unsignedShort us => some (.unsigned us.toUInt32)
  | .float f => some (.double f.toFloat)
  | _ => none

/-- The insertion that has the text of the value; that of a `float` is the text it has as a
`double`. -/
def Operand.insertion : Operand → Insertion
  | .string line => .string line
  | .cString line => .cString line
  | .bool b => .bool b
  | .char c => .char c
  | .unsignedChar uc => .unsignedChar uc
  | .short s => .short s
  | .unsignedShort us => .unsignedShort us
  | .int i => .int i
  | .unsigned ui => .unsigned ui
  | .long l => .long l
  | .longLong ll => .longLong ll
  | .unsignedLong ul => .unsignedLong ul
  | .unsignedLongLong ull => .unsignedLongLong ull
  | .float f => .double f.toFloat
  | .double d => .double d
  | .pointer p => .pointer p

def Operand.isFloat : Operand → Bool
  | .float _ => true
  | _ => false

/-- The chain of a value that is no `float` is the insertion of the value, after two calls at
most. -/
theorem chain_insert (printf : Printf) {o : Operand} (h : o.isFloat = false) :
    chain printf 2 o = some (insert printf o.insertion) := by
  cases o with
  | float f => cases h
  | _ => rfl

/-- A deeper stack changes nothing for a chain that ended. -/
theorem chain_mono (printf : Printf) {program : LogM Unit} {depth deeper : Nat} :
    ∀ {o : Operand}, chain printf depth o = some program → depth ≤ deeper →
      chain printf deeper o = some program := by
  induction depth generalizing deeper with
  | zero =>
    intro o h _
    cases h
  | succ depth ih =>
    intro o h hle
    obtain ⟨deeper, rfl⟩ : ∃ n, deeper = n + 1 := ⟨deeper - 1, by omega⟩
    unfold chain at h ⊢
    cases hbody : inserter printf o with
    | call o' =>
      rw [hbody] at h
      exact ih h (by omega)
    | write written =>
      rw [hbody] at h
      exact h

/-- There is one thing that a chain does. -/
theorem Ends.unique {printf : Printf} {o : Operand} {program other : LogM Unit}
    (h : Ends printf o program) (h' : Ends printf o other) : program = other := by
  obtain ⟨depth, hdepth⟩ := h
  obtain ⟨depth', hdepth'⟩ := h'
  have hlarge := chain_mono printf hdepth (Nat.le_max_left depth depth')
  rw [chain_mono printf hdepth' (Nat.le_max_right depth depth')] at hlarge
  exact (Option.some.inj hlarge).symm

/-- No stack is deep enough for a `float`. -/
theorem chain_float (printf : Printf) (f : Float32) (depth : Nat) :
    chain printf depth (.float f) = none := by
  induction depth with
  | zero => rfl
  | succ depth ih => exact ih

/-- Passing the value on does what the chain of the converted value does. -/
theorem ends_widened (printf : Printf) {o wider : Operand} (h : o.isFloat = false)
    (hwider : o.widened = some wider) : Ends printf wider (insert printf o.insertion) := by
  cases o with
  | float f => cases h
  | unsignedChar uc =>
    cases hwider
    exact ⟨1, rfl⟩
  | short s =>
    cases hwider
    exact ⟨1, rfl⟩
  | unsignedShort us =>
    cases hwider
    exact ⟨1, rfl⟩
  | _ => cases hwider

/-- **When an insertion ends.** The chain for a value is finite, puts the text of the value into
the buffer or leaves it alone, and does what the chain for the converted value does, exactly
when the value is not a `float`. -/
theorem insertion_terminates_iff (printf : Printf) (o : Operand) :
    (∃ program, Ends printf o program ∧
      Puts program o.insertion.room (o.insertion.text printf)) ∧
      (∀ wider, o.widened = some wider →
        ∀ program, Ends printf o program ↔ Ends printf wider program) ↔
      o.isFloat = false := by
  constructor
  · intro ⟨⟨program, ⟨depth, hchain⟩, _⟩, _⟩
    cases o with
    | float f =>
      rw [chain_float] at hchain
      cases hchain
    | _ => rfl
  · intro h
    have hends : Ends printf o (insert printf o.insertion) := ⟨2, chain_insert printf h⟩
    refine ⟨⟨_, hends, insert_puts printf _⟩, fun wider hwider program => ?_⟩
    have hwiderEnds := ends_widened printf h hwider
    constructor
    · intro hprogram
      rwa [hprogram.unique hends]
    · intro hprogram
      rwa [hprogram.unique hwiderEnds]

/-- `stream << 1.5f` never returns. -/
theorem float_never_ends : ¬∃ printf program, Ends printf (.float 1.5) program := by
  rintro ⟨printf, program, depth, hchain⟩
  rw [chain_float] at hchain
  cases hchain

end MyNet.Base.LogStream
