import MyNet.Net.BufferLayout
import MyNet.Net.BufferMoves
import MyNet.Lib.Machine

/-!
# Runs on one `Buffer`

Beside the buffer a run keeps how many bytes were prepended since the indices were last reset,
and the largest `readableBytes() + len` that `ensureWritableBytes(len)` was called with. Every
call is a sequence of moves of the layout. The run goes on after an exception, and ends with any
other fault; requests of any size are made in it.
-/
namespace MyNet.Net.Buffer

open MyNet.Base
open Lib Lib.ListStore Lib.SizeT Lib.FaultState

inductive Call where
  | op (op : Op) (alloc : Allocator)
  | appendInt (v : TypedInt) (alloc : Allocator)
  | readInt (w : Width)
  | readFd (r : ReadvResult) (saved : Int) (alloc : Allocator)
  | shrink (reserve : Nat) (alloc : Allocator)

namespace Call

/-- The call without what it returns. -/
def exec (host : ByteOrder) : Call → BufferM Unit
  | op o alloc => do let _ ← o.exec alloc
  | appendInt v alloc => appendTyped host alloc v
  | readInt w => do let _ ← readTyped host w
  | readFd r saved alloc => do let _ ← Buffer.readFd alloc r saved
  | shrink reserve alloc => Buffer.shrink alloc reserve

/-- Whether the call comes to `retrieveAll`. -/
def resets (b : Buffer) : Call → Bool
  | op (.retrieve len) _ | op (.retrieveUntil len) _ | op (.retrieveAsString len) _ =>
    b.readableBytes ≤ len
  | op .retrieveAll _ | op .retrieveAllAsString _ => true
  | readInt w => b.readableBytes ≤ w.bytes
  | op (.append _) _ | op (.ensureWritableBytes _) _ | op (.write _) _ | op (.unwrite _) _
  | op (.prepend _) _ | appendInt _ _ | readFd _ _ _ | shrink _ _ => false

def prepends : Call → Nat
  | op (.prepend data) _ => data.length
  | _ => 0

/-- `readableBytes() + len` of the call's request to `ensureWritableBytes(len)`, if it makes one
on this buffer. -/
def asks (b : Buffer) : Call → Nat
  | op (.append data) _ => b.readableBytes + data.length
  | op (.ensureWritableBytes len) _ => b.readableBytes + len
  | appendInt v _ => b.readableBytes + v.width.bytes
  | readFd (.data d) _ _ =>
    if d.length ≤ b.writableBytes then 0
    else readableBytes { b with writerIndex_ := b.buffer_.length } + (d.length - b.writableBytes)
  | _ => 0

def isShrink : Call → Bool
  | shrink _ _ => true
  | _ => false

end Call

structure Usage where
  buffer : Buffer
  prepended : Nat
  asked : Nat

namespace Usage

def after (s : Usage) (c : Call) (b : Buffer) : Usage where
  buffer := b
  prepended := if c.resets s.buffer then 0 else s.prepended + c.prepends
  asked := max s.asked (c.asks s.buffer)

/-- A call that throws prepends nothing. -/
def afterThrow (s : Usage) (c : Call) (b : Buffer) : Usage where
  buffer := b
  prepended := s.prepended
  asked := max s.asked (c.asks s.buffer)

def layout (s : Usage) : Layout where
  size := s.buffer.buffer_.length
  reader := s.buffer.readerIndex_
  writer := s.buffer.writerIndex_
  prepended := s.prepended
  asked := s.asked

end Usage

def usage (host : ByteOrder) (initialSize : Nat) : Machine Usage Call where
  init s := (∃ alloc, new alloc initialSize = .ok s.buffer) ∧ s.prepended = 0 ∧ s.asked = 0
  step s c :=
    match c.exec host s.buffer with
    | .ok _ b => some (s.after c b)
    | .error e b => if e.isThrown then some (s.afterThrow c b) else none

/-! ## The moves of a call -/

section Moves

variable {p : Prop} {b b' : Buffer}

def layoutOf (b : Buffer) (prepended asked : Nat) : Layout :=
  ⟨b.buffer_.length, b.readerIndex_, b.writerIndex_, prepended, asked⟩

theorem Spaced.step {len : Nat} (h : Spaced len b b') (k q : Nat) :
    Layout.Step p (b.layoutOf k q) (b'.layoutOf k (max q (b.readableBytes + len))) := by
  cases h with
  | enough => exact .request len
  | resized hshort hroom hreader hwriter hsize hbound =>
    unfold layoutOf
    rw [hreader, hwriter, hsize]
    exact .resize hshort hroom (hsize ▸ hbound)
  | compacted _ _ hfront hordered hinside hreader hwriter hsize =>
    unfold layoutOf
    rw [hreader, hwriter, hsize]
    exact .compact len hfront hordered hinside

theorem Advanced.step {n : Nat} (h : Advanced n b b') (k q : Nat) :
    Layout.Step p (b.layoutOf k q) (b'.layoutOf k q) := by
  obtain ⟨hroom, hreader, hwriter, hsize⟩ := h
  unfold layoutOf
  rw [hreader, hwriter, hsize]
  exact .advance hroom

theorem append_moves {alloc : Allocator} {data : List Byte}
    (h : append alloc data b = .ok () b') (k q : Nat) :
    Layout.Moves p (b.layoutOf k q)
      (b'.layoutOf k (max q (b.readableBytes + data.length))) := by
  obtain ⟨b₁, hspace, hadvance⟩ := append_ok h
  exact .tail (.single (hspace.step k q)) (hadvance.step k _)

/-- `resets` is the test that `retrieve` makes. -/
theorem Retrieved.moves {len : Nat} (h : Retrieved len b b') (k q : Nat) :
    Layout.Moves p (b.layoutOf k q)
      (b'.layoutOf (if b.readableBytes ≤ len then 0 else k) q) := by
  unfold Retrieved at h
  by_cases hall : b.readableBytes ≤ len
  · rw [if_neg (Nat.not_lt.mpr hall)] at h
    rw [if_pos hall, h]
    exact .single .reset
  · rw [if_pos (Nat.not_le.mp hall)] at h
    rw [if_neg hall, h]
    exact .single (.retrieve (Nat.not_le.mp hall))

theorem discard_ok {α β : Type} {m : BufferM α} {x y : β} (h : (m >>= fun _ => pure x) b = .ok y b') :
    ∃ a, m b = .ok a b' := by
  obtain ⟨a, _, hm, h⟩ := bind_ok h
  cases h
  exact ⟨a, hm⟩

theorem discard_error {α β : Type} {m : BufferM α} {x : β} {e : Fault}
    (h : (m >>= fun _ => pure x) b = .error e b') : m b = .error e b' := by
  rcases bind_error h with hm | ⟨_, _, -, h⟩
  · exact hm
  · cases h

/-- Where the layout of `b'` stands after the call `c` on `b`. -/
def Reaches (p : Prop) (b : Buffer) (c : Call) (b' : Buffer) : Prop :=
  ∀ k q, Layout.Moves p (b.layoutOf k q)
    (b'.layoutOf (if c.resets b then 0 else k + c.prepends) (max q (c.asks b)))

/-- A call that asks for nothing and prepends nothing. -/
theorem reaches_of_moves {c : Call} (hp : c.prepends = 0) (ha : c.asks b = 0)
    (h : ∀ k q, Layout.Moves p (b.layoutOf k q) (b'.layoutOf (if c.resets b then 0 else k) q)) :
    Reaches p b c b' := by
  intro k q
  rw [hp, ha, Nat.add_zero, Nat.max_zero]
  exact h k q

theorem op_reaches {alloc : Allocator} {o : Op} {r : List Byte}
    (h : o.exec alloc b = .ok r b') : Reaches p b (.op o alloc) b' := by
  have hretrieved : ∀ {len : Nat} {c : Call}, c.resets b = decide (b.readableBytes ≤ len) →
      c.prepends = 0 → c.asks b = 0 → Retrieved len b b' → Reaches p b c b' := by
    intro len c hc hprepends hasks hr
    refine reaches_of_moves hprepends hasks fun k q => ?_
    rw [hc]
    simpa only [decide_eq_true_eq] using hr.moves k q
  cases o with
  | append data =>
    obtain ⟨_, h⟩ := discard_ok h
    exact fun k q => append_moves h k q
  | ensureWritableBytes len =>
    obtain ⟨_, h⟩ := discard_ok h
    exact fun k q => .single ((ensureWritableBytes_ok h).1.step k q)
  | write data =>
    obtain ⟨_, h⟩ := discard_ok h
    exact reaches_of_moves rfl rfl fun k q => .single ((write_ok h).step k q)
  | unwrite len =>
    obtain ⟨_, h⟩ := discard_ok h
    obtain ⟨hlen, rfl⟩ := unwrite_ok h
    exact reaches_of_moves rfl rfl fun k q => .single (.unwrite hlen)
  | retrieve len =>
    obtain ⟨_, h⟩ := discard_ok h
    exact hretrieved rfl rfl rfl (retrieve_ok h)
  | retrieveUntil n =>
    obtain ⟨_, h⟩ := discard_ok h
    exact hretrieved rfl rfl rfl (retrieveUntil_ok h)
  | retrieveAll =>
    obtain ⟨_, h⟩ := discard_ok h
    cases h
    exact reaches_of_moves rfl rfl fun k q => .single .reset
  | retrieveAsString len => exact hretrieved rfl rfl rfl (retrieveAsString_ok h)
  | retrieveAllAsString =>
    have hall : Retrieved b.readableBytes b b' := retrieveAsString_ok h
    refine hretrieved ?_ rfl rfl hall
    exact (decide_eq_true (Nat.le_refl _)).symm
  | prepend data =>
    obtain ⟨_, h⟩ := discard_ok h
    obtain ⟨hlen, hreader, hwriter, hsize⟩ := prepend_ok h
    intro k q
    have hasks : Call.asks b (.op (.prepend data) alloc) = 0 := rfl
    rw [hasks, Nat.max_zero]
    unfold layoutOf
    rw [hreader, hwriter, hsize]
    exact .single (.prepend hlen)

/-- Only a request throws, and it comes first. -/
theorem op_thrown {alloc : Allocator} {o : Op} {e : Fault}
    (h : o.exec alloc b = .error e b') (he : e.isThrown = true) : b' = b := by
  have hnever : ∀ {m : BufferM (List Byte)}, NeverThrows m → m b = .error e b' → b' = b :=
    fun hm h => (hm.absurd h he).elim
  cases o with
  | append data => exact append_thrown (discard_error h) he
  | ensureWritableBytes len => exact (ensureWritableBytes_thrown (discard_error h) he).1
  | write data => exact hnever (.bind (neverThrows_write _) fun _ => .pure _) h
  | unwrite len => exact hnever (.bind (neverThrows_unwrite _) fun _ => .pure _) h
  | retrieve len => exact hnever (.bind (neverThrows_retrieve _) fun _ => .pure _) h
  | retrieveUntil n =>
    exact hnever (.bind .get fun _ => .bind (neverThrows_retrieveUntil _) fun _ => .pure _) h
  | retrieveAll => exact hnever (.bind (.modify _) fun _ => .pure _) h
  | retrieveAsString len => exact hnever (neverThrows_retrieveAsString _) h
  | retrieveAllAsString => exact hnever (.bind .get fun _ => neverThrows_retrieveAsString _) h
  | prepend data => exact hnever (.bind (neverThrows_prepend _) fun _ => .pure _) h

theorem Forced.step {b₁ : Buffer} (h : Forced b b₁) (hlt : b.buffer_.length < modulus) (k q : Nat) :
    Layout.Step p (b.layoutOf k q) (b₁.layoutOf k q) := by
  obtain ⟨hinside, hreader, hwriter, hsize⟩ := h
  have hw : b.writableBytes = b.buffer_.length - b.writerIndex_ := subSize_of_le (by omega) hlt
  have hend : addSize b.writerIndex_ b.writableBytes = b.buffer_.length := by
    rw [addSize_of_lt (by omega)]
    omega
  have hstep : Layout.Step p (b.layoutOf k q)
      { b.layoutOf k q with writer := addSize b.writerIndex_ b.writableBytes } := .advance hinside
  rw [hend] at hstep
  unfold layoutOf
  rw [hreader, hwriter, hsize]
  exact hstep

/-- What was spilled asks for its room behind the full storage. -/
theorem asks_spilled {b₁ : Buffer} (h : Forced b b₁) {d : List Byte} {saved : Int}
    {alloc : Allocator} (hd : ¬ d.length ≤ b.writableBytes) :
    Call.asks b (.readFd (.data d) saved alloc) =
      b₁.readableBytes + (d.drop b.writableBytes).length := by
  rw [Call.asks, if_neg hd, List.length_drop, readableBytes, readableBytes, h.reader, h.writer]

theorem readFd_reaches {alloc : Allocator} {r : ReadvResult} {saved : Int} {result : Int × Int}
    (hlt : b.buffer_.length < modulus) (h : readFd alloc r saved b = .ok result b') :
    Reaches p b (.readFd r saved alloc) b' := by
  cases r with
  | error errno =>
    cases h
    exact reaches_of_moves rfl rfl fun k q => .refl
  | data d =>
    by_cases hd : d.length ≤ b.writableBytes
    · exact reaches_of_moves rfl (if_pos hd) fun k q => .single ((readFd_ok_within hd h).step k q)
    · rcases readFd_spilled (Nat.not_le.mp hd) with hrun | ⟨b₁, hforced, hrun⟩
      · rw [hrun] at h
        cases h
      · rw [hrun] at h
        cases happend : append alloc (d.drop b.writableBytes) b₁ with
        | error e b₂ =>
          rw [happend] at h
          cases h
        | ok u b₂ =>
          rw [happend] at h
          cases h
          intro k q
          rw [asks_spilled hforced hd]
          exact .head (hforced.step hlt k q) (append_moves happend k q)

theorem readFd_thrown {alloc : Allocator} {r : ReadvResult} {saved : Int} {e : Fault}
    (hlt : b.buffer_.length < modulus) (h : readFd alloc r saved b = .error e b')
    (he : e.isThrown = true) (k q : Nat) :
    Layout.Moves p (b.layoutOf k q)
      (b'.layoutOf k (max q (Call.asks b (.readFd r saved alloc)))) := by
  cases r with
  | error errno => cases h
  | data d =>
    by_cases hd : d.length ≤ b.writableBytes
    · cases hstore : store b.beginWrite (d.take b.writableBytes) b with
      | error f b₁ =>
        simp only [readFd, bind_apply, get_apply, hstore] at h
        cases h
        exact ((neverThrows_store _ _).absurd hstore he).elim
      | ok u b₁ =>
        simp only [readFd, bind_apply, get_apply, hstore, if_pos hd, modify_apply, pure_apply] at h
        cases h
    · rcases readFd_spilled (Nat.not_le.mp hd) with hrun | ⟨b₁, hforced, hrun⟩
      · rw [hrun] at h
        cases h
        cases he
      · rw [hrun] at h
        cases happend : append alloc (d.drop b.writableBytes) b₁ with
        | ok u b₂ =>
          rw [happend] at h
          cases h
        | error f b₂ =>
          rw [happend] at h
          cases h
          rw [append_thrown happend he, asks_spilled hforced hd]
          exact .head (hforced.step hlt k q) (.single (.request _))

theorem call_reaches {host : ByteOrder} {c : Call} {u : Unit} (hlt : b.buffer_.length < modulus)
    (h : c.exec host b = .ok u b') : Reaches (c.isShrink = true) b c b' := by
  cases c with
  | op o alloc =>
    obtain ⟨_, h⟩ := discard_ok h
    exact op_reaches h
  | appendInt v alloc =>
    have happend : append alloc v.encoding b = .ok u b' := by
      rw [← appendTyped_eq host]
      exact h
    intro k q
    have hasks : Call.asks b (.appendInt v alloc) = b.readableBytes + v.encoding.length := by
      rw [TypedInt.length_encoding]
      rfl
    rw [hasks]
    exact append_moves happend k q
  | readInt w =>
    obtain ⟨_, h⟩ := discard_ok h
    refine reaches_of_moves rfl rfl fun k q => ?_
    simpa only [Call.resets, decide_eq_true_eq] using (readTyped_ok h).moves k q
  | readFd r saved alloc =>
    obtain ⟨_, h⟩ := discard_ok h
    exact readFd_reaches hlt h
  | shrink reserve alloc =>
    obtain ⟨hreader, hfront, hinside, hbound⟩ := shrink_ok h
    refine reaches_of_moves rfl rfl fun k q => ?_
    unfold layoutOf
    rw [hreader]
    exact .single (.shrink rfl hfront hinside hbound)

/-- A request that was refused at once. -/
theorem request_moves {c : Call} (hc : ∃ len, c.asks b = b.readableBytes + len) (k q : Nat) :
    Layout.Moves p (b.layoutOf k q) (b.layoutOf k (max q (c.asks b))) := by
  obtain ⟨len, hlen⟩ := hc
  rw [hlen]
  exact .single (.request len)

theorem silent_moves {c : Call} (hc : c.asks b = 0) (k q : Nat) :
    Layout.Moves p (b.layoutOf k q) (b.layoutOf k (max q (c.asks b))) := by
  rw [hc, Nat.max_zero]

theorem call_thrown {host : ByteOrder} {c : Call} {e : Fault} (hlt : b.buffer_.length < modulus)
    (h : c.exec host b = .error e b') (he : e.isThrown = true) (k q : Nat) :
    Layout.Moves p (b.layoutOf k q) (b'.layoutOf k (max q (c.asks b))) := by
  cases c with
  | op o alloc =>
    rw [op_thrown (discard_error h) he]
    cases o with
    | append data => exact request_moves ⟨_, rfl⟩ k q
    | ensureWritableBytes len => exact request_moves ⟨_, rfl⟩ k q
    | write | unwrite | retrieve | retrieveUntil | retrieveAll | retrieveAsString
    | retrieveAllAsString | prepend => exact silent_moves rfl k q
  | appendInt v alloc =>
    have happend : append alloc v.encoding b = .error e b' := by
      rw [← appendTyped_eq host]
      exact h
    rw [append_thrown happend he]
    exact request_moves ⟨_, rfl⟩ k q
  | readInt w => exact ((neverThrows_readTyped host w).absurd (discard_error h) he).elim
  | readFd r saved alloc => exact readFd_thrown hlt (discard_error h) he k q
  | shrink reserve alloc =>
    rw [shrink_error h]
    exact silent_moves rfl k q

end Moves

/-! ## Runs -/

/-- A step moves the layout, whatever was asked for before. -/
theorem step_moves {host : ByteOrder} {n : Nat} {s t : Usage} {c : Call}
    (hlt : s.buffer.buffer_.length < modulus) (h : (usage host n).step s c = some t) :
    t.asked = max s.asked (c.asks s.buffer) ∧
      ∀ q, Layout.Moves (c.isShrink = true) (s.buffer.layoutOf s.prepended q)
        (t.buffer.layoutOf t.prepended (max q (c.asks s.buffer))) := by
  simp only [usage] at h
  cases hrun : c.exec host s.buffer with
  | ok u b =>
    rw [hrun] at h
    cases h
    exact ⟨rfl, call_reaches hlt hrun s.prepended⟩
  | error e b =>
    rw [hrun] at h
    by_cases he : e.isThrown = true
    · simp only [if_pos he] at h
      cases h
      exact ⟨rfl, call_thrown hlt hrun he s.prepended⟩
    · simp only [if_neg he] at h
      cases h

/-- The calls of a run on one vector. -/
def InPlace (_ : Usage) (c : Call) : Prop := c.isShrink = false

instance (s : Usage) (c : Call) : Decidable (InPlace s c) := inferInstanceAs (Decidable (_ = _))

section Runs

variable {host : ByteOrder} {n : Nat} {s : Usage}

theorem layout_init (h : (usage host n).init s) :
    s.layout = ⟨addSize kCheapPrepend n, kCheapPrepend, kCheapPrepend, 0, 0⟩ ∧
      addSize kCheapPrepend n ≤ maxSize := by
  obtain ⟨⟨alloc, hnew⟩, hprepended, hasked⟩ := h
  obtain ⟨hb, hmax⟩ := new_ok hnew
  unfold Usage.layout
  rw [hb, hprepended, hasked, List.length_replicate]
  exact ⟨rfl, hmax⟩

theorem reserved_init (h : (usage host n).init s) : s.layout.Reserved := by
  obtain ⟨hlayout, hmax⟩ := layout_init h
  rw [hlayout]
  exact ⟨⟨Layout.cheapPrepend_lt, Layout.cheapPrepend_lt, hmax⟩, Nat.le_refl _, Nat.le_refl _⟩

theorem Layout.Reserved.length_lt {s : Usage} (h : s.layout.Reserved) :
    s.buffer.buffer_.length < modulus := by
  have hsize : s.buffer.buffer_.length ≤ maxSize := h.sized.size
  have hlt := maxSize_lt_modulus
  omega

theorem reserved_inductive (C : Usage → Call → Prop) :
    (usage host n).Inductive C fun s => s.layout.Reserved where
  init _ h := reserved_init h
  step s c t hs _ h := by
    obtain ⟨hasked, hmoves⟩ := step_moves hs.length_lt h
    have hreserved := (hmoves s.asked).reserved hs
    rw [← hasked] at hreserved
    exact hreserved

theorem proportional_inductive :
    (usage host n).Inductive InPlace fun s =>
      s.layout.Reserved ∧ Layout.Proportional (kCheapPrepend + n) s.layout := by
  refine (reserved_inductive InPlace).and (fun s h => ?_) fun s c t hs hp hc h => ?_
  · have hle : addSize kCheapPrepend n ≤ kCheapPrepend + n := Nat.mod_le _ _
    unfold Layout.Proportional
    rw [(layout_init h).1]
    dsimp only
    omega
  · obtain ⟨hasked, hmoves⟩ := step_moves hs.length_lt h
    have hnone : (c.isShrink = true) = False := by
      rw [show c.isShrink = false from hc]
      exact eq_false Bool.false_ne_true
    rw [hnone] at hmoves
    have hproportional := (hmoves s.asked).proportional hs.sized hp
    rw [← hasked] at hproportional
    exact hproportional

/-- A length header of at most `n` bytes meets the assertion of `prepend`. -/
theorem prepend_meets {b b' : Buffer} {data : List Byte} {e : Fault}
    (hroom : data.length ≤ b.prependableBytes) (h : prepend data b = .error e b') :
    e ≠ .assertion := by
  rw [prepend, get_bind_apply] at h
  rcases bind_error h with hassert | ⟨_, _, -, h⟩
  · rw [assert_apply, if_pos hroom] at hassert
    cases hassert
  · rw [modify_bind_apply, get_bind_apply] at h
    obtain ⟨rfl, -⟩ := store_error h
    intro hassert
    cases hassert

/-- **The reserve.** In every run, `kCheapPrepend` bytes less those prepended since the indices
were last reset can still be prepended. -/
theorem reserve_available (h : (usage host n).Reach s) :
    kCheapPrepend - s.prepended ≤ s.buffer.prependableBytes ∧
      ∀ data, data.length ≤ kCheapPrepend - s.prepended → ∀ e b',
        prepend data s.buffer = .error e b' → e ≠ .assertion := by
  have hreserve := ((reserved_inductive _).reach h).reserve
  have hfront : kCheapPrepend - s.prepended ≤ s.buffer.prependableBytes :=
    Nat.sub_le_of_le_add hreserve
  exact ⟨hfront, fun data hdata e b' hrun => prepend_meets (hdata.trans hfront) hrun⟩

/-- The content is compacted after a prepend. -/
def compactingRun : List Call :=
  [.op (.append [1, 2, 3, 4]) (fun _ => true), .op (.prepend [9]) (fun _ => true),
   .op (.retrieve 4) (fun _ => true), .appendInt ⟨.int16, 0x0102⟩ (fun _ => false)]

theorem usage_init_fresh :
    (usage .little 4).init ⟨⟨List.replicate 12 0, kCheapPrepend, kCheapPrepend⟩, 0, 0⟩ :=
  ⟨⟨fun _ => true, rfl⟩, rfl, rfl⟩

theorem reserve_available_compactingRun :
    ∃ s, (usage .little 4).run ⟨⟨List.replicate 12 0, kCheapPrepend, kCheapPrepend⟩, 0, 0⟩
        compactingRun = some s ∧ kCheapPrepend - s.prepended ≤ s.buffer.prependableBytes := by
  have hrun : (usage .little 4).run ⟨⟨List.replicate 12 0, kCheapPrepend, kCheapPrepend⟩, 0, 0⟩
      compactingRun = some _ := rfl
  exact ⟨_, hrun, (reserve_available (Machine.reachIf_of_runIf (.init usage_init_fresh) hrun)).1⟩

/-- **The storage.** In every run without `shrink` the storage is what it was constructed with, or
no more than twice the largest request with the content it was made for, and `kCheapPrepend`; and
a call enlarges it only for a request that, with the content and the reserve, is more than it. -/
theorem storage_proportional (h : (usage host n).ReachIf InPlace s) :
    s.buffer.buffer_.length ≤ max (kCheapPrepend + n) (2 * s.asked + kCheapPrepend) ∧
      ∀ c t, InPlace s c → (usage host n).step s c = some t →
        s.buffer.buffer_.length < t.buffer.buffer_.length →
        s.buffer.buffer_.length < c.asks s.buffer + kCheapPrepend := by
  obtain ⟨hreserved, hproportional⟩ := proportional_inductive.reach h
  refine ⟨hproportional, fun c t hc hstep hgrows => ?_⟩
  obtain ⟨-, hmoves⟩ := step_moves hreserved.length_lt hstep
  have hnone : (c.isShrink = true) = False := by
    rw [show c.isShrink = false from hc]
    exact eq_false Bool.false_ne_true
  rw [hnone] at hmoves
  have hsized := hreserved.sized
  rcases (hmoves 0).needed ⟨hsized.reader, hsized.writer, hsized.size⟩ with hsame | hneeded
  · exact absurd hsame (Nat.ne_of_gt hgrows)
  · dsimp only [layoutOf] at hneeded
    rwa [Nat.zero_max] at hneeded

theorem storage_proportional_compactingRun :
    ∃ s, (usage .little 4).runIf InPlace
        ⟨⟨List.replicate 12 0, kCheapPrepend, kCheapPrepend⟩, 0, 0⟩ compactingRun = some s ∧
      s.buffer.buffer_.length ≤ max (kCheapPrepend + 4) (2 * s.asked + kCheapPrepend) := by
  have hrun : (usage .little 4).runIf InPlace
      ⟨⟨List.replicate 12 0, kCheapPrepend, kCheapPrepend⟩, 0, 0⟩ compactingRun = some _ := rfl
  exact ⟨_, hrun, (storage_proportional (Machine.reachIf_of_runIf (.init usage_init_fresh) hrun)).1⟩

end Runs

end MyNet.Net.Buffer
