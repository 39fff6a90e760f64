import MyNet.Net.Acceptor

/-!
# The descriptors of `Acceptor`

What `handleRead` owns at each of its places. The other threads only touch what is free or
their own, so nothing they do matters to it; and a descriptor it closes is one it can open
again, as long as nobody else opens any.
-/
namespace MyNet.Net.Acceptor

open Lib

/-- Every descriptor from `accept` is disposed of, once and in order. -/
def Settled (s : Acceptor) : Prop := s.disposed.map (·.1) = List.range s.count

def Idle (s : Acceptor) : Prop := ∀ i, s.idleFd_ = some i → s.Owns i ⟨.acceptor, true, none⟩

/-- The last descriptor from `accept`, the only one not yet disposed of. -/
def Fresh (s : Acceptor) (fd : Nat) : Prop :=
  ∃ k, s.Owns fd ⟨.acceptor, false, some k⟩ ∧ s.count = k + 1 ∧
    s.disposed.map (·.1) = List.range k

/-- What holds at each place of `handleRead`. -/
def At (s : Acceptor) : AcceptPc → Prop
  | .outside | .accepting | .failed _ | .closingIdle => s.Settled ∧ s.Idle
  | .accepted connfd => s.Fresh connfd ∧ s.Idle
  | .closingAccepted => s.idleFd_.elim s.Settled s.Fresh
  | .reaccepting | .reopening => s.Settled

def Listening (s : Acceptor) : Prop :=
  ∃ d, s.table s.acceptSocket_ = some d ∧ d.owner = .acceptor

structure Kept (s : Acceptor) : Prop where
  listening : s.Listening
  closes : ∀ d ∈ s.closes, d.owner = .acceptor
  place : s.At s.pc

variable {s t : Acceptor} {fd g : Nat} {d : Descriptor} {v : Option Descriptor}

/-- Not a descriptor of the Acceptor's: free, or somebody else's. -/
def Unowned (s : Acceptor) (g : Nat) : Prop := ∀ d, s.table g = some d → d.owner ≠ .acceptor

theorem Free.unowned (h : s.Free g) : s.Unowned g := by
  intro d hd
  rw [h.2] at hd
  cases hd

theorem Owns.ne (h : s.Owns fd d) (hg : s.Unowned g) : fd ≠ g := by
  rintro rfl
  exact hg d h.1 h.2.1

theorem Owns.update (h : s.Owns fd d) (hne : fd ≠ g) :
    Owns { s with table := Function.update s.table g v } fd d :=
  ⟨(Function.update_of_ne hne ..).trans h.1, h.2⟩

theorem Idle.update (h : s.Idle) (hne : ∀ i, s.idleFd_ = some i → i ≠ g) :
    Idle { s with table := Function.update s.table g v } :=
  fun i hi => (h i hi).update (hne i hi)

theorem Idle.ne (h : s.Idle) (hg : s.Unowned g) : ∀ i, s.idleFd_ = some i → i ≠ g :=
  fun i hi => (h i hi).ne hg

theorem Fresh.update (h : s.Fresh fd) (hne : fd ≠ g) :
    Fresh { s with table := Function.update s.table g v } fd := by
  obtain ⟨k, howns, hrest⟩ := h
  exact ⟨k, howns.update hne, hrest⟩

theorem Fresh.ne (h : s.Fresh fd) (hg : s.Unowned g) : fd ≠ g := by
  obtain ⟨k, howns, -⟩ := h
  exact howns.ne hg

/-- The spare descriptor is not the one just accepted: only one is `/dev/null`. -/
theorem Idle.ne_fresh (h : s.Idle) (hf : s.Fresh fd) : ∀ i, s.idleFd_ = some i → i ≠ fd := by
  rintro i hi rfl
  obtain ⟨k, howns, -⟩ := hf
  have hboth := (h i hi).1.symm.trans howns.1
  cases hboth

theorem Listening.update (h : s.Listening) (hne : s.acceptSocket_ ≠ g) :
    Listening { s with table := Function.update s.table g v } := by
  obtain ⟨d, hd, howner⟩ := h
  exact ⟨d, (Function.update_of_ne hne ..).trans hd, howner⟩

theorem Listening.ne (h : s.Listening) (hg : s.Unowned g) : s.acceptSocket_ ≠ g := by
  rintro rfl
  obtain ⟨d, hd, howner⟩ := h
  exact hg d hd howner

theorem At.update {pc : AcceptPc} (h : s.At pc) (hg : s.Unowned g) :
    At { s with table := Function.update s.table g v } pc := by
  cases pc with
  | outside | accepting | failed | closingIdle => exact ⟨h.1, h.2.update (h.2.ne hg)⟩
  | accepted connfd => exact ⟨h.1.update (h.1.ne hg), h.2.update (h.2.ne hg)⟩
  | reaccepting | reopening => exact h
  | closingAccepted =>
    simp only [At] at h ⊢
    cases hi : s.idleFd_ with
    | none =>
      rw [hi] at h
      exact h
    | some i =>
      rw [hi] at h
      exact h.update (h.ne hg)

/-- What others do to their own descriptors is nothing to the Acceptor. -/
theorem Kept.update (h : s.Kept) (hg : s.Unowned g) :
    Kept { s with table := Function.update s.table g v } :=
  ⟨h.listening.update (h.listening.ne hg), h.closes, h.place.update hg⟩

theorem obtain_fresh (h : s.Settled) (hfree : s.Free fd) (hne : s.acceptSocket_ ≠ fd) :
    (s.obtain fd).Fresh fd :=
  ⟨s.count, ⟨Function.update_self .., rfl, hfree.1, hne.symm⟩, rfl, h⟩

theorem close_owns (h : s.Owns fd d) :
    s.close (some fd) = { s with
      table := Function.update s.table fd none
      disposed := s.disposed ++ (d.serial.map fun k => (k, Disposal.closed)).toList
      closes := s.closes ++ [d] } := by
  simp only [close, h.1]

theorem Listening.close (h : s.Listening) (ho : s.Owns fd d) : (s.close (some fd)).Listening := by
  rw [close_owns ho]
  exact h.update ho.2.2.2.symm

theorem closes_close (h : ∀ e ∈ s.closes, e.owner = .acceptor) (ho : s.Owns fd d) :
    ∀ e ∈ (s.close (some fd)).closes, e.owner = .acceptor := by
  rw [close_owns ho]
  intro e he
  rcases List.mem_append.mp he with hold | hnew
  · exact h e hold
  · obtain rfl := List.mem_singleton.mp hnew
    exact ho.2.1

/-- The disposal of the last descriptor settles the account. -/
theorem settled_dispose {k : Nat} {w : Disposal} (hcount : s.count = k + 1)
    (hdone : s.disposed.map (·.1) = List.range k) :
    (s.disposed ++ [(k, w)]).map (·.1) = List.range s.count := by
  rw [List.map_append, hdone, hcount, List.range_succ]
  rfl

theorem Fresh.close (h : s.Fresh fd) : (s.close (some fd)).Settled := by
  obtain ⟨k, howns, hcount, hdone⟩ := h
  rw [close_owns howns]
  exact settled_dispose hcount hdone

theorem Idle.close (h : s.Idle) (hf : s.Fresh fd) : (s.close (some fd)).Idle := by
  have hne := h.ne_fresh hf
  obtain ⟨k, howns, -⟩ := hf
  rw [close_owns howns]
  exact h.update hne

theorem kept_close_fresh (h : s.Kept) (hf : s.Fresh fd) {pc : AcceptPc}
    (hpc : (s.close (some fd)).At pc) : Kept { s.close (some fd) with pc := pc } := by
  obtain ⟨k, howns, -⟩ := hf
  exact ⟨h.listening.close howns, closes_close h.closes howns, hpc⟩

/-- The callback takes the descriptor over. -/
theorem pass_owns (h : s.Owns fd d) :
    s.pass fd = { s with
      table := Function.update s.table fd (some { d with owner := .connection })
      disposed := s.disposed ++ (d.serial.map fun k => (k, Disposal.passed)).toList } := by
  simp only [pass, h.1]

theorem kept_pass (h : s.Kept) (hf : s.Fresh fd) (hi : s.Idle) :
    Kept { s.pass fd with pc := .outside } := by
  have hne := hi.ne_fresh hf
  obtain ⟨k, howns, hcount, hdone⟩ := hf
  rw [pass_owns howns]
  exact ⟨h.listening.update howns.2.2.2.symm, h.closes, settled_dispose hcount hdone, hi.update hne⟩

/-- The spare descriptor has no number: the account is left as it is. -/
theorem kept_close_idle (h : s.Kept) (hs : s.Settled) (hi : s.Idle) :
    Kept { s.close s.idleFd_ with pc := .reaccepting } := by
  cases hidle : s.idleFd_ with
  | none => exact ⟨h.listening, h.closes, hs⟩
  | some i =>
    have howns := hi i hidle
    refine ⟨h.listening.close howns, closes_close h.closes howns, ?_⟩
    rw [close_owns howns]
    exact (congrArg (List.map Prod.fst) (List.append_nil s.disposed)).trans hs

theorem kept_turn {e : AcceptMove} (h : s.Kept) (ht : Turn s e t) : t.Kept := by
  have hplace := h.place
  cases ht with
  | setCallback => exact ⟨h.listening, h.closes, h.place⟩
  | enter hpc | failed hpc | refailed hpc | exhausted hpc | leave hpc =>
    rw [hpc] at hplace
    exact ⟨h.listening, h.closes, hplace⟩
  | @accepted connfd hpc hfree =>
    rw [hpc] at hplace
    have hne := h.listening.ne hfree.unowned
    exact ⟨h.listening.update hne, h.closes, obtain_fresh hplace.1 hfree hne,
      hplace.2.update (hplace.2.ne hfree.unowned)⟩
  | @reaccepted fd hpc hfree =>
    rw [hpc] at hplace
    have hne := h.listening.ne hfree.unowned
    exact ⟨h.listening.update hne, h.closes, obtain_fresh hplace hfree hne⟩
  | @pass connfd hpc =>
    rw [hpc] at hplace
    exact kept_pass h hplace.1 hplace.2
  | @drop connfd hpc =>
    rw [hpc] at hplace
    exact kept_close_fresh h hplace.1 ⟨hplace.1.close, hplace.2.close hplace.1⟩
  | closeIdle hpc =>
    rw [hpc] at hplace
    exact kept_close_idle h hplace.1 hplace.2
  | closeAccepted hpc =>
    simp only [hpc, At] at hplace
    cases hidle : s.idleFd_ with
    | none =>
      rw [hidle] at hplace
      exact ⟨h.listening, h.closes, hplace⟩
    | some fd =>
      rw [hidle] at hplace
      exact kept_close_fresh h hplace (Fresh.close hplace)
  | @reopened fd hpc hfree =>
    rw [hpc] at hplace
    have hne := h.listening.ne hfree.unowned
    refine ⟨h.listening.update hne, h.closes, hplace, fun i hi => ?_⟩
    obtain rfl := Option.some.inj hi
    exact ⟨Function.update_self .., rfl, hfree.1, hne.symm⟩
  | unopened hpc =>
    rw [hpc] at hplace
    exact ⟨h.listening, h.closes, hplace, nofun⟩
  | otherOpens hfree => exact h.update hfree.unowned
  | otherCloses hd hother =>
    refine h.update fun e he => ?_
    obtain rfl := Option.some.inj (hd.symm.trans he)
    exact hother

theorem kept_constructed (h : s.Constructed) : s.Kept := by
  obtain ⟨hpc, hlistening, ⟨i, hidle, howns⟩, hcount, hdisposed, hcloses⟩ := h
  have hsettled : s.Settled := by
    rw [Settled, hdisposed, hcount]
    rfl
  refine ⟨hlistening, ?_, ?_⟩
  · rw [hcloses]
    exact nofun
  · rw [hpc]
    refine ⟨hsettled, fun j hj => ?_⟩
    obtain rfl := Option.some.inj (hidle.symm.trans hj)
    exact howns

/-- The condition of a run in which nobody else opens a descriptor. -/
def NoOpens (_ : Acceptor) (e : AcceptMove) : Prop := e.opens = false

instance (s : Acceptor) (e : AcceptMove) : Decidable (NoOpens s e) :=
  inferInstanceAs (Decidable (_ = _))

/-- What lets the last `open` of `handleRead` succeed. -/
def Spare (s : Acceptor) : AcceptPc → Prop
  | .outside | .accepting | .accepted _ | .failed _ | .closingIdle => s.idleFd_ ≠ none
  | .reaccepting | .reopening => ∃ fd, s.Free fd
  | .closingAccepted => s.idleFd_ = none → ∃ fd, s.Free fd

theorem not_full (h : ∃ fd, s.Free fd) : ¬ s.Full := by
  obtain ⟨fd, hlt, hnone⟩ := h
  exact fun hfull => hfull fd hlt hnone

/-- A descriptor closed is a descriptor to spare. -/
theorem free_close (h : s.Owns fd d) : ∃ g, (s.close (some fd)).Free g := by
  rw [close_owns h]
  exact ⟨fd, h.2.2.1, Function.update_self ..⟩

theorem free_update (h : ∃ g, s.Free g) :
    ∃ g, Free { s with table := Function.update s.table fd none } g := by
  obtain ⟨g, hlt, hnone⟩ := h
  by_cases hg : g = fd
  · exact ⟨g, hlt, hg ▸ Function.update_self ..⟩
  · exact ⟨g, hlt, (Function.update_of_ne hg ..).trans hnone⟩

theorem spare_turn {e : AcceptMove} (h : s.Kept) (hp : s.Spare s.pc) (hc : NoOpens s e)
    (ht : Turn s e t) : t.Spare t.pc := by
  have hplace := h.place
  cases ht with
  | setCallback => exact hp
  | enter hpc | accepted hpc | failed hpc | exhausted hpc | leave hpc =>
    rw [hpc] at hp
    exact hp
  | reaccepted hpc => exact nofun
  | refailed hpc =>
    rw [hpc] at hp
    exact fun _ => hp
  | pass hpc =>
    rw [hpc] at hp hplace
    obtain ⟨k, howns, -⟩ := hplace.1
    rw [pass_owns howns]
    exact hp
  | drop hpc =>
    rw [hpc] at hp hplace
    obtain ⟨k, howns, -⟩ := hplace.1
    rw [close_owns howns]
    exact hp
  | closeIdle hpc =>
    rw [hpc] at hp hplace
    obtain ⟨i, hidle⟩ := Option.ne_none_iff_exists'.mp hp
    rw [hidle]
    exact free_close (hplace.2 i hidle)
  | closeAccepted hpc =>
    simp only [hpc, At] at hp hplace
    cases hidle : s.idleFd_ with
    | none => exact hp hidle
    | some fd =>
      rw [hidle] at hplace
      obtain ⟨k, howns, -⟩ := hplace
      exact free_close howns
  | @reopened fd hpc hfree => exact Option.some_ne_none fd
  | unopened hpc hfull =>
    rw [hpc] at hp
    exact absurd hfull (not_full hp)
  | otherOpens hfree => cases hc
  | otherCloses hd hother =>
    cases hpc : s.pc with
    | outside | accepting | accepted | failed | closingIdle =>
      rw [hpc] at hp
      exact hp
    | reaccepting | reopening =>
      rw [hpc] at hp
      exact free_update hp
    | closingAccepted =>
      rw [hpc] at hp
      exact fun hidle => free_update (hp hidle)

theorem kept_reach {C : Acceptor → AcceptMove → Prop} : reads.Inductive C Kept where
  init _ := kept_constructed
  step _ _ _ h _ hs := kept_turn h (step_turn hs)

theorem spare_reach : reads.Inductive NoOpens fun s => s.Kept ∧ s.Spare s.pc := by
  refine kept_reach.and ?_ fun s e t h hp hc hs => spare_turn h hp hc (step_turn hs)
  rintro s ⟨hpc, -, ⟨i, hidle, -⟩, -⟩
  rw [hpc]
  exact Option.ne_none_iff_exists'.mpr ⟨i, hidle⟩

/-- **Exact ownership of descriptors.** Whatever `accept` and `open` return and whatever the
other threads do with theirs: `handleRead` closes only descriptors of the Acceptor; after it,
the descriptors from `accept` have each been passed to the callback or closed, once; and the
spare descriptor is none or an open `/dev/null` of the Acceptor's own. It is the latter if
nobody else opens descriptors. -/
theorem descriptors_owned (h : reads.Reach s) :
    (∀ d ∈ s.closes, d.owner = .acceptor) ∧
    (s.pc = .outside →
      s.disposed.map (·.1) = List.range s.count ∧
      ∀ i, s.idleFd_ = some i → s.Owns i ⟨.acceptor, true, none⟩) ∧
    (reads.ReachIf NoOpens s → s.pc = .outside →
      ∃ i, s.idleFd_ = some i ∧ s.Owns i ⟨.acceptor, true, none⟩) := by
  have hkept := kept_reach.reach h
  have hplace := hkept.place
  refine ⟨hkept.closes, fun hpc => ?_, fun halone hpc => ?_⟩
  · rw [hpc] at hplace
    exact hplace
  · have hspare := (spare_reach.reach halone).2
    rw [hpc] at hplace hspare
    obtain ⟨i, hidle⟩ := Option.ne_none_iff_exists'.mp hspare
    exact ⟨i, hidle, hplace.2 i hidle⟩

/-- All five descriptors of the process are open: it listens on 3, and 4 is the spare one. -/
def crowded : Acceptor :=
  ⟨3, some 4, true, .outside, fun fd =>
    if fd < 3 then some ⟨.other, false, none⟩
    else if fd = 3 then some ⟨.acceptor, false, none⟩
    else if fd = 4 then some ⟨.acceptor, true, none⟩
    else none, 5, 0, [], []⟩

theorem crowded_constructed : crowded.Constructed :=
  ⟨rfl, ⟨_, rfl, rfl⟩, ⟨4, rfl, rfl, rfl, by decide, by decide⟩, rfl, rfl, rfl⟩

/-- One connection too many: it is accepted in place of the spare descriptor and closed. -/
theorem descriptors_owned_crowded :
    ∃ s, reads.runIf NoOpens crowded
        [.handleRead, .accept (.error EMFILE), .next, .next, .accept (.ok 4), .next,
          .reopen (some 4)] = some s ∧
      s.disposed = [(0, .closed)] ∧ s.disposed.map (·.1) = List.range s.count ∧
      ∃ i, s.idleFd_ = some i ∧ s.Owns i ⟨.acceptor, true, none⟩ := by
  have hrun : reads.runIf NoOpens crowded
      [.handleRead, .accept (.error EMFILE), .next, .next, .accept (.ok 4), .next,
        .reopen (some 4)] = some _ := rfl
  have halone := Machine.reachIf_of_runIf (.init crowded_constructed) hrun
  have howned := descriptors_owned (Machine.ReachIf.mono (fun _ _ _ => trivial) halone)
  exact ⟨_, hrun, rfl, (howned.2.1 rfl).1, howned.2.2 halone rfl⟩

end MyNet.Net.Acceptor
