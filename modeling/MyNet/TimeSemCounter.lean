import MyNet.TimeSem

/-!
# What the children count

Only the child inside has read the counter, so that nobody writes back an old number. The
children start when the parent has forked all of them, or is gone. Where no call fails the parent
looks at the counter when all of them are through.
-/
namespace MyNet

open Lib AcceptMutex TimeSemArgs

variable {kind : MutexKind} {a : TimeSemArgs} {s t : TimeSem} {k : Nat} {c : Child}

namespace ParentPc

/-- The children there are, of `n` in the end, if no call has failed. -/
def forked (n : Nat) : ParentPc → Nat
  | .grabbing => 0
  | .forking i => i
  | .checking | .releasing | .waiting _ | .comparing | .finished _ | .exited | .failed _ => n

/-- How often the loop of `wait` has gone round. -/
def waited (n : Nat) : ParentPc → Nat
  | .grabbing | .forking _ | .checking | .releasing | .failed _ => 0
  | .waiting i => i
  | .comparing | .finished _ | .exited => n

/-- The parent has not let go of the mutex. -/
def early : ParentPc → Bool
  | .grabbing | .forking _ | .checking | .releasing => true
  | .waiting _ | .comparing | .finished _ | .exited | .failed _ => false

end ParentPc

/-- Behind the test of the loop. -/
def ChildPc.turning : ChildPc → Bool
  | .grabbing | .reading | .yielding | .writing | .releasing => true
  | .initing | .testing | .zombie | .failed _ => false

namespace Child

def waited (c : Child) : Nat := if c.reaped then 1 else 0

/-- What `i` says about a child that goes round `n` times. -/
structure Place (n : Nat) (c : Child) : Prop where
  le : c.i ≤ n
  busy : c.pc.turning = true → c.i < n
  most : c.written ≤ n
  written : (∀ held, c.pc ≠ .failed held) → c.written = if c.pc = .releasing then c.i + 1 else c.i
  done : c.pc = .zombie → c.i = n
  reaped : c.reaped = true → c.pc.alive = false

variable {n : Nat}

theorem alive_not_failed {p : ChildPc} (h : p.alive = true) (held : Bool) : p ≠ .failed held := by
  rintro rfl
  cases h

/-- A child goes on to a place before or behind its write, as it was. -/
theorem Place.move (h : c.Place n) (halive : c.pc.alive = true) (hc : c.pc ≠ .releasing)
    (p : ChildPc) (hp : p ≠ .releasing) (hbusy : p.turning = true → c.i < n)
    (hdone : p = .zombie → c.i = n) (tmp : UInt64) : Place n { c with pc := p, tmp := tmp } where
  le := h.le
  busy := hbusy
  most := h.most
  written _ := (h.written (alive_not_failed halive)).trans ((if_neg hc).trans (if_neg hp).symm)
  done := hdone
  reaped hr := by
    rw [h.reaped hr] at halive
    cases halive

theorem Place.fail (h : c.Place n) (held : Bool) : Place n { c with pc := .failed held } where
  le := h.le
  busy := nofun
  most := h.most
  written hne := absurd rfl (hne held)
  done := nofun
  reaped _ := rfl

theorem Place.reap (h : c.Place n) (hgone : c.pc.alive = false) :
    Place n { c with reaped := true } :=
  ⟨h.le, h.busy, h.most, h.written, h.done, fun _ => hgone⟩

end Child

namespace TimeSem

/-- `f` of all children, added up. -/
def sum (f : Child → Nat) : List Child → Nat
  | [] => 0
  | c :: children => f c + sum f children

theorem sum_set {children : List Child} {k : Nat} {c : Child} (h : children[k]? = some c)
    (f : Child → Nat) (c' : Child) :
    sum f (children.set k c') + f c = sum f children + f c' := by
  induction children generalizing k with
  | nil => cases h
  | cons d children ih =>
    cases k with
    | zero =>
      obtain rfl : d = c := Option.some.inj h
      rw [List.set_cons_zero, sum, sum]
      omega
    | succ k =>
      have hrest := ih (k := k) h
      rw [List.set_cons_succ, sum, sum]
      omega

theorem sum_const {children : List Child} {f : Child → Nat} {n : Nat}
    (h : ∀ c ∈ children, f c = n) :
    sum f children = children.length * n := by
  induction children with
  | nil => exact (Nat.zero_mul n).symm
  | cons d children ih =>
    obtain ⟨hd, hrest⟩ := List.forall_mem_cons.mp h
    rw [sum, hd, ih hrest, List.length_cons, Nat.succ_mul, Nat.add_comm]

theorem sum_concat (f : Child → Nat) (children : List Child) (c : Child) :
    sum f (children ++ [c]) = sum f children + f c := by
  induction children with
  | nil => exact Nat.add_comm _ _
  | cons d children ih => rw [List.cons_append, sum, sum, ih, Nat.add_assoc]

theorem waited_le (children : List Child) :
    sum Child.waited children ≤ children.length := by
  induction children with
  | nil => exact Nat.le_refl 0
  | cons d children ih =>
    have hone : d.waited ≤ 1 := by
      unfold Child.waited
      split <;> decide
    rw [sum, List.length_cons]
    omega

theorem all_waited {children : List Child} (h : sum Child.waited children = children.length) :
    ∀ c ∈ children, c.reaped = true := by
  induction children with
  | nil => exact fun c hc => absurd hc List.not_mem_nil
  | cons d children ih =>
    have hmost := waited_le children
    rw [sum, List.length_cons] at h
    have hreaped : d.reaped = true := by
      by_contra hne
      rw [Child.waited, if_neg hne] at h
      omega
    rw [Child.waited, if_pos hreaped] at h
    exact List.forall_mem_cons.mpr ⟨hreaped, ih (by omega)⟩

structure Counts (a : TimeSemArgs) (s : TimeSem) : Prop where
  length : (∀ held, s.parent ≠ .failed held) →
    s.children.length = s.parent.forked (turns a.num_child)
  forks : s.parent.forked (turns a.num_child) ≤ turns a.num_child
  waits : s.parent.waited (turns a.num_child) ≤ turns a.num_child
  waited : sum Child.waited s.children ≤ s.parent.waited (turns a.num_child)
  early : s.parent.early = true → ∀ c ∈ s.children, c.written = 0
  place : ∀ c ∈ s.children, c.Place (turns a.num_iter)
  counter : s.shared_counter = .ofNat (sum Child.written s.children)
  tmp : ∀ c ∈ s.children, c.pc = .yielding ∨ c.pc = .writing → c.tmp = s.shared_counter
  exited : s.parent ≠ .exited

/-- The mutex is right, and so are the numbers. -/
def Sound (kind : MutexKind) (a : TimeSemArgs) (s : TimeSem) : Prop := s.Locked kind ∧ s.Counts a

theorem Locked.unique (h : s.Locked kind) {p q : Nat} (hp : s.inside p = true)
    (hq : s.inside q = true) : p = q :=
  have ⟨_, _, hheld⟩ := h
  hheld.unique hp hq

/-- While a child is inside the parent has let go. -/
theorem Sound.inside_late (h : s.Sound kind a) (hc : s.children[k]? = some c)
    (hin : c.pc.inside = true) : s.parent.early = false := by
  have hchild : s.inside (k + 1) = true := (inside_child hc).trans hin
  cases hparent : s.parent
  case grabbing =>
    have hlength := h.2.length (by simp [hparent])
    rw [hparent] at hlength
    rw [List.length_eq_zero_iff.mp hlength] at hc
    cases hc
  case forking | checking | releasing =>
    have hzero : s.inside 0 = true := by
      change s.parent.inside = true
      rw [hparent]
      rfl
    cases h.1.unique hzero hchild
  all_goals rfl

/-- A child moves and the counter stays. -/
theorem Counts.setChild (h : s.Counts a) (hc : s.children[k]? = some c) {c' : Child}
    {m : AcceptMutex} (hwritten : c'.written = c.written) (hreaped : c'.reaped = c.reaped)
    (hplace : c'.Place (turns a.num_iter))
    (htmp : c'.pc = .yielding ∨ c'.pc = .writing → c'.tmp = s.shared_counter) :
    ({ s with mutex := m }.setChild k c').Counts a := by
  have hsum := sum_set hc Child.written c'
  have hwaited := sum_set hc Child.waited c'
  rw [hwritten] at hsum
  rw [show c'.waited = c.waited from congrArg (if · then 1 else 0) hreaped] at hwaited
  refine ⟨fun hf => List.length_set.trans (h.length hf), h.forks, h.waits, ?_, fun he d hd => ?_,
    fun d hd => ?_, ?_, fun d hd => ?_, h.exited⟩
  · exact Nat.le_trans (Nat.le_of_eq (Nat.add_right_cancel hwaited)) h.waited
  · rcases List.mem_or_eq_of_mem_set hd with hold | rfl
    · exact h.early he d hold
    · exact hwritten.trans (h.early he c (List.mem_of_getElem? hc))
  · rcases List.mem_or_eq_of_mem_set hd with hold | rfl
    · exact h.place d hold
    · exact hplace
  · exact h.counter.trans (congrArg UInt64.ofNat (Nat.add_right_cancel hsum).symm)
  · rcases List.mem_or_eq_of_mem_set hd with hold | rfl
    · exact h.tmp d hold
    · exact htmp

/-- A child writes one more than it has read; nobody else has read meanwhile. -/
theorem Sound.write (h : s.Sound kind a) (hc : s.children[k]? = some c) (hpc : c.pc = .writing) :
    ({ s with shared_counter := c.tmp + 1 }.setChild k
      { c with pc := .releasing, written := c.written + 1 }).Sound kind a := by
  have hin : c.pc.inside = true := by rw [hpc]; rfl
  have hlate := h.inside_late hc hin
  have hmem : c ∈ s.children := List.mem_of_getElem? hc
  have hsum : sum Child.written
      (s.children.set k { c with pc := .releasing, written := c.written + 1 }) + c.written =
        sum Child.written s.children + (c.written + 1) := sum_set hc Child.written _
  have hwaited := sum_set hc Child.waited { c with pc := .releasing, written := c.written + 1 }
  have hplace := h.2.place c hmem
  have hwritten : c.written = c.i :=
    (hplace.written (by simp [hpc])).trans (if_neg (by rw [hpc]; decide))
  have hmore : c.i < turns a.num_iter := hplace.busy (by rw [hpc]; rfl)
  have hunreaped : c.reaped ≠ true := fun hr => by
    have hgone := hplace.reaped hr
    rw [hpc] at hgone
    cases hgone
  refine ⟨h.1.stay hc (by rw [hpc]; rfl) (by rw [hpc]; rfl) _, ?_⟩
  refine ⟨fun hf => List.length_set.trans (h.2.length hf), h.2.forks, h.2.waits,
    Nat.le_trans (Nat.le_of_eq (Nat.add_right_cancel hwaited)) h.2.waited, fun he => ?_,
    fun d hd => ?_, ?_, fun d hd hbusy => ?_, h.2.exited⟩
  · rw [show s.parent.early = true from he] at hlate
    cases hlate
  · rcases List.mem_or_eq_of_mem_set hd with hother | rfl
    · exact h.2.place d hother
    · exact ⟨hplace.le, fun _ => hmore, hwritten ▸ hmore, fun _ => congrArg (· + 1) hwritten,
        nofun, fun hr => absurd hr hunreaped⟩
  · have hnext : sum Child.written
        (s.children.set k { c with pc := .releasing, written := c.written + 1 }) =
          sum Child.written s.children + 1 := by omega
    change c.tmp + 1 = UInt64.ofNat (sum Child.written (s.children.set k _))
    rw [hnext, h.2.tmp c hmem (.inr hpc), h.2.counter, UInt64.ofNat_add]
    rfl
  · -- another child that has read would be inside too
    obtain ⟨j, hj⟩ := List.mem_iff_getElem?.mp hd
    change (s.children.set k _)[j]? = some d at hj
    by_cases hjk : j = k
    · subst hjk
      rw [List.getElem?_set_self (List.getElem?_eq_some_iff.mp hc).1] at hj
      obtain rfl := Option.some.inj hj
      rcases hbusy with hbusy | hbusy <;> cases hbusy
    · rw [List.getElem?_set_ne (Ne.symm hjk)] at hj
      have hother : s.inside (j + 1) = true := by
        rw [inside_child hj]
        rcases hbusy with hpc' | hpc' <;> rw [hpc'] <;> rfl
      exact absurd (Nat.succ.inj (h.1.unique hother ((inside_child hc).trans hin))) hjk

theorem sound_child (h : s.Sound kind a) (hc : s.children[k]? = some c)
    (hs : s.childNext kind a k c = some t) : t.Sound kind a := by
  have hmem : c ∈ s.children := List.mem_of_getElem? hc
  have hplace := h.2.place c hmem
  cases childNext_turn hs with
  | init hpc =>
    exact ⟨h.1.child_init hc hpc, h.2.setChild hc rfl rfl
      (hplace.move (by rw [hpc]; rfl) (by rw [hpc]; decide) .testing (by decide) nofun nofun c.tmp)
      (by simp)⟩
  | round hpc hmore =>
    exact ⟨h.1.stay hc (by rw [hpc]; rfl) (by rw [hpc]; rfl) _, h.2.setChild hc rfl rfl
      (hplace.move (by rw [hpc]; rfl) (by rw [hpc]; decide) .grabbing (by decide) (fun _ => hmore)
        nofun c.tmp) (by simp)⟩
  | done hpc hall =>
    have hlast : c.i = turns a.num_iter := Nat.le_antisymm hplace.le hall
    exact ⟨h.1.stay hc (by rw [hpc]; rfl) (by rw [hpc]; rfl) _, h.2.setChild hc rfl rfl
      (hplace.move (by rw [hpc]; rfl) (by rw [hpc]; decide) .zombie (by decide) nofun
        (fun _ => hlast) c.tmp) (by simp)⟩
  | grab hpc hm =>
    have hmore := hplace.busy (by rw [hpc]; rfl)
    have hon := (h.1.child_on hc (by rw [hpc]; rfl) (by rw [hpc]; rfl)).1 _ hm
    exact ⟨hon.2 { c with pc := .reading } rfl rfl, h.2.setChild hc rfl rfl
      (hplace.move (by rw [hpc]; rfl) (by rw [hpc]; decide) .reading (by decide) (fun _ => hmore)
        nofun c.tmp) (by simp)⟩
  | read hpc =>
    have hmore := hplace.busy (by rw [hpc]; rfl)
    exact ⟨h.1.stay hc (by rw [hpc]; rfl) (by rw [hpc]; rfl) _, h.2.setChild hc rfl rfl
      (hplace.move (by rw [hpc]; rfl) (by rw [hpc]; decide) .yielding (by decide) (fun _ => hmore)
        nofun s.shared_counter) fun _ => rfl⟩
  | yield hpc =>
    have hmore := hplace.busy (by rw [hpc]; rfl)
    exact ⟨h.1.stay hc (by rw [hpc]; rfl) (by rw [hpc]; rfl) _, h.2.setChild hc rfl rfl
      (hplace.move (by rw [hpc]; rfl) (by rw [hpc]; decide) .writing (by decide) (fun _ => hmore)
        nofun c.tmp) fun _ => h.2.tmp c hmem (.inl hpc)⟩
  | write hpc => exact h.write hc hpc
  | release hpc =>
    have hmore := hplace.busy (by rw [hpc]; rfl)
    have hwritten : c.written = c.i + 1 :=
      (hplace.written (by simp [hpc])).trans (if_pos hpc)
    refine ⟨h.1.child_off hc (by rw [hpc]; rfl) rfl (by rw [hpc]; rfl),
      h.2.setChild hc rfl rfl ⟨hmore, nofun, hplace.most, fun _ => hwritten, nofun,
        fun hr => ?_⟩ (by simp)⟩
    have hgone := hplace.reaped hr
    rw [hpc] at hgone
    cases hgone

theorem sound_childFails (h : s.Sound kind a) (hc : s.children[k]? = some c) {unlocked : Bool}
    (hs : s.childFails kind k unlocked c = some t) : t.Sound kind a := by
  have hplace := h.2.place c (List.mem_of_getElem? hc)
  cases childFails_turn hs with
  | init hpc | grab hpc =>
    exact ⟨h.1.child_gone hc (by rw [hpc]; rfl),
      h.2.setChild hc rfl rfl (hplace.fail false) (by simp)⟩
  | release hpc =>
    exact ⟨h.1.child_exit hc (by rw [hpc]; rfl) (by rw [hpc]; rfl) unlocked,
      h.2.setChild hc rfl rfl (hplace.fail _) (by simp)⟩

theorem Counts.setParent (h : s.Counts a) {m : AcceptMutex} {pc : ParentPc}
    (hforked : pc.forked (turns a.num_child) = s.parent.forked (turns a.num_child) ∨
      ∃ held, pc = .failed held) (hfailed : ∀ held, s.parent ≠ .failed held)
    (hwaited : s.parent.waited (turns a.num_child) ≤ pc.waited (turns a.num_child))
    (hmost : pc.waited (turns a.num_child) ≤ turns a.num_child)
    (hearly : pc.early = true → s.parent.early = true) (hexited : pc ≠ .exited) :
    { s with mutex := m, parent := pc }.Counts a where
  length hf := by
    rcases hforked with hsame | ⟨held, rfl⟩
    · exact (h.length hfailed).trans hsame.symm
    · exact absurd rfl (hf held)
  forks := by
    rcases hforked with hsame | ⟨held, rfl⟩
    · exact Nat.le_trans (Nat.le_of_eq hsame) h.forks
    · exact Nat.le_refl _
  waits := hmost
  waited := Nat.le_trans h.waited hwaited
  early he := h.early (hearly he)
  place := h.place
  counter := h.counter
  tmp := h.tmp
  exited := hexited

/-- The children wait for the mutex that the parent has. -/
theorem Counts.untouched (h : s.Counts a) (hparent : s.parent = .checking) :
    s.shared_counter = 0 := by
  have hnone : ∀ c ∈ s.children, c.written = 0 := h.early (by rw [hparent]; rfl)
  rw [h.counter, sum_const hnone, Nat.mul_zero]
  rfl

theorem Counts.fork (h : s.Counts a) {i : Nat} (hparent : s.parent = .forking i)
    (hmore : i < turns a.num_child) {m : AcceptMutex} :
    { s with
      mutex := m
      parent := .forking (i + 1)
      children := s.children ++ [Child.forked] }.Counts a := by
  have hlength : s.children.length = i :=
    (h.length (by simp [hparent])).trans (by rw [hparent]; rfl)
  have hsum (f : Child → Nat) (hf : f Child.forked = 0) :
      sum f (s.children ++ [Child.forked]) = sum f s.children := by
    rw [sum_concat, hf, Nat.add_zero]
  have hmem {c : Child} (hc : c ∈ s.children ++ [Child.forked]) :
      c ∈ s.children ∨ c = Child.forked :=
    (List.mem_append.mp hc).imp_right List.mem_singleton.mp
  have hwaited := h.waited
  rw [hparent] at hwaited
  refine ⟨fun _ => ?_, hmore, Nat.zero_le _,
    Nat.le_trans (Nat.le_of_eq (hsum Child.waited rfl)) hwaited, fun _ c hc => ?_, fun c hc => ?_,
    ?_, fun c hc hbusy => ?_, nofun⟩
  · change (s.children ++ [Child.forked]).length = i + 1
    rw [List.length_append, List.length_singleton, hlength]
  · rcases hmem hc with hold | rfl
    · exact h.early (by rw [hparent]; rfl) c hold
    · rfl
  · rcases hmem hc with hold | rfl
    · exact h.place c hold
    · exact ⟨Nat.zero_le _, nofun, Nat.zero_le _, fun _ => rfl, nofun, nofun⟩
  · exact h.counter.trans (congrArg UInt64.ofNat (hsum Child.written rfl).symm)
  · rcases hmem hc with hold | rfl
    · exact h.tmp c hold hbusy
    · rcases hbusy with hbusy | hbusy <;> cases hbusy

theorem sound_parent (h : s.Sound kind a) (hs : s.parentNext kind a = some t) : t.Sound kind a := by
  have hforks := h.2.forks
  have hwaits := h.2.waits
  cases parentNext_turn hs with
  | grab hparent hm =>
    exact ⟨h.1.parent_on (by rw [hparent]; rfl) rfl hm,
      h.2.setParent (.inl (by rw [hparent]; rfl)) (by simp [hparent])
        (by rw [hparent]; exact Nat.le_refl _) (Nat.zero_le _) (fun _ => by rw [hparent]; rfl)
        nofun⟩
  | fork hparent hmore => exact ⟨h.1.fork (by rw [hparent]; rfl), h.2.fork hparent hmore⟩
  | @forked i hparent hall =>
    rw [hparent] at hforks
    have hlast : turns a.num_child = i := Nat.le_antisymm hall hforks
    exact ⟨h.1.parent_stay (by rw [hparent]; rfl),
      h.2.setParent (.inl (by rw [hparent]; exact hlast)) (by simp [hparent])
        (by rw [hparent]; exact Nat.le_refl _) (Nat.zero_le _) (fun _ => by rw [hparent]; rfl)
        nofun⟩
  | changed hparent hcounter => exact absurd (h.2.untouched hparent) hcounter
  | check hparent =>
    exact ⟨h.1.parent_stay (by rw [hparent]; rfl),
      h.2.setParent (.inl (by rw [hparent]; rfl)) (by simp [hparent])
        (by rw [hparent]; exact Nat.le_refl _) (Nat.zero_le _) (fun _ => by rw [hparent]; rfl)
        nofun⟩
  | release hparent =>
    exact ⟨h.1.parent_off (by rw [hparent]; rfl) rfl,
      h.2.setParent (.inl (by rw [hparent]; rfl)) (by simp [hparent])
        (by rw [hparent]; exact Nat.le_refl _) (Nat.zero_le _) nofun nofun⟩
  | waited hparent =>
    rw [hparent] at hwaits
    exact ⟨h.1.parent_stay (by rw [hparent]; rfl),
      h.2.setParent (.inl (by rw [hparent]; rfl)) (by simp [hparent])
        (by rw [hparent]; exact hwaits) (Nat.le_refl _) nofun nofun⟩
  | compare hparent =>
    exact ⟨h.1.parent_stay (by rw [hparent]; rfl),
      h.2.setParent (.inl (by rw [hparent]; rfl)) (by simp [hparent])
        (by rw [hparent]; exact Nat.le_refl _) (Nat.le_refl _) nofun nofun⟩

theorem sound_parentExits (h : s.Sound kind a) (hin : s.parent.inside = true)
    (hnone : s.parent.waited (turns a.num_child) = 0) (hfailed : ∀ held, s.parent ≠ .failed held)
    (unlocked : Bool) :
    (s.parentExits kind (accept_mutex_off_failed kind s.mutex 0 unlocked) unlocked).Sound kind a :=
  ⟨h.1.parent_exit hin unlocked, h.2.setParent (.inr ⟨_, rfl⟩) hfailed (Nat.le_of_eq hnone)
    (Nat.zero_le _) nofun nofun⟩

theorem sound_parentFails (h : s.Sound kind a) {unlocked : Bool}
    (hs : s.parentFails kind a unlocked = some t) : t.Sound kind a := by
  cases parentFails_turn hs with
  | grab hparent =>
    exact ⟨h.1.parent_stay (by rw [hparent]; rfl), h.2.setParent (.inr ⟨_, rfl⟩)
      (by simp [hparent]) (by rw [hparent]; exact Nat.le_refl _)
      (Nat.zero_le _) nofun nofun⟩
  | fork hparent =>
    have hexits := sound_parentExits h (by rw [hparent]; rfl) (by rw [hparent]; rfl)
      (by simp [hparent]) false
    rwa [off_failed_locked] at hexits
  | release hparent =>
    exact sound_parentExits h (by rw [hparent]; rfl) (by rw [hparent]; rfl)
      (by simp [hparent]) unlocked

theorem sum_reaped (hc : s.children[k]? = some c) (hr : c.reaped = false) :
    sum Child.waited (s.children.set k { c with reaped := true }) =
      sum Child.waited s.children + 1 := by
  have hsum := sum_set hc Child.waited { c with reaped := true }
  rw [show c.waited = 0 from if_neg (by rw [hr]; exact Bool.false_ne_true),
    show Child.waited { c with reaped := true } = 1 from if_pos rfl] at hsum
  exact hsum

theorem sound_wait (h : s.Sound kind a) (hs : s.wait a k = some t) : t.Sound kind a := by
  obtain ⟨i, c, hparent, hmore, hc, hgone, hr, rfl⟩ := wait_eq hs
  have hmem : c ∈ s.children := List.mem_of_getElem? hc
  have hmoved : ({ s with parent := .waiting (i + 1) } : TimeSem).Locked kind :=
    h.1.parent_stay (by rw [hparent]; rfl)
  refine ⟨hmoved.stay (d := { c with reaped := true }) hc rfl rfl s.shared_counter, ?_⟩
  have hsum := sum_set hc Child.written { c with reaped := true }
  have hwaited := h.2.waited
  have hlength := h.2.length (by simp [hparent])
  rw [hparent] at hwaited hlength
  refine ⟨fun _ => List.length_set.trans hlength, Nat.le_refl _, hmore, ?_, nofun,
    fun d hd => ?_, ?_, fun d hd hbusy => ?_, nofun⟩
  · change sum Child.waited (s.children.set k { c with reaped := true }) ≤ i + 1
    rw [sum_reaped hc hr]
    exact Nat.succ_le_succ hwaited
  · rcases List.mem_or_eq_of_mem_set hd with hold | rfl
    · exact h.2.place d hold
    · exact (h.2.place c hmem).reap hgone
  · exact h.2.counter.trans (congrArg UInt64.ofNat (Nat.add_right_cancel hsum).symm)
  · rcases List.mem_or_eq_of_mem_set hd with hold | rfl
    · exact h.2.tmp d hold hbusy
    · exact h.2.tmp c hmem hbusy

theorem sound_waitFails (h : s.Sound kind a) (hs : s.waitFails a = some t) : t.Sound kind a := by
  obtain ⟨i, hparent, hmore, rfl⟩ := waitFails_eq hs
  exact ⟨h.1.parent_stay (by rw [hparent]; rfl),
    h.2.setParent (.inl (by rw [hparent]; rfl)) (by simp [hparent])
      (by rw [hparent]; exact Nat.le_succ i) hmore nofun nofun⟩

theorem sound_start (kind : MutexKind) (a : TimeSemArgs) : start.Sound kind a := by
  refine ⟨⟨none, ?_, fun p => ⟨fun hp => ?_, nofun⟩⟩, fun _ => rfl, Nat.zero_le _, Nat.zero_le _,
    Nat.le_refl _, ?_, ?_, rfl, ?_, nofun⟩
  · have hready : start.ready = fun p => decide (p = 0) := by
      funext p
      cases p with
      | zero => rfl
      | succ j => rfl
    rw [hready]
    exact serves_init kind
  · cases p with
    | zero => cases hp
    | succ j => cases hp
  all_goals intros; contradiction

theorem sound_inductive (kind : MutexKind) (a : TimeSemArgs) :
    (processes kind a).Inductive (fun _ _ => True) (Sound kind a) where
  init s hs := hs ▸ sound_start kind a
  step s e t h _ hs := by
    cases e with
    | parent => exact sound_parent h hs
    | wait k => exact sound_wait h hs
    | child k =>
      obtain ⟨c, hc, hnext⟩ := Option.bind_eq_some_iff.mp hs
      exact sound_child h hc hnext
    | parentFails unlocked => exact sound_parentFails h hs
    | waitFails => exact sound_waitFails h hs
    | childFails k unlocked =>
      obtain ⟨c, hc, hfails⟩ := Option.bind_eq_some_iff.mp hs
      exact sound_childFails h hc hfails

/-! ## Runs in which no call fails -/

def Succeeds (_ : TimeSem) (e : TimeSemMove) : Prop := e.fails = false

instance (s : TimeSem) (e : TimeSemMove) : Decidable (Succeeds s e) :=
  inferInstanceAs (Decidable (e.fails = false))

structure Flawless (a : TimeSemArgs) (s : TimeSem) : Prop where
  parent : ∀ held, s.parent ≠ .failed held
  children : ∀ c ∈ s.children, ∀ held, c.pc ≠ .failed held
  waited : sum Child.waited s.children = s.parent.waited (turns a.num_child)
  finished : ∀ wtf, s.parent = .finished wtf → wtf = decide (s.shared_counter ≠ a.product)

/-- When the parent is past its waiting every child has been waited for. -/
theorem Flawless.all_reaped (h : s.Flawless a) (hcounts : s.Counts a)
    (hover : s.parent = .comparing ∨ ∃ wtf, s.parent = .finished wtf) :
    ∀ c ∈ s.children, c.reaped = true := by
  refine all_waited ?_
  rw [h.waited, hcounts.length h.parent]
  rcases hover with hparent | ⟨wtf, hparent⟩ <;> rw [hparent] <;> rfl

theorem flawless_parent (h : s.Flawless a) (hcounts : s.Counts a)
    (hs : s.parentNext kind a = some t) : t.Flawless a := by
  have hwaited := h.waited
  have hwaits := hcounts.waits
  cases parentNext_turn hs with
  | grab hparent | forked hparent | check hparent | release hparent =>
    rw [hparent] at hwaited
    exact ⟨fun _ => nofun, h.children, hwaited, nofun⟩
  | fork hparent =>
    rw [hparent] at hwaited
    refine ⟨fun _ => nofun, fun c hc => ?_, (sum_concat _ _ _).trans hwaited, nofun⟩
    rcases List.mem_append.mp hc with hold | hnew
    · exact h.children c hold
    · obtain rfl := List.mem_singleton.mp hnew
      exact fun _ => nofun
  | changed hparent hcounter => exact absurd (hcounts.untouched hparent) hcounter
  | @waited i hparent hall =>
    rw [hparent] at hwaited hwaits
    have hlast : i = turns a.num_child := Nat.le_antisymm hwaits hall
    exact ⟨fun _ => nofun, h.children, hwaited.trans hlast, nofun⟩
  | compare hparent =>
    rw [hparent] at hwaited
    exact ⟨fun _ => nofun, h.children, hwaited,
      fun wtf hwtf => (ParentPc.finished.inj hwtf).symm⟩

theorem Flawless.setChild (h : s.Flawless a) (hc : s.children[k]? = some c) {d : Child}
    {m : AcceptMutex} (hpc : ∀ held, d.pc ≠ .failed held) (hreaped : d.reaped = c.reaped) :
    ({ s with mutex := m }.setChild k d).Flawless a := by
  have hwaited := sum_set hc Child.waited d
  rw [show d.waited = c.waited from congrArg (if · then 1 else 0) hreaped] at hwaited
  refine ⟨h.parent, fun b hb => ?_, (Nat.add_right_cancel hwaited).trans h.waited, h.finished⟩
  rcases List.mem_or_eq_of_mem_set hb with hold | rfl
  · exact h.children b hold
  · exact hpc

theorem flawless_child (h : s.Flawless a) (hcounts : s.Counts a) (hc : s.children[k]? = some c)
    (hs : s.childNext kind a k c = some t) : t.Flawless a := by
  cases childNext_turn hs with
  | init | round | done | grab | read | yield | release =>
    exact h.setChild hc (fun _ => nofun) rfl
  | write hpc =>
    obtain ⟨hparent, hchildren, hwaited, -⟩ :=
      h.setChild (m := s.mutex) (d := { c with pc := .releasing, written := c.written + 1 }) hc
        (fun _ => nofun) rfl
    refine ⟨hparent, hchildren, hwaited, fun wtf hwtf => ?_⟩
    -- the parent is through only when no child writes any more
    have hmem : c ∈ s.children := List.mem_of_getElem? hc
    have hgone := (hcounts.place c hmem).reaped (h.all_reaped hcounts (.inr ⟨wtf, hwtf⟩) c hmem)
    rw [hpc] at hgone
    cases hgone

theorem flawless_wait (h : s.Flawless a) (hs : s.wait a k = some t) : t.Flawless a := by
  obtain ⟨i, c, hparent, -, hc, -, hr, rfl⟩ := wait_eq hs
  have hwaited := h.waited
  rw [hparent] at hwaited
  refine ⟨fun _ => nofun, fun d hd => ?_, ?_, nofun⟩
  · rcases List.mem_or_eq_of_mem_set hd with hold | rfl
    · exact h.children d hold
    · exact h.children c (List.mem_of_getElem? hc)
  · exact (sum_reaped hc hr).trans (congrArg (· + 1) hwaited)

theorem flawless_step (h : s.Flawless a) (hcounts : s.Counts a) {e : TimeSemMove}
    (he : e.fails = false) (hs : s.step kind a e = some t) : t.Flawless a := by
  cases e with
  | parent => exact flawless_parent h hcounts hs
  | wait k => exact flawless_wait h hs
  | child k =>
    obtain ⟨c, hc, hnext⟩ := Option.bind_eq_some_iff.mp hs
    exact flawless_child h hcounts hc hnext
  | parentFails | waitFails | childFails => cases he

theorem flawless_start (a : TimeSemArgs) : start.Flawless a :=
  ⟨fun _ => nofun, fun _ hc => absurd hc List.not_mem_nil, rfl, nofun⟩

theorem flawless_inductive (kind : MutexKind) (a : TimeSemArgs) :
    (processes kind a).Inductive Succeeds (fun s => s.Sound kind a ∧ s.Flawless a) where
  init _ hs := hs ▸ ⟨sound_start kind a, flawless_start a⟩
  step s e t h hc hs :=
    ⟨(sound_inductive kind a).step s e t h.1 trivial hs, flawless_step h.2 h.1.2 hc hs⟩

/-- When the parent is past its waiting every turn of every child has been counted. -/
theorem Flawless.total (h : s.Flawless a) (hcounts : s.Counts a)
    (hover : s.parent = .comparing ∨ ∃ wtf, s.parent = .finished wtf) :
    s.shared_counter = .ofNat (turns a.num_child * turns a.num_iter) := by
  have hall : ∀ c ∈ s.children, c.written = turns a.num_iter := by
    intro c hc
    have hplace := hcounts.place c hc
    have hgone := hplace.reaped (h.all_reaped hcounts hover c hc)
    have hfailed := h.children c hc
    have hzombie : c.pc = .zombie := by
      cases hpc : c.pc
      case zombie => rfl
      case failed held => exact absurd hpc (hfailed held)
      all_goals
        rw [hpc] at hgone
        cases hgone
    rw [hplace.written hfailed, if_neg (by rw [hzombie]; decide)]
    exact hplace.done hzombie
  have hlength : s.children.length = turns a.num_child := by
    rw [hcounts.length h.parent]
    rcases hover with hparent | ⟨wtf, hparent⟩ <;> rw [hparent] <;> rfl
  rw [hcounts.counter, sum_const hall, hlength]

/-- Under each of the mutexes, in whatever order the processes go and whichever calls fail, two
are never inside, the children start from zero, and the counter has each write of each child, which
are all its turns if it has not failed. Where no call fails the counter has every turn of every
child in the end. -/
theorem counter_has_every_turn (h : (processes kind a).Reach s) :
    s.parent ≠ .exited ∧
      (∀ p q, s.inside p = true → s.inside q = true → p = q) ∧
      s.shared_counter = .ofNat (sum Child.written s.children) ∧
      (∀ c ∈ s.children, c.written ≤ turns a.num_iter ∧
        (c.pc = .zombie → c.written = turns a.num_iter)) ∧
      ((processes kind a).ReachIf Succeeds s → ∀ wtf, s.parent = .finished wtf →
        s.shared_counter = .ofNat (turns a.num_child * turns a.num_iter) ∧
          wtf = decide (s.shared_counter ≠ a.product)) := by
  have hsound := (sound_inductive kind a).reach h
  refine ⟨hsound.2.exited, fun _ _ => hsound.1.unique, hsound.2.counter, fun c hc => ?_,
    fun hsucceeds wtf hparent => ?_⟩
  · have hplace := hsound.2.place c hc
    refine ⟨hplace.most, fun hzombie => ?_⟩
    rw [hplace.written (by rw [hzombie]; exact fun _ => nofun), if_neg (by rw [hzombie]; decide)]
    exact hplace.done hzombie
  · have hflawless := ((flawless_inductive kind a).reach hsucceeds).2
    exact ⟨hflawless.total hsound.2 (.inr ⟨wtf, hparent⟩), hflawless.finished wtf hparent⟩

/-- Two children under `flock`, each going round once, the second before the first. -/
def twoChildren : List TimeSemMove :=
  [.parent, .parent, .parent, .parent, .parent, .child 1, .child 1, .parent] ++
    (List.replicate 6 (.child 1)) ++ (List.replicate 8 (.child 0)) ++
    [.wait 0, .wait 1, .parent, .parent]

/-- The second one cannot let go of the mutex when it has written; the first one gets it. -/
def secondFails : List TimeSemMove :=
  [.parent, .parent, .parent, .parent, .parent, .child 1, .child 1, .parent] ++
    (List.replicate 4 (.child 1)) ++ [.childFails 1 false] ++ (List.replicate 8 (.child 0))

theorem counter_has_every_turn_two :
    (∃ s, (processes .USE_FLOCK_SERIALIZED_ACCEPT ⟨2, 1⟩).runIf Succeeds start twoChildren =
        some s ∧ s.parent = .finished false ∧ s.shared_counter = 2) ∧
      ∃ s, (processes .USE_FLOCK_SERIALIZED_ACCEPT ⟨2, 1⟩).run start secondFails = some s ∧
        s.shared_counter = .ofNat (sum Child.written s.children) ∧ s.shared_counter = 2 := by
  have htwo : ∃ s, (processes .USE_FLOCK_SERIALIZED_ACCEPT ⟨2, 1⟩).runIf Succeeds start
      twoChildren = some s ∧ s.parent = .finished false := ⟨_, rfl, rfl⟩
  have hsecond : ∃ s, (processes .USE_FLOCK_SERIALIZED_ACCEPT ⟨2, 1⟩).run start secondFails =
      some s ∧ s.shared_counter = 2 := ⟨_, rfl, rfl⟩
  obtain ⟨s, hs, hparent⟩ := htwo
  obtain ⟨u, hu, hcounter⟩ := hsecond
  have hreach := Machine.reachIf_of_runIf (.init rfl) hs
  have hend := (counter_has_every_turn (hreach.mono fun _ _ _ => trivial)).2.2.2.2 hreach false
    hparent
  have hwrites := (counter_has_every_turn (Machine.reachIf_of_runIf (.init rfl) hu)).2.2.1
  exact ⟨⟨s, hs, hparent, hend.1⟩, u, hu, hwrites, hcounter⟩

end TimeSem
end MyNet
