import Litenix.FrameCounts

/-! A fork of an address space is all or nothing, whichever of its allocations fail: either the child shares every
page of the parent, or the frames, their counts and the pages of the parent are what they were. -/

namespace Litenix

open Lib Radix Function

variable {boot : Nat → Prop} {live : Finset Nat} {extra : Nat → Int}
  {pos : Nat → Option (Nat × List Nat)} {p p' : Phys} {parent child : AddressSpace}
variable {f e pid : Nat}
variable {Q : Nat → (Nat → Nat → Nat) → Prop} {proc : Process} {strict : Prop} {k : Kernel}

/-- The frame may be handed out. -/
def Pmm.Free (q : Pmm) (f : Nat) : Prop := f < q.totalPages ∧ q.available f = true

/-- The child maps the pages of the parent, and what was writable is read-only and marked in both spaces. -/
structure Forked (p p' : Phys) (parent child : AddressSpace) : Prop where
  childFrames : ∀ v < userPages, userFrame p'.mem (child.root, v) = userFrame p.mem (parent.root, v)
  parentFrames : ∀ v < userPages, userFrame p'.mem (parent.root, v) = userFrame p.mem (parent.root, v)
  marked : ∀ v < userPages, ∀ e, pte p.mem parent.root v = some e → hasFlag e vmmWritable = true →
    ∀ r ∈ [parent.root, child.root], ∃ e', pte p'.mem r v = some e' ∧ hasFlag e' vmmWritable = false ∧
      hasFlag e' vmmCow = true

/-- The counts, the free frames and the pages of the parent are the same. -/
structure Unforked (p p' : Phys) (parent : AddressSpace) : Prop where
  counts : ∀ f, p'.pmm.pageRefCounts f = p.pmm.pageRefCounts f
  free : ∀ f, p'.pmm.Free f ↔ p.pmm.Free f
  parentFrames : ∀ v < userPages, userFrame p'.mem (parent.root, v) = userFrame p.mem (parent.root, v)

/-- What a fork is to do. -/
def ForkSpec (s : Supply) (parent : AddressSpace) : Prop :=
  ∃ s' o, s.vmmCloneAddressSpace parent = .ok (s', o) ∧
    (∀ child, o = some child → Forked s.phys s'.phys parent child) ∧ (o = none → Unforked s.phys s'.phys parent)

/-- The parent is one of the address spaces of the machine, whose frames are counted; free frames have no
references. -/
def Forkable (p : Phys) (parent : AddressSpace) : Prop :=
  ∃ boot live extra pos, Wf boot live extra pos p ∧ (∀ f, 0 ≤ extra f) ∧ parent.root ∈ live ∧ p.pmm.FreeZero

/-! ### The entries of a page that was writable -/

theorem parentEntry_marked (he : e.testBit 0 = true) (hw : e.testBit 1 = true) :
    (parentEntry e).testBit 1 = false ∧ (parentEntry e).testBit 9 = true := by
  refine ⟨(parentEntry_spec he).2.1, ?_⟩
  rw [parentEntry, if_pos hw, cowEntry, testBit_withFlags e _ (by norm_num), testBit_cowFlagsOf e 9 (by norm_num)]
  simp

theorem childEntry_marked (he : e.testBit 0 = true) (hw : e.testBit 1 = true) :
    (childEntry e).testBit 1 = false ∧ (childEntry e).testBit 9 = true := by
  refine ⟨(childEntry_spec he).2.1, ?_⟩
  rw [childEntry, entryPhys_eq_pageAddr, testBit_makeEntry_flag _ _ (by norm_num), childFlags,
    hasFlag_flagsMask_writable, if_pos hw, testBit_cowFlagsOf e 9 (by norm_num)]
  simp

theorem CloneDone.forked (hr : parent.root ∈ live)
    (h : CloneDone boot live extra Q parent p p' child record) (hsame : Cloned boot live p p') :
    Forked p p' parent child := by
  refine ⟨fun v hv => h.frames hv, hsame.frames _ hr, fun v hv e he hw r hmem => ?_⟩
  have hpresent := (pte_eq_some he).1
  rw [hasFlag_writable] at hw
  rcases List.mem_pair.mp hmem with rfl | rfl
  · refine ⟨parentEntry e, by rw [h.parentEntries v hv, he, Option.map_some], ?_⟩
    rw [hasFlag_writable, hasFlag_cow]
    exact parentEntry_marked hpresent hw
  · refine ⟨childEntry e, by rw [h.childEntries v hv, he, Option.map_some], ?_⟩
    rw [hasFlag_writable, hasFlag_cow]
    exact childEntry_marked hpresent hw

/-! ### The counts are determined by the tables and the entries -/

theorem Pmm.free_iff (q : Pmm) (f : Nat) : q.Free f ↔ q.Manages f ∧ ¬q.InUse f := by
  unfold Free Manages InUse available
  cases q.managedBitmap f
  · simp
  · cases q.pageBitmap f
    · simp
    · simp

/-- The frame is neither a table nor a page of a user, and it was not there at boot. -/
theorem Wf.not_inUse (h : Wf boot live extra pos p) (hboot : ¬boot f) (hpos : pos f = none)
    (hrefs : ¬Referenced live extra p.mem f) : ¬p.pmm.InUse f := by
  intro hu
  rcases h.noLeak f hu with hb | ht | hk | hp
  · exact hboot hb
  · exact ht hpos
  · exact hrefs (.inr hk)
  · exact hrefs (.inl hp)

theorem CloneUndone.counts (h : Wf boot live extra pos p)
    (hundone : CloneUndone boot live extra pos Q p p') (hsame : Cloned boot live p p') (hzero : p.pmm.FreeZero)
    (f : Nat) : (p'.pmm.InUse f ↔ p.pmm.InUse f) ∧ p'.pmm.pageRefCounts f = p.pmm.pageRefCounts f := by
  obtain ⟨pos', hwf, hpos'⟩ := hundone.wf
  have htally := hundone.tally
  have hrefs : userRefs p'.mem live f = userRefs p.mem live f := SameFrames.userRefs hsame.frames f
  by_cases hmanages : p.pmm.Manages f
  · cases hpos : pos f with
    | some x =>
      have hne : pos' f ≠ none := fun hno => by
        rw [(hpos' f).mp hno] at hpos
        cases hpos
      obtain ⟨x', hx'⟩ := Option.ne_none_iff_exists'.mp hne
      obtain ⟨hu, hone, -⟩ := h.tables f x hpos
      obtain ⟨hu', hone', -⟩ := hwf.tables f x' hx'
      exact ⟨⟨fun _ => hu, fun _ => hu'⟩, hone'.trans hone.symm⟩
    | none =>
    by_cases hreason : Referenced live extra p.mem f
    · obtain ⟨hu, -, hcount⟩ := h.counted f hpos hreason
      obtain ⟨hu', -, hcount'⟩ := hwf.counted f ((hpos' f).mpr hpos) (by rwa [hrefs])
      refine ⟨⟨fun _ => hu, fun _ => hu'⟩, ?_⟩
      omega
    by_cases hboot : boot f
    · obtain ⟨hu', hcount⟩ := htally.boot f hboot (h.booted f hboot).1
      exact ⟨⟨fun _ => (h.booted f hboot).1, fun _ => hu'⟩, hcount⟩
    have hfree := h.not_inUse hboot hpos hreason
    have hfree' := hwf.not_inUse hboot ((hpos' f).mpr hpos) (by rwa [Referenced, hrefs])
    refine ⟨⟨fun hu => absurd hu hfree', fun hu => absurd hu hfree⟩, ?_⟩
    rw [hzero f hmanages hfree, htally.freeZero hzero f ((htally.manages f).mpr hmanages) hfree']
  · refine ⟨⟨fun hu => ?_, fun hu => ?_⟩, htally.unmanaged f hmanages⟩
    · exact absurd ((htally.manages f).mp ⟨hu.1, hu.2.1⟩) hmanages
    · exact absurd ⟨hu.1, hu.2.1⟩ hmanages

/-! ### The fork -/

instance (q : Pmm) (f : Nat) : Decidable (q.Free f) := inferInstanceAs (Decidable (_ ∧ _))

instance (q : Pmm) : Decidable q.FreeZero :=
  decidable_of_iff (∀ f < q.totalPages, q.managedBitmap f = true → q.pageBitmap f = false → q.pageRefCounts f = 0)
    ⟨fun h f hmanages hfree => h f hmanages.1 hmanages.2
        (Bool.eq_false_iff.mpr fun hu => hfree ⟨hmanages.1, hmanages.2, hu⟩),
      fun h f hlt hmanaged hclear => h f ⟨hlt, hmanaged⟩ fun hu => by rw [hu.2.2] at hclear; cases hclear⟩

theorem MemInv.forkable (h : MemInv strict boot k)
    (hproc : k.procs pid = some proc) (hzero : k.phys.pmm.FreeZero) : Forkable k.phys proc.addressSpace := by
  obtain ⟨pos, hwf⟩ := h.wf
  exact ⟨boot, k.roots, k.records, pos, hwf, k.records_nonneg, (h.root_mem hproc).2, hzero⟩

theorem MemInv.spaceRefs_le_count (h : MemInv strict boot k) (hproc : k.procs pid = some proc) (f : Nat) :
    spaceRefs k.phys.mem proc.addressSpace.root f ≤ k.phys.pmm.pageRefCounts f := by
  have hle := spaceRefs_le (h.root_mem hproc).2 k.phys.mem f
  rcases Nat.eq_zero_or_pos (userRefs k.phys.mem k.roots f) with hzero | hpos
  · omega
  · rwa [h.frameCounts.counted f hpos]

/-- Two pages that need two page tables. -/
def twoTableOps : List KernelOp :=
  [.spawn 0x400000, .call 1 (.mapFresh 0x1000 7 fun _ => 0), .call 1 (.mapFresh 0x200000 7 fun _ => 0)]

/-- The sixth allocation fails: that of the child's second page table. -/
def sixthFails (n : Nat) : Bool := n == 5

/-- The state after `n` more calls of `pmm_ref_page` for a frame. -/
def Phys.addRefs (p : Phys) (f n : Nat) : Phys :=
  { p with pmm := { p.pmm with
      pageRefCounts := update p.pmm.pageRefCounts f (p.pmm.pageRefCounts f + n) } }

theorem Phys.addRefs_count (p : Phys) (f n : Nat) :
    (p.addRefs f n).pmm.pageRefCounts f = p.pmm.pageRefCounts f + n := update_self ..

theorem Phys.addRefs_succ (hu : p.pmm.InUse f) (hroom : p.pmm.pageRefCounts f + (n + 1) < 2 ^ 16) :
    { p.addRefs f n with pmm := pmmRefPage (p.addRefs f n).pmm (pageAddr f) } = p.addRefs f (n + 1) := by
  have hmanaged : (p.addRefs f n).pmm.managedBitmap f = true := hu.2.1
  have hlt : f < (p.addRefs f n).pmm.totalPages := hu.1
  rw [pmmRefPage, pageIndex_pageAddr, if_pos (by simp [hlt, hmanaged]), addRefs_count, Nat.mod_eq_of_lt (by omega)]
  simp only [addRefs, update_idem, add_assoc]

/-- References from other places, as long as the count has room for them. -/
theorem Wf.addRefs (h : Wf boot live extra pos p) (hpos : pos f = none)
    (hrefs : 0 < userRefs p.mem live f) (n : Nat) (hroom : p.pmm.pageRefCounts f + n < 2 ^ 16) :
    Wf boot live (update extra f (extra f + n)) pos (p.addRefs f n) := by
  induction n with
  | zero =>
    rw [Phys.addRefs, Nat.add_zero, update_eq_self, Nat.cast_zero, add_zero, update_eq_self]
    exact h
  | succ n ih =>
    have hstep := (ih (by omega)).refPage hpos (.inl hrefs) (by
      rw [Phys.addRefs_count]
      omega)
    rw [Phys.addRefs_succ (h.counted f hpos (.inl hrefs)).1 hroom, update_idem, update_self,
      add_assoc] at hstep
    exact_mod_cast hstep

end Litenix
