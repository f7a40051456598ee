import Litenix.KernelMem

/-! The reference counts of the frames: in every state that a run reaches, the count of a frame that user
pages map is the number of user entries that map it, and it is free exactly when there is none. Every frame in use has
one purpose. -/

namespace Litenix

open Lib Radix

variable {boot : Nat → Prop} {strict : Prop} {k : Kernel}
variable {proc : Process} {ops : List KernelOp}

/-- The frame is a table of the user half of a live space, or holds the record of one. -/
def Kernel.OwnsPage (k : Kernel) (f : Nat) : Prop :=
  (∃ r ∈ k.roots, ∃ path, path.length ≤ 3 ∧ ValidPath userWidth path ∧
    tableAt entryPage k.phys.mem r path = some f) ∨ ∃ space ∈ k.spaces, space.record = f

/-- The counts are right. `boot` are the frames in use at boot. -/
structure FrameCounts (boot : Nat → Prop) (k : Kernel) : Prop where
  counted : ∀ f, 0 < userRefs k.phys.mem k.roots f →
    k.phys.pmm.pageRefCounts f = userRefs k.phys.mem k.roots f
  used : ∀ f, 0 < userRefs k.phys.mem k.roots f → k.phys.pmm.InUse f
  free : ∀ f < k.phys.pmm.totalPages, k.phys.pmm.managedBitmap f = true → ¬boot f → ¬k.OwnsPage f →
    (k.phys.pmm.pageBitmap f = false ↔ userRefs k.phys.mem k.roots f = 0)

theorem MemInv.frameCounts (h : MemInv strict boot k) : FrameCounts boot k := by
  obtain ⟨pos, hwf⟩ := h.wf
  have hmapped : ∀ f, 0 < userRefs k.phys.mem k.roots f → pos f = none ∧ k.records f = 0 := by
    intro f hf
    constructor
    · by_contra hne
      obtain ⟨x, hx⟩ := Option.ne_none_iff_exists'.mp hne
      have := hwf.userRefs_table hx
      omega
    · by_contra hne
      have := h.ok.records f hne
      omega
  refine ⟨?_, ?_, ?_⟩
  · intro f hf
    obtain ⟨hpos, hrecord⟩ := hmapped f hf
    obtain ⟨-, -, hcount⟩ := hwf.counted f hpos (.inl hf)
    omega
  · exact fun f hf => (hwf.counted f (hmapped f hf).1 (.inl hf)).1
  intro f hlt hmanaged hboot howns
  constructor
  · intro hfree
    exact (hwf.unused fun hu => by rw [hu.2.2] at hfree; cases hfree).2.2
  intro hzero
  by_contra hused
  rcases hwf.noLeak f ⟨hlt, hmanaged, by simpa using hused⟩ with hb | htable | hrecord | hpos
  · exact hboot hb
  · obtain ⟨⟨r, path⟩, hx⟩ := Option.ne_none_iff_exists'.mp htable
    obtain ⟨hwalk, hvalid⟩ := hwf.shape.tables.tableAt_of_pos hx
    obtain ⟨hr, hlen, -⟩ := hwf.shape.live hx
    exact howns (.inl ⟨r, hr, path, hlen, hvalid, hwalk⟩)
  · refine howns (.inr ?_)
    by_contra hno
    refine hrecord (if_neg fun hmem => hno ?_)
    obtain ⟨space, hspace, heq⟩ := List.mem_map.mp hmem
    exact ⟨space, hspace, heq⟩
  · omega

/-- Every run from boot whose calls visit user pages only, and whose forks overflow no count, keeps the
counts right. -/
theorem frame_counts_run (k₀ k : Kernel) (ops : List KernelOp) (hboot : Booted k₀)
    (hall : AllSteps kernelStep (MemCond False) k₀ ops) (hrun : run kernelStep k₀ ops = .ok k) :
    FrameCounts k₀.phys.pmm.InUse k :=
  (run_inv (fun _ _ _ h hcond hstep => h.step hcond hstep) (hboot.memInv False) hall hrun).frameCounts

/-! ### The condition, executed -/

/-- A sufficient condition for `CallCond` that can be executed: where `CallCond` speaks of the entries that
map a frame, it looks at the count. Copies to user memory are not covered. -/
def callCheck (k : Kernel) (proc : Process) : Call → Bool
  | .pageFault cr2 _ _ => decide (pml4Index cr2.toNat < 256)
  | .mapFresh virt _ _ => decide (pml4Index virt.toNat < 256)
  | .store virt _ => decide (pml4Index virt.toNat < 256)
  | .copyToUser _ _ => false
  | .brk newBrk =>
    (pageAddrs (pageAlignUp proc.heapEnd) (pageAlignUp newBrk.toNat) ++
      pageAddrs (pageAlignUp newBrk.toNat) (pageAlignUp proc.heapEnd)).all fun v => decide (pml4Index v < 256)
  | .munmap addr length =>
    (pageAddrs addr.toNat (add64 addr.toNat (pageAlignUp length.toNat))).all fun v => decide (pml4Index v < 256)
  | .mprotect addr length _ =>
    (pageAddrs addr.toNat (add64 addr.toNat (pageAlignUp length.toNat))).all fun v =>
      decide (pml4Index v < 256) &&
        (pte k.phys.mem proc.addressSpace.root (vpn v)).all fun e => k.phys.pmm.pageRefCounts (entryIndex e) == 1
  | .madvise _ _ _ => (List.finRange vmaMax).all fun i => !(proc.vmas i).valid
  | .fork _ _ _ => (List.range k.phys.pmm.totalPages).all fun f => decide (2 * k.phys.pmm.pageRefCounts f ≤ 65535)
  | _ => true

def memCheck (k : Kernel) : KernelOp → Bool
  | .spawn _ => true
  | .call pid call => (k.procs pid).all fun proc => callCheck k proc call

section

variable (h : MemInv strict boot k) {pid : Nat}

include h

theorem MemInv.forkCheck (hproc : k.procs pid = some proc)
    (hcheck : ∀ f < k.phys.pmm.totalPages, 2 * k.phys.pmm.pageRefCounts f ≤ 65535) (f : Nat) :
    userRefs k.phys.mem k.roots f + spaceRefs k.phys.mem proc.addressSpace.root f ≤ 65535 := by
  have hle : spaceRefs k.phys.mem proc.addressSpace.root f ≤ userRefs k.phys.mem k.roots f :=
    userRefs_mono (Finset.singleton_subset_iff.mpr (h.root_mem hproc).2) ..
  rcases Nat.eq_zero_or_pos (userRefs k.phys.mem k.roots f) with hzero | hpos
  · omega
  · have hcount := h.frameCounts.counted f hpos
    have := hcheck f (h.frameCounts.used f hpos).1
    omega

theorem MemInv.callCheck (hproc : k.procs pid = some proc)
    {call : Call} (hcheck : callCheck k proc call = true) : CallCond strict k proc call := by
  cases call with
  | pageFault cr2 code fill => exact of_decide_eq_true (p := pml4Index cr2.toNat < 256) hcheck
  | mapFresh virt flags page => exact of_decide_eq_true (p := pml4Index virt.toNat < 256) hcheck
  | store virt byte => exact of_decide_eq_true (p := pml4Index virt.toNat < 256) hcheck
  | copyToUser dst bytes => cases hcheck
  | brk newBrk =>
    rw [Litenix.callCheck, List.all_append, Bool.and_eq_true, List.all_eq_true, List.all_eq_true] at hcheck
    exact ⟨fun v hv => of_decide_eq_true (hcheck.1 v hv), fun v hv => of_decide_eq_true (hcheck.2 v hv)⟩
  | munmap addr length =>
    rw [Litenix.callCheck, List.all_eq_true] at hcheck
    exact fun v hv => of_decide_eq_true (hcheck v hv)
  | mprotect addr length prot =>
    rw [Litenix.callCheck, List.all_eq_true] at hcheck
    have hhalf : LowerHalf addr.toNat (add64 addr.toNat (pageAlignUp length.toNat)) := fun v hv =>
      of_decide_eq_true (Bool.and_eq_true_iff.mp (hcheck v hv)).1
    refine ⟨hhalf, fun _ _ v hv e he => ?_⟩
    have hpos := userRefs_pos (h.root_mem hproc).2 (hhalf.userRange v hv) he
    have hcount := (Bool.and_eq_true_iff.mp (hcheck v hv)).2
    rw [he, Option.all_some, beq_iff_eq, h.frameCounts.counted _ hpos] at hcount
    exact hcount
  | madvise addr length advice =>
    rw [Litenix.callCheck, List.all_eq_true] at hcheck
    intro i hvalid
    have := hcheck i (List.mem_finRange i)
    rw [hvalid] at this
    cases this
  | fork processOk taskOk kstackOk =>
    rw [Litenix.callCheck, List.all_eq_true] at hcheck
    exact h.forkCheck hproc fun f hf => of_decide_eq_true (hcheck f (List.mem_range.mpr hf))
  | _ => trivial

theorem MemInv.allSteps
    (hcheck : checkSteps kernelStep memCheck k ops = true) : AllSteps kernelStep (MemCond strict) k ops := by
  refine AllSteps.of_check (fun _ _ _ h hcond hstep => MemInv.step h hcond hstep) ?_ h hcheck
  intro k op h hop
  cases op with
  | spawn heapStart => trivial
  | call pid call =>
    intro proc hproc
    rw [memCheck, hproc, Option.all_some] at hop
    exact h.callCheck hproc hop

end

/-! ### A machine with a direct map -/

/-- Tables of the kernel half that map the frames from 1 to `frames - 1`, in pages 1 to 4. -/
def directMap (frames page index : Nat) : Nat :=
  if page = 1 ∧ index = 256 then makeEntry (pageAddr 2) (vmmPresent ||| vmmWritable)
  else if page = 2 ∧ index = 0 then makeEntry (pageAddr 3) (vmmPresent ||| vmmWritable)
  else if page = 3 ∧ index = 0 then makeEntry (pageAddr 4) (vmmPresent ||| vmmWritable)
  else if page = 4 ∧ 0 < index ∧ index < frames then makeEntry (pageAddr index) (vmmPresent ||| vmmWritable)
  else 0

/-- A machine with 24 frames, some of which the kernel half maps; the tables of the kernel are in use. -/
def kernelMapping (frames : Nat) : Kernel where
  phys :=
    { pmm :=
        { totalPages := 24, pageBitmap := fun i => decide (i < 5), managedBitmap := fun i => decide (i ≠ 0)
          pageRefCounts := fun i => if i < 5 then 1 else 0, freePages := 19, bitmapPhys := 0
          bitmapStorageBytes := 0, trampolinePool := [] }
      mem := directMap frames, kernelPml4 := pageAddr 1, freeCalls := [] }
  mmapHint := mmapBase
  procs := fun _ => none
  nextPid := 1
  files := ⟨fun _ => none, 0⟩
  nodeType := fun _ => .file

theorem kernelMapping_booted (frames : Nat) : Booted (kernelMapping frames) :=
  ⟨fun _ => rfl, rfl, by norm_num [kernelMapping]⟩

/-- The kernel half maps all frames. -/
def smallKernel : Kernel := kernelMapping 24

theorem smallKernel_booted : Booted smallKernel := kernelMapping_booted 24

/-- Process 1 after a run of the small machine that has been checked. -/
theorem smallKernel_process
    (hsteps : checkSteps kernelStep memCheck smallKernel ops = true) (hrun : run kernelStep smallKernel ops = .ok k)
    (hproc : (k.procs 1).elim (.error .endlessSearch) .ok = (.ok proc : Except Panic Process)) :
    MemInv False smallKernel.phys.pmm.InUse k ∧ k.procs 1 = some proc := by
  refine ⟨run_inv (fun _ _ _ h hcond hstep => MemInv.step h hcond hstep) (smallKernel_booted.memInv False)
    ((smallKernel_booted.memInv False).allSteps hsteps) hrun, ?_⟩
  cases hcase : k.procs 1 with
  | none =>
    rw [hcase] at hproc
    cases hproc
  | some proc' =>
    rw [hcase] at hproc
    cases hproc
    rfl

/-- A process maps a page and forks; the child gets a copy on its first write, then the parent
unmaps the page. -/
def forkOps : List KernelOp :=
  [.spawn 0x400000, .call 1 (.mapFresh 0x1000 7 fun _ => 0), .call 1 (.fork true true true),
    .call 2 (.pageFault 0x1000 ⟨true, true, false⟩ none), .call 1 (.munmap 0x1000 0x1000)]

/-- The frame of the parent is free after `sys_munmap`, that of the child is not. -/
theorem frame_counts_run_fork : ∃ k, run kernelStep smallKernel forkOps = .ok k ∧
    k.phys.pmm.pageBitmap 7 = false ∧ FrameCounts smallKernel.phys.pmm.InUse k := by
  have heval : (do
      let k ← run kernelStep smallKernel forkOps
      return k.phys.pmm.pageBitmap 7 : Except Panic Bool) = .ok false := by decide +kernel
  obtain ⟨k, hrun, hfree⟩ := bind_eq_ok heval
  have hall := (smallKernel_booted.memInv False).allSteps
    (show checkSteps kernelStep memCheck smallKernel forkOps = true by decide +kernel)
  exact ⟨k, hrun, Except.ok.inj hfree, frame_counts_run smallKernel k forkOps smallKernel_booted hall hrun⟩

/-- What the specification grants: no fork overflows a count. -/
def CountsFit (k : Kernel) : KernelOp → Prop
  | .call pid (.fork _ _ _) => ∀ proc, k.procs pid = some proc →
      ∀ f, userRefs k.phys.mem k.roots f + spaceRefs k.phys.mem proc.addressSpace.root f < 65535
  | _ => True

/-- A page is mapped at `0x1000`; then the entry of the kernel half for the same frame is unmapped. -/
def aliasOps : List KernelOp :=
  [.spawn 0x400000, .call 1 (.mapFresh 0x1000 7 fun _ => 0), .call 1 (.munmap 0xffff800000007000 0x1000)]

/-- `sys_munmap` of a kernel address frees a frame that a process still maps. -/
theorem frame_freed_while_mapped :
    ¬∀ (k₀ k : Kernel) (ops : List KernelOp), Booted k₀ → AllSteps kernelStep CountsFit k₀ ops →
      run kernelStep k₀ ops = .ok k → FrameCounts k₀.phys.pmm.InUse k := by
  intro hclaim
  have heval : (do
      let k ← run kernelStep smallKernel aliasOps
      return (k.spaces.map AddressSpace.root, userFrame k.phys.mem (5, 1), k.phys.pmm.pageBitmap 7) :
        Except Panic (List Nat × Option Nat × Bool)) = .ok ([5], some 7, false) := by decide +kernel
  obtain ⟨k, hrun, heval⟩ := bind_eq_ok heval
  obtain ⟨hroots, heval⟩ := Prod.mk.inj (Except.ok.inj heval)
  obtain ⟨hframe, hfree⟩ := Prod.mk.inj heval
  have hcounts := hclaim smallKernel k aliasOps smallKernel_booted
    ⟨trivial, fun _ _ => ⟨trivial, fun _ _ => ⟨trivial, fun _ _ => trivial⟩⟩⟩ hrun
  have hmem : 5 ∈ k.roots := by rw [Kernel.roots, hroots]; decide
  have hpos : 0 < userRefs k.phys.mem k.roots 7 :=
    refs_pos_iff.mpr ⟨(5, 1), mem_userDom.mpr ⟨hmem, by norm_num [userPages]⟩, hframe⟩
  have hused := (hcounts.used 7 hpos).2.2
  rw [hfree] at hused
  cases hused

/-! ### One purpose for each frame -/

/-- A table is named by its place in an address space. -/
inductive FrameUse where
  | boot
  | table (root : Nat) (path : List Nat)
  | record
  | page

def Kernel.UsedFor (boot : Nat → Prop) (k : Kernel) (f : Nat) : FrameUse → Prop
  | .boot => boot f
  | .table r path => r ∈ k.roots ∧ path.length ≤ 3 ∧ ValidPath userWidth path ∧
      tableAt entryPage k.phys.mem r path = some f
  | .record => ∃ space ∈ k.spaces, space.record = f
  | .page => 0 < userRefs k.phys.mem k.roots f

/-- No frame leaks, none is used that is free, and none has two purposes. -/
structure Kernel.OnePurpose (boot : Nat → Prop) (k : Kernel) : Prop where
  inUse : ∀ f, k.phys.pmm.InUse f ↔ ∃ use, k.UsedFor boot f use
  unique : ∀ f use use', k.UsedFor boot f use → k.UsedFor boot f use' → use = use'

theorem MemInv.onePurpose (h : MemInv strict boot k) : k.OnePurpose boot := by
  obtain ⟨pos, hwf⟩ := h.wf
  -- `pos` and `records` turn each purpose into a fact of `Wf`.
  have htable (f r : Nat) (path : List Nat) : k.UsedFor boot f (.table r path) ↔ pos f = some (r, path) := by
    constructor
    · rintro ⟨hr, hlen, hvalid, hwalk⟩
      exact hwf.shape.tables.pos_of_tableAt hr hlen hvalid hwalk
    · intro hx
      obtain ⟨hwalk, hvalid⟩ := hwf.shape.tables.tableAt_of_pos hx
      exact ⟨(hwf.shape.live hx).1, (hwf.shape.live hx).2.1, hvalid, hwalk⟩
  have hrecord (f : Nat) : k.UsedFor boot f .record ↔ k.records f ≠ 0 := by
    simp [Kernel.UsedFor, Kernel.records]
  have hrefs (f : Nat) : pos f ≠ none ∨ k.records f ≠ 0 → userRefs k.phys.mem k.roots f = 0 := fun hf =>
    hf.elim (fun hx => (Option.ne_none_iff_exists'.mp hx).elim fun _ hx => hwf.userRefs_table hx) (h.ok.records f)
  refine ⟨fun f => ⟨fun hf => ?_, ?_⟩, fun f use use' huse huse' => ?_⟩
  · rcases hwf.noLeak f hf with hboot | hx | hne | hpos
    · exact ⟨.boot, hboot⟩
    · obtain ⟨⟨r, path⟩, hx⟩ := Option.ne_none_iff_exists'.mp hx
      exact ⟨.table r path, (htable f r path).mpr hx⟩
    · exact ⟨.record, (hrecord f).mpr hne⟩
    · exact ⟨.page, hpos⟩
  · rintro ⟨use, huse⟩
    obtain ⟨htables, hcounted, -, hbooted⟩ := hwf.page f
    cases use <;> grind [Kernel.UsedFor]
  · obtain ⟨htables, -, -, hbooted⟩ := hwf.page f
    cases use <;> cases use' <;> grind [Kernel.UsedFor]

theorem MemInv.returns (h : MemInv strict boot k) (op : KernelOp) (hcond : MemCond strict k op) :
    (∃ k', kernelStep k op = .ok k' ∧ MemInv strict boot k') ∨ kernelStep k op = .error .endlessSearch := by
  cases op with
  | spawn heapStart => exact .inl (h.spawn heapStart.toNat)
  | call pid call =>
    rw [kernelStep]
    cases hproc : k.procs pid with
    | none => exact .inl ⟨k, rfl, h⟩
    | some proc => exact h.callStep hproc (hcond proc hproc)

end Litenix
