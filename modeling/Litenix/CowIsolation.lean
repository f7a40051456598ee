import Litenix.FrameCounts

/-! Isolation of the processes under copy on write: in every state that a run reaches, a frame that two or
more user entries map is writable through none of them, so the store of one process does not change what
another one reads. -/

namespace Litenix

open Lib Radix

variable {boot : Nat → Prop} {k : Kernel}

/-- What a process reads at an address; `none` is a page fault. -/
def userRead (p : Phys) (space : AddressSpace) (virt : Nat) : Option UInt8 :=
  let entry := pteWord p.mem space.root virt
  if hasFlag entry vmmPresent && hasFlag entry vmmUser then
    some (p.readByte (entryPhys entry + virt % vmmPageSize))
  else none

structure CowIsolated (k : Kernel) : Prop where
  shared : ∀ f, 2 ≤ userRefs k.phys.mem k.roots f → ∀ r ∈ k.roots, ∀ v < userPages, ∀ e,
    pte k.phys.mem r v = some e → entryIndex e = f → hasFlag e vmmWritable = false
  store : ∀ pid pid' proc proc', k.procs pid = some proc → k.procs pid' = some proc' → pid ≠ pid' →
    ∀ virt virt' byte, pml4Index virt < 256 → pml4Index virt' < 256 →
      userRead (userStore k.phys proc.addressSpace virt byte) proc'.addressSpace virt' =
        userRead k.phys proc'.addressSpace virt'

theorem userRead_congr (hpte : pte p'.mem space.root (vpn virt) = pte p.mem space.root (vpn virt))
    (hpage : ∀ e, pte p.mem space.root (vpn virt) = some e → p'.mem (entryIndex e) = p.mem (entryIndex e)) :
    userRead p' space virt = userRead p space virt := by
  unfold userRead
  cases he : pte p.mem space.root (vpn virt) with
  | none =>
    have habsent : ∀ q : Phys, pte q.mem space.root (vpn virt) = none →
        hasFlag (pteWord q.mem space.root virt) vmmPresent = false := by
      intro q hq
      rw [← Bool.not_eq_true, pteWord_present_iff, hq]
      simp
    simp [habsent p he, habsent p' (hpte.trans he)]
  | some e =>
    have hindex := pageIndex_pageAddr_add (entryIndex e) (Nat.mod_lt virt (y := vmmPageSize) (by decide))
    simp only [pteWord_of_pte he, pteWord_of_pte (hpte.trans he), Phys.readByte, entryPhys_eq_pageAddr, hindex,
      hpage e he]

theorem MemInv.root_ne (h : MemInv strict boot k) {pid pid' : Nat} {proc proc' : Process}
    (hproc : k.procs pid = some proc) (hproc' : k.procs pid' = some proc') (hne : pid ≠ pid') :
    proc.addressSpace.root ≠ proc'.addressSpace.root := by
  have hpair := h.roots
  rw [Kernel.spaces, List.Nodup, List.pairwise_map, List.pairwise_filterMap, List.pairwise_iff_getElem] at hpair
  have hlt : ∀ {a b : Nat} {x y : Process}, k.procs a = some x → k.procs b = some y → a < b →
      x.addressSpace.root ≠ y.addressSpace.root := by
    intro a b x y hx hy hab
    have hb := (h.procs hy).1
    refine hpair a b (by rw [List.length_range]; omega) (by rw [List.length_range]; omega) hab
      x.addressSpace ?_ y.addressSpace ?_
    · rw [List.getElem_range, hx]
      rfl
    · rw [List.getElem_range, hy]
      rfl
  rcases Nat.lt_or_gt_of_ne hne with hab | hab
  · exact hlt hproc hproc' hab
  · exact (hlt hproc' hproc hab).symm

theorem MemInv.cowIsolated (h : MemInv True boot k) : CowIsolated k := by
  have hisolated := h.ok.isolated trivial
  refine ⟨?_, ?_⟩
  · intro f hf r hr v hv e he hindex
    rw [hasFlag_writable, ← Bool.not_eq_true]
    intro hw
    have := hisolated r hr v hv e he hw
    rw [hindex] at this
    omega
  intro pid pid' proc proc' hproc hproc' hne virt virt' byte hvirt hvirt'
  have hr := (h.root_mem hproc).2
  have hr' := (h.root_mem hproc').2
  have hv := vpn_lt_userPages_iff.mpr hvirt
  have hv' := vpn_lt_userPages_iff.mpr hvirt'
  rcases userStore_cases k.phys proc.addressSpace virt byte with hsame | ⟨e, page, he, hw, hwrite⟩
  · rw [hsame]
  rw [hwrite]
  have hview := (h.held.writePage (userRefs_pos hr hv he) page).2
  refine userRead_congr (hview _ hr' _ hv') fun e' he' => Function.update_of_ne ?_ ..
  -- the writable page has one entry, and it is in the other space
  intro hframe
  have hone := hisolated _ hr _ hv e he hw
  have := eq_of_userRefs_eq_one hr hv he hr' hv' he' hone hframe
  exact h.root_ne hproc hproc' hne (Prod.mk.inj this).1.symm

/-- Every run from boot keeps the processes isolated, if its calls visit user pages only, no
`sys_mprotect` makes a shared page writable, and no copy to user memory falls back on the flags of the
area for a shared page. -/
theorem cow_isolation_run (k₀ k : Kernel) (ops : List KernelOp) (hboot : Booted k₀)
    (hall : AllSteps kernelStep (MemCond True) k₀ ops) (hrun : run kernelStep k₀ ops = .ok k) :
    CowIsolated k :=
  (run_inv (fun _ _ _ h hcond hstep => h.step hcond hstep) (hboot.memInv True) hall hrun).cowIsolated

/-- A process maps two pages and forks; the child gets a copy of the first and changes its protection. -/
def sharedOps : List KernelOp :=
  [.spawn 0x400000, .call 1 (.mapFresh 0x1000 7 fun _ => 0), .call 1 (.mapFresh 0x2000 7 fun _ => 0),
    .call 1 (.fork true true true), .call 2 (.pageFault 0x1000 ⟨true, true, false⟩ none),
    .call 2 (.mprotect 0x1000 0x1000 3)]

theorem cow_isolation_run_shared : ∃ k, run kernelStep smallKernel sharedOps = .ok k ∧
    userFrame k.phys.mem (5, 2) = userFrame k.phys.mem (12, 2) ∧ CowIsolated k := by
  have heval : (do
      let k ← run kernelStep smallKernel sharedOps
      return (userFrame k.phys.mem (5, 2), userFrame k.phys.mem (12, 2)) : Except Panic _) =
        .ok (some 11, some 11) := by decide +kernel
  obtain ⟨k, hrun, heval⟩ := bind_eq_ok heval
  obtain ⟨hparent, hchild⟩ := Prod.mk.inj (Except.ok.inj heval)
  have hall := (smallKernel_booted.memInv True).allSteps
    (show checkSteps kernelStep memCheck smallKernel sharedOps = true by decide +kernel)
  exact ⟨k, hrun, hparent.trans hchild.symm, cow_isolation_run smallKernel k sharedOps smallKernel_booted hall hrun⟩

/-- A process maps a page, forks, and makes the page readable and writable. -/
def mprotectOps : List KernelOp :=
  [.spawn 0x400000, .call 1 (.mapFresh 0x1000 7 fun _ => 0), .call 1 (.fork true true true),
    .call 1 (.mprotect 0x1000 0x1000 3)]

/-- `sys_mprotect` makes a page writable that parent and child share. -/
theorem mprotect_shared_writable :
    ¬∀ (k₀ k : Kernel) (ops : List KernelOp), Booted k₀ → run kernelStep k₀ ops = .ok k → CowIsolated k := by
  intro hclaim
  have heval : (do
      let k ← run kernelStep smallKernel mprotectOps
      return (k.spaces.map AddressSpace.root, (pte k.phys.mem 5 1).map fun e => (e, entryIndex e),
        userFrame k.phys.mem (5, 1), userFrame k.phys.mem (11, 1)) :
        Except Panic _) =
          .ok ([5, 11], some (0x8000000000007007, 7), some 7, some 7) := by decide +kernel
  obtain ⟨k, hrun, heval⟩ := bind_eq_ok heval
  obtain ⟨hroots, heval⟩ := Prod.mk.inj (Except.ok.inj heval)
  obtain ⟨hpte, heval⟩ := Prod.mk.inj heval
  obtain ⟨hparent, hchild⟩ := Prod.mk.inj heval
  obtain ⟨e, he, hindex⟩ := Option.map_eq_some_iff.mp hpte
  obtain ⟨rfl, hframe⟩ := Prod.mk.inj hindex
  have hmem : ∀ r ∈ [5, 11], r ∈ k.roots := fun r hr => by rw [Kernel.roots, hroots]; exact List.mem_toFinset.mpr hr
  have hpage : 1 < userPages := by norm_num [userPages]
  have hshared : 2 ≤ userRefs k.phys.mem k.roots 7 :=
    two_le_refs (mem_userDom.mpr ⟨hmem 5 (by decide), hpage⟩) (mem_userDom.mpr ⟨hmem 11 (by decide), hpage⟩)
      hparent hchild (by decide)
  have := (hclaim smallKernel k mprotectOps smallKernel_booted hrun).shared 7 hshared 5 (hmem 5 (by decide)) 1
    hpage _ he hframe
  exact absurd this (by decide)

end Litenix
