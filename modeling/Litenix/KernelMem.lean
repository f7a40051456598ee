import Litenix.MemCalls

/-! The memory invariant of the kernel: the address spaces of all processes are well formed, and every
step that visits only user pages keeps them so. -/

namespace Litenix

open Lib Radix Function

variable {boot : Nat → Prop} {strict : Prop} {k : Kernel}
variable {k' : Kernel} {pid r c : Nat} {p : Phys} {proc proc' : Process}
variable {space : AddressSpace} {live : Finset Nat} {s : Fds}

def AddressSpace.record (space : AddressSpace) : Nat := pageIndex space.selfPhys

namespace Kernel

/-- The address spaces of the processes. -/
def spaces (k : Kernel) : List AddressSpace :=
  (List.range k.nextPid).filterMap fun pid => (k.procs pid).map Process.addressSpace

def roots (k : Kernel) : Finset Nat := (k.spaces.map AddressSpace.root).toFinset

/-- One reference for the page that holds the record of a space. -/
def records (k : Kernel) (f : Nat) : Int := if f ∈ k.spaces.map AddressSpace.record then 1 else 0

theorem mem_spaces :
    space ∈ k.spaces ↔ ∃ pid < k.nextPid, ∃ proc, k.procs pid = some proc ∧ proc.addressSpace = space := by
  simp [spaces, Option.map_eq_some_iff]

theorem mem_roots : r ∈ k.roots ↔ ∃ space ∈ k.spaces, space.root = r := by simp [roots]

theorem records_nonneg (k : Kernel) (f : Nat) : 0 ≤ k.records f := by
  unfold records
  split <;> omega

theorem records_of_mem (h : space ∈ k.spaces) : k.records space.record = 1 :=
  if_pos (List.mem_map_of_mem h)

end Kernel

/-- The invariant: the spaces are well formed, no two of them share a root or a record, and what `MemOk`
says holds of their entries. -/
structure MemInv (strict : Prop) (boot : Nat → Prop) (k : Kernel) : Prop where
  wf : ∃ pos, Wf boot k.roots k.records pos k.phys
  ok : MemOk strict k.roots k.records k.phys.mem
  procs : ∀ {pid proc}, k.procs pid = some proc → pid < k.nextPid ∧ proc.ownsAddressSpace = true
  formed : ∀ space ∈ k.spaces, space.selfPhys = pageAddr space.record
  roots : (k.spaces.map AddressSpace.root).Nodup
  records : (k.spaces.map AddressSpace.record).Nodup

/-! ### The list of spaces -/

theorem Kernel.spaces_congr (hpid : k'.nextPid = k.nextPid)
    (hprocs : ∀ pid, (k'.procs pid).map Process.addressSpace = (k.procs pid).map Process.addressSpace) :
    k'.spaces = k.spaces := by
  unfold spaces
  rw [hpid]
  exact List.filterMap_congr fun pid _ => hprocs pid

theorem Kernel.procs_update (hproc : k.procs pid = some proc)
    (hspace : proc'.addressSpace = proc.addressSpace) (q : Nat) :
    (update k.procs pid (some proc') q).map Process.addressSpace = (k.procs q).map Process.addressSpace := by
  refine update_ind q ?_ fun _ => rfl
  rw [hproc, Option.map_some, Option.map_some, hspace]

section

variable (h : MemInv strict boot k)

include h

theorem MemInv.of_spaces
    (hwf : ∃ pos, Wf boot k.roots k.records pos k'.phys) (hok : MemOk strict k.roots k.records k'.phys.mem)
    (hspaces : k'.spaces = k.spaces)
    (hprocs : ∀ {pid proc}, k'.procs pid = some proc → pid < k'.nextPid ∧ proc.ownsAddressSpace = true) :
    MemInv strict boot k' := by
  have hroots : k'.roots = k.roots := by rw [Kernel.roots, Kernel.roots, hspaces]
  have hrecords : k'.records = k.records := by
    funext f
    rw [Kernel.records, Kernel.records, hspaces]
  refine ⟨?_, ?_, hprocs, ?_, ?_, ?_⟩
  · rw [hroots, hrecords]
    exact hwf
  · rw [hroots, hrecords]
    exact hok
  · rw [hspaces]
    exact h.formed
  · rw [hspaces]
    exact h.roots
  · rw [hspaces]
    exact h.records

theorem MemInv.held : Held strict boot k.roots k.records k.phys k.phys := by
  obtain ⟨pos, hwf⟩ := h.wf
  exact Held.refl hwf h.ok

theorem MemInv.root_mem (hproc : k.procs pid = some proc) :
    proc.addressSpace ∈ k.spaces ∧ proc.addressSpace.root ∈ k.roots := by
  have hmem := Kernel.mem_spaces.mpr ⟨pid, (h.procs hproc).1, proc, hproc, rfl⟩
  exact ⟨hmem, Kernel.mem_roots.mpr ⟨_, hmem, rfl⟩⟩

theorem MemInv.owns_update (hproc : k.procs pid = some proc) (howns : proc'.ownsAddressSpace = proc.ownsAddressSpace)
    (hq : update k.procs pid (some proc') q = some proc'') : q < k.nextPid ∧ proc''.ownsAddressSpace = true := by
  revert hq
  refine update_ind q ?_ fun _ hq => h.procs hq
  rintro ⟨⟩
  rw [howns]
  exact h.procs hproc

theorem MemInv.of_phys
    (hheld : Held strict boot k.roots k.records k.phys p) : MemInv strict boot { k with phys := p } :=
  h.of_spaces hheld.wf hheld.ok rfl h.procs

/-- A memory call that keeps what `Held` collects. -/
theorem MemInv.commit (hproc : k.procs pid = some proc)
    {result : Except Panic Reply} (hkeeps : Keeps strict boot k.roots k.records (k.mm proc) result) :
    ∃ k', result.map (k.commit pid) = .ok k' ∧ MemInv strict boot k' := by
  obtain ⟨reply, rfl, hheld, hspace, howns⟩ := hkeeps
  exact ⟨_, rfl, h.of_spaces hheld.wf hheld.ok (Kernel.spaces_congr rfl (Kernel.procs_update hproc hspace))
    fun hq => h.owns_update hproc howns hq⟩

theorem MemInv.commitFds (hproc : k.procs pid = some proc) (hspace : s.proc.addressSpace = proc.addressSpace)
    (howns : s.proc.ownsAddressSpace = proc.ownsAddressSpace) : MemInv strict boot (k.commitFds pid s) :=
  h.of_spaces h.wf h.ok (Kernel.spaces_congr rfl (Kernel.procs_update hproc hspace))
    fun hq => h.owns_update hproc howns hq

/-! ### Processes that come and go -/

theorem MemInv.next_free : k.procs k.nextPid = none := by
  by_contra hne
  obtain ⟨proc, hproc⟩ := Option.ne_none_iff_exists'.mp hne
  exact absurd (h.procs hproc).1 (lt_irrefl _)

theorem MemInv.spaces_skip : { k with nextPid := k.nextPid + 1 }.spaces = k.spaces := by
  simp [Kernel.spaces, List.range_succ, List.filterMap_append, h.next_free]

theorem MemInv.skip (files : FileTable)
    (hwf : ∃ pos, Wf boot k.roots k.records pos p) (hok : MemOk strict k.roots k.records p.mem) :
    MemInv strict boot { k with nextPid := k.nextPid + 1, files := files, phys := p } :=
  h.of_spaces hwf hok h.spaces_skip fun hq => ⟨Nat.lt_succ_of_lt (h.procs hq).1, (h.procs hq).2⟩

end

section

variable (h : k'.spaces.Perm (space :: k.spaces))

include h

theorem Kernel.roots_of_perm : k'.roots = insert space.root k.roots := by
  rw [roots, roots, List.toFinset_eq_of_perm _ _ (h.map _), List.map_cons, List.toFinset_cons]

theorem Kernel.records_of_perm : k'.records = update k.records space.record 1 := by
  funext f
  by_cases hf : f = space.record <;> simp [records, (h.map AddressSpace.record).mem_iff, hf]

end

theorem Kernel.spaces_insert (k : Kernel) (proc : Process) :
    { k.setProc k.nextPid (some proc) with nextPid := k.nextPid + 1 }.spaces =
      k.spaces ++ [proc.addressSpace] := by
  have hold : (List.range k.nextPid).filterMap (fun pid =>
      (update k.procs k.nextPid (some proc) pid).map Process.addressSpace) = k.spaces := by
    refine List.filterMap_congr fun pid hpid => ?_
    rw [update_of_ne (List.mem_range.mp hpid).ne]
  simp only [Kernel.spaces, List.range_succ, List.filterMap_append] at hold ⊢
  rw [show (k.setProc k.nextPid (some proc)).procs = update k.procs k.nextPid (some proc) from rfl, hold]
  simp

theorem MemInv.addProcess (h : MemInv strict boot k) (proc : Process) {s : Nat} (files : FileTable)
    (hself : proc.addressSpace.selfPhys = pageAddr s) (hfresh : proc.addressSpace.root ∉ k.roots)
    (hs : k.records s = 0) (howns : proc.ownsAddressSpace = true)
    (hwf : ∃ pos, Wf boot (insert proc.addressSpace.root k.roots) (update k.records s 1) pos p)
    (hok : MemOk strict (insert proc.addressSpace.root k.roots) (update k.records s 1) p.mem) :
    MemInv strict boot { k.setProc k.nextPid (some proc) with
      phys := p, nextPid := k.nextPid + 1, files := files } := by
  generalize hk' : ({ k.setProc k.nextPid (some proc) with
      phys := p, nextPid := k.nextPid + 1, files := files } : Kernel) = k'
  have hperm : k'.spaces.Perm (proc.addressSpace :: k.spaces) := by
    rw [← hk']
    exact (List.Perm.of_eq (k.spaces_insert proc)).trans (List.perm_append_singleton _ _)
  have hrecord : proc.addressSpace.record = s := by rw [AddressSpace.record, hself, pageIndex_pageAddr]
  have hroots := Kernel.roots_of_perm hperm
  have hrecords := Kernel.records_of_perm hperm
  have hphys : k'.phys = p := by rw [← hk']
  rw [hrecord] at hrecords
  refine ⟨?_, ?_, ?_, ?_, ?_, ?_⟩
  · rw [hroots, hrecords, hphys]
    exact hwf
  · rw [hroots, hrecords, hphys]
    exact hok
  · intro q proc' hq
    rw [← hk'] at hq ⊢
    change update k.procs k.nextPid (some proc) q = some proc' at hq
    revert hq
    refine update_ind q ?_ fun _ hq => ⟨Nat.lt_succ_of_lt (h.procs hq).1, (h.procs hq).2⟩
    rintro ⟨⟩
    exact ⟨Nat.lt_succ_self _, howns⟩
  · intro space hmem
    rcases List.mem_cons.mp (hperm.mem_iff.mp hmem) with rfl | hmem
    · rw [hrecord, hself]
    · exact h.formed space hmem
  · rw [(hperm.map _).nodup_iff, List.map_cons, List.nodup_cons]
    exact ⟨fun hmem => hfresh (List.mem_toFinset.mpr hmem), h.roots⟩
  · rw [(hperm.map _).nodup_iff, List.map_cons, List.nodup_cons, hrecord]
    refine ⟨fun hmem => ?_, h.records⟩
    rw [Kernel.records, if_pos hmem] at hs
    cases hs

theorem Kernel.spaces_remove (hproc : k.procs pid = some proc) (hpid : pid < k.nextPid) :
    k.spaces.Perm (proc.addressSpace :: (k.setProc pid none).spaces) := by
  have hsame : ((List.range k.nextPid).erase pid).filterMap (fun q => (update k.procs pid none q).map Process.addressSpace) =
      ((List.range k.nextPid).erase pid).filterMap fun q => (k.procs q).map Process.addressSpace := by
    refine List.filterMap_congr fun q hq => ?_
    rw [update_of_ne ((List.nodup_range.mem_erase_iff.mp hq).1)]
  have hsplit := List.perm_cons_erase (List.mem_range.mpr hpid)
  refine ((hsplit.filterMap _).trans ?_).trans ((hsplit.filterMap _).symm.cons _)
  rw [List.filterMap_cons_some (b := proc.addressSpace) (by simp [hproc])]
  change List.Perm _ (_ :: List.filterMap (fun q => (update k.procs pid none q).map Process.addressSpace) _)
  rw [List.filterMap_cons_none (by simp), hsame]

theorem MemInv.removeProcess (h : MemInv strict boot k) (hproc : k.procs pid = some proc) (files : FileTable)
    (hwf : ∃ pos, Wf boot (k.roots.erase proc.addressSpace.root)
      (update k.records proc.addressSpace.record (k.records proc.addressSpace.record - 1)) pos p)
    (hmem : p.mem = k.phys.mem) : MemInv strict boot { k.setProc pid none with phys := p, files := files } := by
  generalize hk' : ({ k.setProc pid none with phys := p, files := files } : Kernel) = k'
  have hperm : k.spaces.Perm (proc.addressSpace :: k'.spaces) := by
    rw [← hk']
    exact Kernel.spaces_remove hproc (h.procs hproc).1
  have hnodup := h.roots
  have hrecords := h.records
  rw [(hperm.map _).nodup_iff, List.map_cons, List.nodup_cons] at hnodup hrecords
  have hroots : k'.roots = k.roots.erase proc.addressSpace.root := by
    have hroot : proc.addressSpace.root ∉ k'.roots := fun hmem => hnodup.1 (List.mem_toFinset.mp hmem)
    rw [Kernel.roots_of_perm hperm, Finset.erase_insert hroot]
  have hextra : k'.records =
      update k.records proc.addressSpace.record (k.records proc.addressSpace.record - 1) := by
    rw [Kernel.records_of_perm hperm, update_self, sub_self, update_idem, eq_comm, update_eq_self_iff]
    exact (if_neg hrecords.1).symm
  have hphys : k'.phys = p := by rw [← hk']
  refine ⟨?_, ⟨?_, ?_⟩, ?_, fun space hmem => h.formed space (hperm.mem_iff.mpr (List.mem_cons_of_mem _ hmem)),
    hnodup.2, hrecords.2⟩
  · rw [hroots, hextra, hphys]
    exact hwf
  · intro f hf
    rw [hphys, hmem]
    have hzero : userRefs k.phys.mem k.roots f = 0 := by
      refine h.ok.records f ?_
      by_cases hmem' : f ∈ k'.spaces.map AddressSpace.record
      · rw [Kernel.records, if_pos ((hperm.map _).mem_iff.mpr (List.mem_cons_of_mem _ hmem'))]
        exact one_ne_zero
      · exact absurd (if_neg hmem') hf
    have hfewer : k'.roots ⊆ k.roots := by
      rw [hroots]
      exact Finset.erase_subset ..
    have hle := userRefs_mono hfewer k.phys.mem f
    omega
  · intro hs
    rw [hphys, hmem, hroots]
    exact (h.ok.isolated hs).mono (Finset.erase_subset ..)
  intro q proc' hq
  rw [← hk'] at hq ⊢
  change update k.procs pid none q = some proc' at hq
  revert hq
  exact update_ind q nofun fun _ hq => h.procs hq

/-! ### Cloning -/

/-- A page of the parent that is not writable gets an entry in the child that is not writable either. -/
theorem Isolated.share (h : Isolated live mem) (hr : r ∈ live) (hc : c ∈ live) (hv : v < userPages)
    (he : pte mem r v = some e)
    (hro : e.testBit 1 = false) (hpage : entryPage w = some (entryIndex e)) (hw : w.testBit 1 = false)
    (hset : ViewSet live mem mem' c v (some w)) : Isolated live mem' := by
  intro r' hr' v' hv' e' he' hw'
  have hk : (r', v') ≠ (c, v) := by
    intro heq
    cases heq
    rw [hset.1] at he'
    cases he'
    rw [hw] at hw'
    cases hw'
  have hpos := userRefs_pos hr' hv' he'
  rw [hset.2 r' hr' v' hv' hk] at he'
  have hone := h r' hr' v' hv' e' he' hw'
  have hno : ¬entryPage w = some (entryIndex e') := by
    intro hmap
    have hsame : entryIndex e = entryIndex e' := Option.some.inj (hpage.symm.trans hmap)
    cases eq_of_userRefs_eq_one hr' hv' he' hr hv he hone hsame
    rw [he] at he'
    cases he'
    rw [hro] at hw'
    cases hw'
  have hcount := hset.userRefs hc hv (entryIndex e')
  rw [Option.bind_some, if_neg hno, hone] at hcount
  omega

theorem cloneInv_isolated (strict : Prop) (hr : r ∈ live) (hc : c ∈ live) :
    CloneInv live r c fun m => strict → Isolated live m where
  same := fun hview h hs => (h hs).same hview
  protect := by
    intro m m' v e w hv he hpage hw _ hset h hs
    have hok : MemOk strict live (fun _ => 0) m := ⟨fun _ hno => absurd rfl hno, h⟩
    refine (hok.viewSet hr hv hset fun w' hw' => ?_).isolated hs
    cases hw'
    refine .rewrite e he (entryPage_eq_some_iff.mp hpage).2.symm fun _ hyes => ?_
    rw [hw] at hyes
    cases hyes
  share := fun hv he hro _ hpage hw _ hset h hs => (h hs).share hr hc hv he hro hpage hw hset

/-- What a fork gets from `vmm_clone_address_space`. -/
structure CloneResult (strict : Prop) (boot : Nat → Prop) (k : Kernel) (p : Phys) (o : Option AddressSpace) :
    Prop where
  ok : MemOk strict k.roots k.records p.mem
  failed : o = none → ∃ pos, Wf boot k.roots k.records pos p
  made : ∀ child, o = some child → ∃ s, child.selfPhys = pageAddr s ∧ child.root ∉ k.roots ∧ k.records s = 0 ∧
    (∃ pos, Wf boot (insert child.root k.roots) (update k.records s 1) pos p) ∧
    MemOk strict (insert child.root k.roots) (update k.records s 1) p.mem

theorem MemInv.vmmCloneAddressSpace (h : MemInv strict boot k) {parent : AddressSpace} (hr : parent.root ∈ k.roots)
    (hmax : ∀ f, userRefs k.phys.mem k.roots f + spaceRefs k.phys.mem parent.root f ≤ 65535) :
    ∃ p o, Litenix.vmmCloneAddressSpace k.phys parent = .ok (p, o) ∧ CloneResult strict boot k p o := by
  obtain ⟨pos, hwf⟩ := h.wf
  obtain ⟨p, o, hclone, hcloned, hcase⟩ := hwf.vmmCloneAddressSpace k.records_nonneg hr (by
      intro f
      have := hmax f
      by_cases hf : k.records f = 0
      · omega
      have hzero := h.ok.records f hf
      have := spaceRefs_le hr k.phys.mem f
      have : k.records f ≤ 1 := by
        unfold Kernel.records
        split <;> omega
      omega)
    (fun c m => strict → Isolated (insert c k.roots) m)
    (fun c _ => cloneInv_isolated strict (Finset.mem_insert_of_mem hr) (Finset.mem_insert_self ..))
    (by
      intro c hc m hview hempty hs r' hr' v hv e he hw
      rcases Finset.mem_insert.mp hr' with rfl | hr'
      · rw [hempty v hv] at he
        cases he
      have hone := (h.ok.isolated hs).same hview r' hr' v hv e he hw
      rw [userRefs_insert hc, hone, show spaceRefs m c (entryIndex e) = 0 from ?_]
      rw [spaceRefs, userRefs, refs_eq_zero_iff]
      rintro ⟨r'', v''⟩ hk hmap
      obtain ⟨hr'', hv''⟩ := mem_userDom.mp hk
      rw [Finset.mem_singleton.mp hr'', userFrame_of_pte, hempty v'' hv''] at hmap
      cases hmap)
  have hframes : SameFrames k.roots k.phys.mem p.mem := hcloned.frames
  have hrecords : ∀ f, k.records f ≠ 0 → userRefs p.mem k.roots f = 0 := by
    intro f hf
    rw [hframes.userRefs]
    exact h.ok.records f hf
  refine ⟨p, o, hclone, ?_⟩
  rcases hcase with ⟨rfl, hundone⟩ | ⟨child, s, rfl, hdone⟩
  · refine ⟨⟨hrecords, fun hs => ?_⟩, fun _ => hundone.wf.imp fun _ => And.left, fun child hno => by cases hno⟩
    rcases hundone.inv with hview | ⟨c, -, hisolated⟩
    · exact (h.ok.isolated hs).same hview
    · exact (hisolated hs).mono (Finset.subset_insert ..)
  refine ⟨⟨hrecords, fun hs => (hdone.inv hs).mono (Finset.subset_insert ..)⟩, fun hno => (by cases hno), ?_⟩
  rintro _ ⟨⟩
  refine ⟨s, hdone.self, hdone.fresh, hdone.noExtra, hdone.wf, ?_, hdone.inv⟩
  intro f hf
  have hlive : userRefs p.mem k.roots f = 0 := by
    by_cases hfs : f = s
    · rw [hfs, hframes.userRefs, hdone.unmapped]
    · rw [update_of_ne hfs] at hf
      exact hrecords f hf
  -- the child maps only pages of the parent
  rw [userRefs_insert hdone.fresh, hlive, zero_add, spaceRefs, userRefs, refs_eq_zero_iff]
  rintro ⟨r', v⟩ hk hmap
  obtain ⟨hr', hv⟩ := mem_userDom.mp hk
  rw [Finset.mem_singleton.mp hr', hdone.frames hv, ← hframes _ hr v hv] at hmap
  exact refs_eq_zero_iff.mp hlive (parent.root, v) (mem_userDom.mpr ⟨hr, hv⟩) hmap

/-! ### Steps -/

/-- The pages of a range are reached through the lower half of the top-level table. -/
def LowerHalf (start stop : Nat) : Prop := ∀ v ∈ pageAddrs start stop, pml4Index v < 256

theorem LowerHalf.userRange (h : LowerHalf start stop) : UserRange start stop :=
  fun v hv => vpn_lt_userPages_iff.mpr (h v hv)

/-- A page of the range is mapped by an entry of its own only. -/
def Unshared (k : Kernel) (proc : Process) (start stop : Nat) : Prop :=
  ∀ v ∈ pageAddrs start stop, ∀ e, pte k.phys.mem proc.addressSpace.root (vpn v) = some e →
    userRefs k.phys.mem k.roots (entryIndex e) = 1

/-- The condition on a call: it visits user pages only, and a fork overflows no count. With `strict`,
`sys_mprotect` makes no shared page writable, and neither does the fallback of `vmm_copy_to_user`. -/
def CallCond (strict : Prop) (k : Kernel) (proc : Process) : Call → Prop
  | .pageFault cr2 _ _ => pml4Index cr2.toNat < 256
  | .mapFresh virt _ _ => pml4Index virt.toNat < 256
  | .store virt _ => pml4Index virt.toNat < 256
  | .copyToUser dst bytes => bytes.length < 2 ^ 64 ∧ (strict →
      CopySafe k.roots k.phys proc.addressSpace (some proc.vmas)
        (touchedPages dst.toNat (sub64 (add64 dst.toNat bytes.length) 1)))
  | .brk newBrk => LowerHalf (pageAlignUp proc.heapEnd) (pageAlignUp newBrk.toNat) ∧
      LowerHalf (pageAlignUp newBrk.toNat) (pageAlignUp proc.heapEnd)
  | .munmap addr length => LowerHalf addr.toNat (add64 addr.toNat (pageAlignUp length.toNat))
  | .mprotect addr length prot => LowerHalf addr.toNat (add64 addr.toNat (pageAlignUp length.toNat)) ∧
      (strict → (protPageFlags prot.toNat).testBit 1 = true →
        Unshared k proc addr.toNat (add64 addr.toNat (pageAlignUp length.toNat)))
  | .madvise addr length _ => ∀ i, (proc.vmas i).valid = true →
      LowerHalf (pageAlignDown (max addr.toNat (proc.vmas i).start))
        (pageAlignUp (min (add64 addr.toNat (pageAlignUp length.toNat)) (proc.vmas i).stop))
  | .fork _ _ _ => ∀ f, userRefs k.phys.mem k.roots f + spaceRefs k.phys.mem proc.addressSpace.root f ≤ 65535
  | _ => True

def MemCond (strict : Prop) (k : Kernel) : KernelOp → Prop
  | .spawn _ => True
  | .call pid call => ∀ proc, k.procs pid = some proc → CallCond strict k proc call

section

variable (h : MemInv strict boot k)

include h

theorem MemInv.spawn (heapStart : Nat) : ∃ k', Litenix.spawn k heapStart = .ok k' ∧ MemInv strict boot k' := by
  obtain ⟨pos, hwf⟩ := h.wf
  unfold Litenix.spawn
  obtain ⟨p, o, hcreate, ⟨rfl, hwf', hview, -⟩ | ⟨space, s, rfl, hnew⟩⟩ := hwf.vmmCreateAddressSpace
  · rw [hcreate]
    exact ⟨_, rfl, h.of_spaces ⟨pos, hwf'⟩ (h.ok.same hview) rfl h.procs⟩
  rw [hcreate]
  have hempty : ∀ f, spaceRefs p.mem space.root f = 0 := by
    intro f
    rw [spaceRefs, userRefs, refs_eq_zero_iff]
    rintro ⟨r, v⟩ hk hmap
    obtain ⟨hr, hv⟩ := mem_userDom.mp hk
    rw [Finset.mem_singleton.mp hr, userFrame_of_pte, hnew.empty v hv] at hmap
    cases hmap
  have hrefs : ∀ f, userRefs p.mem (insert space.root k.roots) f = userRefs k.phys.mem k.roots f := by
    intro f
    rw [userRefs_insert hnew.fresh, hempty, add_zero, hnew.view.userRefs]
  refine ⟨_, rfl, h.addProcess (newProcess space heapStart) k.files hnew.self hnew.fresh hnew.noExtra
    rfl ⟨_, hnew.wf⟩ ⟨?_, ?_⟩⟩
  · intro f hf
    rw [show (newProcess space heapStart).addressSpace.root = space.root from rfl, hrefs]
    by_cases hfs : f = s
    · rw [hfs, hnew.unmapped]
    · rw [update_of_ne hfs] at hf
      exact h.ok.records f hf
  intro hs r hr v hv e he hw
  change r ∈ insert space.root k.roots at hr
  change userRefs p.mem (insert space.root k.roots) (entryIndex e) = 1
  rcases Finset.mem_insert.mp hr with rfl | hr
  · rw [hnew.empty v hv] at he
    cases he
  · rw [hnew.view r hr v hv] at he
    rw [hrefs]
    exact h.ok.isolated hs r hr v hv e he hw

theorem MemInv.taskFork (hproc : k.procs pid = some parent)
    (hmax : ∀ f, userRefs k.phys.mem k.roots f + spaceRefs k.phys.mem parent.addressSpace.root f ≤ 65535)
    (processOk taskOk kstackOk : Bool) :
    ∃ k', Litenix.taskFork k parent processOk taskOk kstackOk = .ok k' ∧ MemInv strict boot k' := by
  unfold Litenix.taskFork
  split
  · exact ⟨k, rfl, h⟩
  obtain ⟨p, o, hclone, hresult⟩ := h.vmmCloneAddressSpace (h.root_mem hproc).2 hmax
  dsimp only
  rw [hclone]
  cases o with
  | none => exact ⟨_, rfl, h.skip _ (hresult.failed rfl) hresult.ok⟩
  | some child =>
  obtain ⟨s, hself, hfresh, hs, ⟨pos', hwf'⟩, hok'⟩ := hresult.made child rfl
  dsimp only
  split
  · -- the child cannot be completed: its space is destroyed again
    obtain ⟨p', hdestroy, hwf'', hmem, -⟩ := hwf'.vmmDestroyAddressSpace (fun f =>
        update_ind f zero_le_one fun _ => k.records_nonneg f)
      (Finset.mem_insert_self ..) hself (by simp)
    rw [Finset.erase_insert hfresh, update_idem, update_self, sub_self, ← hs,
      update_eq_self] at hwf''
    rw [hdestroy]
    exact ⟨_, rfl, h.skip _ ⟨_, hwf''⟩ (hmem ▸ hresult.ok)⟩
  · exact ⟨_, rfl, h.addProcess { parent with addressSpace := child, ownsAddressSpace := true } _
      hself hfresh hs rfl ⟨pos', hwf'⟩ hok'⟩

section

variable (hproc : k.procs pid = some proc)

include hproc

theorem MemInv.reapZombie : ∃ k', Litenix.reapZombie k pid proc = .ok k' ∧ MemInv strict boot k' := by
  obtain ⟨pos, hwf⟩ := h.wf
  obtain ⟨hmem, hr⟩ := h.root_mem hproc
  obtain ⟨p, hdestroy, hwf', hsame, -⟩ := hwf.vmmDestroyAddressSpace k.records_nonneg hr (h.formed _ hmem)
    (by rw [Kernel.records_of_mem hmem]; exact one_pos)
  unfold Litenix.reapZombie
  rw [(h.procs hproc).2, if_pos rfl, show (k.setProc pid none).phys = k.phys from rfl, hdestroy]
  exact ⟨_, rfl, h.removeProcess hproc _ ⟨_, hwf'⟩ hsame⟩

theorem MemInv.fdCall (hmoves : FdMoves ⟨k.files, proc⟩ s) :
    ∃ k', (Except.ok (k.commitFds pid s) : Except Panic Kernel) = .ok k' ∧ MemInv strict boot k' := by
  obtain ⟨table, htable⟩ := hmoves.onlyFiles
  exact ⟨_, rfl, h.commitFds hproc (by rw [htable]) (by rw [htable])⟩

/-- **One call.** A call that meets its condition returns, unless the search for a free region never ends,
and it keeps the invariant. -/
theorem MemInv.callStep (hcond : CallCond strict k proc call) :
    (∃ k', Litenix.callStep k pid proc call = .ok k' ∧ MemInv strict boot k') ∨
      Litenix.callStep k pid proc call = .error .endlessSearch := by
  obtain ⟨pos, hwf⟩ := h.wf
  have hr := (h.root_mem hproc).2
  have hx := k.records_nonneg
  cases call with
  | pageFault cr2 code fill =>
    obtain ⟨p, hfault, hheld⟩ := h.held.pageFault hx hr (vpn_lt_userPages_iff.mpr hcond) code fill
    exact .inl ⟨_, by rw [Litenix.callStep, hfault]; rfl, h.of_phys hheld⟩
  | mapFresh virt flags page =>
    obtain ⟨p, mapped, hmap, hheld, -⟩ :=
      h.held.mapFreshPage hr (vpn_lt_userPages_iff.mpr hcond) flags.toNat page
    exact .inl ⟨_, by rw [Litenix.callStep, hmap]; rfl, h.of_phys hheld⟩
  | store virt byte =>
    exact .inl ⟨_, rfl, h.of_phys (h.held.userStore hr (vpn_lt_userPages_iff.mpr hcond) byte)⟩
  | copyToUser dst bytes =>
    obtain ⟨p, ok, hcopy, hheld⟩ :=
      h.held.vmmCopyToUser (some proc.vmas) hx hr dst.toNat_lt hcond.1 hcond.2
    exact .inl ⟨_, by rw [Litenix.callStep, hcopy]; rfl, h.of_phys hheld⟩
  | copyFromUser src length =>
    obtain ⟨p, bytes, hcopy, hheld⟩ := h.held.vmmCopyFromUser (some proc.vmas) hx hr src.toNat length.toNat
    exact .inl ⟨_, by rw [Litenix.callStep, hcopy]; rfl, h.of_phys hheld⟩
  | brk newBrk =>
    exact .inl (h.commit hproc (keeps_sysBrk hwf h.ok hx hr hcond.1.userRange hcond.2.userRange))
  | mmap addr length prot flags fd offset =>
    rcases keeps_sysMmap (m := k.mm proc) hwf h.ok hx hr k.fileType with hkeeps | hendless
    · exact .inl (h.commit hproc hkeeps)
    · exact .inr (by rw [Litenix.callStep, hendless]; rfl)
  | munmap addr length => exact .inl (h.commit hproc (keeps_sysMunmap hwf h.ok hx hr _ _ hcond.userRange))
  | mprotect addr length prot =>
    exact .inl (h.commit hproc (keeps_sysMprotect hwf h.ok hr hcond.1.userRange hcond.2))
  | madvise addr length advice =>
    exact .inl (h.commit hproc (keeps_sysMadvise hwf h.ok hx hr fun i hi => (hcond i hi).userRange))
  | openNode node flags => exact .inl (h.fdCall hproc (.openNode ..))
  | close fd => exact .inl (h.fdCall hproc (.sysClose ..))
  | dup oldfd => exact .inl (h.fdCall hproc (.sysDup ..))
  | dup2 oldfd newfd => exact .inl (h.fdCall hproc (.sysDup2 ..))
  | dup3 oldfd newfd flags => exact .inl (h.fdCall hproc (.sysDup3 ..))
  | fcntl fd cmd arg => exact .inl (h.fdCall hproc (.sysFcntl ..))
  | fork processOk taskOk kstackOk => exact .inl (h.taskFork hproc hcond processOk taskOk kstackOk)
  | reap => exact .inl (h.reapZombie hproc)

end

/-- **One step** that meets its condition keeps the invariant. -/
theorem MemInv.step (hcond : MemCond strict k op) (hstep : kernelStep k op = .ok k') : MemInv strict boot k' := by
  cases op with
  | spawn heapStart =>
    obtain ⟨t, ht, hinv⟩ := h.spawn heapStart.toNat
    cases ht.symm.trans hstep
    exact hinv
  | call pid call =>
  rw [kernelStep] at hstep
  cases hproc : k.procs pid with
  | none =>
    rw [hproc] at hstep
    cases hstep
    exact h
  | some proc =>
    rw [hproc] at hstep
    rcases h.callStep hproc (hcond proc hproc) with ⟨t, ht, hinv⟩ | hendless
    · cases ht.symm.trans hstep
      exact hinv
    · cases hendless.symm.trans hstep

end

/-- The state after boot: no process yet, page 0 is not managed, and physical addresses have 52 bits. -/
structure Booted (k : Kernel) : Prop where
  procs : ∀ pid, k.procs pid = none
  zero : k.phys.pmm.managedBitmap 0 = false
  total : k.phys.pmm.totalPages ≤ 2 ^ 40

theorem Booted.memInv (h : Booted k) (strict : Prop) : MemInv strict k.phys.pmm.InUse k := by
  have hspaces : k.spaces = [] := by
    rw [Kernel.spaces, List.filterMap_eq_nil_iff]
    intro pid _
    rw [h.procs]
    rfl
  have hroots : k.roots = ∅ := by rw [Kernel.roots, hspaces]; rfl
  have hrecords : k.records = fun _ => 0 := by
    funext f
    rw [Kernel.records, hspaces, List.map_nil, if_neg List.not_mem_nil]
  refine ⟨⟨fun _ => none, ?_⟩, ⟨?_, ?_⟩, ?_, ?_, ?_, ?_⟩
  · rw [hroots, hrecords]
    exact .empty h.zero h.total
  · intro f hf
    rw [hrecords] at hf
    exact absurd rfl hf
  · intro _ r hr
    rw [hroots] at hr
    cases hr
  · intro pid proc hproc
    rw [h.procs] at hproc
    cases hproc
  · rw [hspaces]
    exact fun space hmem => by cases hmem
  · rw [hspaces]
    exact List.nodup_nil
  · rw [hspaces]
    exact List.nodup_nil

end Litenix
