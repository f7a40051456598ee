import Litenix.FileRefs

/-! The reference counts of open files over runs of the kernel: memory calls, descriptor calls, `task_fork`
and `reap_zombie`. -/

namespace Litenix

open Lib Function

variable {fd : Int} {addr length : Nat} {reply : Reply}
variable {taken : List FileEvent} {files : FileTable} {op : KernelOp}

/-! ### Memory calls -/

/-- A memory call leaves the descriptors alone, and its file events make up for the change of the areas. -/
def Settled (m : Mm) (reply : Reply) : Prop :=
  reply.mm.proc.files = m.proc.files ∧
    ∀ files, Balanced ⟨files, m.proc⟩ ⟨files.applyAll reply.events, reply.mm.proc⟩

theorem Process.fileRefs_eq (proc : Process) (f : FileId) :
    proc.fileRefs f = refs Finset.univ proc.files f + vmaRefs proc.vmas f := rfl

variable {m : Mm} {prot : Nat} {area : Vma}

theorem settled_of_same (hevents : reply.events = []) (hfiles : reply.mm.proc.files = m.proc.files)
    (hvmas : reply.mm.proc.vmas = m.proc.vmas) : Settled m reply := by
  refine ⟨hfiles, fun files => ?_⟩
  rw [hevents]
  refine Balanced.of_same rfl rfl fun f => ?_
  rw [Process.fileRefs_eq, Process.fileRefs_eq, hfiles, hvmas]

theorem settled_closeAreas (p : Phys) {areas : VmaTable × List FileId} (ret : Except Errno Nat)
    (h : ∀ f, vmaRefs areas.1 f + areas.2.count f = vmaRefs m.proc.vmas f) :
    Settled m ⟨{ m with phys := p }.withVmas areas.1, areas.2.map .close, ret⟩ := by
  refine ⟨rfl, fun files => Balanced.closeAll fun f => ?_⟩
  have := h f
  change refs Finset.univ m.proc.files f + vmaRefs areas.1 f + _ =
    refs Finset.univ m.proc.files f + vmaRefs m.proc.vmas f
  omega

theorem Settled.trans (h : Settled m reply) (h' : Settled reply.mm reply') :
    Settled m { reply' with events := reply.events ++ reply'.events } := by
  refine ⟨h'.1.trans h.1, fun files => ?_⟩
  rw [FileTable.applyAll_append]
  exact (h.2 files).trans (h'.2 _)

theorem settled_munmapRange (hle : start ≤ stop) (hno : NoSplit m.proc.vmas start stop)
    (hreply : munmapRange m start stop = .ok reply) : Settled m reply := by
  have hrefs := munmapVmas_refs hle hno
  unfold munmapRange at hreply
  generalize munmapVmas m.proc.vmas start stop = areas at *
  split at hreply
  · cases hreply
  · rename_i p _
    cases hreply
    exact settled_closeAreas p _ hrefs

theorem settled_sysMunmap (hno : NoSplit m.proc.vmas addr (add64 addr (pageAlignUp length)))
    (hreply : sysMunmap m addr length = .ok reply) : Settled m reply := by
  rcases sysMunmap_cases m addr length with ⟨e, heq⟩ | ⟨-, hle, -, heq⟩ <;> rw [heq] at hreply
  · cases hreply
    exact settled_of_same rfl rfl rfl
  · exact settled_munmapRange hle hno hreply

theorem settled_sysMprotect (hno : NoCut m.proc.vmas addr (add64 addr (pageAlignUp length)))
    (hreply : sysMprotect m addr length prot = .ok reply) : Settled m reply := by
  rcases sysMprotect_cases m addr length prot with ⟨ret, heq⟩ | ⟨-, -, hle, -, heq⟩ <;> rw [heq] at hreply
  · cases hreply
    exact settled_of_same rfl rfl rfl
  · cases hreply
    exact settled_closeAreas _ _ (mprotectVmas_refs hle hno prot _)

theorem settled_sysBrk (hreply : sysBrk m newBrk = .ok reply) : Settled m reply := by
  rcases sysBrk_cases m newBrk with ⟨ret, heq⟩ | ⟨-, heq⟩ | ⟨-, heq⟩ <;> rw [heq] at hreply
  · cases hreply
    exact settled_of_same rfl rfl rfl
  · unfold growBrk at hreply
    split at hreply <;> cases hreply <;> exact settled_of_same rfl rfl rfl
  · unfold shrinkBrk at hreply
    split at hreply <;> cases hreply
    exact settled_of_same rfl rfl rfl

theorem settled_sysMadvise (hreply : sysMadvise m addr length advice = .ok reply) : Settled m reply := by
  rcases sysMadvise_cases m addr length advice with ⟨ret, heq⟩ | heq <;> rw [heq] at hreply
  · cases hreply
    exact settled_of_same rfl rfl rfl
  · unfold madviseDontneed at hreply
    split at hreply <;> cases hreply
    exact settled_of_same rfl rfl rfl

theorem settled_newArea (harea : MmapArea m.proc fd area taken)
    {slot : Fin vmaMax} (hslot : (m.proc.vmas slot).valid = false) (vma : Vma) (hvalid : vma.valid = true)
    (hbacking : vma.backing = area.backing) (ret : Except Errno Nat) :
    Settled m ⟨m.withVmas (update m.proc.vmas slot vma), taken, ret⟩ := by
  have hupdate := vmaRefs_update m.proc.vmas slot vma
  rw [Vma.held_of_invalid hslot, Vma.held, if_pos hvalid, hbacking] at hupdate
  refine ⟨rfl, fun files => ?_⟩
  cases harea with
  | anonymous hanon =>
    rw [Vma.backing, if_pos hanon] at hupdate
    refine Balanced.of_same rfl rfl fun f => ?_
    have := hupdate f
    simp only [reduceCtorEq, if_false, add_zero] at this
    rw [Process.fileRefs_eq, Process.fileRefs_eq, ← this]
    rfl
  | backed f hfd hanon hfile =>
    rw [Vma.backing, if_neg (by rw [hanon]; exact Bool.false_ne_true), hfile] at hupdate
    obtain ⟨i, -, hi⟩ := Option.bind_eq_some_iff.mp hfd
    refine Balanced.take (Process.fileRefs_pos_of_fd hi) fun g => ?_
    have := hupdate g
    simp only [reduceCtorEq, if_false, add_zero, Option.some.injEq, eq_comm (a := f) (b := g)] at this
    rw [Process.fileRefs_eq, Process.fileRefs_eq, add_assoc, ← this]
    rfl

theorem settled_insertArea (harea : MmapArea m.proc fd area taken) (mapAddr alignedLen : Nat) :
    Settled m (insertArea m [] mapAddr alignedLen area taken) := by
  unfold insertArea
  split
  · exact settled_of_same rfl rfl rfl
  rename_i slot hslot
  generalize hvma : ({ area with start := mapAddr, stop := add64 mapAddr alignedLen, valid := true } : Vma) = vma
  have hnew := settled_newArea harea (freeSlot_some hslot) vma (by rw [← hvma]) (by rw [← hvma]; rfl)
    (.ok mapAddr)
  have hmerge := vmaRefs_mergeLoop (vmaMax + 1) (update m.proc.vmas slot vma)
  rw [← vmaMergeAdjacent] at hmerge
  dsimp only
  generalize vmaMergeAdjacent (update m.proc.vmas slot vma) = areas at *
  exact hnew.trans (settled_closeAreas (m := m.withVmas (update m.proc.vmas slot vma)) m.phys
    (.ok mapAddr) hmerge)

theorem insertArea_events (m : Mm) (events : List FileEvent) (mapAddr alignedLen : Nat) (area : Vma)
    (taken : List FileEvent) :
    insertArea m events mapAddr alignedLen area taken =
      { insertArea m [] mapAddr alignedLen area taken with
        events := events ++ (insertArea m [] mapAddr alignedLen area taken).events } := by
  unfold insertArea
  split
  · rw [List.append_nil]
  · dsimp only
    rw [List.nil_append, List.append_assoc]

theorem settled_sysMmap {nodeType : FileId → Option VfsType} {flags : Nat} {offset : Nat}
    (hno : hasFlag flags mapFixed = true → NoSplit m.proc.vmas addr (add64 addr (pageAlignUp length)))
    (hreply : sysMmap nodeType m addr length prot flags fd offset = .ok reply) : Settled m reply := by
  rcases sysMmap_cases nodeType m addr length prot flags fd offset with
    ⟨e, heq⟩ | ⟨area, taken, harea, -, hmax, -, -, heq⟩ <;> rw [heq] at hreply
  · cases hreply
    exact settled_of_same rfl rfl rfl
  have halign : pageAlignUp (pageAlignUp length) = pageAlignUp length := by
    rw [pageAlignUp_eq (pageAlignUp length), pageAlignUp_eq length]
    omega
  unfold placeArea at hreply
  split at hreply
  · rename_i hfixed
    split at hreply
    · cases hreply
    rename_i unmapped hunmap
    cases hreply
    have hsettled := settled_sysMunmap (by rw [halign]; exact hno hfixed) hunmap
    rw [insertArea_events]
    -- the descriptor table is the same after `sys_munmap`
    have harea' : MmapArea unmapped.mm.proc fd area taken := by
      cases harea with
      | anonymous hanon => exact .anonymous area hanon
      | backed f hfd hanon hfile =>
        refine .backed area f ?_ hanon hfile
        rw [Process.fdFile, hsettled.1]
        exact hfd
    exact hsettled.trans (settled_insertArea harea' _ _)
  split at hreply
  · cases hreply
  rename_i hint _
  split at hreply
  · cases hreply
    exact settled_of_same rfl rfl rfl
  · cases hreply
    exact settled_insertArea (m := { m with mmapHint := hint }) harea _ _

/-! ### Processes -/

structure FileInv (k : Kernel) : Prop where
  counted : Counted k.files k.fileRefs
  procs : ∀ {pid proc}, k.procs pid = some proc → pid < k.nextPid

variable {k k' : Kernel} {pid : Nat} {proc : Process}

theorem Kernel.setProc_procs (k : Kernel) (pid : Nat) (o : Option Process) :
    (k.setProc pid o).procs = update k.procs pid o := rfl

theorem Kernel.fileRefs_setProc (hlt : pid < k.nextPid) (hproc : k.procs pid = some proc) (o : Option Process)
    (f : FileId) : (k.setProc pid o).fileRefs f + proc.fileRefs f =
      k.fileRefs f + o.elim 0 fun proc => proc.fileRefs f := by
  have hmem := Finset.mem_range.mpr hlt
  have hothers : ∑ q ∈ (Finset.range k.nextPid).erase pid,
      ((k.setProc pid o).procs q).elim 0 (fun proc => proc.fileRefs f) =
      ∑ q ∈ (Finset.range k.nextPid).erase pid, (k.procs q).elim 0 fun proc => proc.fileRefs f := by
    apply Finset.sum_congr rfl
    intro q hq
    rw [setProc_procs, update_of_ne (Finset.ne_of_mem_erase hq)]
  unfold fileRefs
  rw [← Finset.add_sum_erase _ _ hmem, show (k.setProc pid o).nextPid = k.nextPid from rfl,
    ← Finset.add_sum_erase (Finset.range k.nextPid) _ hmem, hothers, setProc_procs, update_self, hproc]
  change _ = proc.fileRefs f + _ + _
  omega

theorem Kernel.fileRefs_insert (k : Kernel) (proc : Process) (f : FileId) :
    { k.setProc k.nextPid (some proc) with nextPid := k.nextPid + 1 }.fileRefs f =
      k.fileRefs f + proc.fileRefs f := by
  unfold fileRefs
  rw [Finset.sum_range_succ, setProc_procs, update_self]
  congr 1
  apply Finset.sum_congr rfl
  intro q hq
  rw [update_of_ne (Nat.ne_of_lt (Finset.mem_range.mp hq))]

theorem Counted.takeSlots (h : Counted files n) {slots : Nat}
    (view : Fin slots → Option FileId) (hle : ∀ f, refs Finset.univ view f ≤ n f) :
    Counted (files.applyAll ((List.finRange slots).filterMap fun i => (view i).map .take))
      fun f => n f + refs Finset.univ view f := by
  have hlist : ((List.finRange slots).filterMap fun i => (view i).map FileEvent.take) =
      ((List.finRange slots).filterMap view).map .take := by rw [List.map_filterMap]
  rw [hlist]
  refine (h.takeAll fun f hf => ?_).congr fun f => by rw [count_filterMap_finRange]
  have hpos := List.count_pos_iff.mpr hf
  rw [count_filterMap_finRange] at hpos
  exact lt_of_lt_of_le hpos (hle f)

section

variable (h : FileInv k)

include h

theorem FileInv.fileCounts : FileCounts k := by
  refine ⟨fun f file hf => ?_, fun f => ?_⟩
  · have hcount := h.counted.counts f
    rw [FileTable.counts, hf, Option.map_some, countOf] at hcount
    split at hcount
    · cases hcount
    · exact Option.some.inj hcount
  · have hcount := h.counted.counts f
    rw [FileTable.counts, countOf] at hcount
    rw [← Option.map_eq_none_iff (f := File.refCount), hcount]
    simp

theorem FileInv.fileRefs_le (hproc : k.procs pid = some proc) (f : FileId) : proc.fileRefs f ≤ k.fileRefs f := by
  have hset := Kernel.fileRefs_setProc (h.procs hproc) hproc none f
  change _ = k.fileRefs f + 0 at hset
  omega

/-- A step of one process that keeps its counts balanced. -/
theorem FileInv.update (hproc : k.procs pid = some proc) {s : Fds}
    (hbalanced : Balanced ⟨k.files, proc⟩ s) (hprocs : k'.procs = (k.setProc pid (some s.proc)).procs)
    (hnext : k'.nextPid = k.nextPid) (hfiles : k'.files = s.files) : FileInv k' := by
  have hlt := h.procs hproc
  have hrefs : ∀ f, k.fileRefs f - proc.fileRefs f + s.proc.fileRefs f = k'.fileRefs f := by
    intro f
    have hset := Kernel.fileRefs_setProc hlt hproc (some s.proc) f
    have hsame : (k.setProc pid (some s.proc)).fileRefs f = k'.fileRefs f := by
      rw [Kernel.fileRefs, Kernel.fileRefs, hprocs, hnext]
      rfl
    have hle := h.fileRefs_le hproc f
    change _ = k.fileRefs f + s.proc.fileRefs f at hset
    omega
  refine ⟨hfiles ▸ (hbalanced _ h.counted (h.fileRefs_le hproc)).congr hrefs, fun {q proc'} hq => ?_⟩
  rw [hprocs] at hq
  rw [hnext]
  by_cases hqp : q = pid
  · rw [hqp]
    exact hlt
  · rw [Kernel.setProc_procs, update_of_ne hqp] at hq
    exact h.procs hq

theorem FileInv.insert (proc : Process) (hcounted : Counted files fun f => k.fileRefs f + proc.fileRefs f)
    (hprocs : k'.procs = (k.setProc k.nextPid (some proc)).procs) (hnext : k'.nextPid = k.nextPid + 1)
    (hfiles : k'.files = files) : FileInv k' := by
  refine ⟨hfiles ▸ hcounted.congr fun f => ?_, fun {q proc'} hq => ?_⟩
  · rw [← Kernel.fileRefs_insert]
    unfold Kernel.fileRefs
    rw [hprocs, hnext]
  rw [hprocs] at hq
  by_cases hqp : q = k.nextPid
  · omega
  · rw [Kernel.setProc_procs, update_of_ne hqp] at hq
    have := h.procs hq
    omega

theorem FileInv.skip (hcounted : Counted k'.files k.fileRefs) (hprocs : k'.procs = k.procs)
    (hnext : k'.nextPid = k.nextPid + 1) : FileInv k' := by
  have hfree : k.procs k.nextPid = none := by
    by_contra hne
    obtain ⟨proc, hproc⟩ := Option.ne_none_iff_exists'.mp hne
    exact lt_irrefl _ (h.procs hproc)
  refine ⟨hcounted.congr fun f => ?_, fun {q proc'} hq => ?_⟩
  · rw [Kernel.fileRefs, Kernel.fileRefs, hnext, Finset.sum_range_succ, hprocs, hfree]
    rfl
  · rw [hprocs] at hq
    rw [hnext]
    exact Nat.lt_succ_of_lt (h.procs hq)

theorem FileInv.of_same (hfiles : k'.files = k.files) (hprocs : k'.procs = k.procs)
    (hnext : k'.nextPid = k.nextPid) : FileInv k' := by
  have hrefs : k.fileRefs = k'.fileRefs := by
    funext f
    rw [Kernel.fileRefs, Kernel.fileRefs, hprocs, hnext]
  refine ⟨hfiles ▸ hrefs ▸ h.counted, fun {q proc'} hq => ?_⟩
  rw [hprocs] at hq
  exact hnext ▸ h.procs hq

theorem FileInv.spawn (hspawn : spawn k heapStart = .ok k') : FileInv k' := by
  unfold Litenix.spawn at hspawn
  split at hspawn
  · cases hspawn
  · cases hspawn
    exact h.of_same rfl rfl rfl
  rename_i p space _
  cases hspawn
  have hnone : ∀ f, (newProcess space heapStart).fileRefs f = 0 := fun f => by
    have hfds : refs Finset.univ (newProcess space heapStart).files f = 0 :=
      refs_eq_zero_iff.mpr fun _ _ => nofun
    have hvmas : refs Finset.univ (vmaFile (newProcess space heapStart).vmas) f = 0 :=
      refs_eq_zero_iff.mpr fun _ _ => nofun
    rw [Process.fileRefs, hfds, hvmas]
  exact h.insert _ (h.counted.congr fun f => by rw [hnone, add_zero]) rfl rfl rfl

/-- `vmm_clone_address_space` has the memory that it needs. -/
def cloneSucceeds (k : Kernel) (proc : Process) : Bool :=
  match vmmCloneAddressSpace k.phys proc.addressSpace with
  | .ok (_, some _) => true
  | _ => false

theorem FileInv.taskFork (hproc : k.procs pid = some proc) {processOk taskOk kstackOk : Bool}
    (hcond : processOk = false ∨ (∀ f, proc.fileRefs f = 0) ∨
      taskOk = true ∧ kstackOk = true ∧ cloneSucceeds k proc = true)
    (hfork : taskFork k proc processOk taskOk kstackOk = .ok k') : FileInv k' := by
  have hle := h.fileRefs_le hproc
  have hfds := h.counted.takeSlots proc.files fun f => by
    have := hle f
    rw [Process.fileRefs] at this
    omega
  have hboth := hfds.takeSlots (vmaFile proc.vmas) fun f => by
    have := hle f
    rw [Process.fileRefs] at this
    omega
  have hall : Counted ((k.files.applyAll proc.fdEvents).applyAll proc.vmaEvents)
      fun f => k.fileRefs f + proc.fileRefs f :=
    hboth.congr fun f => by rw [Process.fileRefs, add_assoc]
  unfold Litenix.taskFork at hfork
  split at hfork
  · cases hfork
    exact h
  rename_i hok
  have hcond := hcond.resolve_left (by simpa using hok)
  dsimp only at hfork
  split at hfork
  · cases hfork
  · -- the address space could not be cloned
    rename_i hclone
    cases hfork
    rcases hcond with hnone | ⟨-, -, hsucceeds⟩
    · refine h.skip (hfds.congr fun f => ?_) rfl rfl
      have := hnone f
      rw [Process.fileRefs] at this
      omega
    · rw [cloneSucceeds, hclone] at hsucceeds
      cases hsucceeds
  split at hfork
  · -- the task could not be made
    rename_i htask
    split at hfork
    · cases hfork
    cases hfork
    rcases hcond with hnone | ⟨hok1, hok2, -⟩
    · exact h.skip (hall.congr fun f => by rw [hnone f, add_zero]) rfl rfl
    · rw [hok1, hok2] at htask
      cases htask
  · rename_i space _ _
    cases hfork
    exact h.insert { proc with addressSpace := space, ownsAddressSpace := true } hall rfl rfl rfl

theorem FileInv.reapZombie (hproc : k.procs pid = some proc)
    (hreap : reapZombie k pid proc = .ok k') : FileInv k' := by
  have hlt := h.procs hproc
  have hcount : ∀ f, ((List.finRange maxFilesPerProcess).filterMap proc.files ++
      (List.finRange vmaMax).filterMap (vmaFile proc.vmas)).count f = proc.fileRefs f := by
    intro f
    rw [List.count_append, count_filterMap_finRange, count_filterMap_finRange]
    rfl
  have hclosed := h.counted.closeAll fun f => (hcount f).trans_le (h.fileRefs_le hproc f)
  have hgone : FileInv { k.setProc pid none with
      files := k.files.applyAll (((List.finRange maxFilesPerProcess).filterMap proc.files ++
        (List.finRange vmaMax).filterMap (vmaFile proc.vmas)).map .close) } := by
    refine ⟨hclosed.congr fun f => ?_, fun {q proc'} hq => ?_⟩
    · have hset := Kernel.fileRefs_setProc hlt hproc none f
      change _ = k.fileRefs f + 0 at hset
      rw [hcount]
      change _ = (k.setProc pid none).fileRefs f
      omega
    · change Function.update k.procs pid none q = some proc' at hq
      revert hq
      exact update_ind q nofun fun _ hq => h.procs hq
  unfold Litenix.reapZombie at hreap
  dsimp only at hreap
  split at hreap
  · split at hreap
    · cases hreap
    · cases hreap
      exact hgone.of_same rfl rfl rfl
  · cases hreap
    exact hgone

/-! ### Runs -/

/-- The condition on a call: no area of a file is cut, and a fork that fails does so before it has taken
references, or has none to take. -/
def FileCallCond (k : Kernel) (proc : Process) : Call → Prop
  | .mmap addr length _ flags _ _ => hasFlag flags.toNat mapFixed = true →
      NoSplit proc.vmas addr.toNat (add64 addr.toNat (pageAlignUp length.toNat))
  | .munmap addr length => NoSplit proc.vmas addr.toNat (add64 addr.toNat (pageAlignUp length.toNat))
  | .mprotect addr length _ => NoCut proc.vmas addr.toNat (add64 addr.toNat (pageAlignUp length.toNat))
  | .fork processOk taskOk kstackOk => processOk = false ∨ (∀ f, proc.fileRefs f = 0) ∨
      taskOk = true ∧ kstackOk = true ∧ cloneSucceeds k proc = true
  | _ => True

def FileCond (k : Kernel) : KernelOp → Prop
  | .spawn _ => True
  | .call pid call => ∀ proc, k.procs pid = some proc → FileCallCond k proc call

theorem FileInv.commit (hproc : k.procs pid = some proc) {result : Except Panic Reply}
    (hsettled : ∀ reply, result = .ok reply → Settled (k.mm proc) reply)
    (hcommit : result.map (k.commit pid) = .ok k') : FileInv k' := by
  cases result with
  | error e => cases hcommit
  | ok reply =>
    cases hcommit
    exact h.update hproc ((hsettled reply rfl).2 k.files) rfl rfl rfl

theorem FileInv.phys {α : Type} {result : Except Panic α} {phys : α → Phys}
    (hstep : result.map (fun r => { k with phys := phys r }) = .ok k') : FileInv k' := by
  cases result with
  | error e => cases hstep
  | ok r =>
    cases hstep
    exact h.of_same rfl rfl rfl

/-- **One call.** -/
theorem FileInv.callStep (hproc : k.procs pid = some proc) {call : Call}
    (hcond : FileCallCond k proc call) (hstep : callStep k pid proc call = .ok k') : FileInv k' := by
  cases call with
  | pageFault cr2 code fill => exact h.phys hstep
  | mapFresh virt flags page => exact h.phys hstep
  | store virt byte =>
    cases hstep
    exact h.of_same rfl rfl rfl
  | copyToUser dst bytes => exact h.phys hstep
  | copyFromUser src length => exact h.phys hstep
  | brk newBrk => exact h.commit hproc (fun _ => settled_sysBrk) hstep
  | mmap addr length prot flags fd offset => exact h.commit hproc (fun _ => settled_sysMmap (m := k.mm proc) hcond) hstep
  | munmap addr length => exact h.commit hproc (fun _ => settled_sysMunmap (m := k.mm proc) hcond) hstep
  | mprotect addr length prot => exact h.commit hproc (fun _ => settled_sysMprotect (m := k.mm proc) hcond) hstep
  | madvise addr length advice => exact h.commit hproc (fun _ => settled_sysMadvise) hstep
  | openNode node flags =>
    cases hstep
    exact h.update hproc (FdMoves.openNode _ _ _).balanced rfl rfl rfl
  | close fd =>
    cases hstep
    exact h.update hproc (FdMoves.sysClose _ _).balanced rfl rfl rfl
  | dup oldfd =>
    cases hstep
    exact h.update hproc (FdMoves.sysDup _ _).balanced rfl rfl rfl
  | dup2 oldfd newfd =>
    cases hstep
    exact h.update hproc (FdMoves.sysDup2 _ _ _).balanced rfl rfl rfl
  | dup3 oldfd newfd flags =>
    cases hstep
    exact h.update hproc (FdMoves.sysDup3 _ _ _ _).balanced rfl rfl rfl
  | fcntl fd cmd arg =>
    cases hstep
    exact h.update hproc (FdMoves.sysFcntl _ _ _ _).balanced rfl rfl rfl
  | fork processOk taskOk kstackOk => exact h.taskFork hproc hcond hstep
  | reap => exact h.reapZombie hproc hstep

theorem FileInv.step (hcond : FileCond k op) (hstep : kernelStep k op = .ok k') : FileInv k' := by
  cases op with
  | spawn heapStart => exact h.spawn hstep
  | call pid call =>
  rw [kernelStep] at hstep
  cases hproc : k.procs pid with
  | none =>
    rw [hproc] at hstep
    cases hstep
    exact h
  | some proc =>
    rw [hproc] at hstep
    exact h.callStep hproc (hcond proc hproc) hstep

end

/-- The state before the first process: no file is open. -/
structure NoFiles (k : Kernel) : Prop where
  procs : ∀ pid, k.procs pid = none
  files : ∀ f, k.files.get f = none

theorem NoFiles.fileInv (h : NoFiles k) : FileInv k := by
  have hrefs : ∀ f, k.fileRefs f = 0 := fun f => Finset.sum_eq_zero fun pid _ => by rw [h.procs pid]; rfl
  refine ⟨⟨fun f => ?_, fun f _ => hrefs f⟩, fun {pid proc} hproc => ?_⟩
  · rw [hrefs, FileTable.counts, h.files]
    rfl
  · rw [h.procs] at hproc
    cases hproc

/-- Every run from boot whose steps meet the condition keeps the counts of the open files right. -/
theorem file_counts_run (k₀ k : Kernel) (ops : List KernelOp) (hboot : NoFiles k₀)
    (hall : AllSteps kernelStep FileCond k₀ ops) (hrun : run kernelStep k₀ ops = .ok k) : FileCounts k :=
  (run_inv (fun _ _ _ h hcond hstep => FileInv.step h hcond hstep) hboot.fileInv hall hrun).fileCounts

/-! ### Two runs -/

instance (t : VmaTable) (start stop : Nat) : Decidable (NoSplit t start stop) :=
  inferInstanceAs (Decidable (∀ i, (t i).valid = true → (t i).start < start → stop < (t i).stop →
    (t i).backing = none))

instance (t : VmaTable) (start stop : Nat) : Decidable (NoCut t start stop) :=
  inferInstanceAs (Decidable (∀ i, (t i).valid = true → (t i).backing ≠ none →
    start ≤ (t i).start ∧ (t i).stop ≤ stop ∨ (t i).stop ≤ start ∨ stop ≤ (t i).start))

/-- A sufficient condition for `FileCond` that can be executed. -/
def fileCheck (k : Kernel) : KernelOp → Bool
  | .spawn _ => true
  | .call pid call => (k.procs pid).all fun proc =>
    match call with
    | .mmap _ _ _ flags _ _ => !hasFlag flags.toNat mapFixed
    | .munmap addr length =>
      decide (NoSplit proc.vmas addr.toNat (add64 addr.toNat (pageAlignUp length.toNat)))
    | .mprotect addr length _ =>
      decide (NoCut proc.vmas addr.toNat (add64 addr.toNat (pageAlignUp length.toNat)))
    | .fork _ taskOk kstackOk => taskOk && kstackOk && cloneSucceeds k proc
    | _ => true

theorem fileCond_of_check (h : fileCheck k op = true) : FileCond k op := by
  cases op with
  | spawn heapStart => trivial
  | call pid call =>
  intro proc hproc
  rw [fileCheck, hproc, Option.all_some] at h
  cases call with
  | mmap addr length prot flags fd offset =>
    intro hfixed
    simp [hfixed] at h
  | munmap addr length => exact of_decide_eq_true (p := NoSplit ..) h
  | mprotect addr length prot => exact of_decide_eq_true (p := NoCut ..) h
  | fork processOk taskOk kstackOk =>
    simp only [Bool.and_eq_true] at h
    exact .inr (.inr ⟨h.1.1, h.1.2, h.2⟩)
  | _ => trivial

theorem smallKernel_noFiles : NoFiles smallKernel := ⟨fun _ => rfl, fun _ => rfl⟩

/-- A file is opened and mapped; the process forks, the child unmaps the first page and the parent goes
away. -/
def mappedFileOps : List KernelOp :=
  [.spawn 0x400000, .call 1 (.openNode 1 0), .call 1 (.mmap 0 0x3000 1 2 0 0), .call 1 (.dup 0),
    .call 1 (.fork true true true), .call 2 (.munmap 0x7f0000000000 0x1000), .call 2 (.dup2 0 1), .call 1 .reap]

theorem file_counts_run_mapped : ∃ k, run kernelStep smallKernel mappedFileOps = .ok k ∧
    k.files.counts 0 = some 3 ∧ FileCounts k := by
  have heval : (do
      let k ← run kernelStep smallKernel mappedFileOps
      return k.files.counts 0 : Except Panic _) = .ok (some 3) := by decide +kernel
  obtain ⟨k, hrun, hcount⟩ := bind_eq_ok heval
  have hall : AllSteps kernelStep FileCond smallKernel mappedFileOps :=
    AllSteps.of_check (fun _ _ _ h hcond hstep => FileInv.step h hcond hstep) (fun _ _ _ => fileCond_of_check)
      smallKernel_noFiles.fileInv
      (show checkSteps kernelStep fileCheck smallKernel mappedFileOps = true by decide +kernel)
  exact ⟨k, hrun, Except.ok.inj hcount, file_counts_run smallKernel k mappedFileOps smallKernel_noFiles hall hrun⟩

/-- A file is opened and mapped, and the middle one of its three pages is unmapped. -/
def splitFileOps : List KernelOp :=
  [.spawn 0x400000, .call 1 (.openNode 1 0), .call 1 (.mmap 0 0x3000 1 2 0 0),
    .call 1 (.munmap 0x7f0000001000 0x1000)]

/-- `sys_munmap` makes a second area of the file without a reference for it. -/
theorem munmap_split_uncounted :
    ¬∀ (k₀ k : Kernel) (ops : List KernelOp), NoFiles k₀ → run kernelStep k₀ ops = .ok k → FileCounts k := by
  intro hclaim
  have heval : (do
      let k ← run kernelStep smallKernel splitFileOps
      return ((k.files.get 0).map File.refCount, k.fileRefs 0) : Except Panic _) =
        .ok (some 2, 3) := by decide +kernel
  obtain ⟨k, hrun, heval⟩ := bind_eq_ok heval
  obtain ⟨hcount, hrefs⟩ := Prod.mk.inj (Except.ok.inj heval)
  obtain ⟨file, hfile, hcount⟩ := Option.map_eq_some_iff.mp hcount
  have := (hclaim smallKernel k splitFileOps smallKernel_noFiles hrun).counted 0 file hfile
  omega

end Litenix
