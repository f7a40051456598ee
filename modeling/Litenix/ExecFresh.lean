import Litenix.Execve

/-! What a new image inherits. The page tables of the old image are gone after `sys_execve`, but the areas, the
signal handlers and the other threads are not touched: a fault at an address of an old area brings in a page, a
signal calls an address of the old program, and the threads run on in tables that were freed. The image is fresh
when there was nothing of that kind before the call. -/

namespace Litenix

open Lib
open Signals (UserMem Sigaction sigDfl sigIgn)

variable {filename argv envp : UInt64} {st : ExecState} {mem : UserMem}

/-- The size of `sigactions`. -/
def numSignals : Nat := 64

/-- The action is a handler of the program. -/
def Sigaction.Caught (action : Sigaction) : Prop := action.saHandler ≠ sigDfl ∧ action.saHandler ≠ sigIgn

/-- The address is not mapped. -/
def ExecState.Unmapped (st : ExecState) (x : Nat) : Prop :=
  pte st.supply.phys.mem st.proc.addressSpace.root (vpn x) = none

/-- Nothing of the old image is left: no areas, no handlers, no thread in a destroyed space, and neither a fault nor
a system call gets at an address that is not mapped. -/
structure FreshImage (st st' : ExecState) : Prop where
  areas : ∀ i, (st'.proc.vmas i).valid = false
  handlers : ∀ sig < numSignals, Sigaction.Caught (st.sigactions sig) → (st'.sigactions sig).saHandler = sigDfl
  threads : st.proc.ownsAddressSpace = true → ∀ task ∈ st'.others, task.cr3 ≠ st.proc.addressSpace.pml4Phys
  faults : ∀ x code fill, st'.Unmapped x → code.present = false →
    pageFault st'.supply.phys st'.proc x code fill = .ok st'.supply.phys
  accesses : ∀ x len write, st'.Unmapped x → len ≠ 0 →
    vmmValidateUserPtrEx st'.supply.phys st'.proc.addressSpace (some st'.proc.vmas) x len write =
      .ok (st'.supply.phys, false)

/-- A process with no areas and no handlers, whose space no other thread uses if it is destroyed. -/
structure NothingLeft (st : ExecState) : Prop where
  areas : ∀ i, (st.proc.vmas i).valid = false
  handlers : ∀ sig < numSignals, ¬Sigaction.Caught (st.sigactions sig)
  threads : st.proc.ownsAddressSpace = true → ∀ task ∈ st.others, task.cr3 ≠ st.proc.addressSpace.pml4Phys

/-! ### What the call leaves -/

/-- The areas, the handlers and the other tasks are those from before the call. -/
structure Inherits (st st' : ExecState) : Prop where
  areas : st'.proc.vmas = st.proc.vmas
  handlers : st'.sigactions = st.sigactions
  threads : st'.others = st.others

theorem sysExecve_inherits (h : sysExecve env mem st filename argv envp = .ok reply)
    (hret : reply.ret = .ok n) : Inherits st reply.state := by
  obtain ⟨args, node, creds, bytes, load, entry, rsp, hexec⟩ := sysExecve_ok h hret
  obtain ⟨s₁, s₂, space, interpBase, entry', rsp', hload⟩ := elfLoadIntoProcess_loaded hexec.loads hexec.loaded
  obtain ⟨files, hproc⟩ := prepare_proc st node.attr creds
  rw [hexec.state]
  refine ⟨?_, ?_, ?_⟩
  · rw [hload.proc, hproc]
    rfl
  · rw [ExecState.prepare]
  · rw [ExecState.prepare]

/-! ### Without areas -/

/-- The first page of a range is that of its first address. -/
theorem touchedPages_eq_cons (h : start ≤ last) (hlast : last < 2 ^ 64) :
    ∃ rest, touchedPages start last = pageAlignDown start :: rest := by
  unfold touchedPages pageAddrs
  rw [pageAlignDown_eq, pageAlignDown_eq, Nat.mod_eq_of_lt (by omega), Nat.mod_eq_of_lt hlast]
  have hpos : 0 < (last / 4096 * 4096 + 1 - start / 4096 * 4096 + (pmmPageSize - 1)) / pmmPageSize := by
    have : start / 4096 ≤ last / 4096 := Nat.div_le_div_right h
    refine Nat.div_pos ?_ (by decide)
    omega
  obtain ⟨n, hn⟩ := Nat.exists_eq_succ_of_ne_zero hpos.ne'
  rw [hn, List.range_succ_eq_map, List.map_cons]
  exact ⟨_, by rw [Nat.zero_mul, Nat.add_zero]⟩

section NoAreas

variable {proc : Process} (hareas : ∀ i, (proc.vmas i).valid = false) {p : Phys}

include hareas

theorem vmaFind_of_no_areas (addr : Nat) : vmaFind proc.vmas addr = none :=
  firstSlot_none_iff.mpr fun i => by simp [hareas i]

theorem pageFault_of_no_areas (p : Phys) (x : Nat) {code : FaultCode} (fill : Option (Nat → Nat))
    (hcode : code.present = false) : pageFault p proc x code fill = .ok p := by
  simp [pageFault, hcode, vmaFind_of_no_areas hareas]

theorem validatePage_of_no_areas (hpage : pte p.mem proc.addressSpace.root (vpn page) = none)
    (write : Bool) : validatePage p proc.addressSpace (some proc.vmas) write page = .ok (p, false) := by
  have habsent : hasFlag (pteWord p.mem proc.addressSpace.root page) vmmPresent = false := by
    rw [Bool.eq_false_iff, Ne, pteWord_present_iff, hpage]
    rintro ⟨e, he⟩
    cases he
  simp [validatePage, lazyPage, habsent, coveringVma, vmaFind_of_no_areas hareas]

theorem vmmValidateUserPtrEx_of_no_areas (hx : pte p.mem proc.addressSpace.root (vpn x) = none) {len : Nat}
    (hlen : len ≠ 0) (write : Bool) :
    vmmValidateUserPtrEx p proc.addressSpace (some proc.vmas) x len write = .ok (p, false) := by
  unfold vmmValidateUserPtrEx
  rw [if_neg hlen]
  split
  · rfl
  split
  · rfl
  split
  · rfl
  split
  · rfl
  rename_i hkernel
  obtain ⟨rest, hrest⟩ := touchedPages_eq_cons (show x ≤ sub64 (add64 x len) 1 by omega)
    (by simp only [vmmKernelBase] at hkernel; omega)
  have hpage : pte p.mem proc.addressSpace.root (vpn (pageAlignDown x)) = none := by
    rw [pageAlignDown, ← vmmPageSize, vpn_alignDown]
    exact hx
  rw [hrest, validatePages, validatePage_of_no_areas hareas hpage]

end NoAreas

/-! ### The new image -/

/-- **The image after `sys_execve`** is fresh exactly if there was nothing to forget. -/
theorem execve_fresh_iff (env : ExecEnv) (mem : UserMem) (st : ExecState) (filename argv envp : UInt64)
    (reply : ExecReply) (hexec : sysExecve env mem st filename argv envp = .ok reply) (hret : reply.ret = .ok 0) :
    FreshImage st reply.state ↔ NothingLeft st := by
  have hsame := sysExecve_inherits hexec hret
  constructor
  · intro h
    refine ⟨fun i => ?_, fun sig hsig hcaught => ?_, fun howns => ?_⟩
    · rw [← hsame.areas]
      exact h.areas i
    · have := h.handlers sig hsig hcaught
      rw [hsame.handlers] at this
      exact hcaught.1 this
    · rw [← hsame.threads]
      exact h.threads howns
  · intro h
    have hareas : ∀ i, (reply.state.proc.vmas i).valid = false := by
      rw [hsame.areas]
      exact h.areas
    exact ⟨hareas, fun sig hsig hcaught => absurd hcaught (h.handlers sig hsig), hsame.threads ▸ h.threads,
      fun x code fill _ hcode => pageFault_of_no_areas hareas _ x fill hcode,
      fun x len write hx hlen => vmmValidateUserPtrEx_of_no_areas hareas hx hlen write⟩

/-! ### Runs -/

/-- User memory with a string at an address, where everything can be read. -/
def stringMem (addr : Nat) (str : List UInt8) : UserMem :=
  ⟨Bytes.put Bytes.zero addr (str ++ [0]), fun _ => true, fun _ => true⟩

/-- The only file is a program that everybody may run. -/
def oneProgram (d : ElfFile) : ExecEnv where
  load := loadEnv
  vfsLookupAt := fun _ _ => some ⟨.file, true, d.size, ⟨0o755, 0, 0⟩, some d.bytes⟩
  argvBuf := fun _ => true
  envpBuf := fun _ => true
  elfBuf := true

/-- A state with one task. -/
def oneTask (p : Phys) (proc : Process) (sigactions : Nat → Sigaction) : ExecState where
  supply := .full p
  files := ⟨fun _ => none, 0⟩
  proc := proc
  sigactions := sigactions
  task := ⟨proc.addressSpace.pml4Phys, 0, 0⟩
  others := []

theorem oneProgram_node (d : ElfFile) (hsize : d.size ≠ 0) (hroot : UInt32.ofNat proc.euid = 0)
    (path : List UInt8) : execNode (oneProgram d) proc path =
      .ok (⟨.file, true, d.size, ⟨0o755, 0, 0⟩, some d.bytes⟩, proc.creds) := by
  have hall access : Vfs.vfsCheckPermission proc.creds ⟨0o755, 0, 0⟩ access = true := if_pos hroot
  have huid : ¬(0o755 : UInt32) &&& 0o4000 ≠ 0 := by decide
  have hgid : ¬(0o755 : UInt32) &&& 0o2000 ≠ 0 := by decide
  simp [execNode, oneProgram, hsize, execIdentity, hall, huid, hgid, Except.map]

theorem sysExecve_of_load (path : List UInt8) (kargv kenvp : List (List UInt8)) {d : ElfFile} (hsize : d.size ≠ 0)
    (hroot : UInt32.ofNat st.proc.euid = 0) (hpath : copyStringFromUser mem filename pathMaxLen = some path)
    (hargv : copyVector mem (fun _ => true) argv = .ok kargv)
    (henvp : copyVector mem (fun _ => true) envp = .ok kenvp)
    (hload : ∀ proc, proc.ownsAddressSpace = st.proc.ownsAddressSpace → ∃ reply x,
      elfLoadIntoProcess loadEnv st.supply proc d ⟨kargv, kenvp, path, false⟩ = .ok reply ∧ reply.ret = .ok x) :
    ∃ reply, sysExecve (oneProgram d) mem st filename argv envp = .ok reply ∧ reply.ret = .ok 0 := by
  have hsecure : atSecure ⟨0o755, 0, 0⟩ st.proc.creds = false := by
    have huid : ¬(0o755 : UInt32) &&& 0o4000 ≠ 0 := by decide
    have hgid : ¬(0o755 : UInt32) &&& 0o2000 ≠ 0 := by decide
    simp [atSecure, huid, hgid]
  obtain ⟨files, hproc⟩ := prepare_proc st ⟨0o755, 0, 0⟩ st.proc.creds
  obtain ⟨reply, ⟨entry, rsp⟩, hreply, hret⟩ := hload (st.prepare ⟨0o755, 0, 0⟩ st.proc.creds).proc (by rw [hproc]; rfl)
  rw [← prepare_supply st ⟨0o755, 0, 0⟩ st.proc.creds] at hreply
  have hargv' : copyVector mem (oneProgram d).argvBuf argv = .ok kargv := hargv
  have henvp' : copyVector mem (oneProgram d).envpBuf envp = .ok kenvp := henvp
  unfold sysExecve
  simp only [hpath, hargv', henvp', oneProgram_node d hsize hroot, hsecure]
  unfold execLoad
  have hreply' : elfLoadIntoProcess (oneProgram d).load (st.prepare ⟨0o755, 0, 0⟩ st.proc.creds).supply
      (st.prepare ⟨0o755, 0, 0⟩ st.proc.creds).proc ⟨d.bytes, d.size⟩ ⟨kargv, kenvp, path, false⟩ = .ok reply := hreply
  simp only [show (oneProgram d).elfBuf = true from rfl, Bool.not_true, Bool.false_eq_true, if_false, hreply', hret]
  exact ⟨_, rfl, rfl⟩

theorem sysExecve_smallProgram (proc : Process) (sigactions : Nat → Sigaction)
    (howns : proc.ownsAddressSpace = false) (hroot : UInt32.ofNat proc.euid = 0) :
    ∃ reply, sysExecve (oneProgram smallProgram) (stringMem 0x2000 [0x61]) (oneTask loadPhys proc sigactions)
      0x2000 0 0 = .ok reply ∧ reply.ret = .ok 0 := by
  refine sysExecve_of_load [0x61] [] [] (by decide +kernel) hroot (by decide +kernel) rfl rfl fun proc' hproc' => ?_
  exact loadSucceeds_sound (s := .full loadPhys) 0 proc' loadPhys_ready smallProgram_user (hproc'.trans howns)
    (fun _ _ => rfl) (by decide +kernel)

def defaultActions : Nat → Sigaction := fun _ => ⟨sigDfl, 0, 0, 0⟩

theorem execve_fresh_small : ∃ reply, sysExecve (oneProgram smallProgram) (stringMem 0x2000 [0x61])
    (oneTask loadPhys loadProc defaultActions) 0x2000 0 0 = .ok reply ∧ reply.ret = .ok 0 ∧
      FreshImage (oneTask loadPhys loadProc defaultActions) reply.state := by
  obtain ⟨reply, hexec, hret⟩ := sysExecve_smallProgram loadProc defaultActions rfl rfl
  refine ⟨reply, hexec, hret, (execve_fresh_iff _ _ _ _ _ _ _ hexec hret).mpr ⟨fun _ => rfl, fun _ _ h => h.1 rfl, ?_⟩⟩
  intro hno
  cases hno

def oldArea : Vma :=
  { emptyVma with start := 0x500000, stop := 0x501000, protFlags := protRead, isAnonymous := true, valid := true }

/-- A process with one area. -/
def areaProc : Process := { loadProc with vmas := Function.update loadProc.vmas ⟨0, vmaMax_pos⟩ oldArea }

/-- The areas of the old image are those of the new one. -/
theorem execve_keeps_areas : ¬∀ (env : ExecEnv) (mem : UserMem) (st : ExecState) (filename argv envp : UInt64)
    (reply : ExecReply), LoadReady st.supply.phys → sysExecve env mem st filename argv envp = .ok reply →
      reply.ret = .ok 0 → FreshImage st reply.state := by
  intro hclaim
  obtain ⟨reply, hexec, hret⟩ := sysExecve_smallProgram areaProc defaultActions rfl rfl
  have hareas := (hclaim _ _ _ _ _ _ reply loadPhys_ready hexec hret).areas ⟨0, by decide⟩
  rw [(sysExecve_inherits hexec hret).areas] at hareas
  revert hareas
  decide

end Litenix
