import Litenix.ElfLoad
import Litenix.FrameCounts

/-! Loading a program changes pages that were free, and nothing else, when the segments of the program and of its
interpreter lie in the user half. The loader does not check that: `p_vaddr` is any 64-bit word, and the kernel
half of the new space is that of all others. -/

namespace Litenix

open Lib

/-- Only pages that were free are written, and the kernel half of the new space is that of the kernel. -/
structure LoadIsolated (p : Phys) (reply : LoadReply) : Prop where
  used : KeepsUsed p reply.supply.phys
  upper : ∀ x, reply.ret = .ok x → ∀ i, 256 ≤ i → i < pageEntries →
    reply.supply.phys.mem reply.proc.addressSpace.root i = p.mem (pageIndex p.kernelPml4) i

variable {root : Nat} {s s₁ : Supply}

theorem Loading.keepsUsed (h : Loading s.phys.pmm.InUse root s₁.phys s₂)
    (hcreate : KeepsUsed s.phys s₁.phys) (hconfined : Confined s.phys s₁.phys) : KeepsUsed s.phys s₂.phys := by
  refine keepsUsed_of (fun f hf => ?_) (hconfined.trans h.confined).mem
  rw [h.kernel.pages f hf]
  refine hcreate f fun hfree => ?_
  rw [hf.not_available] at hfree
  exact absurd hfree.2 (by simp)

/-- The bytes of a program header. -/
def Phdr.bytes (ph : Phdr) : List UInt8 :=
  Bytes.le32 ph.pType ++ Bytes.le32 ph.pFlags ++ Bytes.le64 (.ofNat ph.pOffset) ++ Bytes.le64 (.ofNat ph.pVaddr) ++
    Bytes.le64 0 ++ Bytes.le64 (.ofNat ph.pFilesz) ++ Bytes.le64 (.ofNat ph.pMemsz) ++ Bytes.le64 4096

/-- An executable file: the header, the program headers and what follows them. -/
def execFile (entry : Nat) (phs : List Phdr) (rest : List UInt8) : ElfFile :=
  let header := [0x7f, 0x45, 0x4c, 0x46, 2, 1, 1, 0, 0, 0, 0, 0, 0, 0, 0, 0, 2, 0, 62, 0, 1, 0, 0, 0] ++
    Bytes.le64 (.ofNat entry) ++ Bytes.le64 64 ++ Bytes.le64 0 ++ Bytes.le32 0 ++ Bytes.le16 64 ++ Bytes.le16 56 ++
    Bytes.le16 phs.length ++ Bytes.le16 0 ++ Bytes.le16 0 ++ Bytes.le16 0
  let bytes := header ++ phs.flatMap Phdr.bytes ++ rest
  ⟨Bytes.put Bytes.zero 0 bytes, bytes.length⟩

/-- A machine with 512 pages, all but the tables of the kernel free. -/
def loadPhys : Phys :=
  { pmm :=
      { totalPages := 512, pageBitmap := fun i => decide (i < 5), managedBitmap := fun i => decide (i ≠ 0)
        pageRefCounts := fun i => if i < 5 then 1 else 0, freePages := 507, bitmapPhys := 0
        bitmapStorageBytes := 0, trampolinePool := [] }
    mem := directMap 512, kernelPml4 := pageAddr 1, freeCalls := [] }

theorem loadPhys_ready : LoadReady loadPhys := ⟨rfl, by norm_num [loadPhys], by decide +kernel, rfl, rfl⟩

/-- A process that does not own its address space. -/
def loadProc : Process := { newProcess ⟨0, 0, 0⟩ 0 with ownsAddressSpace := false }

def loadEnv : LoadEnv := ⟨0x1000, fun _ => none, true, true⟩

def noArgs : ExecArgs := ⟨[], [], [], false⟩

theorem LoadsUserHalf.of_static (h : d.InUserHalf d.loadBase)
    (hno : (interpFile env d).isNone = true) : LoadsUserHalf env d :=
  ⟨h, fun d' hd' => by rw [hd'] at hno; cases hno⟩

/-- A program with one segment, which holds the whole file. -/
def smallProgram : ElfFile := execFile 0x400000 [⟨ptLoad, 5, 0, 0x400000, 120, 200⟩] []

theorem smallProgram_user : LoadsUserHalf loadEnv smallProgram := .of_static (by decide +kernel) (by decide +kernel)

/-- A program whose segment lies in the direct map of the kernel, at the page of its last page table. -/
def kernelProgram : ElfFile := execFile 0 [⟨ptLoad, 7, 0, 0xffff800000004000, 64, 64⟩] []

end Litenix
