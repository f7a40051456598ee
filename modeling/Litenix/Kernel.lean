import Litenix.UserCopy
import Litenix.Files

/-! The kernel as a machine over processes: page faults, the memory and descriptor calls, `task_fork` and
`reap_zombie`, and stores that a process makes itself. The outcome of an allocation from the kernel heap
and the bytes that a file gives to a page fault are inputs. A call by a pid that has no process does
nothing. -/

namespace Litenix

open Lib

/-- `nodeType` is the type of a node, which never changes. -/
structure Kernel where
  phys : Phys
  mmapHint : Nat
  procs : Nat → Option Process
  nextPid : Nat
  files : FileTable
  nodeType : NodeId → VfsType

namespace Kernel

variable (k : Kernel)

def setProc (pid : Nat) (proc : Option Process) : Kernel :=
  { k with procs := Function.update k.procs pid proc }

def mm (proc : Process) : Mm := ⟨k.phys, proc, k.mmapHint⟩

/-- The state after a memory call. -/
def commit (pid : Nat) (reply : Reply) : Kernel :=
  { k.setProc pid (some reply.mm.proc) with
    phys := reply.mm.phys, mmapHint := reply.mm.mmapHint, files := k.files.applyAll reply.events }

/-- The state after a descriptor call. -/
def commitFds (pid : Nat) (s : Fds) : Kernel :=
  { k.setProc pid (some s.proc) with files := s.files }

def fileType (f : FileId) : Option VfsType :=
  ((k.files.get f).bind File.node).map k.nodeType

end Kernel

/-! ### Page faults -/

/-- The bits of the error code that the handler reads. -/
structure FaultCode where
  present : Bool
  write : Bool
  fetch : Bool
  deriving DecidableEq

def FaultCode.allowed (code : FaultCode) (vma : Vma) : Bool :=
  if code.write then hasFlag vma.protFlags protWrite
  else if code.fetch then hasFlag vma.protFlags protExec
  else hasFlag vma.protFlags protRead

/-- The flags with which the page of an area is mapped. -/
def faultFlags (vma : Vma) : Nat :=
  if !vma.isAnonymous && vma.isPrivate && hasFlag vma.protFlags protWrite then
    (vma.flags &&& not64 vmmWritable) ||| vmmCow
  else vma.flags

/-- The branches of `exception_dispatch` for a page fault. `fill` is the page as it is after the file was
read, or `none` when the read failed; an anonymous page is zero. Signals are left out. -/
def pageFault (p : Phys) (proc : Process) (cr2 : Nat) (code : FaultCode) (fill : Option (Nat → Nat)) :
    Except Panic Phys :=
  if !code.present then
    match vmaFind proc.vmas cr2 with
    | none => .ok p
    | some i =>
      let vma := proc.vmas i
      if !code.allowed vma then .ok p
      else
        match if vma.isAnonymous then some fun _ => 0 else fill with
        | some page =>
          (mapFreshPage p proc.addressSpace (pageAlignDown cr2) (faultFlags vma) page).map Prod.fst
        | none =>
          let (p, phys) := p.allocPage
          if phys = 0 then .ok p else p.freePage phys
  else if code.write then (vmmHandleCow p proc.addressSpace cr2).map Prod.fst
  else .ok p

/-- A store by the process itself, which the processor makes only through a present, writable user page;
otherwise it faults. -/
def userStore (p : Phys) (space : AddressSpace) (virt : Nat) (byte : UInt8) : Phys :=
  let entry := pteWord p.mem space.root virt
  if hasFlag entry vmmPresent && hasFlag entry vmmUser && hasFlag entry vmmWritable then
    p.writeByte (entryPhys entry + virt % vmmPageSize) byte
  else p

/-! ### Processes -/

def emptyVma : Vma where
  start := 0
  stop := 0
  protFlags := 0
  mmapFlags := 0
  isAnonymous := false
  isPrivate := false
  file := none
  fileOffset := 0
  flags := 0
  valid := false

/-- The first process of a program: `process_create_with_parent` without a parent, with a new address
space and the heap where the loader puts it. -/
def newProcess (space : AddressSpace) (heapStart : Nat) : Process where
  addressSpace := space
  ownsAddressSpace := true
  files := fun _ => none
  cwd := "/"
  umask := 0o22
  ruid := 0
  euid := 0
  suid := 0
  rgid := 0
  egid := 0
  sgid := 0
  dumpable := true
  heapStart := heapStart
  heapEnd := heapStart
  vmas := fun _ => emptyVma

/-- The references that `process_create_with_parent` takes for the descriptors of the child. -/
def Process.fdEvents (proc : Process) : List FileEvent :=
  (List.finRange maxFilesPerProcess).filterMap fun i => (proc.files i).map .take

/-- The file that a slot of the table of areas refers to. -/
def vmaFile (vmas : VmaTable) (i : Fin vmaMax) : Option FileId :=
  if (vmas i).valid then (vmas i).backing else none

/-- The references that `task_fork` takes for the areas of the child. -/
def Process.vmaEvents (proc : Process) : List FileEvent :=
  (List.finRange vmaMax).filterMap fun i => (vmaFile proc.vmas i).map .take

/-- `task_fork`; the flags say whether the allocations of the process, of the task and of its stack
succeed. A child that cannot be completed is freed, and the references it took stay. -/
def taskFork (k : Kernel) (parent : Process) (processOk taskOk kstackOk : Bool) : Except Panic Kernel :=
  if !processOk then .ok k
  else
    let pid := k.nextPid
    let k := { k with nextPid := k.nextPid + 1, files := k.files.applyAll parent.fdEvents }
    match vmmCloneAddressSpace k.phys parent.addressSpace with
    | .error e => .error e
    | .ok (p, none) => .ok { k with phys := p }
    | .ok (p, some space) =>
      let k := { k with phys := p, files := k.files.applyAll parent.vmaEvents }
      let child := { parent with addressSpace := space, ownsAddressSpace := true }
      if !taskOk || !kstackOk then
        match vmmDestroyAddressSpace k.phys space with
        | .error e => .error e
        | .ok p => .ok { k with phys := p }
      else .ok (k.setProc pid (some child))

/-- `reap_zombie`: all references of the process are dropped, and its space is destroyed. -/
def reapZombie (k : Kernel) (pid : Nat) (proc : Process) : Except Panic Kernel :=
  let closed := (List.finRange maxFilesPerProcess).filterMap proc.files ++
    (List.finRange vmaMax).filterMap (vmaFile proc.vmas)
  let k := { k.setProc pid none with files := k.files.applyAll (closed.map .close) }
  if proc.ownsAddressSpace then
    match vmmDestroyAddressSpace k.phys proc.addressSpace with
    | .error e => .error e
    | .ok p => .ok { k with phys := p }
  else .ok k

/-! ### The machine -/

/-- What a process can do. Words are given as the registers hold them; descriptors are signed. -/
inductive Call where
  | pageFault (cr2 : UInt64) (code : FaultCode) (fill : Option (Nat → Nat))
  | mapFresh (virt flags : UInt64) (page : Nat → Nat)
  | store (virt : UInt64) (byte : UInt8)
  | copyToUser (dst : UInt64) (bytes : List UInt8)
  | copyFromUser (src length : UInt64)
  | brk (newBrk : UInt64)
  | mmap (addr length : UInt64) (prot flags : UInt32) (fd : Int) (offset : UInt64)
  | munmap (addr length : UInt64)
  | mprotect (addr length : UInt64) (prot : UInt32)
  | madvise (addr length : UInt64) (advice : UInt32)
  | openNode (node : NodeId) (flags : UInt32)
  | close (fd : Int)
  | dup (oldfd : Int)
  | dup2 (oldfd newfd : Int)
  | dup3 (oldfd newfd : Int) (flags : UInt32)
  | fcntl (fd : Int) (cmd : UInt32) (arg : Int)
  | fork (processOk taskOk kstackOk : Bool)
  | reap

inductive KernelOp where
  | spawn (heapStart : UInt64)
  | call (pid : Nat) (call : Call)

/-- The part of `sys_open` that concerns the descriptor table. -/
def openNode (s : Fds) (node : NodeId) (flags : Nat) : Fds :=
  match allocFd s.proc with
  | none => s
  | some fd => installFile s fd node flags

theorem FdMoves.openNode (s : Fds) (node : NodeId) (flags : Nat) : FdMoves s (openNode s node flags) := by
  unfold Litenix.openNode
  split
  · exact .refl
  · rename_i hfd
    exact .install .refl (by simpa using firstSlot_some hfd) node flags

def callStep (k : Kernel) (pid : Nat) (proc : Process) : Call → Except Panic Kernel
  | .pageFault cr2 code fill => (pageFault k.phys proc cr2.toNat code fill).map fun p => { k with phys := p }
  | .mapFresh virt flags page =>
    (mapFreshPage k.phys proc.addressSpace virt.toNat flags.toNat page).map fun r => { k with phys := r.1 }
  | .store virt byte => .ok { k with phys := userStore k.phys proc.addressSpace virt.toNat byte }
  | .copyToUser dst bytes =>
    (vmmCopyToUser k.phys proc.addressSpace (some proc.vmas) dst.toNat bytes).map fun r => { k with phys := r.1 }
  | .copyFromUser src length =>
    (vmmCopyFromUser k.phys proc.addressSpace (some proc.vmas) src.toNat length.toNat).map fun r =>
      { k with phys := r.1 }
  | .brk newBrk => (sysBrk (k.mm proc) newBrk.toNat).map (k.commit pid)
  | .mmap addr length prot flags fd offset =>
    (sysMmap k.fileType (k.mm proc) addr.toNat length.toNat prot.toNat flags.toNat fd offset.toNat).map
      (k.commit pid)
  | .munmap addr length => (sysMunmap (k.mm proc) addr.toNat length.toNat).map (k.commit pid)
  | .mprotect addr length prot =>
    (sysMprotect (k.mm proc) addr.toNat length.toNat prot.toNat).map (k.commit pid)
  | .madvise addr length advice =>
    (sysMadvise (k.mm proc) addr.toNat length.toNat advice.toNat).map (k.commit pid)
  | .openNode node flags => .ok (k.commitFds pid (openNode ⟨k.files, proc⟩ node flags.toNat))
  | .close fd => .ok (k.commitFds pid (sysClose ⟨k.files, proc⟩ fd).1)
  | .dup oldfd => .ok (k.commitFds pid (sysDup ⟨k.files, proc⟩ oldfd).1)
  | .dup2 oldfd newfd => .ok (k.commitFds pid (sysDup2 ⟨k.files, proc⟩ oldfd newfd).1)
  | .dup3 oldfd newfd flags => .ok (k.commitFds pid (sysDup3 ⟨k.files, proc⟩ oldfd newfd flags.toNat).1)
  | .fcntl fd cmd arg => .ok (k.commitFds pid (sysFcntl ⟨k.files, proc⟩ fd cmd.toNat arg).1)
  | .fork processOk taskOk kstackOk => taskFork k proc processOk taskOk kstackOk
  | .reap => reapZombie k pid proc

def spawn (k : Kernel) (heapStart : Nat) : Except Panic Kernel :=
  match vmmCreateAddressSpace k.phys with
  | .error e => .error e
  | .ok (p, none) => .ok { k with phys := p }
  | .ok (p, some space) =>
    .ok { k.setProc k.nextPid (some (newProcess space heapStart)) with phys := p, nextPid := k.nextPid + 1 }

def kernelStep (k : Kernel) : KernelOp → Except Panic Kernel
  | .spawn heapStart => spawn k heapStart.toNat
  | .call pid call =>
    match k.procs pid with
    | none => .ok k
    | some proc => callStep k pid proc call

end Litenix
