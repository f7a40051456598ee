import Litenix.Supply
import Litenix.PageBytes

/-! The program loader, `core/elf_loader.c`. A file is given by what the loader finds at its buffer: the bytes of
the file and behind them whatever memory holds, because the loader does not look at the size again once the
header is checked. Offsets are 64-bit words that wrap around. The outcomes of allocations from the kernel heap
and of `pmm_alloc_page` are inputs, and so is the file system. Console output is left out. -/

namespace Litenix

open Lib

/-! ### ELF files -/

structure ElfFile where
  bytes : Bytes
  size : Nat

/-- The memory from the buffer on. -/
def ElfFile.mem (d : ElfFile) : Bytes := fun k => d.bytes (k % 2 ^ 64)

def ehdrSize : Nat := 64
def phdrSize : Nat := 56

def etDyn : Nat := 3
def emX8664 : Nat := 62
def ptLoad : Nat := 1
def ptInterp : Nat := 3
def pfX : Nat := 1
def pfW : Nat := 2

structure Phdr where
  pType : Nat
  pFlags : Nat
  pOffset : Nat
  pVaddr : Nat
  pFilesz : Nat
  pMemsz : Nat
  deriving DecidableEq

def Phdr.read (c : Bytes) (off : Nat) : Phdr where
  pType := c.u32 off
  pFlags := c.u32 (off + 4)
  pOffset := (c.u64 (off + 8)).toNat
  pVaddr := (c.u64 (off + 16)).toNat
  pFilesz := (c.u64 (off + 32)).toNat
  pMemsz := (c.u64 (off + 40)).toNat

namespace ElfFile

variable (d : ElfFile)

def eType : Nat := d.mem.u16 16
def eMachine : Nat := d.mem.u16 18
def eEntry : Nat := (d.mem.u64 24).toNat
def ePhoff : Nat := (d.mem.u64 32).toNat
def ePhnum : Nat := d.mem.u16 56

/-- The program headers. -/
def phdrs : List Phdr := (List.range d.ePhnum).map fun i => Phdr.read d.mem (d.ePhoff + phdrSize * i)

/-- The checks of the program's header. -/
def headerOk : Bool :=
  decide (ehdrSize ≤ d.size) &&
    (d.mem 0 == 0x7f && d.mem 1 == 0x45 && d.mem 2 == 0x4c && d.mem 3 == 0x46) &&
    (d.mem 4 == 2 && d.mem 5 == 1 && d.eMachine == emX8664)

/-- The checks of the interpreter's header, which leave out its size. -/
def interpHeaderOk : Bool := d.mem 0 == 0x7f && d.mem 4 == 2

def loadBase : Nat := if d.eType = etDyn then 0x400000 else 0

/-- The memory at the path of the interpreter. A path at the null pointer counts as none. -/
def interpPath (elfData : Nat) : Option Bytes :=
  match d.phdrs.find? fun ph => ph.pType == ptInterp with
  | none => none
  | some ph => if add64 elfData ph.pOffset = 0 then none else some fun k => d.mem (ph.pOffset + k)

end ElfFile

/-! ### Segments -/

def Phdr.pageFlags (ph : Phdr) : Nat :=
  let flags := vmmPresent ||| vmmUser
  let flags := if hasFlag ph.pFlags pfW then flags ||| vmmWritable else flags
  if hasFlag ph.pFlags pfX then flags else flags ||| vmmNoExecute

/-- `seg_vaddr` and `page_end` in the source. -/
def Phdr.start (ph : Phdr) (base : Nat) : Nat := add64 base ph.pVaddr

def Phdr.pageEnd (ph : Phdr) (base : Nat) : Nat := pageAlignUp (add64 (ph.start base) ph.pMemsz)

def Phdr.pages (ph : Phdr) (base : Nat) : List Nat := pageAddrs (pageAlignDown (ph.start base)) (ph.pageEnd base)

/-- The copy of the bytes of the file that fall into a page. -/
def segmentPage (d : ElfFile) (ph : Phdr) (base vaddr : Nat) (page : Nat → Nat) : Nat → Nat :=
  let overlapStart := max vaddr (ph.start base)
  let overlapEnd := min (add64 vaddr 4096) (add64 (ph.start base) ph.pFilesz)
  if overlapStart < overlapEnd then
    pagePut page (overlapStart - vaddr) (overlapEnd - overlapStart)
      fun k => d.mem (ph.pOffset + (overlapStart - ph.start base) + k)
  else page

/-- A page of memory is changed. -/
def Supply.changePage (s : Supply) (f : Nat) (change : (Nat → Nat) → Nat → Nat) : Supply :=
  { s with phys := { s.phys with mem := Function.update s.phys.mem f (change (s.phys.mem f)) } }

variable (space : AddressSpace)

/-- The body of the loop over the pages of a segment; the flag is `false` when there is no page left. A page
that is mapped already gets the flags of this segment. The result of `vmm_map` is not looked at. -/
def loadPage (d : ElfFile) (base : Nat) (ph : Phdr) (s : Supply) (vaddr : Nat) : Supply × Bool :=
  match vmmVirtToPhys s.phys space vaddr with
  | some phys =>
    let s := { s with phys := (vmmProtect s.phys space vaddr ph.pageFlags).1 }
    (s.changePage (pageIndex phys) (segmentPage d ph base vaddr), true)
  | none =>
    let (s, phys) := s.allocPage
    if phys = 0 then (s, false)
    else
      let s := (s.vmmMap space vaddr phys ph.pageFlags).1
      (s.changePage (pageIndex phys) fun _ => segmentPage d ph base vaddr fun _ => 0, true)

def loadPages (d : ElfFile) (base : Nat) (ph : Phdr) : Supply → List Nat → Supply × Bool
  | s, [] => (s, true)
  | s, vaddr :: rest =>
    match loadPage space d base ph s vaddr with
    | (s, false) => (s, false)
    | (s, true) => loadPages d base ph s rest

def loadSegments (d : ElfFile) (base : Nat) : Supply → List Phdr → Supply × Bool
  | s, [] => (s, true)
  | s, ph :: rest =>
    if ph.pType = ptLoad then
      match loadPages space d base ph s (ph.pages base) with
      | (s, false) => (s, false)
      | (s, true) => loadSegments d base s rest
    else loadSegments d base s rest

/-- The end of the last page of the segments: `max_vaddr`, and `heap_start` too. -/
def maxVaddr (base : Nat) (phs : List Phdr) : Nat :=
  phs.foldl (fun top ph => if ph.pType = ptLoad then max top (ph.pageEnd base) else top) 0

/-! ### The interpreter -/

/-- A file that `vfs_lookup` finds; `data` is `none` when it cannot be read in full. -/
structure InterpNode where
  size : Nat
  data : Option Bytes

/-- What the loader takes from the rest of the kernel: the address of the buffer with the program, the file at a
path, given by the memory at the path, and the outcome of the allocations for the file of the interpreter and
for the stack. -/
structure LoadEnv where
  elfData : Nat
  vfsLookup : Bytes → Option InterpNode
  interpBuf : Bool
  stackBuf : Bool

def interpLoadBase (top : Nat) : Nat := if alignUp top 0x200000 = 0 then 0x1000000 else alignUp top 0x200000

/-- The part of the loader for an interpreter, with its base and entry as the result. -/
def loadInterp (env : LoadEnv) (space : AddressSpace) (top : Nat) (path : Bytes) (s : Supply) :
    Supply × Except Errno (Nat × Nat) :=
  match env.vfsLookup path with
  | none => (s, .error .ENOENT)
  | some node =>
    if !env.interpBuf then (s, .error .ENOMEM)
    else
      match node.data with
      | none => (s, .error .EIOErr)
      | some bytes =>
        let d : ElfFile := ⟨bytes, node.size⟩
        if !d.interpHeaderOk then (s, .error .ENOEXEC)
        else
          let base := interpLoadBase top
          match loadSegments space d base s d.phdrs with
          | (s, false) => (s, .error .ENOMEM)
          | (s, true) => (s, .ok (base, add64 base d.eEntry))

/-! ### The stack -/

def userStackPages : Nat := 64
def userStackTop : Nat := 0x00007ffffffff000
def stackBytes : Nat := userStackPages * 4096
def maxStackArgv : Nat := 64

/-- `kbuf`, at offsets modulo `2 ^ 64`. `outside` records a write that does not lie in the buffer. -/
structure StackBuf where
  bytes : Bytes
  outside : Bool

def StackBuf.put (b : StackBuf) (off : Nat) (data : List UInt8) : StackBuf where
  bytes k := if sub64 k off < data.length then data.getD (sub64 k off) 0 else b.bytes k
  outside := b.outside || decide (stackBytes < off + data.length)

/-- The address of an offset of the buffer in the new image. -/
def stackAddr (off : Nat) : Nat := sub64 userStackTop (sub64 stackBytes off)

/-- The copying loops for the strings, from the last one to the first, with the addresses of the strings. -/
def pushStrings : List (List UInt8) → StackBuf → Nat → StackBuf × Nat × List Nat
  | [], b, top => (b, top, [])
  | str :: rest, b, top =>
    let (b, top, addrs) := pushStrings rest b top
    let top := sub64 top (str.length + 1)
    (b.put top (str ++ [0]), top, stackAddr top :: addrs)

structure ExecArgs where
  argv : List (List UInt8)
  envp : List (List UInt8)
  execPath : List UInt8
  atSecure : Bool

structure StackInfo where
  phdrAddr : Nat
  phnum : Nat
  interpBase : Nat
  execEntry : Nat

/-- The auxiliary vector. -/
def auxv (info : StackInfo) (randAddr execfnAddr : Nat) (atSecure : Bool) : List Nat :=
  [3, info.phdrAddr, 4, phdrSize, 5, info.phnum, 6, 4096, 7, info.interpBase, 9, info.execEntry, 25, randAddr,
    31, execfnAddr, 11, 0, 12, 0, 13, 0, 14, 0, 23, if atSecure then 1 else 0, 0, 0]

def randomBytes : List UInt8 := (List.range 16).map fun i => UInt8.ofNat (i ^^^ 0xA5 ^^^ (i * 7))

/-- The part of `setup_user_stack` that fills the buffer, with the offset of the new stack pointer; `none` is
the failing fit test. Of each list the first 64 strings are taken. -/
def fillStack (args : ExecArgs) (info : StackInfo) : StackBuf × Option Nat :=
  let argv := args.argv.take maxStackArgv
  let envp := args.envp.take maxStackArgv
  let b : StackBuf := ⟨Bytes.zero, false⟩
  let randTop := stackBytes - 16
  let b := b.put randTop randomBytes
  let execTop := sub64 randTop (args.execPath.length + 1)
  let b := b.put execTop (args.execPath ++ [0])
  let (b, top, envpAddrs) := pushStrings envp b execTop
  let (b, top, argvAddrs) := pushStrings argv b top
  let top := alignDown top 8
  let words := [argv.length] ++ argvAddrs ++ [0] ++ envpAddrs ++ [0] ++
    auxv info (stackAddr randTop) (stackAddr execTop) args.atSecure
  let rspOffset := alignDown (sub64 top (8 * words.length)) 16
  if rspOffset < 64 then (b, none)
  else (b.put rspOffset (words.flatMap fun w => Bytes.le64 (UInt64.ofNat w)), some rspOffset)

def stackFlags : Nat := vmmPresent ||| vmmWritable ||| vmmUser ||| vmmNoExecute

/-- The loop that maps the stack, where the result of `vmm_map` is not looked at either. -/
def mapStack (buf : Bytes) : Supply → List Nat → Supply × Bool
  | s, [] => (s, true)
  | s, i :: rest =>
    let (s, phys) := s.allocPage
    if phys = 0 then (s, false)
    else
      let s := (s.vmmMap space (userStackTop - (i + 1) * 4096) phys stackFlags).1
      let start := stackBytes - (i + 1) * 4096
      mapStack buf (s.changePage (pageIndex phys) fun _ => pageWords fun k => buf (start + k)) rest

/-- The result is the stack pointer or `0`; the flag records a write outside the buffer. -/
def setupUserStack (env : LoadEnv) (space : AddressSpace) (args : ExecArgs) (info : StackInfo) (s : Supply) :
    Supply × Bool × Nat :=
  if !env.stackBuf then (s, false, 0)
  else
    match fillStack args info with
    | (b, none) => (s, b.outside, 0)
    | (b, some rspOffset) =>
      match mapStack space b.bytes s (List.range userStackPages) with
      | (s, false) => (s, b.outside, 0)
      | (s, true) => (s, b.outside, stackAddr rspOffset)

/-! ### `elf_load_into_process` -/

structure LoadReply where
  supply : Supply
  proc : Process
  outside : Bool
  ret : Except Errno (Nat × Nat)

/-- The end of a load that fails. -/
def loadFailed (s : Supply) (proc : Process) (outside : Bool) (e : Errno) : Except Panic LoadReply :=
  match vmmDestroyAddressSpace s.phys space with
  | .error panic => .error panic
  | .ok p => .ok ⟨{ s with phys := p }, proc, outside, .error e⟩

/-- The end of a load: the old space is destroyed, and the process gets the new one and a new heap. Nothing
else of the process changes. -/
def loadDone (s : Supply) (proc : Process) (outside : Bool) (heapStart entry rsp : Nat) : Except Panic LoadReply :=
  let proc' := { proc with
    addressSpace := space, ownsAddressSpace := true, heapStart := heapStart, heapEnd := heapStart }
  if proc.ownsAddressSpace then
    match vmmDestroyAddressSpace s.phys proc.addressSpace with
    | .error panic => .error panic
    | .ok p => .ok ⟨{ s with phys := p }, proc', outside, .ok (entry, rsp)⟩
  else .ok ⟨s, proc', outside, .ok (entry, rsp)⟩

/-- The address of the program headers: the first segment is expected to hold them. -/
def phdrAddr (d : ElfFile) : Nat :=
  match d.phdrs.find? fun ph => ph.pType == ptLoad with
  | none => 0
  | some ph => add64 (add64 d.loadBase ph.pVaddr) d.ePhoff

/-- The segments and the interpreter; the result is the base of the interpreter, or `0`, and the entry. -/
def loadImage (env : LoadEnv) (space : AddressSpace) (d : ElfFile) (s : Supply) :
    Supply × Except Errno (Nat × Nat) :=
  match loadSegments space d d.loadBase s d.phdrs with
  | (s, false) => (s, .error .ENOMEM)
  | (s, true) =>
    match d.interpPath env.elfData with
    | none => (s, .ok (0, add64 d.loadBase d.eEntry))
    | some path => loadInterp env space (maxVaddr d.loadBase d.phdrs) path s

def elfLoadIntoProcess (env : LoadEnv) (s : Supply) (proc : Process) (d : ElfFile) (args : ExecArgs) :
    Except Panic LoadReply :=
  if !d.headerOk then .ok ⟨s, proc, false, .error .ENOEXEC⟩
  else
    match s.vmmCreateAddressSpace with
    | .error panic => .error panic
    | .ok (s, none) => .ok ⟨s, proc, false, .error .ENOMEM⟩
    | .ok (s, some space) =>
      match loadImage env space d s with
      | (s, .error e) => loadFailed space s proc false e
      | (s, .ok (interpBase, entry)) =>
        let info : StackInfo := ⟨phdrAddr d, d.ePhnum, interpBase, add64 d.loadBase d.eEntry⟩
        match setupUserStack env space args info s with
        | (s, outside, rsp) =>
          if rsp = 0 then loadFailed space s proc outside .ENOMEM
          else loadDone space s proc outside (maxVaddr d.loadBase d.phdrs) entry rsp

end Litenix
