import Litenix.Vma

/-! The memory calls of `sys_mem.c` by the current process. Files are not part of the state here: a call
returns the changes of their reference counts, in order. -/

namespace Litenix

open Lib Function

def mapShared : Nat := 0x01
def mapPrivate : Nat := 0x02
def mapFixed : Nat := 0x10
def mapAnonymous : Nat := 0x20

def mremapMaymove : Nat := 1
def mremapFixed : Nat := 2

/-- What a memory call works on: physical memory, the current process and the static `mmap_hint`. -/
structure Mm where
  phys : Phys
  proc : Process
  mmapHint : Nat

/-- A change of a reference count, by `ref_count++` or by `file_close`. -/
inductive FileEvent where
  | take (file : FileId)
  | close (file : FileId)
  deriving DecidableEq, Repr

structure Reply where
  mm : Mm
  events : List FileEvent
  ret : Except Errno Nat

variable (m : Mm)

def Mm.fail (e : Errno) : Except Panic Reply := .ok ⟨m, [], .error e⟩

def Mm.done (value : Nat) : Except Panic Reply := .ok ⟨m, [], .ok value⟩

def Mm.space : AddressSpace := m.proc.addressSpace

def Mm.withVmas (vmas : VmaTable) : Mm := { m with proc := { m.proc with vmas := vmas } }

/-- The loop body that several calls share: a present page is unmapped and freed. -/
def dropPage (space : AddressSpace) (p : Phys) (vaddr : Nat) : Except Panic Phys :=
  match vmmVirtToPhys p space vaddr with
  | none => .ok p
  | some phys => (vmmUnmap p space vaddr).1.freePage phys

def dropPages (p : Phys) (space : AddressSpace) (start stop : Nat) : Except Panic Phys :=
  (pageAddrs start stop).foldlM (dropPage space) p

def vmaDropPresentPages (p : Phys) (space : AddressSpace) (start stop : Nat) : Except Panic Phys :=
  dropPages p space (pageAlignDown start) (pageAlignUp stop)

/-- A page is allocated, filled and mapped; it is freed again when it cannot be mapped. -/
def mapFreshPage (p : Phys) (space : AddressSpace) (virt flags : Nat) (page : Nat → Nat) :
    Except Panic (Phys × Bool) :=
  let (p, phys) := p.allocPage
  if phys = 0 then .ok (p, false)
  else
    match vmmMap { p with mem := update p.mem (pageIndex phys) page } space virt phys flags with
    | (p, true) => .ok (p, true)
    | (p, false) =>
      match p.freePage phys with
      | .ok p => .ok (p, false)
      | .error e => .error e

/-- The page flags that `sys_mmap` and `sys_mprotect` compute from a protection. -/
def protPageFlags (prot : Nat) : Nat :=
  let vflags := vmmPresent ||| vmmUser
  let vflags := if hasFlag prot protWrite then vflags ||| vmmWritable else vflags
  if hasFlag prot protExec then vflags else vflags ||| vmmNoExecute

/-! ### `sys_brk` -/

def heapFlags : Nat := vmmPresent ||| vmmWritable ||| vmmUser ||| vmmNoExecute

/-- The growing loop of `sys_brk`, with the address of the page that could not be mapped. -/
def growHeap (space : AddressSpace) : Phys → List Nat → Except Panic (Phys × Option Nat)
  | p, [] => .ok (p, none)
  | p, vaddr :: rest =>
    match mapFreshPage p space vaddr heapFlags fun _ => 0 with
    | .error e => .error e
    | .ok (p, true) => growHeap space p rest
    | .ok (p, false) => .ok (p, some vaddr)

def Mm.withHeapEnd (p : Phys) (heapEnd : Nat) : Mm :=
  { m with phys := p, proc := { m.proc with heapEnd := heapEnd } }

/-- The growing branch of `sys_brk`. After a failure the break is at the first page that is missing. -/
def growBrk (newBrk : Nat) : Except Panic Reply :=
  match growHeap m.space m.phys (pageAddrs (pageAlignUp m.proc.heapEnd) (pageAlignUp newBrk)) with
  | .error e => .error e
  | .ok (p, some vaddr) => (m.withHeapEnd p vaddr).fail .ENOMEM
  | .ok (p, none) => (m.withHeapEnd p newBrk).done newBrk

/-- The shrinking branch, which has nothing to do when the last page stays the same. -/
def shrinkBrk (newBrk : Nat) : Except Panic Reply :=
  match dropPages m.phys m.space (pageAlignUp newBrk) (pageAlignUp m.proc.heapEnd) with
  | .error e => .error e
  | .ok p => (m.withHeapEnd p newBrk).done newBrk

def sysBrk (newBrk : Nat) : Except Panic Reply :=
  if newBrk = 0 then m.done m.proc.heapEnd
  else if newBrk < m.proc.heapStart then m.fail .EINVAL
  else if processHeapMax < newBrk - m.proc.heapStart then m.fail .ENOMEM
  else if pageAlignUp m.proc.heapEnd < pageAlignUp newBrk then growBrk m newBrk
  else shrinkBrk m newBrk

theorem sysBrk_cases (newBrk : Nat) : (∃ ret, sysBrk m newBrk = .ok ⟨m, [], ret⟩) ∨
      pageAlignUp m.proc.heapEnd < pageAlignUp newBrk ∧ sysBrk m newBrk = growBrk m newBrk ∨
      pageAlignUp newBrk ≤ pageAlignUp m.proc.heapEnd ∧ sysBrk m newBrk = shrinkBrk m newBrk := by
  unfold sysBrk
  split
  · exact .inl ⟨_, rfl⟩
  split
  · exact .inl ⟨_, rfl⟩
  split
  · exact .inl ⟨_, rfl⟩
  split
  · exact .inr (.inl ⟨by assumption, rfl⟩)
  · exact .inr (.inr ⟨by omega, rfl⟩)

/-! ### `sys_munmap` and `sys_mprotect` -/

/-- `sys_munmap` on a range that has passed its checks. -/
def munmapRange (start stop : Nat) : Except Panic Reply :=
  match dropPages m.phys m.space start stop with
  | .error e => .error e
  | .ok p =>
    let areas := munmapVmas m.proc.vmas start stop
    .ok ⟨{ m with phys := p }.withVmas areas.1, areas.2.map .close, .ok 0⟩

def sysMunmap (addr length : Nat) : Except Panic Reply :=
  let stop := add64 addr (pageAlignUp length)
  if length = 0 then m.fail .EINVAL
  else if !pageAligned addr then m.fail .EINVAL
  else if stop < addr then m.fail .EINVAL
  else if needSplitSlot m.proc.vmas addr stop && (freeSlot m.proc.vmas).isNone then m.fail .ENOMEM
  else munmapRange m addr stop

theorem sysMunmap_cases (addr length : Nat) : (∃ e, sysMunmap m addr length = m.fail e) ∨
      pageAligned addr = true ∧ addr ≤ add64 addr (pageAlignUp length) ∧
        (needSplitSlot m.proc.vmas addr (add64 addr (pageAlignUp length)) = true →
          freeSlot m.proc.vmas ≠ none) ∧
        sysMunmap m addr length = munmapRange m addr (add64 addr (pageAlignUp length)) := by
  unfold sysMunmap
  dsimp only
  split
  · exact .inl ⟨_, rfl⟩
  split
  · exact .inl ⟨_, rfl⟩
  split
  · exact .inl ⟨_, rfl⟩
  split
  · exact .inl ⟨_, rfl⟩
  · rename_i haligned hle hslot
    refine .inr ⟨by simpa using haligned, by omega, fun hneed hnone => ?_, rfl⟩
    simp [hneed, hnone] at hslot

def protectPages (p : Phys) (space : AddressSpace) (start stop flags : Nat) : Phys :=
  (pageAddrs start stop).foldl (fun p vaddr =>
    if (vmmVirtToPhys p space vaddr).isSome then (vmmProtect p space vaddr flags).1 else p) p

/-- `sys_mprotect` on a range that has passed its checks. -/
def mprotectRange (start stop prot : Nat) : Reply :=
  let vflags := protPageFlags prot
  let areas := mprotectVmas m.proc.vmas start stop prot (vflags % 2 ^ 32)
  ⟨{ m with phys := protectPages m.phys m.space start stop vflags }.withVmas areas.1, areas.2.map .close, .ok 0⟩

def sysMprotect (addr length prot : Nat) : Except Panic Reply :=
  let stop := add64 addr (pageAlignUp length)
  if !pageAligned addr then m.fail .EINVAL
  else if length = 0 then m.done 0
  else if stop < addr then m.fail .EINVAL
  else if slotsAvailable m.proc.vmas < slotsNeeded m.proc.vmas addr stop then m.fail .ENOMEM
  else .ok (mprotectRange m addr stop prot)

theorem sysMprotect_cases (addr length prot : Nat) : (∃ ret, sysMprotect m addr length prot = .ok ⟨m, [], ret⟩) ∨
      pageAligned addr = true ∧ length ≠ 0 ∧ addr ≤ add64 addr (pageAlignUp length) ∧
        slotsNeeded m.proc.vmas addr (add64 addr (pageAlignUp length)) ≤ slotsAvailable m.proc.vmas ∧
        sysMprotect m addr length prot = .ok (mprotectRange m addr (add64 addr (pageAlignUp length)) prot) := by
  unfold sysMprotect
  dsimp only
  split
  · exact .inl ⟨_, rfl⟩
  split
  · exact .inl ⟨_, rfl⟩
  split
  · exact .inl ⟨_, rfl⟩
  split
  · exact .inl ⟨_, rfl⟩
  · rename_i haligned hzero hle hslots
    exact .inr ⟨by simpa using haligned, hzero, by omega, by omega, rfl⟩

/-! ### `sys_mmap` -/

/-- The new area goes into a free slot; `area` is the area but for its place, and `taken` the reference
to its file. -/
def insertArea (events : List FileEvent) (mapAddr alignedLen : Nat) (area : Vma) (taken : List FileEvent) : Reply :=
  match freeSlot m.proc.vmas with
  | none => ⟨m, events, .error .ENOMEM⟩
  | some slot =>
    let vma := { area with start := mapAddr, stop := add64 mapAddr alignedLen, valid := true }
    let areas := vmaMergeAdjacent (update m.proc.vmas slot vma)
    ⟨m.withVmas areas.1, events ++ taken ++ areas.2.map .close, .ok mapAddr⟩

/-- The part that the two paths of `sys_mmap` share, from the choice of the address on. -/
def placeArea (addr alignedLen flags : Nat) (area : Vma) (taken : List FileEvent) : Except Panic Reply :=
  if hasFlag flags mapFixed then
    match sysMunmap m addr alignedLen with
    | .error e => .error e
    | .ok reply => .ok (insertArea reply.mm reply.events addr alignedLen area taken)
  else
    match vmaFindFreeRegion m.proc.vmas m.mmapHint addr alignedLen with
    | none => .error .endlessSearch
    | some (mapAddr, hint) =>
      let m := { m with mmapHint := hint }
      if mapAddr = 0 then m.fail .ENOMEM else .ok (insertArea m [] mapAddr alignedLen area taken)

/-- The new area of `sys_mmap`, but for its place, and the reference to its file. `nodeType` is the type of
the node of a file, if it has one. -/
def mmapArea (nodeType : FileId → Option VfsType) (proc : Process) (prot flags : Nat) (fd : Int) (offset : Nat) :
    Except Errno (Vma × List FileEvent) :=
  let shared := hasFlag flags mapShared
  let vflags := protPageFlags prot
  if !hasFlag flags mapAnonymous then
    match proc.fdFile fd with
    | none => .error .EBADF
    | some f =>
      match nodeType f with
      | none => .error .EBADF
      | some type =>
        if type ≠ .file then .error .ENODEV
        else if !pageAligned offset then .error .EINVAL
        else if shared then .error .ENOSYS
        else
          -- a private writable mapping of a file starts read-only
          let vflags := if hasFlag prot protWrite then vflags &&& not64 vmmWritable else vflags
          .ok ({ start := 0, stop := 0, protFlags := prot, mmapFlags := flags, isAnonymous := false
                 isPrivate := true, file := some f, fileOffset := offset, flags := vflags % 2 ^ 32
                 valid := true }, [.take f])
  else if shared then .error .ENOSYS
  else
    .ok ({ start := 0, stop := 0, protFlags := prot, mmapFlags := flags, isAnonymous := true
           isPrivate := hasFlag flags mapPrivate, file := none, fileOffset := 0, flags := vflags % 2 ^ 32
           valid := true }, [])

def sysMmap (nodeType : FileId → Option VfsType) (m : Mm) (addr length prot flags : Nat) (fd : Int)
    (offset : Nat) : Except Panic Reply :=
  let stop := add64 addr (pageAlignUp length)
  if hasFlag flags mapShared == hasFlag flags mapPrivate then m.fail .EINVAL
  else if length = 0 then m.fail .EINVAL
  else if 2 ^ 64 - 1 - 0xfff < length then m.fail .EINVAL
  else if stop < addr then m.fail .EINVAL
  else if hasFlag flags mapFixed && !pageAligned addr then m.fail .EINVAL
  else if hasFlag flags mapFixed && (addr < vmmUserBase || vmmUserTop < stop) then m.fail .EINVAL
  else
    match mmapArea nodeType m.proc prot flags fd offset with
    | .error e => m.fail e
    | .ok (area, taken) => placeArea m addr (pageAlignUp length) flags area taken

/-- The area that a call of `sys_mmap` makes, and the reference that goes with it. -/
inductive MmapArea (proc : Process) (fd : Int) : Vma → List FileEvent → Prop where
  | anonymous (area : Vma) : area.isAnonymous = true → MmapArea proc fd area []
  | backed (area : Vma) (f : FileId) : proc.fdFile fd = some f → area.isAnonymous = false → area.file = some f →
      MmapArea proc fd area [.take f]

theorem mmapArea_ok {nodeType : FileId → Option VfsType} {proc : Process} {prot flags : Nat} {fd : Int}
    {offset : Nat} {area : Vma} {taken : List FileEvent}
    (h : mmapArea nodeType proc prot flags fd offset = .ok (area, taken)) : MmapArea proc fd area taken := by
  unfold mmapArea at h
  dsimp only at h
  split at h
  · split at h
    · cases h
    rename_i f hf
    split at h
    · cases h
    split at h
    · cases h
    split at h
    · cases h
    split at h
    · cases h
    · cases h
      exact .backed _ f hf rfl rfl
  · split at h
    · cases h
    · cases h
      exact .anonymous _ rfl

theorem sysMmap_cases (nodeType : FileId → Option VfsType) (m : Mm) (addr length prot flags : Nat) (fd : Int)
    (offset : Nat) :
    (∃ e, sysMmap nodeType m addr length prot flags fd offset = m.fail e) ∨
      ∃ area taken, MmapArea m.proc fd area taken ∧ 0 < length ∧ length ≤ 2 ^ 64 - 4096 ∧
        addr ≤ add64 addr (pageAlignUp length) ∧
        (hasFlag flags mapFixed = true → pageAligned addr = true ∧ vmmUserBase ≤ addr ∧
          add64 addr (pageAlignUp length) ≤ vmmUserTop) ∧
        sysMmap nodeType m addr length prot flags fd offset =
          placeArea m addr (pageAlignUp length) flags area taken := by
  unfold sysMmap
  dsimp only
  split
  · exact .inl ⟨_, rfl⟩
  split
  · exact .inl ⟨_, rfl⟩
  split
  · exact .inl ⟨_, rfl⟩
  split
  · exact .inl ⟨_, rfl⟩
  split
  · exact .inl ⟨_, rfl⟩
  split
  · exact .inl ⟨_, rfl⟩
  rename_i hzero hlong hwrap haligned hrange
  have hfixed : hasFlag flags mapFixed = true → pageAligned addr = true ∧ vmmUserBase ≤ addr ∧
      add64 addr (pageAlignUp length) ≤ vmmUserTop := by
    intro hfixed
    simp only [hfixed, Bool.true_and, Bool.not_eq_true', Bool.not_eq_false, Bool.or_eq_true,
      decide_eq_true_eq, not_or, not_lt] at haligned hrange
    exact ⟨haligned, hrange⟩
  cases harea : mmapArea nodeType m.proc prot flags fd offset with
  | error e => exact .inl ⟨e, rfl⟩
  | ok x => exact .inr ⟨x.1, x.2, mmapArea_ok harea, by omega, by omega, by omega, hfixed, rfl⟩

/-! ### `sys_mremap` -/

/-- The loop that moves the present pages; the flag is `false` when a page could not be mapped. -/
def movePages (space : AddressSpace) (oldAddr dstAddr flags : Nat) : Phys → List Nat → Phys × Bool
  | p, [] => (p, true)
  | p, off :: rest =>
    match vmmVirtToPhys p space (oldAddr + off) with
    | none => movePages space oldAddr dstAddr flags p rest
    | some phys =>
      match vmmMap (vmmUnmap p space (oldAddr + off)).1 space (add64 dstAddr off) phys flags with
      | (p, false) => (p, false)
      | (p, true) => movePages space oldAddr dstAddr flags p rest

/-- The end of `sys_mremap`, once the destination is free. -/
def moveArea (events : List FileEvent) (i : Fin vmaMax) (oldAddr oldLen dstAddr newLen : Nat) : Reply :=
  let vma := m.proc.vmas i
  match movePages m.space oldAddr dstAddr vma.flags m.phys (pageAddrs 0 oldLen) with
  | (p, false) => ⟨{ m with phys := p }, events, .error .ENOMEM⟩
  | (p, true) =>
    let vma := { vma with start := dstAddr, stop := add64 dstAddr newLen }
    ⟨{ m with phys := p }.withVmas (update m.proc.vmas i vma), events, .ok dstAddr⟩

/-- The shrinking branch of `sys_mremap`. -/
def mremapShrink (oldAddr oldLen newLen : Nat) : Except Panic Reply :=
  match sysMunmap m (add64 oldAddr newLen) (sub64 oldLen newLen) with
  | .error e => .error e
  | .ok reply =>
    match reply.ret with
    | .error e => .ok { reply with ret := .error e }
    | .ok _ => .ok { reply with ret := .ok oldAddr }

variable (i : Fin vmaMax) (oldAddr oldLen newLen flags newAddrHint : Nat)

/-- The part of `sys_mremap` for an area that has no room to grow. -/
def mremapMove : Except Panic Reply :=
  if !hasFlag flags mremapMaymove then m.fail .ENOMEM
  else if hasFlag flags mremapFixed then
    if !pageAligned newAddrHint then m.fail .EINVAL
    else if newAddrHint = 0 then m.fail .ENOMEM
    else if vmaOverlaps m.proc.vmas newAddrHint (add64 newAddrHint newLen) then
      match sysMunmap m newAddrHint newLen with
      | .error e => .error e
      | .ok reply => .ok (moveArea reply.mm reply.events i oldAddr oldLen newAddrHint newLen)
    else .ok (moveArea m [] i oldAddr oldLen newAddrHint newLen)
  else
    match vmaFindFreeRegion m.proc.vmas m.mmapHint newAddrHint newLen with
    | none => .error .endlessSearch
    | some (dstAddr, hint) =>
      let m := { m with mmapHint := hint }
      if dstAddr = 0 then m.fail .ENOMEM
      else .ok (moveArea m [] i oldAddr oldLen dstAddr newLen)

/-- The part of `sys_mremap` that follows the search for the area. -/
def mremapArea : Except Panic Reply :=
  let growEnd := add64 oldAddr newLen
  if (m.proc.vmas i).start ≠ oldAddr then m.fail .EFAULT
  else if newLen = oldLen then m.done oldAddr
  else if newLen < oldLen then mremapShrink m oldAddr oldLen newLen
  else if growEnd < oldAddr then m.fail .EINVAL
  else if !vmaOverlaps m.proc.vmas (add64 oldAddr oldLen) growEnd then
    (m.withVmas (update m.proc.vmas i { m.proc.vmas i with stop := growEnd })).done oldAddr
  else mremapMove m i oldAddr oldLen newLen flags newAddrHint

def sysMremap (oldAddr oldSize newSize flags newAddrHint : Nat) : Except Panic Reply :=
  let oldLen := pageAlignUp oldSize
  let newLen := pageAlignUp newSize
  let oldEnd := add64 oldAddr oldLen
  if hasFlag flags (not64 (mremapMaymove ||| mremapFixed)) then m.fail .EINVAL
  else if hasFlag flags mremapFixed && !hasFlag flags mremapMaymove then m.fail .EINVAL
  else if oldSize = 0 ∨ newSize = 0 ∨ pageAligned oldAddr = false then m.fail .EINVAL
  else if oldEnd < oldAddr then m.fail .EINVAL
  else
    match vmaFindExactSlot m.proc.vmas oldAddr oldEnd with
    | none => m.fail .EFAULT
    | some i => mremapArea m i oldAddr oldLen newLen flags newAddrHint

/-- What `sys_mremap` does with the area `i` that it finds. -/
inductive MremapStep (m : Mm) (i : Fin vmaMax) (oldAddr oldLen newLen flags newAddrHint : Nat) :
    Except Panic Reply → Prop where
  | shrink : newLen < oldLen →
      MremapStep m i oldAddr oldLen newLen flags newAddrHint (mremapShrink m oldAddr oldLen newLen)
  | grow : oldLen < newLen → oldAddr ≤ add64 oldAddr newLen →
      vmaOverlaps m.proc.vmas (add64 oldAddr oldLen) (add64 oldAddr newLen) = false →
      MremapStep m i oldAddr oldLen newLen flags newAddrHint
        ((m.withVmas (update m.proc.vmas i
          { m.proc.vmas i with stop := add64 oldAddr newLen })).done oldAddr)
  | move : oldLen < newLen → vmaOverlaps m.proc.vmas (add64 oldAddr oldLen) (add64 oldAddr newLen) = true →
      MremapStep m i oldAddr oldLen newLen flags newAddrHint
        (mremapMove m i oldAddr oldLen newLen flags newAddrHint)

theorem mremapArea_cases : (∃ ret, mremapArea m i oldAddr oldLen newLen flags newAddrHint = .ok ⟨m, [], ret⟩) ∨
      (m.proc.vmas i).start = oldAddr ∧
        MremapStep m i oldAddr oldLen newLen flags newAddrHint
          (mremapArea m i oldAddr oldLen newLen flags newAddrHint) := by
  unfold mremapArea
  dsimp only
  split
  · exact .inl ⟨_, rfl⟩
  rename_i hstart
  have hfound : (m.proc.vmas i).start = oldAddr := not_not.mp hstart
  split
  · exact .inl ⟨_, rfl⟩
  split
  · exact .inr ⟨hfound, .shrink (by assumption)⟩
  split
  · exact .inl ⟨_, rfl⟩
  split
  · rename_i hfree
    exact .inr ⟨hfound, .grow (by omega) (by omega) (by simpa using hfree)⟩
  · rename_i hfree
    exact .inr ⟨hfound, .move (by omega) (by simpa using hfree)⟩

theorem sysMremap_cases (oldAddr oldSize newSize flags newAddrHint : Nat) :
    (∃ ret, sysMremap m oldAddr oldSize newSize flags newAddrHint = .ok ⟨m, [], ret⟩) ∨
      ∃ i, (m.proc.vmas i).valid = true ∧ (m.proc.vmas i).start = oldAddr ∧
        add64 oldAddr (pageAlignUp oldSize) ≤ (m.proc.vmas i).stop ∧ pageAligned oldAddr = true ∧
        oldAddr ≤ add64 oldAddr (pageAlignUp oldSize) ∧
        MremapStep m i oldAddr (pageAlignUp oldSize) (pageAlignUp newSize) flags newAddrHint
          (sysMremap m oldAddr oldSize newSize flags newAddrHint) := by
  unfold sysMremap
  dsimp only
  split
  · exact .inl ⟨_, rfl⟩
  split
  · exact .inl ⟨_, rfl⟩
  split
  · exact .inl ⟨_, rfl⟩
  rename_i hargs
  split
  · exact .inl ⟨_, rfl⟩
  split
  · exact .inl ⟨_, rfl⟩
  rename_i hle _ i hi
  have htest := firstSlot_some hi
  simp only [Bool.and_eq_true, decide_eq_true_eq] at htest
  have haligned : pageAligned oldAddr = true := by
    by_contra hne
    exact hargs (.inr (.inr (by simpa using hne)))
  rcases mremapArea_cases m i oldAddr (pageAlignUp oldSize) (pageAlignUp newSize) flags newAddrHint with
    hsame | ⟨hfound, hstep⟩
  · exact .inl hsame
  · exact .inr ⟨i, htest.1.1, hfound, htest.2, haligned, by omega, hstep⟩

/-! ### `sys_madvise` -/

/-- The advices `MADV_NORMAL` to `MADV_WILLNEED` do nothing. -/
inductive Advice where
  | ignored
  | dontneed
  | unknown
  deriving DecidableEq, Repr

def adviceOf : Nat → Advice
  | 0 | 1 | 2 | 3 => .ignored
  | 4 => .dontneed
  | _ => .unknown

/-- The body of the loop of `MADV_DONTNEED` over the areas. -/
def dontneedSlot (space : AddressSpace) (vmas : VmaTable) (addr stop : Nat) (p : Phys) (i : Fin vmaMax) :
    Except Panic Phys :=
  let vma := vmas i
  if vma.valid ∧ addr < vma.stop ∧ vma.start < stop then
    vmaDropPresentPages p space (max addr vma.start) (min stop vma.stop)
  else .ok p

def madviseDontneed (addr stop : Nat) : Except Panic Reply :=
  match (List.finRange vmaMax).foldlM (dontneedSlot m.space m.proc.vmas addr stop) m.phys with
  | .error e => .error e
  | .ok p => { m with phys := p }.done 0

def sysMadvise (addr length advice : Nat) : Except Panic Reply :=
  let stop := add64 addr (pageAlignUp length)
  if length = 0 then m.done 0
  else if !pageAligned addr then m.fail .EINVAL
  else if stop < addr then m.fail .EINVAL
  else
    match adviceOf advice with
    | .ignored => m.done 0
    | .unknown => m.fail .EINVAL
    | .dontneed => madviseDontneed m addr stop

theorem sysMadvise_cases (addr length advice : Nat) : (∃ ret, sysMadvise m addr length advice = .ok ⟨m, [], ret⟩) ∨
      sysMadvise m addr length advice = madviseDontneed m addr (add64 addr (pageAlignUp length)) := by
  unfold sysMadvise
  dsimp only
  split
  · exact .inl ⟨_, rfl⟩
  split
  · exact .inl ⟨_, rfl⟩
  split
  · exact .inl ⟨_, rfl⟩
  split
  · exact .inl ⟨_, rfl⟩
  · exact .inl ⟨_, rfl⟩
  · exact .inr rfl

end Litenix
