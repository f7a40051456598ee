import Litenix.Lib.Memory
import Litenix.Lib.Run
import Litenix.Lib.Table
import Litenix.Lib.Word

/-! The kernel heap, `mm/heap.c`, built without `HEAP_DEBUG`. Small requests get a chunk of a slab, a page cut into
chunks of one size; larger ones get pages of their own. Memory is addressed by virtual address: `mapped` are the
pages that the heap has mapped, and which of the calls of `pmm_alloc_page`, `pmm_alloc_pages_contiguous` and
`vmm_map` fail is an input. A panic comes with the state in which it is raised. The locking wrappers and the
messages of `printk` are left out. -/

namespace Litenix.KernelHeap

open Lib Function

def heapStart : Nat := 0xffffffffa0000000
def heapSize : Nat := 0x10000000
def pageSize : Nat := 4096
def binCount : Nat := 8

def binSize (bin : Nat) : Nat := [16, 32, 64, 128, 256, 512, 1024, 2048].getD bin 0

/-- `sizeof(struct alloc_header)`: `bin_index` at 0, `magic` at 2, `requested_size` at 8 and `base` at 16. -/
def allocHeaderSize : Nat := 24

/-- `sizeof(struct slab_header)`: `next` at 0, `bin_index` at 8, `total_chunks` at 10, `free_chunks` at 12 and
`free_list` at 16. -/
def slabHeaderSize : Nat := 24

def magicAlloc : Nat := 0xA110
def magicDirect : Nat := 0xD1EC
def magicFree : Nat := 0xDDDD
def magicAligned : Nat := 0xA116

structure HeapStats where
  allocations : Nat
  frees : Nat
  totalAllocatedBytes : Nat
  totalFreedBytes : Nat
  slabPages : Nat
  directPages : Nat
  deriving DecidableEq

/-- `copies` records the ranges that `krealloc` has read, the last one first; no function reads it. -/
structure Heap where
  mem : Bytes
  bins : Nat → Nat
  stats : HeapStats
  heapNext : Nat
  heapEnd : Nat
  mapped : Nat → Bool
  fails : Nat → Bool
  copies : List (Nat × Nat)

/-- The panics of `heap.c`; `nullChunk` is an access through a null pointer, and `noReturn` an endless loop or
recursion. -/
inductive HeapPanic where
  | doubleFree (ptr : Nat)
  | corruptedHeader (ptr : Nat)
  | untrackedPointer (ptr : Nat)
  | translationFailed (ptr : Nat)
  | invalidMagic (ptr magic bin reserved size base : Nat)
  | nullChunk
  | noReturn
  deriving DecidableEq

abbrev Result (α : Type) : Type := Except (HeapPanic × Heap) α

def isPowerOfTwo (value : Nat) : Bool := value != 0 && value &&& sub64 value 1 == 0

def heapInit (mem : Bytes) (fails : Nat → Bool) : Heap where
  mem := mem
  bins := fun _ => 0
  stats := ⟨0, 0, 0, 0, 0, 0⟩
  heapNext := heapStart
  heapEnd := heapStart + heapSize
  mapped := fun _ => false
  fails := fails
  copies := []

/-! ### Pages -/

variable (h : Heap)

/-- The outcome of the next call into the memory managers, `true` if it fails. -/
def Heap.ask : Heap × Bool := ({ h with fails := fun n => h.fails (n + 1) }, h.fails 0)

/-- `vmm_map` in the kernel's address space; the flag is `true` for success. -/
def Heap.vmmMap (virt : Nat) : Heap × Bool :=
  let (h, failed) := h.ask
  if failed || h.mapped virt then (h, false)
  else ({ h with mapped := update h.mapped virt true }, true)

/-- The page of `pmm_alloc_page` is zeroed. -/
def heapMapPage : Heap × Nat :=
  if h.heapEnd ≤ h.heapNext then (h, 0)
  else
    let (h, failed) := h.ask
    if failed then (h, 0)
    else
      let virt := h.heapNext
      match { h with heapNext := add64 virt pageSize }.vmmMap virt with
      | (h, false) => ({ h with heapNext := sub64 h.heapNext pageSize }, 0)
      | (h, true) => ({ h with mem := h.mem.fill virt pageSize 0 }, virt)

/-! ### Slabs -/

def binForSize (size : Nat) : Option Nat :=
  (List.range binCount).find? fun i => add64 size allocHeaderSize ≤ binSize i

/-- The number of rounds of the loop of `slab_create`, which runs while a chunk fits. -/
def chunkCount (bin : Nat) : Nat := (pageSize - slabHeaderSize) / binSize bin

def chunkAt (bin slab k : Nat) : Nat := slab + slabHeaderSize + k * binSize bin

def freeListAt (slab : Nat) : Nat := slab + 16
def freeChunksAt (slab : Nat) : Nat := slab + 12

def slabCreate (bin : Nat) : Heap × Nat :=
  match heapMapPage h with
  | (h, page) =>
    if page = 0 then (h, 0)
    else
      let mem := (((h.mem.setAddr page 0).setU16 (page + 8) bin).setAddr (freeListAt page) 0).setU16 (freeChunksAt page) 0
      let mem := ((List.range (chunkCount bin)).map (chunkAt bin page)).foldl
        (fun mem chunk => mem.pushLink (freeListAt page) chunk) mem
      let mem := (mem.setU16 (page + 10) (chunkCount bin)).setU16 (freeChunksAt page) (chunkCount bin)
      ({ h with mem := mem, stats := { h.stats with slabPages := add64 h.stats.slabPages 1 } }, page)

/-- `slab_alloc` makes a slab and puts it in front of its bin in two places. -/
def slabGrow (bin : Nat) : Heap × Nat :=
  match slabCreate h bin with
  | (h, slab) =>
    if slab = 0 then (h, 0)
    else ({ h with mem := h.mem.setAddr slab (h.bins bin), bins := update h.bins bin slab }, slab)

/-- The end of `slab_alloc`. -/
def slabPop (slab : Nat) : Result (Heap × Nat) :=
  let chunk := h.mem.addr (freeListAt slab)
  if chunk = 0 then .error (.nullChunk, h)
  else
    let mem := h.mem.setAddr (freeListAt slab) (h.mem.addr chunk)
    .ok ({ h with mem := mem.setU16 (freeChunksAt slab) (mem.u16 (freeChunksAt slab) + 65535) }, chunk)

def slabAlloc (bin : Nat) : Result (Heap × Nat) :=
  match if h.bins bin = 0 then slabGrow h bin else (h, h.bins bin) with
  | (h, slab) =>
    if slab = 0 then .ok (h, 0)
    else if h.mem.u16 (freeChunksAt slab) = 0 then
      match slabGrow h bin with
      | (h, slab) => if slab = 0 then .ok (h, 0) else slabPop h slab
    else slabPop h slab

/-! ### `kmalloc` -/

/-- The fields of a `struct alloc_header`; `reserved` is `0`. -/
def writeHeader (mem : Bytes) (raw bin magic size base : Nat) : Bytes :=
  ((((mem.setU16 raw bin).setU16 (raw + 2) magic).setU32 (raw + 4) 0).setAddr (raw + 8) size).setAddr (raw + 16) base

def HeapStats.allocated (s : HeapStats) (size pages : Nat) : HeapStats :=
  { s with
    allocations := add64 s.allocations 1
    totalAllocatedBytes := add64 s.totalAllocatedBytes size
    directPages := add64 s.directPages pages }

def HeapStats.freed (s : HeapStats) (size pages : Nat) : HeapStats :=
  { s with
    frees := add64 s.frees 1
    totalFreedBytes := add64 s.totalFreedBytes size
    directPages := sub64 s.directPages pages }

/-- The pages of a direct allocation. -/
def directPages (size : Nat) : Nat := alignUp (add64 size allocHeaderSize) pageSize / pageSize

/-- The loop that maps the pages of a direct allocation, from the `i`-th on; `some i` when it fails at page `i`. -/
def mapPages (h : Heap) (i : Nat) : (rest : Nat) → Heap × Option Nat
  | 0 => (h, none)
  | rest + 1 =>
    match { h with heapNext := add64 h.heapNext pageSize }.vmmMap h.heapNext with
    | (h, false) => (h, some i)
    | (h, true) => mapPages h (i + 1) rest

/-- `vmm_unmap` of `count` pages. -/
def Heap.unmapPages (base count : Nat) : Heap :=
  { h with mapped := (List.range count).foldl (fun m j => update m (add64 base (j * pageSize)) false) h.mapped }

def kmallocDirect (size : Nat) : Heap × Nat :=
  match h.ask with
  | (h, failed) =>
    -- `pmm_alloc_pages_contiguous` refuses an empty request
    if failed = true ∨ directPages size = 0 then (h, 0)
    else
      match mapPages h 0 (directPages size) with
      | (h', some i) => ({ h'.unmapPages h.heapNext i with heapNext := h.heapNext }, 0)
      | (h', none) =>
        ({ h' with
            mem := writeHeader h'.mem h.heapNext (directPages size) magicDirect size 0
            stats := h'.stats.allocated size (directPages size) }, add64 h.heapNext allocHeaderSize)

def kmalloc (size : Nat) : Result (Heap × Nat) :=
  if size = 0 then .ok (h, 0)
  else
    match binForSize size with
    | some bin => do
        let (h, chunk) ← slabAlloc h bin
        if chunk = 0 then return (h, 0)
        else
          return ({ h with
              mem := writeHeader h.mem chunk bin magicAlloc size 0
              stats := h.stats.allocated size 0 }, add64 chunk allocHeaderSize)
    | none => .ok (kmallocDirect h size)

def kzalloc (size : Nat) : Result (Heap × Nat) := do
  let (h, ptr) ← kmalloc h size
  return (if ptr = 0 then h else { h with mem := h.mem.fill ptr size 0 }, ptr)

/-! ### `kfree` -/

/-- The loop that looks for the slab of a chunk; the result is `0` at the end of the list, and `none` when the list
has more slabs than the window has pages. -/
def findSlab (mem : Bytes) (raw : Nat) : (fuel : Nat) → (slab : Nat) → Option Nat
  | 0, _ => none
  | fuel + 1, slab =>
    if slab = 0 then some 0
    else if slab ≤ raw ∧ raw < slab + pageSize then some slab
    else findSlab mem raw fuel (mem.addr slab)

def slabLimit : Nat := heapSize / pageSize + 1

/-- The branch of `kfree` for a chunk. -/
def freeChunk (ptr raw : Nat) : Result Heap :=
  let bin := h.mem.u16 raw
  if binCount ≤ bin then .error (.corruptedHeader ptr, h)
  else
    match findSlab h.mem raw slabLimit (h.bins bin) with
    | none => .error (.noReturn, h)
    | some slab =>
      if slab = 0 then .error (.untrackedPointer ptr, h)
      else
        let mem := (h.mem.setU16 (raw + 2) magicFree).pushLink (freeListAt slab) raw
        .ok { h with
          mem := mem.setU16 (freeChunksAt slab) (mem.u16 (freeChunksAt slab) + 1)
          stats := h.stats.freed (mem.addr (raw + 8)) 0 }

/-- One page of a direct allocation goes back. -/
def unmapPage (ptr page : Nat) (h : Heap) : Result Heap :=
  if h.mapped page then .ok { h with mapped := update h.mapped page false }
  else .error (.translationFailed ptr, h)

/-- The branch of `kfree` for pages. -/
def freePages (ptr raw : Nat) : Result Heap := do
  let pages := h.mem.u16 raw
  let requestedSize := h.mem.addr (raw + 8)
  let pageBase := alignDown raw pageSize
  let h ← (List.range pages).foldlM (fun h i => unmapPage ptr (add64 pageBase (i * pageSize)) h) h
  return { h with stats := h.stats.freed requestedSize pages }

/-- `kfree_unlocked`, which calls itself for an aligned block; `depth` bounds the calls. -/
def kfreeUnlocked : (depth : Nat) → Heap → (ptr : Nat) → Result Heap
  | 0, h, _ => .error (.noReturn, h)
  | depth + 1, h, ptr =>
    if ptr = 0 then .ok h
    else
      let raw := sub64 ptr allocHeaderSize
      let magic := h.mem.u16 (raw + 2)
      if magic = magicFree then .error (.doubleFree ptr, h)
      else if magic = magicAligned then
        kfreeUnlocked depth { h with mem := h.mem.setU16 (raw + 2) magicFree } (h.mem.addr (raw + 16))
      else if magic = magicAlloc then freeChunk h ptr raw
      else if magic = magicDirect then freePages h ptr raw
      else
        .error (.invalidMagic ptr magic (h.mem.u16 raw) (h.mem.u32 (raw + 4)) (h.mem.addr (raw + 8))
          (h.mem.addr (raw + 16)), h)

/-- Each call for an aligned block overwrites a magic number, so the depth is never reached. -/
def kfree (ptr : Nat) : Result Heap := kfreeUnlocked (2 ^ 64) h ptr

/-! ### `krealloc` -/

/-- What `krealloc` takes for the size of a block, in unsigned arithmetic. -/
def usableSize (mem : Bytes) (raw : Nat) : Nat :=
  if mem.u16 (raw + 2) = magicDirect then sub64 (mem.u16 raw * pageSize) allocHeaderSize
  else sub64 (binSize (mem.u16 raw)) allocHeaderSize

/-- The block is a chunk or pages, and large enough. -/
def staysInPlace (ptr newSize : Nat) : Bool :=
  let raw := sub64 ptr allocHeaderSize
  (h.mem.u16 (raw + 2) == magicDirect || h.mem.u16 (raw + 2) == magicAlloc) && newSize ≤ usableSize h.mem raw

def krealloc (ptr newSize : Nat) : Result (Heap × Nat) :=
  if ptr = 0 then kmalloc h newSize
  else if newSize = 0 then do
    let h ← kfree h ptr
    return (h, 0)
  else if staysInPlace h ptr newSize then
    .ok ({ h with mem := h.mem.setAddr (sub64 ptr allocHeaderSize + 8) newSize }, ptr)
  else do
    let (h, newPtr) ← kmalloc h newSize
    if newPtr = 0 then return (h, 0)
    else
      let copySize := min (usableSize h.mem (sub64 ptr allocHeaderSize)) newSize
      let h ← kfree { h with mem := h.mem.copy newPtr ptr copySize, copies := (ptr, copySize) :: h.copies } ptr
      return (h, newPtr)

/-! ### `kmalloc_aligned` -/

/-- The loop that makes room for the second header; three rounds are enough for an alignment of eight. -/
def raiseAligned (raw alignment : Nat) : (rounds : Nat) → (aligned : Nat) → Nat
  | 0, aligned => aligned
  | rounds + 1, aligned =>
    if sub64 aligned raw < allocHeaderSize then raiseAligned raw alignment rounds (add64 aligned alignment)
    else aligned

def leastAlignment (alignment : Nat) : Nat := if alignment < 8 then 8 else alignment

/-- The size of the block that holds an aligned one. -/
def alignedTotal (size alignment : Nat) : Nat := add64 (add64 size (leastAlignment alignment)) allocHeaderSize

def kmallocAligned (size alignment : Nat) : Result (Heap × Nat) :=
  if !isPowerOfTwo (leastAlignment alignment) then .ok (h, 0)
  else do
    let (h, raw) ← kmalloc h (alignedTotal size alignment)
    if raw = 0 then return (h, 0)
    else
      let alignment := leastAlignment alignment
      let aligned := raiseAligned raw alignment 3 (alignUp raw alignment)
      return ({ h with
          mem := writeHeader h.mem (sub64 aligned allocHeaderSize) 0 magicAligned size raw }, aligned)

end Litenix.KernelHeap
