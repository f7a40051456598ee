import Litenix.Lib.Word
import Litenix.Lib.Run

/-! The physical page allocator. `Pmm` is its state once `pmm_init` has built the bitmaps; the
checks of `initialized` therefore always pass and are left out. The three arrays are one storage block
in the source (`page_bitmap`, then `managed_bitmap`, then `page_ref_counts`); every access is guarded
by an index check, so they are three functions of the page index here. The two `memset` calls of
`pmm_init` act on the block as a whole: the first sets every bit of both bitmaps, the second clears
the counts. -/

namespace Litenix

open Lib Function

variable {start count base : Nat} {p q : Pmm}

def pmmPageSize : Nat := 4096

def limineMemmapUsable : UInt64 := 0

/-- One entry of the Limine memory map. -/
structure MemmapEntry where
  base : UInt64
  length : UInt64
  type : UInt64

/-- `entry->base + entry->length`, which wraps. -/
def MemmapEntry.limit (e : MemmapEntry) : Nat := add64 e.base.toNat e.length.toNat

/-- The linker symbols `__kernel_phys_start` and `__kernel_phys_end`. The linker script places the
first at `KERNEL_LMA` and aligns the second to a page; the image lies above `KERNEL_VMA`, in the last
two gigabytes of the address space. -/
structure KernelImage where
  physEnd : Nat
  start_le : 0x100000 ≤ physEnd
  aligned : physEnd % 4096 = 0
  le_limit : physEnd ≤ 0x80100000

def KernelImage.physStart (_ : KernelImage) : Nat := 0x100000

/-- The ways in which a call does not return: the calls of `panic` in the allocator, and a loop that never
ends, in the search for a free region of addresses. -/
inductive Panic where
  | missingMemoryMap
  | missingHhdmOffset
  | noUsableRange
  | invalidFree (page : Nat)
  | freeOfUnmanaged (page : Nat)
  | doubleFree (page : Nat)
  | invalidContiguousFree (base count : Nat)
  | freeOfUnmanagedInRange (base index : Nat)
  | doubleFreeInRange (base index : Nat)
  | endlessSearch
  deriving DecidableEq, Repr

structure Pmm where
  totalPages : Nat
  pageBitmap : Nat → Bool
  managedBitmap : Nat → Bool
  pageRefCounts : Nat → Nat
  freePages : Nat
  bitmapPhys : Nat
  bitmapStorageBytes : Nat
  trampolinePool : List Nat

def pageIndex (page : Nat) : Nat := page / pmmPageSize

def pageAddr (index : Nat) : Nat := index * pmmPageSize

/-- The addresses visited by `for (addr = start; addr < end; addr += PMM_PAGE_SIZE)`. -/
def pageAddrs (start limit : Nat) : List Nat :=
  (List.range ((limit - start + (pmmPageSize - 1)) / pmmPageSize)).map fun i =>
    start + i * pmmPageSize

namespace Pmm

/-- The page is managed and clear in `page_bitmap`: the allocator may hand it out. -/
def available (p : Pmm) (index : Nat) : Bool := p.managedBitmap index && !p.pageBitmap index

def rangeIsValid (p : Pmm) (base count : Nat) : Bool :=
  base % pmmPageSize == 0 && count != 0 &&
    (pageIndex base < p.totalPages && count ≤ p.totalPages - pageIndex base)

end Pmm

def markPageFree (p : Pmm) (index : Nat) : Pmm :=
  if p.totalPages ≤ index || !p.pageBitmap index then p
  else
    { p with
      managedBitmap := update p.managedBitmap index true
      pageBitmap := update p.pageBitmap index false
      freePages := add64 p.freePages 1 }

def markPageReserved (p : Pmm) (index : Nat) : Pmm :=
  if p.totalPages ≤ index then p
  else
    { p with
      freePages := if p.pageBitmap index then p.freePages else sub64 p.freePages 1
      managedBitmap := update p.managedBitmap index false
      pageBitmap := update p.pageBitmap index true }

def reserveRange (p : Pmm) (base length : Nat) : Pmm :=
  (pageAddrs (alignDown base pmmPageSize) (alignUp (add64 base length) pmmPageSize)).foldl
    (fun q addr => markPageReserved q (pageIndex addr)) p

def findMaxUsablePhysicalAddress (memmap : List MemmapEntry) : Nat :=
  memmap.foldl (fun maxAddr e =>
    if e.type ≠ limineMemmapUsable then maxAddr
    else if e.limit > maxAddr then e.limit else maxAddr) 0

/-- The candidate start of the bitmap storage in one entry, or nothing when it does not fit. -/
def bitmapStorageIn (img : KernelImage) (needed : Nat) (e : MemmapEntry) : Option Nat :=
  if e.type ≠ limineMemmapUsable then none
  else
    let first := alignUp e.base.toNat pmmPageSize
    let limit := alignDown e.limit pmmPageSize
    let start := if first < img.physEnd && limit > img.physStart
      then alignUp img.physEnd pmmPageSize else first
    if limit > start && limit - start ≥ needed then some start else none

def findBitmapStorage (img : KernelImage) (storageBytes : Nat) (memmap : List MemmapEntry) :
    Except Panic Nat :=
  match memmap.findSome? (bitmapStorageIn img (alignUp storageBytes pmmPageSize)) with
  | some start => .ok start
  | none => .error .noUsableRange

def releaseUsableEntry (p : Pmm) (e : MemmapEntry) : Pmm :=
  if e.type ≠ limineMemmapUsable then p
  else
    (pageAddrs (alignUp e.base.toNat pmmPageSize) (alignDown e.limit pmmPageSize)).foldl
      (fun q addr => markPageFree q (pageIndex addr)) p

def releaseUsableRanges (p : Pmm) (memmap : List MemmapEntry) : Pmm :=
  memmap.foldl releaseUsableEntry p

def trampolinePoolSize : Nat := 16

/-- `smp_max_trampoline_pages()`: four pages, since `MAX_CPUS - 1` is larger. -/
def smpMaxTrampolinePages : Nat := 4

/-- One iteration of the inner loop of `pmm_reserve_trampoline_pages`; the loop conditions on the
pool and the `break` are tests here, since once they fail they fail for every later address. -/
def reserveTrampolinePage (count : Nat) (p : Pmm) (addr : Nat) : Pmm :=
  let index := addr / pmmPageSize
  if p.trampolinePool.length ≥ count || p.totalPages ≤ index || p.pageBitmap index then p
  else
    { p with
      pageBitmap := update p.pageBitmap index true
      managedBitmap := update p.managedBitmap index true
      pageRefCounts := update p.pageRefCounts index 1
      trampolinePool := p.trampolinePool ++ [addr] }

def reserveTrampolineEntry (count : Nat) (p : Pmm) (e : MemmapEntry) : Pmm :=
  if e.type ≠ limineMemmapUsable then p
  else
    let base := alignUp e.base.toNat pmmPageSize
    let limit := min (alignDown e.limit pmmPageSize) 0x100000
    (pageAddrs base limit).foldl (reserveTrampolinePage count) p

def pmmReserveTrampolinePages (p : Pmm) (memmap : List MemmapEntry) (count : Nat) : Pmm :=
  memmap.foldl (reserveTrampolineEntry (min count trampolinePoolSize)) { p with trampolinePool := [] }

/-- The allocator's state after the `memset` calls and before any range is released. -/
def pmmCleared (totalPages bitmapPhys storageBytes : Nat) : Pmm where
  totalPages := totalPages
  pageBitmap := fun _ => true
  managedBitmap := fun _ => true
  pageRefCounts := fun _ => 0
  freePages := 0
  bitmapPhys := bitmapPhys
  bitmapStorageBytes := storageBytes
  trampolinePool := []

def pmmInit (img : KernelImage) (memmap : Option (List MemmapEntry)) (hhdmOffset : UInt64) :
    Except Panic Pmm :=
  match memmap with
  | none => .error .missingMemoryMap
  | some memmap =>
    if hhdmOffset = 0 then .error .missingHhdmOffset
    else
      let totalPages := alignUp (findMaxUsablePhysicalAddress memmap) pmmPageSize / pmmPageSize
      let bitmapBytes := alignUp totalPages 8 / 8
      let storageBytes := bitmapBytes * 2 + totalPages * 2
      match findBitmapStorage img storageBytes memmap with
      | .error e => .error e
      | .ok bitmapPhys =>
        let released := releaseUsableRanges (pmmCleared totalPages bitmapPhys storageBytes) memmap
        let noZero := reserveRange released 0 pmmPageSize
        let noBitmap := reserveRange noZero bitmapPhys (alignUp storageBytes pmmPageSize)
        let noKernel := reserveRange noBitmap img.physStart (img.physEnd - img.physStart)
        .ok (pmmReserveTrampolinePages noKernel memmap smpMaxTrampolinePages)

/-- Mark a page found by a search as allocated with one reference. -/
def Pmm.take (p : Pmm) (index : Nat) : Pmm :=
  { p with
    pageBitmap := update p.pageBitmap index true
    freePages := sub64 p.freePages 1
    pageRefCounts := update p.pageRefCounts index 1 }

/-- The common search of `pmm_alloc_page` and `pmm_alloc_page_below`: the lowest available page
below `bound`. The result is a physical address, `0` for failure. -/
def Pmm.allocBelowIndex (p : Pmm) (bound : Nat) : Pmm × Nat :=
  match (List.range bound).find? p.available with
  | some index => (p.take index, pageAddr index)
  | none => (p, 0)

def pmmAllocPage (p : Pmm) : Pmm × Nat := p.allocBelowIndex p.totalPages

def pmmAllocPageBelow (p : Pmm) (maxAddr : Nat) : Pmm × Nat :=
  if maxAddr = 0 then (p, 0)
  else p.allocBelowIndex (min (add64 maxAddr (pmmPageSize - 1) / pmmPageSize) p.totalPages)

/-- The drop of one reference that both free functions share. -/
def Pmm.dropRef (p : Pmm) (index : Nat) : Pmm :=
  let count := p.pageRefCounts index - 1
  let q := { p with pageRefCounts := update p.pageRefCounts index count }
  if count = 0 then
    { q with
      pageBitmap := update p.pageBitmap index false
      freePages := add64 p.freePages 1 }
  else q

def pmmFreePage (p : Pmm) (page : Nat) : Except Panic Pmm :=
  if !p.rangeIsValid page 1 then .error (.invalidFree page)
  else if !p.managedBitmap (pageIndex page) then .error (.freeOfUnmanaged page)
  else if !p.pageBitmap (pageIndex page) then .error (.doubleFree page)
  else .ok (p.dropRef (pageIndex page))

/-- The scan of `pmm_alloc_pages_contiguous` from index `i` with `fuel` pages left to look at. -/
def Pmm.findRun (p : Pmm) (count : Nat) : (fuel i runStart runLength : Nat) → Option Nat
  | 0, _, _, _ => none
  | fuel + 1, i, runStart, runLength =>
    if !p.available i then p.findRun count fuel (i + 1) runStart 0
    else
      let start := if runLength = 0 then i else runStart
      if runLength + 1 = count then some start
      else p.findRun count fuel (i + 1) start (runLength + 1)

/-- Mark a run of pages as allocated; the pages are taken one after the other. -/
def Pmm.takeRun (p : Pmm) (start : Nat) : Nat → Pmm
  | 0 => p
  | count + 1 => (p.takeRun start count).take (start + count)

def pmmAllocPagesContiguous (p : Pmm) (count : Nat) : Pmm × Nat :=
  if count = 0 || count > p.totalPages then (p, 0)
  else
    match p.findRun count p.totalPages 0 0 0 with
    | some start => (p.takeRun start count, pageAddr start)
    | none => (p, 0)

/-- The checking loop of `pmm_free_pages_contiguous`. -/
def Pmm.checkRange (p : Pmm) (base : Nat) : List Nat → Except Panic Unit
  | [] => .ok ()
  | i :: rest =>
    if !p.managedBitmap (pageIndex base + i) then .error (.freeOfUnmanagedInRange base i)
    else if !p.pageBitmap (pageIndex base + i) then .error (.doubleFreeInRange base i)
    else p.checkRange base rest

def pmmFreePagesContiguous (p : Pmm) (base count : Nat) : Except Panic Pmm :=
  if !p.rangeIsValid base count then .error (.invalidContiguousFree base count)
  else
    match p.checkRange base (List.range count) with
    | .error e => .error e
    | .ok () => .ok ((List.range count).foldl (fun q i => q.dropRef (pageIndex base + i)) p)

def pmmRefPage (p : Pmm) (page : Nat) : Pmm :=
  if pageIndex page < p.totalPages && p.managedBitmap (pageIndex page) then
    { p with
      pageRefCounts := update p.pageRefCounts (pageIndex page)
        ((p.pageRefCounts (pageIndex page) + 1) % 2 ^ 16) }
  else p

def pmmGetPageRef (p : Pmm) (page : Nat) : Nat :=
  if pageIndex page < p.totalPages && p.managedBitmap (pageIndex page) then
    p.pageRefCounts (pageIndex page)
  else 0

/-! ### What the calls do -/

theorem pageIndex_pageAddr (index : Nat) : pageIndex (pageAddr index) = index :=
  Nat.mul_div_cancel _ (by norm_num [pmmPageSize])

theorem mem_pageAddrs (h : addr ∈ pageAddrs start limit) : ∃ i, addr = start + i * 4096 ∧ addr < limit := by
  simp only [pageAddrs, pmmPageSize, List.mem_map, List.mem_range] at h
  obtain ⟨i, hi, rfl⟩ := h
  exact ⟨i, rfl, by omega⟩

theorem mem_pageAddrs_of_lt (h : start + i * 4096 < limit) : start + i * 4096 ∈ pageAddrs start limit := by
  simp only [pageAddrs, pmmPageSize, List.mem_map, List.mem_range]
  exact ⟨i, by omega, rfl⟩

theorem Pmm.available_iff {index : Nat} :
    p.available index = true ↔ p.managedBitmap index = true ∧ p.pageBitmap index = false := by
  simp [Pmm.available]

/-- A search either finds the lowest available page below the bound or there is none. -/
theorem Pmm.allocBelowIndex_cases (p : Pmm) (bound : Nat) :
    (p.allocBelowIndex bound = (p, 0) ∧ ∀ i < bound, p.available i = false) ∨
    ∃ index < bound, p.available index = true ∧ (∀ i < index, p.available i = false) ∧
      p.allocBelowIndex bound = (p.take index, pageAddr index) := by
  unfold Pmm.allocBelowIndex
  cases hfind : (List.range bound).find? p.available with
  | none =>
    refine .inl ⟨rfl, fun i hi => ?_⟩
    simpa using List.find?_range_eq_none.mp hfind i hi
  | some index =>
    obtain ⟨havail, hindex, hbefore⟩ := List.find?_range_eq_some.mp hfind
    exact .inr ⟨index, List.mem_range.mp hindex, havail, fun i hi => by simpa using hbefore i hi, rfl⟩

theorem pmmFreePage_ok_iff {page : Nat} :
    pmmFreePage p page = .ok q ↔
      page % pmmPageSize = 0 ∧ pageIndex page < p.totalPages ∧ p.managedBitmap (pageIndex page) = true ∧
        p.pageBitmap (pageIndex page) = true ∧ q = p.dropRef (pageIndex page) := by
  unfold pmmFreePage
  have hvalid : p.rangeIsValid page 1 = true ↔ page % pmmPageSize = 0 ∧ pageIndex page < p.totalPages := by
    simp only [Pmm.rangeIsValid, Bool.and_eq_true, beq_iff_eq, decide_eq_true_eq]
    constructor
    · rintro ⟨⟨h, -⟩, h', -⟩
      exact ⟨h, h'⟩
    · rintro ⟨h, h'⟩
      exact ⟨⟨h, by simp⟩, h', by omega⟩
  constructor
  · intro h
    split_ifs at h with hv hm hu
    simp only [Bool.not_eq_true', Bool.not_eq_false] at hv hm hu
    cases h
    exact ⟨(hvalid.mp hv).1, (hvalid.mp hv).2, hm, hu, rfl⟩
  · rintro ⟨haligned, hindex, hm, hu, rfl⟩
    rw [hvalid.mpr ⟨haligned, hindex⟩, hm, hu]
    rfl

/-- The scan keeps a run of available pages that ends just before the next page to look at. -/
theorem Pmm.findRun_spec :
    ∀ {fuel i runStart runLength : Nat}, p.findRun count fuel i runStart runLength = some start →
      (0 < runLength → runStart + runLength = i) →
      (∀ j < runLength, p.available (runStart + j) = true) → runLength < count →
      start + count ≤ i + fuel ∧ ∀ j < count, p.available (start + j) = true := by
  intro fuel
  induction fuel with
  | zero =>
    intro i runStart runLength h
    cases h
  | succ fuel ih =>
  intro i runStart runLength h hend hrun hcount
  rw [Pmm.findRun] at h
  split at h
  · obtain ⟨hle, hall⟩ := ih h (by omega) (by omega) (by omega)
    exact ⟨by omega, hall⟩
  rename_i havail
  have havail : p.available i = true := by simpa using havail
  dsimp only at h
  have hend' : (if runLength = 0 then i else runStart) + (runLength + 1) = i + 1 := by
    split_ifs with hzero
    · omega
    · omega
  have hrun' : ∀ j < runLength + 1,
      p.available ((if runLength = 0 then i else runStart) + j) = true := by
    intro j hj
    by_cases hlast : j = runLength
    · rw [show (if runLength = 0 then i else runStart) + j = i by omega]
      exact havail
    · rw [if_neg (by omega)]
      exact hrun j (by omega)
  split at h
  · cases h
    exact ⟨by omega, fun j hj => hrun' j (by omega)⟩
  · obtain ⟨hle, hall⟩ := ih h (fun _ => hend') hrun' (by omega)
    exact ⟨by omega, hall⟩

theorem Pmm.takeRun_fields (p : Pmm) (start count : Nat) :
    (p.takeRun start count).totalPages = p.totalPages ∧
    (p.takeRun start count).managedBitmap = p.managedBitmap ∧
    (p.takeRun start count).bitmapPhys = p.bitmapPhys ∧
    (p.takeRun start count).bitmapStorageBytes = p.bitmapStorageBytes ∧
    (p.takeRun start count).trampolinePool = p.trampolinePool := by
  induction count with
  | zero => exact ⟨rfl, rfl, rfl, rfl, rfl⟩
  | succ count ih => exact ih

theorem Pmm.takeRun_pageBitmap (p : Pmm) (start count index : Nat) :
    (p.takeRun start count).pageBitmap index =
      (p.pageBitmap index || decide (start ≤ index ∧ index < start + count)) := by
  induction count with
  | zero =>
    have : ¬(start ≤ index ∧ index < start + 0) := by omega
    simp [Pmm.takeRun]
  | succ count ih =>
  rw [Pmm.takeRun, Pmm.take]
  by_cases h : index = start + count
  · subst h
    simp
  dsimp only
  rw [update_of_ne h, ih]
  congr 2
  rw [eq_iff_iff]
  omega

/-- A call of `pmm_alloc_pages_contiguous` fails or takes a run of available pages. -/
theorem pmmAllocPagesContiguous_cases (p : Pmm) (count : Nat) :
    pmmAllocPagesContiguous p count = (p, 0) ∨
    ∃ start, start + count ≤ p.totalPages ∧ (∀ j < count, p.available (start + j) = true) ∧
      pmmAllocPagesContiguous p count = (p.takeRun start count, pageAddr start) := by
  unfold pmmAllocPagesContiguous
  split
  · exact .inl rfl
  rename_i hcount
  simp only [Bool.or_eq_true, decide_eq_true_eq, not_or] at hcount
  split
  · rename_i start hfind
    obtain ⟨hle, hall⟩ := Pmm.findRun_spec hfind (by omega) (by omega) (by omega)
    exact .inr ⟨start, by omega, hall, rfl⟩
  · exact .inl rfl

theorem Pmm.checkRange_ok (h : p.checkRange base l = .ok ()) :
    ∀ i ∈ l, p.managedBitmap (pageIndex base + i) = true ∧ p.pageBitmap (pageIndex base + i) = true := by
  induction l with
  | nil => simp
  | cons i rest ih =>
  rw [Pmm.checkRange] at h
  split at h
  · cases h
  split at h
  · cases h
  rename_i hmanaged hused
  intro j hj
  rcases List.mem_cons.mp hj with rfl | hj
  · exact ⟨by simpa using hmanaged, by simpa using hused⟩
  · exact ih h j hj

theorem pmmFreePagesContiguous_ok (h : pmmFreePagesContiguous p base count = .ok q) :
    pageIndex base + count ≤ p.totalPages ∧
      (∀ i < count, p.managedBitmap (pageIndex base + i) = true ∧
        p.pageBitmap (pageIndex base + i) = true) ∧
      q = (List.range count).foldl (fun q i => q.dropRef (pageIndex base + i)) p := by
  unfold pmmFreePagesContiguous at h
  split at h
  · cases h
  rename_i hvalid
  simp only [Pmm.rangeIsValid, Bool.not_eq_true', Bool.not_eq_false, Bool.and_eq_true,
    decide_eq_true_eq] at hvalid
  split at h
  · cases h
  · rename_i hcheck
    cases h
    exact ⟨by omega, fun i hi => Pmm.checkRange_ok hcheck i (List.mem_range.mpr hi), rfl⟩

end Litenix
