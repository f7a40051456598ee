import Litenix.Pmm
import Litenix.Lib.Radix

/-! The page tables of `vmm.c`. Physical memory is a map from page indices to pages of 512 words, so a
pointer made by `phys_to_virt` is the index of the page it points at. TLB invalidation has no effect on
the tables and is left out, and so are the tests for a null address space. A `struct address_space` lives
in a page of its own and is a value here; its page is still allocated and freed. -/

namespace Litenix

open Lib Radix Function

variable {index : Nat}

def vmmPageSize : Nat := 4096
def pageEntries : Nat := 512
def pageMask : Nat := 0x000ffffffffff000
def pageOffsetMask : Nat := 0xfff
def pageFlagsMask : Nat := 0xfff0000000000fff

def vmmPresent : Nat := 1
def vmmWritable : Nat := 2
def vmmUser : Nat := 4
def vmmCow : Nat := 0x200
def vmmNoExecute : Nat := 0x8000000000000000

def vmmUserBase : Nat := 0x1000
def vmmUserTop : Nat := 0x00007fffffffffff
def vmmKernelBase : Nat := 0xffff800000000000

/-- Physical memory with its allocator. `freeCalls` records the arguments of `pmm_free_page`, the last
one first; no function reads it. -/
structure Phys where
  pmm : Pmm
  mem : Nat → Nat → Nat
  kernelPml4 : Nat
  freeCalls : List Nat

structure AddressSpace where
  pml4Phys : Nat
  selfPhys : Nat
  refCount : Nat
  deriving DecidableEq

/-- The page index of the top-level table. -/
def AddressSpace.root (space : AddressSpace) : Nat := pageIndex space.pml4Phys

namespace Phys

/-- `pmm_alloc_page`, which returns a zeroed page or `0`. -/
def allocPage (p : Phys) : Phys × Nat :=
  let (pmm, page) := pmmAllocPage p.pmm
  if page = 0 then ({ p with pmm := pmm }, 0)
  else ({ p with pmm := pmm, mem := update p.mem (pageIndex page) fun _ => 0 }, page)

def freePage (p : Phys) (page : Nat) : Except Panic Phys :=
  match pmmFreePage p.pmm page with
  | .ok pmm => .ok { p with pmm := pmm, freeCalls := page :: p.freeCalls }
  | .error e => .error e

def setWord (p : Phys) (page index value : Nat) : Phys :=
  { p with mem := Radix.setWord p.mem page index value }

end Phys

def pml4Index (virt : Nat) : Nat := virt >>> 39 &&& 0x1ff
def pdptIndex (virt : Nat) : Nat := virt >>> 30 &&& 0x1ff
def pdIndex (virt : Nat) : Nat := virt >>> 21 &&& 0x1ff
def ptIndex (virt : Nat) : Nat := virt >>> 12 &&& 0x1ff

def pageAligned (value : Nat) : Bool := value &&& pageOffsetMask == 0

variable (entry : Nat)

def entryPhys : Nat := entry &&& pageMask

def makeEntry (phys flags : Nat) : Nat := (phys &&& pageMask) ||| (flags &&& pageFlagsMask)

/-- A test `(entry & flag) != 0`. -/
def hasFlag (entry flag : Nat) : Bool := entry &&& flag != 0

/-- The page a present entry points at. -/
def entryPage : Option Nat :=
  if hasFlag entry vmmPresent then some (pageIndex (entryPhys entry)) else none

def tableFlagsFromLeaf (flags : Nat) : Nat :=
  if hasFlag flags vmmUser then vmmPresent ||| vmmWritable ||| vmmUser else vmmPresent ||| vmmWritable

/-- The new table is zeroed twice in the source, once by the allocator. -/
def ensureNextTable (p : Phys) (table index leafFlags : Nat) : Phys × Option Nat :=
  match entryPage (p.mem table index) with
  | some next => (p, some next)
  | none =>
    let (p, newTable) := p.allocPage
    if newTable = 0 then (p, none)
    else
      (p.setWord table index (makeEntry newTable (tableFlagsFromLeaf leafFlags)),
        some (pageIndex newTable))

/-- `walk_to_pte` without `create`: the page table and the index of the entry in it. -/
def walkToPte (mem : Nat → Nat → Nat) (root virt : Nat) : Option (Nat × Nat) := do
  let pdpt ← entryPage (mem root (pml4Index virt))
  let pd ← entryPage (mem pdpt (pdptIndex virt))
  let pt ← entryPage (mem pd (pdIndex virt))
  return (pt, ptIndex virt)

/-- `walk_to_pte` with `create`; tables made before a failure stay. -/
def walkToPteCreate (p : Phys) (root virt flags : Nat) : Phys × Option (Nat × Nat) :=
  match ensureNextTable p root (pml4Index virt) flags with
  | (p, none) => (p, none)
  | (p, some pdpt) =>
    match ensureNextTable p pdpt (pdptIndex virt) flags with
    | (p, none) => (p, none)
    | (p, some pd) =>
      match ensureNextTable p pd (pdIndex virt) flags with
      | (p, none) => (p, none)
      | (p, some pt) => (p, some (pt, ptIndex virt))

variable (p : Phys) (space : AddressSpace) {i flags : Nat}

/-- `vmm_map`; the flag is `true` for the return value `0` and `false` for `-1`, here and below. -/
def vmmMap (virt phys flags : Nat) : Phys × Bool :=
  if !pageAligned virt || !pageAligned phys then (p, false)
  else if !hasFlag flags vmmPresent then (p, false)
  else
    match walkToPteCreate p space.root virt flags with
    | (p, none) => (p, false)
    | (p, some (pt, i)) =>
      if hasFlag (p.mem pt i) vmmPresent then (p, false)
      else (p.setWord pt i (makeEntry phys flags), true)

/-- The entry of a page and where it is, when it is present. -/
def presentPte (mem : Nat → Nat → Nat) (root virt : Nat) : Option (Nat × Nat × Nat) :=
  match walkToPte mem root virt with
  | none => none
  | some (pt, i) => if hasFlag (mem pt i) vmmPresent then some (pt, i, mem pt i) else none

def vmmUnmap (virt : Nat) : Phys × Bool :=
  if !pageAligned virt then (p, false)
  else
    match presentPte p.mem space.root virt with
    | none => (p, false)
    | some (pt, i, _) => (p.setWord pt i 0, true)

def vmmProtect (virt flags : Nat) : Phys × Bool :=
  if !pageAligned virt || !hasFlag flags vmmPresent then (p, false)
  else
    match presentPte p.mem space.root virt with
    | none => (p, false)
    | some (pt, i, entry) => (p.setWord pt i (makeEntry (entryPhys entry) flags), true)

def vmmVirtToPhys (virt : Nat) : Option Nat :=
  match presentPte p.mem space.root (alignDown virt vmmPageSize) with
  | none => none
  | some (_, _, entry) => some (entryPhys entry + (virt &&& pageOffsetMask))

/-- The result is `none` when no page is left for the table or for the record. -/
def vmmCreateAddressSpace (p : Phys) : Except Panic (Phys × Option AddressSpace) :=
  let (p, pml4Phys) := p.allocPage
  if pml4Phys = 0 then .ok (p, none)
  else
    let kernelPml4 := p.mem (pageIndex p.kernelPml4)
    let newPml4 := fun i => if 256 ≤ i ∧ i < pageEntries then kernelPml4 i else 0
    let p := { p with mem := update p.mem (pageIndex pml4Phys) newPml4 }
    let (p, structPhys) := p.allocPage
    if structPhys = 0 then
      match p.freePage pml4Phys with
      | .ok p => .ok (p, none)
      | .error e => .error e
    else .ok (p, some { pml4Phys := pml4Phys, selfPhys := structPhys, refCount := 1 })

/-- All pages that `vmm_destroy_address_space` frees, in order: the four nested loops free what is below
an entry before the table the entry points at. -/
def spacePages (mem : Nat → Nat → Nat) (space : AddressSpace) : List Nat :=
  below entryPage pageEntries mem 256 3 space.root ++ [space.root, pageIndex space.selfPhys]

/-- Freeing a page changes no table, so the pages can be collected first. -/
def vmmDestroyAddressSpace : Except Panic Phys :=
  (spacePages p.mem space).foldlM (fun p page => p.freePage (pageAddr page)) p

/-- The body of the innermost loop of `vmm_clone_address_space` for a present entry. The `error` case
is the state in which `vmm_map` has failed. -/
def cloneLeaf (child : AddressSpace) (p : Phys) (pt i virt : Nat) : Except Phys Phys :=
  let entry := p.mem pt i
  let flags := entry &&& pageFlagsMask
  let (p, flags) :=
    if hasFlag flags vmmWritable then
      let flags := (flags &&& not64 vmmWritable) ||| vmmCow
      (p.setWord pt i ((entry &&& not64 pageFlagsMask) ||| flags), flags)
    else (p, flags)
  match vmmMap p child virt (entryPhys entry) flags with
  | (p, false) => .error p
  | (p, true) => .ok { p with pmm := pmmRefPage p.pmm (entryPhys entry) }

/-- The loops of `vmm_clone_address_space` over the entries of one table. At level `0` the entries
are leaves; the index of an entry stands at bit `12 + 9 * level` of the address. -/
def cloneTable (child : AddressSpace) : (level : Nat) → (entries : Nat) → Phys → (table virt : Nat) →
    Except Phys Phys
  | 0, entries, p, pt, virt =>
    (List.range entries).foldlM (fun p i =>
      if hasFlag (p.mem pt i) vmmPresent then cloneLeaf child p pt i (virt ||| i <<< 12) else .ok p) p
  | level + 1, entries, p, table, virt =>
    (List.range entries).foldlM (fun p i =>
      match entryPage (p.mem table i) with
      | some next => cloneTable child level pageEntries p next (virt ||| i <<< (12 + 9 * (level + 1)))
      | none => .ok p) p

def vmmCloneAddressSpace (p : Phys) (parent : AddressSpace) : Except Panic (Phys × Option AddressSpace) :=
  match vmmCreateAddressSpace p with
  | .error e => .error e
  | .ok (p, none) => .ok (p, none)
  | .ok (p, some child) =>
    match cloneTable child 3 256 p parent.root 0 with
    | .ok p => .ok (p, some child)
    | .error p =>
      match vmmDestroyAddressSpace p child with
      | .ok p => .ok (p, none)
      | .error e => .error e

/-- The return values `0`, `-1` and `-2` of `vmm_handle_cow`. -/
inductive CowResult where
  | handled
  | notCow
  | outOfMemory
  deriving DecidableEq, Repr

/-- The flags of a resolved entry. -/
def cowFlags : Nat := (entry &&& pageFlagsMask) &&& not64 vmmCow ||| vmmWritable

def vmmHandleCow (virt : Nat) : Except Panic (Phys × CowResult) :=
  match presentPte p.mem space.root (alignDown virt vmmPageSize) with
  | none => .ok (p, .notCow)
  | some (pt, i, entry) =>
    if !hasFlag entry vmmCow then .ok (p, .notCow)
    else
      let oldPhys := entryPhys entry
      let ref := pmmGetPageRef p.pmm oldPhys
      if ref = 1 then
        .ok (p.setWord pt i ((entry &&& not64 pageFlagsMask) ||| cowFlags entry), .handled)
      else if ref > 1 then
        let (p, newPhys) := p.allocPage
        if newPhys = 0 then .ok (p, .outOfMemory)
        else
          let copied := { p with
            mem := update p.mem (pageIndex newPhys) (p.mem (pageIndex oldPhys)) }
          match (copied.setWord pt i (newPhys ||| cowFlags (copied.mem pt i))).freePage oldPhys with
          | .ok p => .ok (p, .handled)
          | .error e => .error e
      else .ok (p, .notCow)

/-! ### Entries -/

theorem hasFlag_two_pow (entry k : Nat) : hasFlag entry (2 ^ k) = entry.testBit k := by
  rw [hasFlag, Nat.and_two_pow]
  cases entry.testBit k <;> simp

theorem hasFlag_present : hasFlag entry vmmPresent = entry.testBit 0 := hasFlag_two_pow entry 0
theorem hasFlag_writable (entry : Nat) : hasFlag entry vmmWritable = entry.testBit 1 := hasFlag_two_pow entry 1
theorem hasFlag_cow (entry : Nat) : hasFlag entry vmmCow = entry.testBit 9 := hasFlag_two_pow entry 9

theorem testBit_pageMask (i : Nat) : pageMask.testBit i = decide (12 ≤ i ∧ i < 52) := by
  by_cases hi : i < 64
  · revert i
    decide
  rw [Nat.testBit_lt_two_pow (lt_of_lt_of_le (show pageMask < 2 ^ 64 by decide)
    (Nat.pow_le_pow_right (by norm_num) (by omega)))]
  simp
  omega

theorem testBit_pageFlagsMask (i : Nat) : pageFlagsMask.testBit i = decide (i < 12 ∨ 52 ≤ i ∧ i < 64) := by
  by_cases hi : i < 64
  · revert i
    decide
  rw [Nat.testBit_lt_two_pow (lt_of_lt_of_le (show pageFlagsMask < 2 ^ 64 by decide)
    (Nat.pow_le_pow_right (by norm_num) (by omega)))]
  simp
  omega

/-- The page index in an entry. -/
def entryIndex : Nat := pageIndex (entryPhys entry)

theorem entryPhys_eq : entryPhys entry = entry / 4096 % 2 ^ 40 * 4096 := by
  apply Nat.eq_of_testBit_eq
  intro i
  rw [entryPhys, Nat.testBit_and, testBit_pageMask, show (4096 : Nat) = 2 ^ 12 by norm_num,
    Nat.testBit_mul_two_pow, Nat.testBit_mod_two_pow, Nat.testBit_div_two_pow]
  by_cases h12 : 12 ≤ i
  · rw [Nat.sub_add_cancel h12]
    by_cases h52 : i < 52
    · simp [h12, h52, show i - 12 < 40 by omega]
    · simp [h12, h52, show ¬i - 12 < 40 by omega]
  · simp [h12]

theorem entryIndex_eq : entryIndex entry = entry / 4096 % 2 ^ 40 := by
  rw [entryIndex, entryPhys_eq, pageIndex, pmmPageSize, Nat.mul_div_cancel _ (by norm_num)]

theorem entryIndex_lt : entryIndex entry < 2 ^ 40 := by
  rw [entryIndex_eq]
  exact Nat.mod_lt _ (by norm_num)

theorem entryPhys_eq_pageAddr : entryPhys entry = pageAddr (entryIndex entry) := by
  rw [entryIndex_eq, entryPhys_eq]
  rfl

theorem entryIndex_congr (h : ∀ i, 12 ≤ i → i < 52 → e.testBit i = e'.testBit i) : entryIndex e = entryIndex e' := by
  have : entryPhys e = entryPhys e' := by
    apply Nat.eq_of_testBit_eq
    intro i
    rw [entryPhys, entryPhys, Nat.testBit_and, Nat.testBit_and, testBit_pageMask]
    by_cases hi : 12 ≤ i ∧ i < 52
    · rw [h i hi.1 hi.2]
    · simp [hi]
  rw [entryIndex, entryIndex, this]

theorem entryIndex_pageAddr (h : index < 2 ^ 40) : entryIndex (pageAddr index) = index := by
  rw [entryIndex_eq, pageAddr, pmmPageSize, Nat.mul_div_cancel _ (by norm_num), Nat.mod_eq_of_lt h]

theorem entryPage_eq_some_iff {entry f : Nat} :
    entryPage entry = some f ↔ entry.testBit 0 = true ∧ entryIndex entry = f := by
  rw [entryPage, hasFlag_present]
  cases entry.testBit 0 <;> simp [entryIndex]

theorem testBit_withFlags (e flags : Nat) (hi : i < 64) :
    ((e &&& not64 pageFlagsMask) ||| flags).testBit i =
      (e.testBit i && decide (12 ≤ i ∧ i < 52) || flags.testBit i) := by
  have hmask : ∀ i < 64, (not64 pageFlagsMask).testBit i = decide (12 ≤ i ∧ i < 52) := by decide
  rw [Nat.testBit_or, Nat.testBit_and, hmask i hi]

/-- New flags that say present and leave the page bits alone map the same page. -/
theorem entryPage_withFlags (hpresent : flags.testBit 0 = true)
    (hflags : ∀ i, 12 ≤ i → i < 52 → flags.testBit i = false) :
    entryPage ((e &&& not64 pageFlagsMask) ||| flags) = some (entryIndex e) := by
  refine entryPage_eq_some_iff.mpr ⟨?_, entryIndex_congr fun i h12 h52 => ?_⟩
  · rw [testBit_withFlags e flags (by norm_num), hpresent, Bool.or_true]
  · rw [testBit_withFlags e flags (by omega), hflags i h12 h52]
    simp [h12, h52]

theorem entryPage_zero : entryPage 0 = none := by decide

theorem testBit_makeEntry (phys flags i : Nat) : (makeEntry phys flags).testBit i =
    (phys.testBit i && decide (12 ≤ i ∧ i < 52) || flags.testBit i && decide (i < 12 ∨ 52 ≤ i ∧ i < 64)) := by
  rw [makeEntry, Nat.testBit_or, Nat.testBit_and, Nat.testBit_and, testBit_pageMask, testBit_pageFlagsMask]

theorem entryIndex_makeEntry (h : index < 2 ^ 40) (flags : Nat) :
    entryIndex (makeEntry (pageAddr index) flags) = index := by
  refine (entryIndex_congr ?_).trans (entryIndex_pageAddr h)
  intro i h12 h52
  rw [testBit_makeEntry]
  simp [h12, h52, show ¬i < 12 by omega, show ¬52 ≤ i by omega]

theorem testBit_makeEntry_flag (phys flags : Nat) (hi : i < 12) :
    (makeEntry phys flags).testBit i = flags.testBit i := by
  rw [testBit_makeEntry]
  simp [hi, show ¬12 ≤ i by omega]

theorem testBit_makeEntry_noExecute (phys flags : Nat) : (makeEntry phys flags).testBit 63 = flags.testBit 63 := by
  rw [testBit_makeEntry]
  simp

theorem entryPage_makeEntry (h : index < 2 ^ 40) (hflags : flags.testBit 0 = true) :
    entryPage (makeEntry (pageAddr index) flags) = some index :=
  entryPage_eq_some_iff.mpr ⟨by rw [testBit_makeEntry_flag _ _ (by norm_num), hflags], entryIndex_makeEntry h flags⟩

theorem Phys.allocPage_pmm (p : Phys) : p.allocPage.1.pmm = p.pmm ∨
    ∃ f < p.pmm.totalPages, p.pmm.available f = true ∧ p.allocPage.1.pmm = p.pmm.take f := by
  have hpmm : p.allocPage.1.pmm = (p.pmm.allocBelowIndex p.pmm.totalPages).1 := by
    unfold Phys.allocPage pmmAllocPage
    dsimp only
    split <;> rfl
  rw [hpmm]
  rcases p.pmm.allocBelowIndex_cases p.pmm.totalPages with ⟨hnone, -⟩ | ⟨f, hf, havail, -, htake⟩
  · exact .inl (by rw [hnone])
  · exact .inr ⟨f, hf, havail, by rw [htake]⟩

theorem Phys.allocPage_cases (p : Phys) (hzero : p.pmm.managedBitmap 0 = false) :
    p.allocPage = (p, 0) ∧ (∀ f < p.pmm.totalPages, p.pmm.available f = false) ∨
    ∃ f < p.pmm.totalPages, p.pmm.available f = true ∧ pageAddr f ≠ 0 ∧
      p.allocPage = ({ p with pmm := p.pmm.take f, mem := update p.mem f fun _ => 0 }, pageAddr f) := by
  rcases p.pmm.allocBelowIndex_cases p.pmm.totalPages with ⟨halloc, hnone⟩ | ⟨f, hf, havail, -, halloc⟩
  · exact .inl ⟨by simp only [Phys.allocPage, pmmAllocPage, halloc, if_true], hnone⟩
  have haddr : pageAddr f ≠ 0 := by
    intro haddr
    obtain rfl : f = 0 := by simpa [pageAddr, pmmPageSize] using haddr
    rw [Pmm.available, hzero] at havail
    cases havail
  exact .inr ⟨f, hf, havail, haddr, by simp only [Phys.allocPage, pmmAllocPage, halloc, haddr, if_false, pageIndex_pageAddr]⟩

theorem tableFlagsFromLeaf_present (flags : Nat) : (tableFlagsFromLeaf flags).testBit 0 = true := by
  unfold tableFlagsFromLeaf
  split <;> decide

end Litenix
