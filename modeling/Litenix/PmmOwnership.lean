import Litenix.Pmm

/-! Which pages the allocator hands out. `pmm_init` leaves clear in `page_bitmap` only pages inside a
USABLE entry that lie outside page 0, the bitmap storage, the kernel image and the trampoline pool,
and a run keeps it so as long as no free that passes the allocator's checks is of another page. The
checks alone do not ensure this: `managed_bitmap` is set for every hole of the memory map. -/

namespace Litenix

open Lib Function

variable {e : MemmapEntry} {index page addr base : Nat} {memmap : List MemmapEntry} {p q : Pmm} {img : KernelImage}
variable {count storageBytes : Nat}

/-- The page at `addr` lies inside a USABLE entry: its offset in the entry, a 64-bit difference,
leaves room for a whole page. -/
def InUsable (memmap : List MemmapEntry) (addr : Nat) : Prop :=
  ∃ e ∈ memmap, e.type = limineMemmapUsable ∧
    sub64 addr e.base.toNat + pmmPageSize ≤ e.length.toNat

/-- The page at `addr` meets page 0, the bitmap storage or the kernel image. -/
def InReserved (img : KernelImage) (p : Pmm) (addr : Nat) : Prop :=
  addr = 0 ∨
  (addr < p.bitmapPhys + p.bitmapStorageBytes ∧ p.bitmapPhys < addr + pmmPageSize) ∨
  (addr < img.physEnd ∧ img.physStart < addr + pmmPageSize)

/-- What the allocator may hand out. -/
structure PageOwned (img : KernelImage) (memmap : List MemmapEntry) (p : Pmm) (addr : Nat) : Prop where
  usable : InUsable memmap addr
  notReserved : ¬InReserved img p addr
  notTrampoline : addr ∉ p.trampolinePool

inductive PmmOp where
  | allocPage
  | allocPageBelow (maxAddr : UInt64)
  | allocPagesContiguous (count : UInt64)
  | freePage (page : UInt64)
  | freePagesContiguous (base count : UInt64)
  | refPage (page : UInt64)

def pmmStep (p : Pmm) : PmmOp → Except Panic Pmm
  | .allocPage => .ok (pmmAllocPage p).1
  | .allocPageBelow maxAddr => .ok (pmmAllocPageBelow p maxAddr.toNat).1
  | .allocPagesContiguous count => .ok (pmmAllocPagesContiguous p count.toNat).1
  | .freePage page => pmmFreePage p page.toNat
  | .freePagesContiguous base count => pmmFreePagesContiguous p base.toNat count.toNat
  | .refPage page => .ok (pmmRefPage p page.toNat)

/-- The pages starting at a returned address, none for the address `0`. -/
def pagesFrom (addr count : Nat) : List Nat :=
  if addr = 0 then [] else (List.range count).map fun i => addr + i * pmmPageSize

/-- The pages a call hands out to its caller. -/
def pmmPages (p : Pmm) : PmmOp → List Nat
  | .allocPage => pagesFrom (pmmAllocPage p).2 1
  | .allocPageBelow maxAddr => pagesFrom (pmmAllocPageBelow p maxAddr.toNat).2 1
  | .allocPagesContiguous count => pagesFrom (pmmAllocPagesContiguous p count.toNat).2 count.toNat
  | _ => []

/-- A page that passes the checks of a free lies inside a USABLE entry and outside the pool. -/
def FreeOfOwned (memmap : List MemmapEntry) (p : Pmm) (index : Nat) : Prop :=
  index < p.totalPages → p.managedBitmap index → p.pageBitmap index →
    InUsable memmap (pageAddr index) ∧ pageAddr index ∉ p.trampolinePool

/-- The condition on the calls of a run. -/
def FreesOwned (memmap : List MemmapEntry) (p : Pmm) : PmmOp → Prop
  | .freePage page => FreeOfOwned memmap p (pageIndex page.toNat)
  | .freePagesContiguous base count =>
    ∀ i < count.toNat, FreeOfOwned memmap p (pageIndex base.toNat + i)
  | _ => True

/-! ### `pmm_init` -/

theorem le_findMax (he : e ∈ memmap)
    (htype : e.type = limineMemmapUsable) : e.limit ≤ findMaxUsablePhysicalAddress memmap := by
  refine foldl_establish (e.limit ≤ ·) he ?_ ?_ 0
  · intro acc
    rw [if_neg (not_not.mpr htype)]
    split_ifs <;> omega
  · intro acc b _ hacc
    split_ifs <;> omega

theorem findMax_lt (memmap : List MemmapEntry) : findMaxUsablePhysicalAddress memmap < 2 ^ 64 := by
  refine foldl_inv (· < 2 ^ 64) (by norm_num) ?_
  intro acc e _ hacc
  have : e.limit < 2 ^ 64 := add64_lt _ _
  split_ifs <;> omega

/-- A page that the release loop visits and does not skip lies inside the entry. When the base
rounds up past the last address the loop starts at `0`: either the entry itself wraps, and the page is
in its wrapped part, or `totalPages` is `0`. -/
theorem inUsable_of_visited (he : e ∈ memmap) (htype : e.type = limineMemmapUsable)
    (haddr : addr ∈ pageAddrs (alignUp e.base.toNat pmmPageSize) (alignDown e.limit pmmPageSize))
    (htotal : pageIndex addr <
      alignUp (findMaxUsablePhysicalAddress memmap) pmmPageSize / pmmPageSize) :
    InUsable memmap addr ∧ addr % 4096 = 0 := by
  obtain ⟨i, hi, hlt⟩ := mem_pageAddrs haddr
  have hmax := le_findMax he htype
  have hmaxlt := findMax_lt memmap
  have hbase := e.base.toNat_lt
  have hlength := e.length.toNat_lt
  have hlimit : e.limit = (e.base.toNat + e.length.toNat) % 2 ^ 64 := rfl
  have hlimitlt : e.limit < 2 ^ 64 := add64_lt _ _
  simp only [pmmPageSize, pageIndex] at hi hlt htotal
  rw [alignUp_page] at hi htotal
  rw [alignDown_page hlimitlt] at hlt
  refine ⟨⟨e, he, htype, ?_⟩, by omega⟩
  simp only [sub64, pmmPageSize]
  omega

/-- The fields that no call after the first lines of `pmm_init` writes. -/
def Pmm.SameLayout (p q : Pmm) : Prop :=
  q.totalPages = p.totalPages ∧ q.bitmapPhys = p.bitmapPhys ∧
    q.bitmapStorageBytes = p.bitmapStorageBytes

/-- A page that no free accepts and no search returns. -/
def Pmm.Barred (p : Pmm) (index : Nat) : Prop :=
  p.managedBitmap index = false ∧ p.pageBitmap index = true

/-- One pass of the set-up after the release of the usable ranges: bits are only set, barred pages
stay barred. -/
structure Pmm.Reserves (p q : Pmm) : Prop where
  layout : p.SameLayout q
  used : ∀ index, p.pageBitmap index = true → q.pageBitmap index = true
  barred : ∀ index, p.Barred index → q.Barred index

theorem Pmm.Reserves.refl (p : Pmm) : p.Reserves p := ⟨⟨rfl, rfl, rfl⟩, fun _ => id, fun _ => id⟩

theorem Pmm.Reserves.trans (h : p.Reserves q) (h' : q.Reserves r) : p.Reserves r where
  layout := ⟨h'.layout.1.trans h.layout.1, h'.layout.2.1.trans h.layout.2.1,
    h'.layout.2.2.trans h.layout.2.2⟩
  used := fun index hu => h'.used index (h.used index hu)
  barred := fun index hb => h'.barred index (h.barred index hb)

theorem markPageReserved_reserves (p : Pmm) (index : Nat) : p.Reserves (markPageReserved p index) := by
  unfold markPageReserved
  split
  · exact Pmm.Reserves.refl p
  refine ⟨⟨rfl, rfl, rfl⟩, ?_, ?_⟩
  · intro i hi
    by_cases h : i = index <;> simp [h, hi]
  · intro i hi
    by_cases h : i = index <;> simp [Pmm.Barred, h, hi.1, hi.2]

theorem markPageReserved_barred (h : index < p.totalPages) : (markPageReserved p index).Barred index := by
  simp [markPageReserved, Pmm.Barred, not_le.mpr h]

theorem reserveRange_reserves (p : Pmm) (base length : Nat) : p.Reserves (reserveRange p base length) :=
  foldl_inv (p.Reserves ·) (Pmm.Reserves.refl p) fun q addr _ hq =>
    hq.trans (markPageReserved_reserves q (pageIndex addr))

/-- Every page of the rounded range is barred afterwards. -/
theorem reserveRange_barred (hindex : index < p.totalPages)
    (hstart : alignDown base 4096 ≤ index * 4096) (haligned : alignDown base 4096 % 4096 = 0)
    (hlimit : index * 4096 < alignUp (add64 base length) 4096) : (reserveRange p base length).Barred index := by
  have hmem : index * 4096 ∈ pageAddrs (alignDown base pmmPageSize)
      (alignUp (add64 base length) pmmPageSize) := by
    have heq : index * 4096 = alignDown base 4096 + (index - alignDown base 4096 / 4096) * 4096 := by
      omega
    rw [heq] at hlimit ⊢
    exact mem_pageAddrs_of_lt hlimit
  have hindexEq : pageIndex (index * 4096) = index := Nat.mul_div_cancel _ (by norm_num)
  refine foldl_establish_of_inv (fun q => index < q.totalPages) (fun q => q.Barred index) hmem hindex
    (fun q addr _ hq => ?_) (fun q hq => ?_) fun q addr _ _ hq => (markPageReserved_reserves q _).barred index hq
  · rwa [(markPageReserved_reserves q _).layout.1]
  · rw [hindexEq]
    exact markPageReserved_barred hq

/-- While the trampoline pages are reserved, the pool holds aligned addresses of used pages. -/
structure PoolUsed (p q : Pmm) : Prop where
  reserves : p.Reserves q
  used : ∀ addr ∈ q.trampolinePool, q.pageBitmap (pageIndex addr) = true

theorem reserveTrampolinePage_pool (h : PoolUsed p q) : PoolUsed p (reserveTrampolinePage count q addr) := by
  unfold reserveTrampolinePage
  dsimp only
  split
  · exact h
  rename_i hnot
  simp only [Bool.or_eq_true, decide_eq_true_eq, not_or] at hnot
  refine ⟨⟨h.reserves.layout, ?_, ?_⟩, ?_⟩
  · intro i hi
    by_cases hne : i = addr / pmmPageSize <;> simp [hne, h.reserves.used i hi]
  · intro i hi
    have hbarred := h.reserves.barred i hi
    have hne : i ≠ addr / pmmPageSize := by
      rintro rfl
      exact hnot.2 hbarred.2
    simpa [Pmm.Barred, hne] using hbarred
  · intro a ha
    rcases List.mem_append.mp ha with ha | ha
    · by_cases hne : pageIndex a = addr / pmmPageSize <;> simp [hne, h.used a ha]
    · rw [List.mem_singleton] at ha
      simp [ha, pageIndex]

theorem pmmReserveTrampolinePages_pool (p : Pmm) (memmap : List MemmapEntry) (count : Nat) :
    PoolUsed p (pmmReserveTrampolinePages p memmap count) := by
  refine foldl_inv (PoolUsed p) ?_ ?_
  · exact ⟨⟨⟨rfl, rfl, rfl⟩, fun _ => id, fun _ => id⟩, by simp⟩
  intro q e _ hq
  unfold reserveTrampolineEntry
  split
  · exact hq
  · exact foldl_inv (PoolUsed p) hq fun r addr _ hr => reserveTrampolinePage_pool hr

/-- While the usable ranges are released, every clear bit is that of a page inside one of them. -/
structure ClearInUsable (memmap : List MemmapEntry) (p q : Pmm) : Prop where
  layout : p.SameLayout q
  clear : ∀ index, q.pageBitmap index = false → InUsable memmap (pageAddr index)

theorem releaseUsableEntry_clear
    (htotal : p.totalPages = alignUp (findMaxUsablePhysicalAddress memmap) pmmPageSize / pmmPageSize)
    (he : e ∈ memmap) (h : ClearInUsable memmap p q) : ClearInUsable memmap p (releaseUsableEntry q e) := by
  unfold releaseUsableEntry
  split
  · exact h
  rename_i htype
  rw [ne_eq, not_not] at htype
  refine foldl_inv (ClearInUsable memmap p) h ?_
  intro r addr haddr hr
  unfold markPageFree
  split
  · exact hr
  rename_i hnot
  simp only [Bool.or_eq_true, decide_eq_true_eq, not_or, not_le] at hnot
  refine ⟨hr.layout, ?_⟩
  intro i hi
  by_cases hne : i = pageIndex addr
  · rw [hr.layout.1, htotal] at hnot
    obtain ⟨hin, haligned⟩ := inUsable_of_visited he htype haddr hnot.1
    have haddrEq : pageAddr i = addr := by
      rw [hne, pageAddr, pageIndex, pmmPageSize]
      omega
    rwa [haddrEq]
  · exact hr.clear i (by simpa [update_of_ne hne] using hi)

theorem findBitmapStorage_spec (h : findBitmapStorage img storageBytes memmap = .ok bitmapPhys) :
    bitmapPhys % 4096 = 0 ∧ bitmapPhys + alignUp storageBytes 4096 < 2 ^ 64 := by
  unfold findBitmapStorage at h
  cases hfind : memmap.findSome? (bitmapStorageIn img (alignUp storageBytes pmmPageSize)) with
  | none =>
    rw [hfind] at h
    cases h
  | some start =>
  rw [hfind] at h
  cases h
  obtain ⟨e, -, he⟩ := List.exists_of_findSome?_eq_some hfind
  have hlimit : e.limit < 2 ^ 64 := add64_lt _ _
  have hend : alignDown e.limit 4096 < 2 ^ 64 := by
    rw [alignDown_page hlimit]
    exact lt_of_le_of_lt (Nat.div_mul_le_self _ _) hlimit
  unfold bitmapStorageIn at he
  simp only [pmmPageSize, Bool.and_eq_true, decide_eq_true_eq] at he
  have hbase := alignUp_page e.base.toNat
  have hphys := alignUp_page img.physEnd
  split_ifs at he with htype hoverlap hfits hfits
  all_goals
    cases he
    omega

/-- What the allocator's state keeps through a run. -/
structure Owns (img : KernelImage) (memmap : List MemmapEntry) (p : Pmm) : Prop where
  clear : ∀ index < p.totalPages, p.pageBitmap index = false →
    p.managedBitmap index = true → PageOwned img memmap p (pageAddr index)
  reserved : ∀ index < p.totalPages, InReserved img p (pageAddr index) →
    p.managedBitmap index = false

/-- The pages of `InReserved` are the ones `pmm_init` passes to `reserve_range`. -/
theorem reserved_barred (hbitmap : p.bitmapPhys % 4096 = 0 ∧ p.bitmapPhys + alignUp storageBytes 4096 < 2 ^ 64)
    (hbytes : p.bitmapStorageBytes = storageBytes) (hsmall : storageBytes + 4095 < 2 ^ 64)
    (hindex : index < p.totalPages) (h : InReserved img p (pageAddr index)) :
    (reserveRange (reserveRange (reserveRange p 0 pmmPageSize) p.bitmapPhys
      (alignUp storageBytes pmmPageSize)) img.physStart (img.physEnd - img.physStart)).Barred index := by
  have hzero := reserveRange_reserves p 0 pmmPageSize
  generalize hp₁ : reserveRange p 0 pmmPageSize = p₁ at hzero ⊢
  have hstorage := reserveRange_reserves p₁ p.bitmapPhys (alignUp storageBytes pmmPageSize)
  generalize hp₂ : reserveRange p₁ p.bitmapPhys (alignUp storageBytes pmmPageSize) = p₂ at hstorage ⊢
  have hkernel := reserveRange_reserves p₂ img.physStart (img.physEnd - img.physStart)
  have hindex₁ : index < p₁.totalPages := by rwa [hzero.layout.1]
  have hindex₂ : index < p₂.totalPages := by rwa [hstorage.layout.1]
  have hphys := img.start_le
  have hphysLimit := img.le_limit
  rw [alignUp_page] at hbitmap
  simp only [InReserved, pageAddr, pmmPageSize, KernelImage.physStart, hbytes] at h
  rcases h with h | h | h
  · refine hkernel.barred _ (hstorage.barred _ (hp₁ ▸ reserveRange_barred hindex ?_ ?_ ?_))
    all_goals simp [h, alignDown_page, alignUp_page, add64, pmmPageSize]
  · refine hkernel.barred _ (hp₂ ▸ reserveRange_barred hindex₁ ?_ ?_ ?_)
    all_goals simp only [alignDown_page (show p.bitmapPhys < 2 ^ 64 by omega), alignUp_page, add64,
      pmmPageSize]
    all_goals omega
  refine reserveRange_barred hindex₂ ?_ ?_ ?_
  all_goals simp only [KernelImage.physStart, alignDown_page (show 0x100000 < 2 ^ 64 by norm_num),
    alignUp_page, add64]
  all_goals omega

theorem pmmInit_owns (h : pmmInit img (some memmap) hhdmOffset = .ok p) : Owns img memmap p := by
  unfold pmmInit at h
  dsimp only at h
  split at h
  · cases h
  split at h
  · cases h
  rename_i bitmapPhys hfind
  set totalPages := alignUp (findMaxUsablePhysicalAddress memmap) pmmPageSize / pmmPageSize
    with htotal
  set storageBytes := alignUp totalPages 8 / 8 * 2 + totalPages * 2 with hstorage
  set released := releaseUsableRanges (pmmCleared totalPages bitmapPhys storageBytes) memmap
    with hreleased
  have hclear : ClearInUsable memmap (pmmCleared totalPages bitmapPhys storageBytes) released := by
    refine foldl_inv (ClearInUsable memmap _) ⟨⟨rfl, rfl, rfl⟩, ?_⟩ ?_
    · intro index hindex
      cases hindex
    · exact fun q e he hq => releaseUsableEntry_clear htotal he hq
  have hbitmap := findBitmapStorage_spec hfind
  have hsmall : storageBytes + 4095 < 2 ^ 64 := by
    have h8 : alignUp totalPages 8 = (totalPages + 7) % 2 ^ 64 / 8 * 8 :=
      alignUp_two_pow (k := 3) (by norm_num)
    rw [pmmPageSize, alignUp_page] at htotal
    rw [hstorage, h8]
    omega
  cases h
  set pool := pmmReserveTrampolinePages _ memmap smpMaxTrampolinePages with hpool
  have hpoolUsed := pmmReserveTrampolinePages_pool (reserveRange (reserveRange
    (reserveRange released 0 pmmPageSize) bitmapPhys (alignUp storageBytes pmmPageSize))
    img.physStart (img.physEnd - img.physStart)) memmap smpMaxTrampolinePages
  have hkeep : released.Reserves pool :=
    (((reserveRange_reserves _ _ _).trans (reserveRange_reserves _ _ _)).trans
      (reserveRange_reserves _ _ _)).trans hpoolUsed.reserves
  have hbarred : ∀ index < pool.totalPages, InReserved img pool (pageAddr index) →
      pool.Barred index := by
    intro index hindex hres
    rw [hkeep.layout.1] at hindex
    have hphys : released.bitmapPhys = bitmapPhys := hclear.layout.2.1
    refine hpoolUsed.reserves.barred index ?_
    rw [← hphys]
    refine reserved_barred (by rwa [hphys]) hclear.layout.2.2 hsmall hindex ?_
    simpa only [InReserved, hkeep.layout.2.1, hkeep.layout.2.2] using hres
  refine ⟨?_, fun index hindex hres => (hbarred index hindex hres).1⟩
  intro index hindex hfree hmanaged
  refine ⟨hclear.clear index ?_, ?_, ?_⟩
  · by_contra hused
    rw [hkeep.used index (by simpa using hused)] at hfree
    cases hfree
  · intro hres
    rw [(hbarred index hindex hres).2] at hfree
    cases hfree
  intro hmem
  have hused := hpoolUsed.used _ hmem
  rw [pageAddr, pageIndex, Nat.mul_div_cancel _ (by norm_num [pmmPageSize])] at hused
  rw [hused] at hfree
  cases hfree

/-! ### Runs -/

section Runs

variable {img : KernelImage} {memmap : List MemmapEntry} {p q : Pmm}

/-- The fields a call after `pmm_init` keeps. -/
structure Pmm.SameSetup (p q : Pmm) : Prop where
  layout : p.SameLayout q
  managed : q.managedBitmap = p.managedBitmap
  pool : q.trampolinePool = p.trampolinePool

theorem Pmm.SameSetup.refl (p : Pmm) : p.SameSetup p := ⟨⟨rfl, rfl, rfl⟩, rfl, rfl⟩

theorem Pmm.SameSetup.reserved (h : p.SameSetup q) (addr : Nat) : InReserved img q addr ↔ InReserved img p addr := by
  simp only [InReserved, h.layout.2.1, h.layout.2.2]

theorem Pmm.SameSetup.owned (h : p.SameSetup q) (ha : PageOwned img memmap p addr) : PageOwned img memmap q addr :=
  ⟨ha.usable, fun hres => ha.notReserved ((h.reserved addr).mp hres), by rw [h.pool]; exact ha.notTrampoline⟩

section

variable (hp : Owns img memmap p)

include hp

/-- A call keeps the invariant when the bits it clears are those of owned pages. -/
theorem Owns.of_sameSetup (h : p.SameSetup q)
    (hclear : ∀ index < p.totalPages, q.pageBitmap index = false → p.pageBitmap index = false ∨
      PageOwned img memmap p (pageAddr index)) : Owns img memmap q := by
  refine ⟨?_, ?_⟩
  · intro index hindex hfree hmanaged
    rw [h.layout.1] at hindex
    rw [h.managed] at hmanaged
    refine h.owned ?_
    rcases hclear index hindex hfree with hfree | howned
    · exact hp.clear index hindex hfree hmanaged
    · exact howned
  · intro index hindex hres
    rw [h.layout.1] at hindex
    rw [h.managed]
    exact hp.reserved index hindex ((h.reserved _).mp hres)

theorem Owns.of_used (h : p.SameSetup q)
    (hused : ∀ index, p.pageBitmap index = true → q.pageBitmap index = true) : Owns img memmap q := by
  refine hp.of_sameSetup h fun index _ hfree => .inl ?_
  by_contra hne
  rw [hused index (by simpa using hne)] at hfree
  cases hfree

theorem Owns.take (index : Nat) : Owns img memmap (p.take index) := by
  refine hp.of_used ⟨⟨rfl, rfl, rfl⟩, rfl, rfl⟩ fun i hi => ?_
  by_cases h : i = index <;> simp [Pmm.take, h, hi]

theorem Owns.allocBelowIndex (bound : Nat) : Owns img memmap (p.allocBelowIndex bound).1 := by
  rcases p.allocBelowIndex_cases bound with ⟨h, -⟩ | ⟨index, -, -, -, h⟩
  · rw [h]
    exact hp
  · rw [h]
    exact hp.take index

end

theorem Pmm.dropRef_sameSetup (p : Pmm) (index : Nat) : p.SameSetup (p.dropRef index) := by
  unfold Pmm.dropRef
  dsimp only
  split <;> exact ⟨⟨rfl, rfl, rfl⟩, rfl, rfl⟩

theorem Pmm.dropRef_clear (h : (p.dropRef index).pageBitmap i = false) : p.pageBitmap i = false ∨ i = index := by
  by_cases hne : i = index
  · exact .inr hne
  refine .inl ?_
  unfold Pmm.dropRef at h
  dsimp only at h
  split at h
  · simpa [update_of_ne hne] using h
  · exact h

section

variable (hp : Owns img memmap p) {op : PmmOp}

include hp

/-- A page that passes the checks of a free and is not one of the pages the checks miss is owned. -/
theorem Owns.freed_owned (hindex : index < p.totalPages)
    (hmanaged : p.managedBitmap index = true) (hused : p.pageBitmap index = true)
    (hfree : FreeOfOwned memmap p index) : PageOwned img memmap p (pageAddr index) := by
  obtain ⟨husable, hpool⟩ := hfree hindex hmanaged hused
  refine ⟨husable, fun hres => ?_, hpool⟩
  rw [hp.reserved index hindex hres] at hmanaged
  cases hmanaged

theorem Owns.freePage (hfree : FreeOfOwned memmap p (pageIndex page)) (h : pmmFreePage p page = .ok q) :
    Owns img memmap q := by
  obtain ⟨-, hindex, hmanaged, hused, rfl⟩ := pmmFreePage_ok_iff.mp h
  refine hp.of_sameSetup (p.dropRef_sameSetup _) fun i _ hclear => ?_
  rcases Pmm.dropRef_clear hclear with hclear | rfl
  · exact .inl hclear
  · exact .inr (hp.freed_owned hindex hmanaged hused hfree)

theorem Owns.freePagesContiguous (hfree : ∀ i < count, FreeOfOwned memmap p (pageIndex base + i))
    (h : pmmFreePagesContiguous p base count = .ok q) : Owns img memmap q := by
  obtain ⟨hbound, hchecked, rfl⟩ := pmmFreePagesContiguous_ok h
  have howned : ∀ i < count, PageOwned img memmap p (pageAddr (pageIndex base + i)) := fun i hi =>
    hp.freed_owned (by omega) (hchecked i hi).1 (hchecked i hi).2 (hfree i hi)
  have hloop := foldl_inv (fun r => Owns img memmap r ∧ p.SameSetup r)
    (f := fun q i => q.dropRef (pageIndex base + i)) (l := List.range count)
    (s := p) ⟨hp, Pmm.SameSetup.refl p⟩
  refine (hloop ?_).1
  rintro r i hi ⟨hr, hsetup⟩
  have hdrop := r.dropRef_sameSetup (pageIndex base + i)
  refine ⟨hr.of_sameSetup hdrop fun j _ hclear => ?_, ?_⟩
  · rcases Pmm.dropRef_clear hclear with hclear | rfl
    · exact .inl hclear
    · exact .inr (hsetup.owned (howned i (List.mem_range.mp hi)))
  · exact ⟨⟨hdrop.layout.1.trans hsetup.layout.1, hdrop.layout.2.1.trans hsetup.layout.2.1,
      hdrop.layout.2.2.trans hsetup.layout.2.2⟩, hdrop.managed.trans hsetup.managed,
      hdrop.pool.trans hsetup.pool⟩

/-- **One call.** -/
theorem pmmStep_owns (hcond : FreesOwned memmap p op) (h : pmmStep p op = .ok q) : Owns img memmap q := by
  cases op with
  | allocPage =>
    cases h
    exact hp.allocBelowIndex _
  | allocPageBelow maxAddr =>
    cases h
    unfold pmmAllocPageBelow
    split
    · exact hp
    · exact hp.allocBelowIndex _
  | allocPagesContiguous count =>
    cases h
    rcases pmmAllocPagesContiguous_cases p count.toNat with h | ⟨start, -, -, h⟩
    · rw [h]
      exact hp
    rw [h]
    obtain ⟨htotal, hmanaged, hphys, hbytes, hpool⟩ := p.takeRun_fields start count.toNat
    refine hp.of_used ⟨⟨htotal, hphys, hbytes⟩, hmanaged, hpool⟩ fun i hi => ?_
    rw [Pmm.takeRun_pageBitmap, hi, Bool.true_or]
  | freePage page => exact hp.freePage hcond h
  | freePagesContiguous base count => exact hp.freePagesContiguous hcond h
  | refPage page =>
    cases h
    unfold pmmRefPage
    split
    · exact hp.of_used ⟨⟨rfl, rfl, rfl⟩, rfl, rfl⟩ fun _ => id
    · exact hp

theorem Owns.available (hindex : index < p.totalPages)
    (h : p.available index = true) : PageOwned img memmap p (pageAddr index) :=
  hp.clear index hindex (Pmm.available_iff.mp h).2 (Pmm.available_iff.mp h).1

theorem Owns.pagesFrom_allocBelowIndex (hbound : bound ≤ p.totalPages)
    (h : page ∈ pagesFrom (p.allocBelowIndex bound).2 1) :
    PageOwned img memmap p page := by
  rcases p.allocBelowIndex_cases bound with ⟨heq, -⟩ | ⟨index, hindex, havail, -, heq⟩
  · rw [heq] at h
    simp [pagesFrom] at h
  rw [heq] at h
  simp only [pagesFrom, List.range_one, List.map_cons, List.map_nil] at h
  split at h
  · cases h
  · rw [List.mem_singleton] at h
    rw [h, zero_mul, add_zero]
    exact hp.available (by omega) havail

/-- **What one call hands out.** -/
theorem pmmPages_owned (h : page ∈ pmmPages p op) : PageOwned img memmap p page := by
  cases op with
  | allocPage => exact hp.pagesFrom_allocBelowIndex le_rfl h
  | allocPageBelow maxAddr =>
    simp only [pmmPages, pmmAllocPageBelow] at h
    split at h
    · simp [pagesFrom] at h
    · exact hp.pagesFrom_allocBelowIndex (min_le_right _ _) h
  | allocPagesContiguous count =>
    simp only [pmmPages] at h
    rcases pmmAllocPagesContiguous_cases p count.toNat with heq | ⟨start, hbound, hall, heq⟩
    · rw [heq] at h
      simp [pagesFrom] at h
    rw [heq] at h
    unfold pagesFrom at h
    split at h
    · cases h
    obtain ⟨i, hi, rfl⟩ := List.mem_map.mp h
    rw [List.mem_range] at hi
    rw [show pageAddr start + i * pmmPageSize = pageAddr (start + i) by
      simp only [pageAddr, add_mul]]
    exact hp.available (by omega) (hall i hi)
  | freePage page => cases h
  | freePagesContiguous base count => cases h
  | refPage page => cases h

end

end Runs

/-- **Ownership.** As long as every free that passes the allocator's checks is of a page inside a
USABLE entry and outside the trampoline pool, each page handed out in the state reached is owned, and
a free of a page outside the USABLE entries panics. -/
theorem pmm_run_owned (img : KernelImage) (memmap : List MemmapEntry) (hhdmOffset : UInt64)
    (p t : Pmm) (ops : List PmmOp) (hinit : pmmInit img (some memmap) hhdmOffset = .ok p)
    (hcond : AllSteps pmmStep (FreesOwned memmap) p ops) (hrun : run pmmStep p ops = .ok t) :
    (∀ op, ∀ page ∈ pmmPages t op, PageOwned img memmap t page) ∧
    ∀ page : UInt64, FreesOwned memmap t (.freePage page) →
      ¬InUsable memmap (pageAddr (pageIndex page.toNat)) → ∃ e, pmmFreePage t page.toNat = .error e := by
  have howns : Owns img memmap t :=
    run_inv (fun _ _ _ h => pmmStep_owns h) (pmmInit_owns hinit) hcond hrun
  refine ⟨fun op page hpage => pmmPages_owned howns hpage, fun page hfree hnot => ?_⟩
  cases h : pmmFreePage t page.toNat with
  | error e => exact ⟨e, rfl⟩
  | ok q =>
    obtain ⟨-, hindex, hmanaged, hused, -⟩ := pmmFreePage_ok_iff.mp h
    exact absurd (hfree hindex hmanaged hused).1 hnot

/-- A machine with 64 KiB of memory at `0x10000` and nothing below. -/
def holeMemmap : List MemmapEntry := [⟨0x10000, 0x10000, limineMemmapUsable⟩]

def holeImage : KernelImage := ⟨0x100000, by decide, by decide, by decide⟩

/-- A hole page passes every check of `pmm_free_page`, and the next allocation returns it. -/
theorem pmm_hands_out_hole :
    ¬∀ (img : KernelImage) (memmap : List MemmapEntry) (hhdmOffset : UInt64) (p t : Pmm)
      (ops : List PmmOp), pmmInit img (some memmap) hhdmOffset = .ok p → run pmmStep p ops = .ok t →
      ∀ op, ∀ page ∈ pmmPages t op, PageOwned img memmap t page := by
  intro hall
  have heval : (do
      let p ← pmmInit holeImage (some holeMemmap) 1
      let t ← run pmmStep p [.freePage 0x5000]
      return pmmPages t .allocPage : Except Panic _) = .ok [0x5000] := by decide +kernel
  obtain ⟨p, hinit, heval⟩ := bind_eq_ok heval
  obtain ⟨t, hrun, heval⟩ := bind_eq_ok heval
  have hpages : pmmPages t .allocPage = [0x5000] := Except.ok.inj heval
  obtain ⟨e, he, -, hin⟩ := (hall holeImage holeMemmap 1 p t _ hinit hrun .allocPage 0x5000
    (by rw [hpages]; simp)).usable
  rw [holeMemmap, List.mem_singleton] at he
  subst he
  revert hin
  decide

/-- The same machine, where the page freed is one that was allocated before. -/
theorem pmm_run_owned_alloc_free : ∃ p t,
    pmmInit holeImage (some holeMemmap) 1 = .ok p ∧
    AllSteps pmmStep (FreesOwned holeMemmap) p [.allocPage, .freePage 0x15000] ∧
    run pmmStep p [.allocPage, .freePage 0x15000] = .ok t ∧
    pmmPages t .allocPage = [0x15000] ∧
    ∀ op, ∀ page ∈ pmmPages t op, PageOwned holeImage holeMemmap t page := by
  have heval : (do
      let p ← pmmInit holeImage (some holeMemmap) 1
      let t ← run pmmStep p [.allocPage, .freePage 0x15000]
      return ((pmmAllocPage p).1.trampolinePool, pmmPages t .allocPage) :
        Except Panic _) =
      .ok ([0x11000, 0x12000, 0x13000, 0x14000], [0x15000]) := by decide +kernel
  obtain ⟨p, hinit, heval⟩ := bind_eq_ok heval
  obtain ⟨t, hrun, heval⟩ := bind_eq_ok heval
  obtain ⟨hpool, hpages⟩ := Prod.mk.inj (Except.ok.inj heval)
  have hcond : AllSteps pmmStep (FreesOwned holeMemmap) p [.allocPage, .freePage 0x15000] := by
    refine ⟨trivial, fun q hq => ⟨fun _ _ _ => ?_, fun _ _ => trivial⟩⟩
    cases hq
    refine ⟨⟨_, List.mem_singleton.mpr rfl, rfl, by decide⟩, ?_⟩
    rw [hpool]
    decide
  exact ⟨p, t, hinit, hcond, hrun, hpages, (pmm_run_owned _ _ _ p t _ hinit hcond hrun).1⟩
end Litenix
