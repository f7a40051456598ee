import Litenix.FrameCounts
import Litenix.PageBytes

/-! Demand paging is implemented twice: `exception_dispatch` populates a page of an area when the process
touches it, `vmm_validate_user_ptr_ex` when the kernel does on its behalf. Both install a fresh page, but the
second one never reads the file of the area and never marks the page for copying. -/

namespace Litenix

open Lib Radix

variable {space : AddressSpace} {f r v : Nat}

/-! ### The page of a file -/

/-- A file whose node has a `read` callback; `fails` are the offsets at which a read is an error. -/
structure FileData where
  size : Nat
  byte : Nat → UInt8
  fails : Nat → Bool

def FileData.read (data : FileData) (offset count : Nat) : Option (List UInt8) :=
  if data.fails offset then none
  else some ((List.range (min count (data.size - offset))).map fun i => data.byte (offset + i))

/-- The page that `exception_dispatch` reads from a file; `none` is a read error. A file without the callback
gives zeros. -/
def filePage (data : Option FileData) (fileOffset : Nat) : Option Bytes :=
  match data with
  | none => some Bytes.zero
  | some data =>
    if data.size ≤ fileOffset then some Bytes.zero
    else
      (data.read fileOffset (min vmmPageSize (data.size - fileOffset))).map fun bytes => Bytes.put Bytes.zero 0 bytes

/-- The offset in the file of a page of an area. -/
def Vma.pageOffset (vma : Vma) (page : Nat) : Nat := add64 vma.fileOffset (sub64 page vma.start)

variable (files : FileId → Option FileData)

/-- A page fault of the process, with the files read. -/
def userTouch (p : Phys) (proc : Process) (cr2 : Nat) (code : FaultCode) : Except Panic Phys :=
  pageFault p proc cr2 code ((vmaFind proc.vmas cr2).bind fun i =>
    (filePage ((proc.vmas i).file.bind files) ((proc.vmas i).pageOffset (pageAlignDown cr2))).map pageWords)

/-- An access of the kernel to one page of the current process. -/
def kernelTouch (p : Phys) (proc : Process) (requireWrite : Bool) (page : Nat) : Except Panic (Phys × Bool) :=
  validatePage p proc.addressSpace (some proc.vmas) requireWrite page

/-! ### What a populated page is -/

/-- A byte of a file, with zeros past its end. -/
def fileByte (data : Option FileData) (offset : Nat) : UInt8 :=
  match data with
  | none => 0
  | some data => if offset < data.size then data.byte offset else 0

/-- What an area says about the bytes of one of its pages. -/
def Vma.backingByte (vma : Vma) (page i : Nat) : UInt8 :=
  if vma.isAnonymous then 0 else fileByte (vma.file.bind files) (vma.pageOffset page + i)

def pageByte (p : Phys) (r v i : Nat) : Option UInt8 :=
  (pte p.mem r v).map fun e => pageBytes (p.mem (entryIndex e)) i

/-- What an entry lets the process do. A write to a page marked for copying succeeds after a fault. -/
structure Access where
  user : Bool
  write : Bool
  execute : Bool
  deriving DecidableEq

def entryAccess (entry : Nat) : Access where
  user := hasFlag entry vmmUser
  write := hasFlag entry vmmWritable || hasFlag entry vmmCow
  execute := !hasFlag entry vmmNoExecute

/-- Two states agree on a page of an area, and the page is what the area says. -/
structure SameTouch (vma : Vma) (page r v : Nat) (p₁ p₂ : Phys) : Prop where
  contents : ∀ i < vmmPageSize, pageByte p₁ r v i = pageByte p₂ r v i
  backing : ∀ i < vmmPageSize, pageByte p₁ r v i = some (vma.backingByte files page i)
  access : (pte p₁.mem r v).map entryAccess = (pte p₂.mem r v).map entryAccess

theorem filePage_eq_some (h : filePage data off = some bytes) {i : Nat} (hi : i < vmmPageSize) :
    bytes i = fileByte data (off + i) := by
  cases data with
  | none =>
    cases h
    rfl
  | some data =>
  simp only [filePage] at h
  split at h
  · cases h
    rw [fileByte, if_neg (by omega)]
    rfl
  obtain ⟨list, hread, rfl⟩ := Option.map_eq_some_iff.mp h
  simp only [FileData.read] at hread
  split at hread
  · cases hread
  cases hread
  have hlength : ((List.range (min (min vmmPageSize (data.size - off)) (data.size - off))).map
      fun i => data.byte (off + i)).length = min vmmPageSize (data.size - off) := by simp
  by_cases hin : off + i < data.size
  · have hput := Bytes.put_add Bytes.zero 0 (k := i) (by rw [hlength]; omega)
    rw [Nat.zero_add] at hput
    rw [hput, fileByte]
    simp [hin, show i < data.size - off by omega, hi]
  · rw [Bytes.put_of_ge _ _ (by rw [hlength]; omega), fileByte]
    simp [hin, Bytes.zero]

/-! ### What the two paths install -/

/-- The page has an entry that grants `access`, and the frame holds `page`. -/
def Shows (p : Phys) (r v : Nat) (access : Access) (page : Nat → Nat) : Prop :=
  ∃ e, pte p.mem r v = some e ∧ entryAccess e = access ∧ p.mem (entryIndex e) = page

theorem entryAccess_eq (e : Nat) : entryAccess e = ⟨e.testBit 2, e.testBit 1 || e.testBit 9, !e.testBit 63⟩ := by
  rw [entryAccess, hasFlag_writable, hasFlag_cow, show vmmUser = 2 ^ 2 from rfl, hasFlag_two_pow,
    show vmmNoExecute = 2 ^ 63 from rfl, hasFlag_two_pow]

theorem entryAccess_makeEntry (phys flags : Nat) : entryAccess (makeEntry phys flags) = entryAccess flags := by
  simp only [entryAccess_eq, testBit_makeEntry_noExecute, testBit_makeEntry_flag phys flags (show 1 < 12 by norm_num),
    testBit_makeEntry_flag phys flags (show 2 < 12 by norm_num),
    testBit_makeEntry_flag phys flags (show 9 < 12 by norm_num)]

section

variable {boot : Nat → Prop} {live : Finset Nat} {extra : Nat → Int} {pos : Nat → Option (Nat × List Nat)}
  {p p' : Phys} {page : Nat → Nat} {vmas : Option VmaTable} {flags : Nat} {vma : Vma}

theorem Shows.pageByte (h : Shows p r v access page) (i : Nat) : pageByte p r v i = some (pageBytes page i) := by
  obtain ⟨e, he, -, rfl⟩ := h
  rw [Litenix.pageByte, he]
  rfl

theorem Shows.access {access : Access} (h : Shows p r v access page) :
    (pte p.mem r v).map entryAccess = some access := by
  obtain ⟨e, he, rfl, -⟩ := h
  rw [he]
  rfl

theorem Wf.Installs.shows (h : Wf.Installs boot live extra p p' r v f flags page) :
    Shows p' r v (entryAccess flags) page :=
  ⟨_, h.view.1, entryAccess_makeEntry .., by rw [entryIndex_makeEntry h.bound, h.content]⟩

theorem Wf.Installs.count (hr : r ∈ live) (hv : v < userPages)
    (h : Wf.Installs boot live extra p p' r v f flags page) (hpresent : flags.testBit 0 = true) :
    p'.pmm.pageRefCounts f = 1 := by
  obtain ⟨pos', hwf⟩ := h.wf
  have hentry := entryPage_makeEntry h.bound hpresent
  have hframe : userFrame p'.mem (r, v) = some f := by
    rw [userFrame_of_pte, h.view.1, Option.bind_some, hentry]
  have hrefs := h.view.userRefs hr hv f
  rw [h.before, Option.bind_some, hentry, if_pos rfl, Option.bind_none, if_neg (by simp), h.unmapped] at hrefs
  obtain ⟨hnoTable, hpos⟩ := hwf.mapped hr hv hframe
  have hcount := (hwf.counted f hnoTable (.inl hpos)).2.2
  rw [h.noExtra] at hcount
  omega

theorem lazyPage_absent {page : Nat}
    (habsent : pte p.mem space.root (vpn page) = none) (hcover : coveringVma vmas page = some vma)
    (requireWrite : Bool) :
    lazyPage p space vmas requireWrite page = .ok (p, false) ∨
      lazyPage p space vmas requireWrite page = mapFreshPage p space page vma.flags fun _ => 0 := by
  have hno : ¬hasFlag (pteWord p.mem space.root page) vmmPresent = true := by
    rw [pteWord_present_iff, habsent]
    simp
  unfold lazyPage
  rw [if_neg hno, hcover]
  dsimp only
  split
  · exact .inl rfl
  · split
    · exact .inl rfl
    · exact .inr rfl

section

variable (h : Wf boot live extra pos p) {i : Fin vmaMax} {proc : Process}

include h

theorem Wf.vmmHandleCow_single (hr : space.root ∈ live)
    {virt e : Nat} (hv : vpn virt < userPages) (he : pte p.mem space.root (vpn virt) = some e)
    (hcow : e.testBit 9 = true) (hone : p.pmm.pageRefCounts (entryIndex e) = 1) :
    ∃ p' w, Litenix.vmmHandleCow p space virt = .ok (p', .handled) ∧ Resolved e (entryIndex e) w ∧
      ViewSet live p.mem p'.mem space.root (vpn virt) (some w) ∧ SameData live extra p.mem p'.mem := by
  unfold Litenix.vmmHandleCow
  rw [presentPte_congr _ _ (vpn_alignDown virt)]
  cases hpte : Litenix.presentPte p.mem space.root virt with
  | none => cases (presentPte_eq_none hpte).symm.trans he
  | some x =>
  obtain ⟨pt, i, e'⟩ := x
  obtain ⟨hpt, rfl, -, hentry, hview, hframe⟩ := h.presentPte hr hv hpte
  obtain rfl : e' = e := Option.some.inj (hview.symm.trans he)
  obtain ⟨hnoTable, hcounted⟩ := h.mapped hr hv hframe
  have hu := (h.counted _ hnoTable (.inl hcounted)).1
  have hget : pmmGetPageRef p.pmm (entryPhys e') = 1 := by
    rw [pmmGetPageRef, ← entryIndex, if_pos (by simp [hu.1, hu.2.1]), hone]
  have hres := resolved_same (entryPage_eq_some_iff.mp hentry).1
  dsimp only
  rw [hasFlag_cow, hcow, hget]
  exact ⟨_, _, rfl, hres, (h.rewritePte hr hv hpte hres.page).2.1, h.sameData_setWord hpt _ _⟩

/-- The flags of the area are what the page has already, so a second attempt to make it writable changes
nothing that the process can see. -/
theorem Wf.shows_writablePage (hr : space.root ∈ live) {page : Nat} (hv : vpn page < userPages)
    (he : pte p.mem space.root (vpn page) = some (makeEntry (pageAddr f) vma.flags)) (hbound : f < 2 ^ 40)
    (hone : p.pmm.pageRefCounts f = 1) (hcover : coveringVma vmas page = some vma) {ok : Bool}
    (hcall : writablePage p space vmas page = .ok (p', ok)) :
    Shows p' space.root (vpn page) (entryAccess vma.flags) (p.mem f) := by
  have hindex : entryIndex (makeEntry (pageAddr f) vma.flags) = f := entryIndex_makeEntry hbound _
  have hrefd : Referenced live extra p.mem f := by
    have := userRefs_pos hr hv he
    rw [hindex] at this
    exact .inl this
  have hstay : Shows p space.root (vpn page) (entryAccess vma.flags) (p.mem f) :=
    ⟨_, he, entryAccess_makeEntry .., by rw [hindex]⟩
  unfold writablePage at hcall
  rw [pteWord_of_pte he, hasFlag_cow] at hcall
  by_cases hcow : (makeEntry (pageAddr f) vma.flags).testBit 9 = true
  · obtain ⟨p₁, w, hhandle, hres, hview, hdata⟩ := h.vmmHandleCow_single hr hv he hcow (by rw [hindex, hone])
    have hwritable : hasFlag (pteWord p₁.mem space.root page) vmmWritable = true := by
      rw [pteWord_of_pte hview.1, hasFlag_writable, hres.writable]
    rw [if_pos hcow, hhandle] at hcall
    simp only [Except.map, hwritable, if_true] at hcall
    cases hcall
    refine ⟨w, hview.1, ?_, ?_⟩
    · rw [← entryAccess_makeEntry (pageAddr f) vma.flags, entryAccess_eq, entryAccess_eq, hres.writable, hres.user,
        hres.noExecute, hcow]
      simp
    · rw [(entryPage_eq_some_iff.mp hres.page).2, hindex, hdata f hrefd]
  rw [if_neg hcow, hcover] at hcall
  dsimp only at hcall
  cases hcall
  split
  · exact hstay
  split
  · obtain ⟨-, -, heq | ⟨e, hpte, -, hview⟩⟩ := h.vmmProtect vma.flags hr hv
    · rw [heq]
      exact hstay
    · obtain rfl : makeEntry (pageAddr f) vma.flags = e := Option.some.inj (he.symm.trans hpte)
      refine ⟨_, hview.1, entryAccess_makeEntry .., ?_⟩
      rw [entryPhys_eq_pageAddr, hindex, hindex, h.sameData_vmmProtect hr hv vma.flags f hrefd]
  · exact hstay

/-- **The kernel.** A page that an access of the kernel populates is a zero page with the flags of the area. -/
theorem Wf.shows_kernelTouch (hr : proc.addressSpace.root ∈ live)
    {page : Nat} (hv : vpn page < userPages) (habsent : pte p.mem proc.addressSpace.root (vpn page) = none)
    (hi : vmaFind proc.vmas page = some i) {requireWrite ok : Bool}
    (hcall : kernelTouch p proc requireWrite page = .ok (p', ok))
    (hpresent : pte p'.mem proc.addressSpace.root (vpn page) ≠ none) :
    Shows p' proc.addressSpace.root (vpn page) (entryAccess (proc.vmas i).flags) fun _ => 0 := by
  have hcover : coveringVma (some proc.vmas) page = some (proc.vmas i) := by
    rw [coveringVma, Option.bind_some, hi]
    rfl
  unfold kernelTouch validatePage at hcall
  rcases lazyPage_absent habsent hcover requireWrite with hlazy | hlazy
  · rw [hlazy] at hcall
    cases hcall
    exact absurd habsent hpresent
  obtain ⟨p₁, mapped, hmap, ⟨rfl, hdeclines⟩ | ⟨rfl, f, hinstalls⟩⟩ :=
    h.mapFreshPage hr hv (proc.vmas i).flags fun _ => 0
  · rw [hlazy, hmap] at hcall
    cases hcall
    exact absurd ((hdeclines.view _ hr _ hv).trans habsent) hpresent
  rw [hlazy, hmap] at hcall
  dsimp only at hcall
  split at hcall
  · cases hcall
    exact hinstalls.shows
  split at hcall
  · cases hcall
    exact hinstalls.shows
  split at hcall
  · obtain ⟨pos₁, hwf₁⟩ := hinstalls.wf
    have hbit : (proc.vmas i).flags.testBit 0 = true := by
      have := (pte_eq_some hinstalls.view.1).1
      rwa [testBit_makeEntry_flag _ _ (by norm_num)] at this
    have hshow := hwf₁.shows_writablePage hr hv hinstalls.view.1 hinstalls.bound
      (hinstalls.count hr hv hbit) hcover hcall
    rwa [hinstalls.content] at hshow
  · cases hcall
    exact hinstalls.shows

/-- **The process.** A page that a fault populates holds the page of the file, or zeros, with the flags of a
fault. -/
theorem Wf.shows_userTouch (files : FileId → Option FileData)
    (hr : proc.addressSpace.root ∈ live) {cr2 : Nat} (hv : vpn cr2 < userPages)
    (habsent : pte p.mem proc.addressSpace.root (vpn cr2) = none)
    (hi : vmaFind proc.vmas cr2 = some i) {code : FaultCode} (hcode : code.present = false)
    (hcall : userTouch files p proc cr2 code = .ok p')
    (hpresent : pte p'.mem proc.addressSpace.root (vpn cr2) ≠ none) :
    ∃ page, Shows p' proc.addressSpace.root (vpn cr2) (entryAccess (faultFlags (proc.vmas i))) page ∧
      ∀ j < vmmPageSize, pageBytes page j = (proc.vmas i).backingByte files (pageAlignDown cr2) j := by
  have halign : vpn (pageAlignDown cr2) = vpn cr2 := vpn_alignDown cr2
  unfold userTouch pageFault at hcall
  rw [hi] at hcall
  simp only [hcode, Bool.not_false, if_true, Option.bind_some] at hcall
  split at hcall
  · cases hcall
    exact absurd habsent hpresent
  split at hcall
  · rename_i page hpage
    obtain ⟨p₁, mapped, hmap, ⟨rfl, hdeclines⟩ | ⟨rfl, f, hinstalls⟩⟩ :=
      h.mapFreshPage hr (show vpn (pageAlignDown cr2) < userPages by rwa [halign]) (faultFlags (proc.vmas i)) page
    · rw [hmap] at hcall
      cases hcall
      exact absurd ((hdeclines.view _ hr _ hv).trans habsent) hpresent
    rw [hmap] at hcall
    cases hcall
    rw [halign] at hinstalls
    refine ⟨page, hinstalls.shows, fun j hj => ?_⟩
    rw [Vma.backingByte]
    split at hpage
    · rename_i hanon
      cases hpage
      rw [if_pos hanon, pageBytes_zero]
    · rename_i hfile
      obtain ⟨bytes, hbytes, rfl⟩ := Option.map_eq_some_iff.mp hpage
      rw [if_neg hfile, pageBytes_pageWords, filePage_eq_some hbytes hj]
  -- the file could not be read: the page is given back
  rcases h.allocPage with ⟨halloc, -⟩ | ⟨f, p₁, halloc, hf⟩
  · rw [halloc] at hcall
    cases hcall
    exact absurd habsent hpresent
  obtain ⟨p₂, hfree, hmem, -⟩ := hf.wf.freePage (f := f) (by simp)
  rw [halloc] at hcall
  simp only [hf.addr, if_false, hfree] at hcall
  cases hcall
  rw [hmem, hf.view _ hr _ hv] at hpresent
  exact absurd habsent hpresent

end

end

/-! ### The two paths compared -/

/-- The area has no file, or all bytes of the page in the file are zero and the flags of the area let the
process write where a fault would have marked the page for copying. -/
def Vma.TouchAgrees (vma : Vma) (page : Nat) : Prop :=
  vma.isAnonymous = true ∨
    (∀ i < vmmPageSize, vma.backingByte files page i = 0) ∧
      (vma.isPrivate = true → hasFlag vma.protFlags protWrite = true →
        hasFlag vma.flags vmmWritable = true ∨ hasFlag vma.flags vmmCow = true)

theorem entryAccess_faultFlags (vma : Vma) : entryAccess (faultFlags vma) = entryAccess vma.flags ↔
    (vma.isAnonymous = false → vma.isPrivate = true → hasFlag vma.protFlags protWrite = true →
      hasFlag vma.flags vmmWritable = true ∨ hasFlag vma.flags vmmCow = true) := by
  have hbit : ∀ j < 64, ((vma.flags &&& not64 vmmWritable) ||| vmmCow).testBit j =
      (vma.flags.testBit j && decide (j ≠ 1) || decide (j = 9)) := by
    intro j hj
    have hwritable : (not64 vmmWritable).testBit j = decide (j ≠ 1) := by
      revert j
      decide
    have hcow : vmmCow.testBit j = decide (j = 9) := by
      revert j
      decide
    rw [Nat.testBit_or, Nat.testBit_and, hwritable, hcow]
  rw [faultFlags]
  split
  · rename_i hmark
    simp only [Bool.and_eq_true, Bool.not_eq_true'] at hmark
    rw [entryAccess_eq, entryAccess_eq, hbit 1 (by norm_num), hbit 2 (by norm_num), hbit 9 (by norm_num),
      hbit 63 (by norm_num), hasFlag_writable, hasFlag_cow]
    simp [hmark.1.1, hmark.1.2, hmark.2]
  · rename_i hmark
    simp only [Bool.and_eq_true, Bool.not_eq_true', not_and] at hmark
    exact iff_of_true rfl fun hfile hprivate hprot => absurd hprot (hmark ⟨hfile, hprivate⟩)

/-- A page of the area `i` that is not present is populated in two ways: by a fault at `cr2`, which leads to
`p₁`, and by an access of the kernel, which leads to `p₂`. -/
structure BothTouch (k : Kernel) (files : FileId → Option FileData) (proc : Process) (cr2 : Nat) (i : Fin vmaMax)
    (p₁ p₂ : Phys) : Prop where
  user : cr2 ≤ vmmUserTop
  area : vmaFind proc.vmas cr2 = some i
  pageArea : vmaFind proc.vmas (pageAlignDown cr2) = some i
  absent : pte k.phys.mem proc.addressSpace.root (vpn cr2) = none
  fault : ∃ code : FaultCode, code.present = false ∧ userTouch files k.phys proc cr2 code = .ok p₁
  kernel : ∃ requireWrite ok, kernelTouch k.phys proc requireWrite (pageAlignDown cr2) = .ok (p₂, ok)
  present₁ : pte p₁.mem proc.addressSpace.root (vpn cr2) ≠ none
  present₂ : pte p₂.mem proc.addressSpace.root (vpn cr2) ≠ none

/-- **First touch.** In every state with well-formed spaces, for every page that is not present and every area
that covers it: what a fault of the process installs and what an access of the kernel installs agree with each
other and with the file exactly if the area meets the condition. -/
theorem first_touch_iff {boot : Nat → Prop} (k : Kernel) (files : FileId → Option FileData) (pid : Nat)
    (proc : Process) (cr2 : Nat) (i : Fin vmaMax) (p₁ p₂ : Phys) (h : MemInv False boot k)
    (hproc : k.procs pid = some proc) (htouch : BothTouch k files proc cr2 i p₁ p₂) :
    SameTouch files (proc.vmas i) (pageAlignDown cr2) proc.addressSpace.root (vpn cr2) p₁ p₂ ↔
      (proc.vmas i).TouchAgrees files (pageAlignDown cr2) := by
  obtain ⟨huser, hi, hpage, habsent, ⟨code, hcode, hfault⟩, ⟨requireWrite, ok, hkernel⟩, hpresent₁, hpresent₂⟩ :=
    htouch
  obtain ⟨pos, hwf⟩ := h.wf
  have hr := (h.root_mem hproc).2
  have hv : vpn cr2 < userPages := vpn_user huser
  have halign : vpn (pageAlignDown cr2) = vpn cr2 := vpn_alignDown cr2
  obtain ⟨page, hshows₁, hbytes⟩ := hwf.shows_userTouch files hr hv habsent hi hcode hfault hpresent₁
  have hshows₂ := hwf.shows_kernelTouch hr (by rwa [halign]) (by rwa [halign]) hpage hkernel (by rwa [halign])
  rw [halign] at hshows₂
  have hread₁ : ∀ j < vmmPageSize, pageByte p₁ proc.addressSpace.root (vpn cr2) j =
      some ((proc.vmas i).backingByte files (pageAlignDown cr2) j) := fun j hj => by
    rw [hshows₁.pageByte, hbytes j hj]
  have hread₂ : ∀ j, pageByte p₂ proc.addressSpace.root (vpn cr2) j = some 0 := fun j => by
    rw [hshows₂.pageByte, pageBytes_zero]
  have haccess := entryAccess_faultFlags (proc.vmas i)
  constructor
  · intro hsame
    have hrights := hsame.access
    rw [hshows₁.access, hshows₂.access, Option.some.injEq, haccess] at hrights
    cases hanon : (proc.vmas i).isAnonymous with
    | true => exact .inl hanon
    | false =>
      refine .inr ⟨fun j hj => ?_, hrights hanon⟩
      have := hsame.contents j hj
      rw [hread₁ j hj, hread₂] at this
      exact Option.some.inj this
  intro hagrees
  have hzero : ∀ j < vmmPageSize, (proc.vmas i).backingByte files (pageAlignDown cr2) j = 0 := by
    intro j hj
    rcases hagrees with hanon | ⟨hzero, -⟩
    · rw [Vma.backingByte, if_pos hanon]
    · exact hzero j hj
  refine ⟨fun j hj => ?_, hread₁, ?_⟩
  · rw [hread₁ j hj, hread₂, hzero j hj]
  rw [hshows₁.access, hshows₂.access, Option.some.injEq, haccess]
  intro hfile
  rcases hagrees with hanon | ⟨-, hflags⟩
  · cases hanon.symm.trans hfile
  · exact hflags

/-- All files hold one byte. -/
def oneByteFiles : FileId → Option FileData := fun _ => some ⟨1, fun _ => 65, fun _ => false⟩

def firstSlotOf : Fin vmaMax := ⟨0, vmaMax_pos⟩

/-- The tests of `BothTouch` for a page of the first area. -/
def touchCheck (k : Kernel) (proc : Process) (cr2 : Nat) (p₁ p₂ : Phys) : Bool :=
  let v := vpn cr2
  decide (cr2 ≤ vmmUserTop) && decide (vmaFind proc.vmas cr2 = some firstSlotOf) &&
    decide (vmaFind proc.vmas (pageAlignDown cr2) = some firstSlotOf) &&
    decide (pte k.phys.mem proc.addressSpace.root v = none) &&
    decide (pte p₁.mem proc.addressSpace.root v ≠ none) && decide (pte p₂.mem proc.addressSpace.root v ≠ none)

/-- A page of the first area of process 1, populated in both ways after a run; the result is what the two states
show at byte 0 of the page. -/
def touchBoth (ops : List KernelOp) (cr2 : Nat) : Except Panic (Bool × Bool × Option UInt8 × Option UInt8) := do
  let k ← run kernelStep smallKernel ops
  let proc ← ((k.procs 1).elim (.error .endlessSearch) .ok : Except Panic Process)
  let p₁ ← userTouch oneByteFiles k.phys proc cr2 ⟨false, false, false⟩
  let (p₂, _) ← kernelTouch k.phys proc false (pageAlignDown cr2)
  return (touchCheck k proc cr2 p₁ p₂, (proc.vmas firstSlotOf).isAnonymous,
    pageByte p₁ proc.addressSpace.root (vpn cr2) 0, pageByte p₂ proc.addressSpace.root (vpn cr2) 0)

theorem touchBoth_ok (ops : List KernelOp) (cr2 : Nat) {anonymous : Bool} {byte₁ byte₂ : Option UInt8}
    (hsteps : checkSteps kernelStep memCheck smallKernel ops = true)
    (h : touchBoth ops cr2 = .ok (true, anonymous, byte₁, byte₂)) :
    ∃ k proc p₁ p₂, MemInv False smallKernel.phys.pmm.InUse k ∧ k.procs 1 = some proc ∧
      BothTouch k oneByteFiles proc cr2 firstSlotOf p₁ p₂ ∧ (proc.vmas firstSlotOf).isAnonymous = anonymous ∧
      pageByte p₁ proc.addressSpace.root (vpn cr2) 0 = byte₁ ∧
      pageByte p₂ proc.addressSpace.root (vpn cr2) 0 = byte₂ := by
  obtain ⟨k, hrun, h⟩ := bind_eq_ok h
  obtain ⟨proc, hproc, h⟩ := bind_eq_ok h
  obtain ⟨p₁, hfault, h⟩ := bind_eq_ok h
  obtain ⟨⟨p₂, ok⟩, hkernel, h⟩ := bind_eq_ok h
  obtain ⟨hcheck, hanonymous, hbyte₁, hbyte₂⟩ : touchCheck k proc cr2 p₁ p₂ = true ∧ _ ∧ _ ∧ _ := by
    simpa only [Prod.mk.injEq] using Except.ok.inj h
  simp only [touchCheck, Bool.and_eq_true, decide_eq_true_eq] at hcheck
  obtain ⟨⟨⟨⟨⟨huser, harea⟩, hpage⟩, habsent⟩, hpresent₁⟩, hpresent₂⟩ := hcheck
  obtain ⟨hinv, hsome⟩ := smallKernel_process hsteps hrun hproc
  exact ⟨k, proc, p₁, p₂, hinv, hsome,
    ⟨huser, harea, hpage, habsent, ⟨_, rfl, hfault⟩, ⟨false, ok, hkernel⟩, hpresent₁, hpresent₂⟩, hanonymous, hbyte₁,
    hbyte₂⟩

def anonymousOps : List KernelOp := [.spawn 0x400000, .call 1 (.mmap 0x7f0000000000 0x1000 3 0x22 (-1) 0)]

theorem first_touch_anonymous :
    ∃ k proc p₁ p₂, MemInv False smallKernel.phys.pmm.InUse k ∧ k.procs 1 = some proc ∧
      BothTouch k oneByteFiles proc 0x7f0000000123 firstSlotOf p₁ p₂ ∧
      SameTouch oneByteFiles (proc.vmas firstSlotOf) (pageAlignDown 0x7f0000000123) proc.addressSpace.root
        (vpn 0x7f0000000123) p₁ p₂ := by
  obtain ⟨k, proc, p₁, p₂, hinv, hproc, htouch, hanonymous, -⟩ :=
    touchBoth_ok anonymousOps 0x7f0000000123 (by decide +kernel)
      (show _ = Except.ok (true, true, some 0, some 0) by decide +kernel)
  exact ⟨k, proc, p₁, p₂, hinv, hproc, htouch,
    (first_touch_iff k _ 1 proc _ _ p₁ p₂ hinv hproc htouch).mpr (.inl hanonymous)⟩

/-- A readable private mapping of a file of one byte. -/
def fileOps : List KernelOp :=
  [.spawn 0x400000, .call 1 (.openNode 3 0), .call 1 (.mmap 0x7f0000000000 0x1000 1 2 0 0)]

/-- A fault installs the byte of the file, an access of the kernel installs a zero page. -/
theorem kernel_touch_skips_file :
    ¬∀ (boot : Nat → Prop) (k : Kernel) (files : FileId → Option FileData) (pid : Nat) (proc : Process) (cr2 : Nat)
      (i : Fin vmaMax) (p₁ p₂ : Phys), MemInv False boot k → k.procs pid = some proc →
      BothTouch k files proc cr2 i p₁ p₂ →
      SameTouch files (proc.vmas i) (pageAlignDown cr2) proc.addressSpace.root (vpn cr2) p₁ p₂ := by
  intro hall
  obtain ⟨k, proc, p₁, p₂, hinv, hproc, htouch, -, hbyte₁, hbyte₂⟩ :=
    touchBoth_ok fileOps 0x7f0000000000 (by decide +kernel)
      (show _ = Except.ok (true, false, some 65, some 0) by decide +kernel)
  have hsame := (hall _ k _ 1 proc _ _ p₁ p₂ hinv hproc htouch).contents 0 (by decide)
  rw [hbyte₁, hbyte₂] at hsame
  exact absurd hsame (by decide)

end Litenix
