import Litenix.FrameCounts
import Litenix.VmaLayout

/-! The layout of the areas over runs of the memory calls of one process. -/

namespace Litenix

open Lib Function

variable {reply : Reply} {start len addr length : Nat} {nodeType : FileId → Option VfsType} {proc : Process}
  {i : Fin vmaMax}

/-- The address lies in the heap. -/
def Process.inHeap (proc : Process) (x : Nat) : Prop := proc.heapStart ≤ x ∧ x < pageAlignUp proc.heapEnd

/-- The areas are made of pages of user space, and meet neither each other nor the heap. -/
def VmaLayout (proc : Process) : Prop := Layout proc.inHeap proc.vmas

/-- The range does not meet the heap. -/
def Process.Clear (proc : Process) (start stop : Nat) : Prop :=
  stop ≤ proc.heapStart ∨ pageAlignUp proc.heapEnd ≤ start ∨ pageAlignUp proc.heapEnd ≤ proc.heapStart

theorem Process.Clear.not_inHeap (h : proc.Clear start stop) (hlo : start ≤ x) (hhi : x < stop) : ¬proc.inHeap x := by
  rintro ⟨hx1, hx2⟩
  unfold Clear at h
  omega

/-- The invariant of the calls: the layout, and what is known of `mmap_hint`. -/
structure VmaOk (m : Mm) : Prop where
  layout : VmaLayout m.proc
  hint : HintOk m.mmapHint

theorem uncovered_of_vmaOverlaps (h : vmaOverlaps t start stop = false) : Uncovered t start stop := by
  rw [vmaOverlaps, Option.isSome_eq_false_iff, Option.isNone_iff_eq_none] at h
  exact uncovered_of_firstOverlap h

variable {m : Mm}

theorem add64_mod_page (ha : a % 4096 = 0) (hb : b % 4096 = 0) : add64 a b % 4096 = 0 := by
  unfold add64
  omega

theorem pageAlignUp_mod (x : Nat) : pageAlignUp x % 4096 = 0 := pageAligned_iff.mp (pageAligned_alignUp x)

theorem pageAlignUp_lt (x : Nat) : pageAlignUp x < 2 ^ 64 := by
  rw [pageAlignUp_eq]
  omega

/-- A range that passes the checks of `sys_munmap` is unmapped, unless an area has to be split and there is
no slot for its upper part. -/
theorem sysMunmap_of_range (hlength : length ≠ 0) (haligned : pageAligned addr = true)
    (hle : addr ≤ add64 addr (pageAlignUp length)) :
    sysMunmap m addr length = munmapRange m addr (add64 addr (pageAlignUp length)) ∨
      needSplitSlot m.proc.vmas addr (add64 addr (pageAlignUp length)) = true ∧ freeSlot m.proc.vmas = none ∧
        sysMunmap m addr length = m.fail .ENOMEM := by
  unfold sysMunmap
  rw [if_neg hlength, haligned, if_neg (by simp), if_neg (by omega)]
  split
  · rename_i hslot
    rw [Bool.and_eq_true, Option.isNone_iff_eq_none] at hslot
    exact .inr ⟨hslot.1, hslot.2, rfl⟩
  · exact .inl rfl

/-- A range for a new area: pages of user space that do not meet the heap. -/
structure GoodRange (proc : Process) (start len : Nat) : Prop where
  startPage : start % 4096 = 0
  lenPage : len % 4096 = 0
  pos : 0 < len
  base : vmmUserBase ≤ start
  top : start + len ≤ vmmUserTop + 1
  clear : proc.Clear start (start + len)

theorem GoodRange.stop (h : GoodRange proc start len) : add64 start len = start + len := by
  have := h.top
  unfold vmmUserTop at this
  exact add64_of_lt (by omega)

theorem GoodRange.alignUp (h : GoodRange proc start len) : pageAlignUp len = len := by
  have := h.top
  unfold vmmUserTop at this
  exact pageAlignUp_of_aligned h.lenPage (by omega)

/-- The page that could not be mapped is one of the pages of the loop. -/
theorem growHeap_failed (h : growHeap space p pages = .ok (p', some vaddr)) : vaddr ∈ pages := by
  induction pages generalizing p with
  | nil => cases h
  | cons page rest ih =>
    rw [growHeap] at h
    split at h
    · cases h
    · exact List.mem_cons_of_mem _ (ih h)
    · cases h
      exact List.mem_cons_self

section

variable (h : VmaOk m) {flags newLen oldAddr newAddrHint : Nat}

include h

theorem VmaOk.withVmas (p : Phys) {vmas : VmaTable} (hvmas : Layout m.proc.inHeap vmas) :
    VmaOk ({ m with phys := p }.withVmas vmas) := ⟨hvmas, h.hint⟩

/-! ### `sys_munmap` and `sys_mprotect` -/

theorem VmaOk.munmapRange (hle : start ≤ stop) (hstart : start % 4096 = 0)
    (hstop : stop % 4096 = 0) (hreply : munmapRange m start stop = .ok reply) :
    VmaOk reply.mm ∧ (∃ vmas, reply.mm.proc = { m.proc with vmas := vmas }) ∧
      Uncovered reply.mm.proc.vmas start stop := by
  have hlayout := h.layout.munmapVmas hle hstart hstop
  have hfree := uncovered_munmapVmas m.proc.vmas start stop
  unfold Litenix.munmapRange at hreply
  generalize Litenix.munmapVmas m.proc.vmas start stop = areas at *
  split at hreply
  · cases hreply
  · rename_i p _
    cases hreply
    exact ⟨h.withVmas p hlayout, ⟨areas.1, rfl⟩, hfree⟩

theorem VmaOk.sysMunmap (addr length : Nat) (hreply : sysMunmap m addr length = .ok reply) : VmaOk reply.mm := by
  rcases sysMunmap_cases m addr length with ⟨e, heq⟩ | ⟨haligned, hle, -, heq⟩
  · rw [heq] at hreply
    cases hreply
    exact h
  · rw [heq] at hreply
    have hmod := pageAligned_iff.mp haligned
    exact (h.munmapRange hle hmod (add64_mod_page hmod (pageAlignUp_mod _)) hreply).1

theorem VmaOk.sysMprotect (prot : Nat) (hcond : pageAlignUp length ≠ 0 ∨ needSplitSlot m.proc.vmas addr addr = false)
    (hreply : sysMprotect m addr length prot = .ok reply) : VmaOk reply.mm := by
  rcases sysMprotect_cases m addr length prot with ⟨ret, heq⟩ | ⟨haligned, -, hle, -, heq⟩ <;>
    rw [heq] at hreply <;> cases hreply
  · exact h
  have hmod := pageAligned_iff.mp haligned
  have hcut : CutsWell m.proc.vmas addr (add64 addr (pageAlignUp length)) := by
    rcases hcond with hne | hsplit
    · refine .inl (lt_of_le_of_ne hle fun heq' => hne ?_)
      have := pageAlignUp_eq length
      unfold add64 at heq'
      omega
    rcases Nat.eq_or_lt_of_le hle with heq' | hlt
    · refine .inr ⟨heq', fun i hvalid => ?_⟩
      rw [needSplitSlot, Option.isSome_eq_false_iff, Option.isNone_iff_eq_none, firstSlot_none_iff] at hsplit
      have := hsplit i
      simp only [hvalid, Bool.true_and, Bool.and_eq_false_iff, decide_eq_false_iff_not, not_lt] at this
      omega
    · exact .inl hlt
  exact h.withVmas _ (h.layout.mprotectVmas hcut hmod (add64_mod_page hmod (pageAlignUp_mod _)) prot _)

/-! ### `sys_mmap` and `sys_mremap` -/

theorem VmaOk.setArea (hrange : GoodRange m.proc start len)
    (hfree : Uncovered m.proc.vmas start (start + len)) (i : Fin vmaMax) (area : Vma)
    (hstart : area.start = start) (hstop : area.stop = add64 start len) :
    Layout m.proc.inHeap (update m.proc.vmas i area) := by
  rw [hrange.stop] at hstop
  have hcovers : ∀ x, area.covers x → start ≤ x ∧ x < start + len := by
    rintro x ⟨-, hlo, hhi⟩
    omega
  refine h.layout.add ⟨?_, ?_, ?_, ?_, ?_⟩ ?_ ?_
  · rw [hstart]
    exact hrange.startPage
  · have := hrange.startPage
    have := hrange.lenPage
    omega
  · rw [hstart]
    exact hrange.base
  · have := hrange.pos
    omega
  · rw [hstop]
    exact hrange.top
  · exact fun k _ x hx => hfree k x (hcovers x hx).1 (hcovers x hx).2
  · exact fun x hx => hrange.clear.not_inHeap (hcovers x hx).1 (hcovers x hx).2

theorem VmaOk.insertArea (hrange : GoodRange m.proc mapAddr alignedLen)
    (hfree : freeSlot m.proc.vmas ≠ none → Uncovered m.proc.vmas mapAddr (mapAddr + alignedLen))
    (events : List FileEvent) (area : Vma) (taken : List FileEvent) :
    VmaOk (insertArea m events mapAddr alignedLen area taken).mm := by
  unfold Litenix.insertArea
  cases hslot : freeSlot m.proc.vmas with
  | none => exact h
  | some slot =>
    have hset := h.setArea hrange (hfree (by rw [hslot]; exact Option.some_ne_none _)) slot
      { area with start := mapAddr, stop := add64 mapAddr alignedLen, valid := true } rfl rfl
    exact h.withVmas m.phys hset.vmaMergeAdjacent

theorem VmaOk.moveArea (hrange : GoodRange m.proc dstAddr newLen)
    (hfree : Uncovered m.proc.vmas dstAddr (dstAddr + newLen)) (events : List FileEvent) (i : Fin vmaMax)
    (oldAddr oldLen : Nat) : VmaOk (moveArea m events i oldAddr oldLen dstAddr newLen).mm := by
  unfold Litenix.moveArea
  dsimp only
  split
  · exact ⟨h.layout, h.hint⟩
  · exact h.withVmas _ (h.setArea hrange hfree i _ rfl rfl)

/-- The pages of a range are unmapped before an area is put there. -/
theorem VmaOk.clearRange (hrange : GoodRange m.proc start len) (hreply : Litenix.sysMunmap m start len = .ok reply) :
    VmaOk reply.mm ∧ GoodRange reply.mm.proc start len ∧
      (Uncovered reply.mm.proc.vmas start (start + len) ∨
        needSplitSlot m.proc.vmas start (start + len) = true ∧ freeSlot m.proc.vmas = none ∧ reply.mm = m) := by
  have hstop : add64 start (pageAlignUp len) = start + len := by rw [hrange.alignUp, hrange.stop]
  have hmod : (start + len) % 4096 = 0 := by
    have := hrange.startPage
    have := hrange.lenPage
    omega
  rcases sysMunmap_of_range (m := m) hrange.pos.ne' (pageAligned_iff.mpr hrange.startPage)
    (by rw [hstop]; omega) with heq | ⟨hneed, hnone, heq⟩
  · rw [heq, hstop] at hreply
    obtain ⟨hok, ⟨vmas, hproc⟩, hfree⟩ := h.munmapRange (by omega) hrange.startPage hmod hreply
    refine ⟨hok, ?_, .inl hfree⟩
    rw [hproc]
    exact { hrange with clear := hrange.clear }
  · rw [heq] at hreply
    rw [hstop] at hneed
    cases hreply
    exact ⟨h, hrange, .inr ⟨hneed, hnone, rfl⟩⟩

/-- The arena of `vma_find_free_region` does not meet the heap, and a search for `len` bytes from the first
address does not wrap around. -/
def SearchCond (m : Mm) (hint len : Nat) : Prop :=
  len + 2 ^ 47 < 2 ^ 64 ∧ firstAddr m.mmapHint hint + len < 2 ^ 64 ∧ m.proc.Clear mmapBase mmapTop

theorem VmaOk.search {hint len : Nat} (hcond : SearchCond m hint len) (hlen : len % 4096 = 0) (hpos : 0 < len) :
    ∃ addr mmapHint, Litenix.vmaFindFreeRegion m.proc.vmas m.mmapHint hint len = some (addr, mmapHint) ∧
      VmaOk { m with mmapHint := mmapHint } ∧
      (addr ≠ 0 → GoodRange m.proc addr len ∧ Uncovered m.proc.vmas addr (addr + len)) := by
  obtain ⟨hwrap, hfirst, hclear⟩ := hcond
  have halign : pageAlignUp len = len := pageAlignUp_of_aligned hlen (by omega)
  obtain ⟨addr, mmapHint, hfind, hhint, hfound, -⟩ := h.layout.vmaFindFreeRegion
    (halign.symm ▸ hwrap) (halign.symm ▸ hpos) (halign.symm ▸ hfirst)
  refine ⟨addr, mmapHint, hfind, ⟨h.layout, hhint h.hint⟩, fun hne => ?_⟩
  obtain ⟨⟨hbase, htop, hfree⟩, hmod⟩ := hfound hne
  rw [halign] at htop hfree
  refine ⟨⟨hmod h.hint, hlen, hpos, ?_, ?_, ?_⟩, hfree⟩
  · exact le_trans (by decide) hbase
  · exact htop.trans (by decide)
  · unfold Process.Clear at hclear ⊢
    omega

theorem VmaOk.sysMmap (haddr : addr < 2 ^ 64)
    (hfixed : hasFlag flags mapFixed = true → m.proc.Clear addr (addr + pageAlignUp length))
    (hsearch : hasFlag flags mapFixed = false →
      pageAlignUp length + 2 ^ 47 < 2 ^ 64 ∧ m.proc.Clear mmapBase mmapTop)
    (hreply : sysMmap nodeType m addr length prot flags fd offset = .ok reply) : VmaOk reply.mm := by
  rcases sysMmap_cases nodeType m addr length prot flags fd offset with
    ⟨e, heq⟩ | ⟨area, taken, -, hpos, hmax, hle, hrange, heq⟩ <;> rw [heq] at hreply
  · cases hreply
    exact h
  have halign := pageAlignUp_eq length
  have hlen : pageAlignUp length % 4096 = 0 := pageAlignUp_mod length
  have hlenPos : 0 < pageAlignUp length := by omega
  have hadd : add64 addr (pageAlignUp length) = addr + pageAlignUp length := by
    unfold add64 at hle ⊢
    omega
  generalize pageAlignUp length = alignedLen at *
  unfold placeArea at hreply
  split at hreply
  · rename_i hflag
    obtain ⟨haligned, hbase, htop⟩ := hrange hflag
    have hgood : GoodRange m.proc addr alignedLen :=
      ⟨pageAligned_iff.mp haligned, hlen, hlenPos, hbase, by omega, hfixed hflag⟩
    split at hreply
    · cases hreply
    rename_i unmapped hunmap
    cases hreply
    obtain ⟨hok, hgood', hfree⟩ := h.clearRange hgood hunmap
    refine hok.insertArea hgood' (fun hslot => ?_) ..
    rcases hfree with hfree | ⟨-, hnone, hsame⟩
    · exact hfree
    · exact absurd (hsame ▸ hnone) hslot
  rename_i hflag
  obtain ⟨hwrap, hclear⟩ := hsearch (by simpa using hflag)
  have hfirst : firstAddr m.mmapHint addr + alignedLen < 2 ^ 64 := by
    unfold firstAddr
    split
    · have := pageAlignDown_eq addr
      have := add64_lt addr alignedLen
      omega
    · have := h.hint.2
      unfold mmapTop at this
      omega
  obtain ⟨mapAddr, mmapHint, hfind, hok, hfound⟩ := h.search ⟨hwrap, hfirst, hclear⟩ hlen hlenPos
  rw [hfind] at hreply
  dsimp only at hreply
  split at hreply
  · cases hreply
    exact hok
  rename_i hne
  cases hreply
  obtain ⟨hgood, hfree⟩ := hfound hne
  exact hok.insertArea hgood (fun _ => hfree) ..

/-- The condition under which an area may be moved. -/
def MoveCond (m : Mm) (newLen flags newAddrHint : Nat) : Prop :=
  (hasFlag flags mremapFixed = true →
    vmmUserBase ≤ newAddrHint ∧ newAddrHint + newLen ≤ vmmUserTop + 1 ∧
      m.proc.Clear newAddrHint (newAddrHint + newLen) ∧
      (needSplitSlot m.proc.vmas newAddrHint (newAddrHint + newLen) = false ∨ freeSlot m.proc.vmas ≠ none)) ∧
  (hasFlag flags mremapFixed = false → SearchCond m newAddrHint newLen)

theorem VmaOk.mremapMove (hlen : newLen % 4096 = 0) (hpos : 0 < newLen) (hcond : MoveCond m newLen flags newAddrHint)
    (hreply : mremapMove m i oldAddr oldLen newLen flags newAddrHint = .ok reply) : VmaOk reply.mm := by
  unfold Litenix.mremapMove at hreply
  split at hreply
  · cases hreply
    exact h
  split at hreply
  · rename_i hfixed
    obtain ⟨hbase, htop, hclear, hslot⟩ := hcond.1 hfixed
    split at hreply
    · cases hreply
      exact h
    rename_i haligned
    split at hreply
    · cases hreply
      exact h
    have hgood : GoodRange m.proc newAddrHint newLen :=
      ⟨pageAligned_iff.mp (by simpa using haligned), hlen, hpos, hbase, htop, hclear⟩
    split at hreply
    · split at hreply
      · cases hreply
      rename_i unmapped hunmap
      cases hreply
      obtain ⟨hok, hgood', hfree⟩ := h.clearRange hgood hunmap
      refine hok.moveArea hgood' ?_ ..
      rcases hfree with hfree | ⟨hneed, hnone, -⟩
      · exact hfree
      rcases hslot with hno | hsome
      · rw [hneed] at hno
        cases hno
      · exact absurd hnone hsome
    · rename_i hno
      cases hreply
      rw [hgood.stop] at hno
      exact h.moveArea hgood (uncovered_of_vmaOverlaps (by simpa using hno)) ..
  rename_i hfixed
  obtain ⟨dstAddr, mmapHint, hfind, hok, hfound⟩ := h.search (hcond.2 (by simpa using hfixed)) hlen hpos
  rw [hfind] at hreply
  dsimp only at hreply
  split at hreply
  · cases hreply
    exact hok
  rename_i hne
  cases hreply
  obtain ⟨hgood, hfree⟩ := hfound hne
  exact hok.moveArea hgood hfree ..

/-- An area gets the free pages behind it. -/
theorem VmaOk.grow (hvalid : (m.proc.vmas i).valid = true)
    (hend : oldEnd ≤ (m.proc.vmas i).stop) (hmod : growEnd % 4096 = 0)
    (hstart : (m.proc.vmas i).start < growEnd) (htop : growEnd ≤ vmmUserTop + 1)
    (hclear : m.proc.Clear oldEnd growEnd) (hfree : Uncovered m.proc.vmas oldEnd growEnd) :
    VmaOk (m.withVmas (update m.proc.vmas i { m.proc.vmas i with stop := growEnd })) := by
  have hformed := h.layout.formed i hvalid
  have hcovers : ∀ x, Vma.covers { m.proc.vmas i with stop := growEnd } x →
      (m.proc.vmas i).covers x ∨ oldEnd ≤ x ∧ x < growEnd := by
    rintro x ⟨-, hlo, hhi⟩
    by_cases hx : x < oldEnd
    · exact .inl ⟨hvalid, hlo, by omega⟩
    · exact .inr ⟨by omega, hhi⟩
  refine h.withVmas m.phys (h.layout.add ⟨hformed.start, hmod, hformed.base, hstart, htop⟩ ?_ ?_)
  · intro k hk x hx hxk
    rcases hcovers x hx with hxi | ⟨hlo, hhi⟩
    · exact hk (h.layout.apart k i x hxk hxi)
    · exact hfree k x hlo hhi hxk
  intro x hx
  rcases hcovers x hx with hxi | ⟨hlo, hhi⟩
  · exact h.layout.reserved i x hxi
  · exact hclear.not_inHeap hlo hhi

/-- The condition under which an area may get a larger size. -/
def GrowCond (m : Mm) (oldAddr oldLen newLen flags newAddrHint : Nat) : Prop :=
  (vmaOverlaps m.proc.vmas (add64 oldAddr oldLen) (add64 oldAddr newLen) = true →
    MoveCond m newLen flags newAddrHint) ∧
  (vmaOverlaps m.proc.vmas (add64 oldAddr oldLen) (add64 oldAddr newLen) = false →
    add64 oldAddr newLen ≤ vmmUserTop + 1 ∧ m.proc.Clear (add64 oldAddr oldLen) (add64 oldAddr newLen))

theorem VmaOk.sysMremap (hcond : pageAlignUp newSize ≤ pageAlignUp oldSize ∨
      GrowCond m oldAddr (pageAlignUp oldSize) (pageAlignUp newSize) flags newAddrHint)
    (hreply : sysMremap m oldAddr oldSize newSize flags newAddrHint = .ok reply) : VmaOk reply.mm := by
  have hnewLen := pageAlignUp_mod newSize
  have hnew := pageAlignUp_lt newSize
  have hold := pageAlignUp_lt oldSize
  rcases sysMremap_cases m oldAddr oldSize newSize flags newAddrHint with
    ⟨ret, heq⟩ | ⟨i, hvalid, hstart, hend, haligned, hle, hstep⟩
  · rw [heq] at hreply
    cases hreply
    exact h
  rw [hreply] at hstep
  generalize pageAlignUp newSize = newLen at *
  generalize pageAlignUp oldSize = oldLen at *
  generalize hresult : Except.ok reply = result at hstep
  cases hstep with
  | shrink hlt =>
    unfold mremapShrink at hresult
    split at hresult
    · cases hresult
    · rename_i unmapped hunmap
      have hok := h.sysMunmap _ _ hunmap
      split at hresult <;> cases hresult <;> exact hok
  | grow hlt hgrow hfree =>
    cases hresult
    rcases hcond with hno | hcond
    · omega
    obtain ⟨htop, hclear⟩ := hcond.2 hfree
    have hstop : add64 oldAddr oldLen < add64 oldAddr newLen := by
      unfold add64 at *
      omega
    exact h.grow hvalid hend (add64_mod_page (pageAligned_iff.mp haligned) hnewLen) (by omega)
      htop hclear (uncovered_of_vmaOverlaps hfree)
  | move hlt hover =>
    rcases hcond with hno | hcond
    · omega
    · exact h.mremapMove hnewLen (by omega) (hcond.1 hover) hresult.symm

/-! ### `sys_brk` -/

theorem VmaOk.withHeapEnd (p : Phys) {heapEnd : Nat} (hclear : pageAlignUp heapEnd ≤ pageAlignUp m.proc.heapEnd ∨
      Uncovered m.proc.vmas m.proc.heapStart (pageAlignUp heapEnd)) : VmaOk (m.withHeapEnd p heapEnd) := by
  refine ⟨⟨h.layout.formed, h.layout.apart, ?_⟩, h.hint⟩
  rintro i x hx ⟨hlo, hhi⟩
  rcases hclear with hle | hfree
  · exact h.layout.reserved i x hx ⟨hlo, lt_of_lt_of_le hhi hle⟩
  · exact hfree i x hlo hhi hx

theorem VmaOk.sysBrk (hcond : pageAlignUp newBrk ≤ pageAlignUp m.proc.heapEnd ∨
      Uncovered m.proc.vmas m.proc.heapStart (pageAlignUp newBrk))
    (hreply : sysBrk m newBrk = .ok reply) : VmaOk reply.mm := by
  rcases sysBrk_cases m newBrk with ⟨ret, heq⟩ | ⟨hlt, heq⟩ | ⟨hle, heq⟩ <;> rw [heq] at hreply
  · cases hreply
    exact h
  · have hfree := hcond.resolve_left (by omega)
    unfold growBrk at hreply
    split at hreply
    · cases hreply
    · rename_i p vaddr hgrow
      cases hreply
      -- the heap ends at a page of the range
      obtain ⟨haligned, -, hbound⟩ := (mem_pageAddrs_iff (pageAligned_alignUp _)).mp (growHeap_failed hgrow)
      refine h.withHeapEnd p (.inr fun i x hlo hhi => hfree i x hlo (hhi.trans_le ?_))
      have := pageAlignUp_eq newBrk
      rw [pageAlignUp_of_aligned (pageAligned_iff.mp haligned) (by omega)]
      omega
    · cases hreply
      exact h.withHeapEnd _ (.inr hfree)
  · unfold shrinkBrk at hreply
    split at hreply
    · cases hreply
    · cases hreply
      exact h.withHeapEnd _ (.inl hle)

/-- `sys_madvise` changes physical memory only. -/
theorem VmaOk.sysMadvise (hreply : sysMadvise m addr length advice = .ok reply) : VmaOk reply.mm := by
  rcases sysMadvise_cases m addr length advice with ⟨ret, heq⟩ | heq <;> rw [heq] at hreply
  · cases hreply
    exact h
  · unfold madviseDontneed at hreply
    split at hreply <;> cases hreply
    exact ⟨h.layout, h.hint⟩

/-! ### Runs -/

/-- A memory call, with its arguments as the registers hold them. -/
inductive MemCall where
  | mmap (addr length : UInt64) (prot flags : UInt32) (fd : Int) (offset : UInt64)
  | munmap (addr length : UInt64)
  | mprotect (addr length : UInt64) (prot : UInt32)
  | mremap (oldAddr oldSize newSize flags newAddrHint : UInt64)
  | brk (newBrk : UInt64)
  | madvise (addr length : UInt64) (advice : UInt32)

def memCall (nodeType : FileId → Option VfsType) (m : Mm) : MemCall → Except Panic Reply
  | .mmap addr length prot flags fd offset =>
    sysMmap nodeType m addr.toNat length.toNat prot.toNat flags.toNat fd offset.toNat
  | .munmap addr length => sysMunmap m addr.toNat length.toNat
  | .mprotect addr length prot => sysMprotect m addr.toNat length.toNat prot.toNat
  | .mremap oldAddr oldSize newSize flags newAddrHint =>
    sysMremap m oldAddr.toNat oldSize.toNat newSize.toNat flags.toNat newAddrHint.toNat
  | .brk newBrk => sysBrk m newBrk.toNat
  | .madvise addr length advice => sysMadvise m addr.toNat length.toNat advice.toNat

def memStep (nodeType : FileId → Option VfsType) (m : Mm) (call : MemCall) : Except Panic Mm :=
  (memCall nodeType m call).map Reply.mm

/-- The condition on a call. A new or grown area stays in user space and out of the heap, the sums of a
search do not wrap around, an empty range cuts no area in three, and the heap grows into no area. -/
def VmaCond (m : Mm) : MemCall → Prop
  | .mmap addr length _ flags _ _ =>
    (hasFlag flags.toNat mapFixed = true → m.proc.Clear addr.toNat (addr.toNat + pageAlignUp length.toNat)) ∧
    (hasFlag flags.toNat mapFixed = false →
      pageAlignUp length.toNat + 2 ^ 47 < 2 ^ 64 ∧ m.proc.Clear mmapBase mmapTop)
  | .munmap _ _ => True
  | .mprotect addr length _ =>
    pageAlignUp length.toNat ≠ 0 ∨ needSplitSlot m.proc.vmas addr.toNat addr.toNat = false
  | .mremap oldAddr oldSize newSize flags newAddrHint =>
    pageAlignUp newSize.toNat ≤ pageAlignUp oldSize.toNat ∨
      GrowCond m oldAddr.toNat (pageAlignUp oldSize.toNat) (pageAlignUp newSize.toNat) flags.toNat
        newAddrHint.toNat
  | .brk newBrk =>
    pageAlignUp newBrk.toNat ≤ pageAlignUp m.proc.heapEnd ∨
      vmaOverlaps m.proc.vmas m.proc.heapStart (pageAlignUp newBrk.toNat) = false
  | .madvise _ _ _ => True

/-- **One call.** -/
theorem VmaOk.step (hcond : VmaCond m call) {m' : Mm} (hstep : memStep nodeType m call = .ok m') : VmaOk m' := by
  unfold memStep at hstep
  cases hcall : memCall nodeType m call with
  | error e =>
    rw [hcall] at hstep
    cases hstep
  | ok reply =>
  rw [hcall] at hstep
  cases hstep
  cases call with
  | mmap addr length prot flags fd offset => exact h.sysMmap addr.toNat_lt hcond.1 hcond.2 hcall
  | munmap addr length => exact h.sysMunmap _ _ hcall
  | mprotect addr length prot => exact h.sysMprotect _ hcond hcall
  | mremap oldAddr oldSize newSize flags newAddrHint => exact h.sysMremap hcond hcall
  | brk newBrk => exact h.sysBrk (hcond.imp id uncovered_of_vmaOverlaps) hcall
  | madvise addr length advice => exact h.sysMadvise hcall

end

/-- Every run whose calls meet the condition keeps the layout. -/
theorem vma_layout_run (nodeType : FileId → Option VfsType) (m₀ m : Mm) (calls : List MemCall)
    (hlayout : VmaLayout m₀.proc) (hhint : HintOk m₀.mmapHint)
    (hall : AllSteps (memStep nodeType) VmaCond m₀ calls) (hrun : run (memStep nodeType) m₀ calls = .ok m) :
    VmaLayout m.proc :=
  (run_inv (fun _ _ _ h hcond hstep => VmaOk.step h hcond hstep) ⟨hlayout, hhint⟩ hall hrun).layout

/-! ### Two runs of a new process -/

instance (proc : Process) (start stop : Nat) : Decidable (proc.Clear start stop) :=
  inferInstanceAs (Decidable (_ ∨ _ ∨ _))

instance (m : Mm) (hint len : Nat) : Decidable (SearchCond m hint len) := inferInstanceAs (Decidable (_ ∧ _ ∧ _))

instance (m : Mm) (newLen flags newAddrHint : Nat) : Decidable (MoveCond m newLen flags newAddrHint) :=
  inferInstanceAs (Decidable (_ ∧ _))

instance (m : Mm) (oldAddr oldLen newLen flags newAddrHint : Nat) :
    Decidable (GrowCond m oldAddr oldLen newLen flags newAddrHint) :=
  inferInstanceAs (Decidable (_ ∧ _))

instance (m : Mm) (call : MemCall) : Decidable (VmaCond m call) :=
  match call with
  | .mmap _ _ _ _ _ _ => inferInstanceAs (Decidable (_ ∧ _))
  | .munmap _ _ => inferInstanceAs (Decidable True)
  | .mprotect _ _ _ => inferInstanceAs (Decidable (_ ∨ _))
  | .mremap _ _ _ _ _ => inferInstanceAs (Decidable (_ ∨ _))
  | .brk _ => inferInstanceAs (Decidable (_ ∨ _))
  | .madvise _ _ _ => inferInstanceAs (Decidable True)

/-- A process without areas, with its tables in the kernel's. -/
def freshMm : Mm where
  phys := smallKernel.phys
  proc := newProcess ⟨pageAddr 1, pageAddr 1, 1⟩ 0x400000
  mmapHint := mmapBase

theorem freshMm_layout : VmaLayout freshMm.proc :=
  ⟨fun _ hvalid => (by cases hvalid), fun _ _ _ hi => (by cases hi.1), fun _ _ hi => (by cases hi.1)⟩

/-- A mapping is cut in three by `sys_mprotect`, the heap grows, and the last part of the mapping grows. -/
def layoutCalls : List MemCall :=
  [.mmap 0 0x3000 3 0x22 (-1) 0, .mprotect 0x7f0000001000 0x1000 1, .brk 0x402000,
    .mremap 0x7f0000002000 0x1000 0x4000 0 0, .munmap 0x7f0000003000 0x1000]

theorem vma_layout_run_cut : ∃ m, run (memStep fun _ => none) freshMm layoutCalls = .ok m ∧
    slotsUsed m.proc.vmas = 4 ∧ VmaLayout m.proc := by
  have heval : (do
      let m ← run (memStep fun _ => none) freshMm layoutCalls
      return slotsUsed m.proc.vmas : Except Panic Nat) = .ok 4 := by decide +kernel
  obtain ⟨m, hrun, hslots⟩ := bind_eq_ok heval
  have hall : AllSteps (memStep fun _ => none) VmaCond freshMm layoutCalls :=
    AllSteps.of_check
      (fun _ _ _ h hcond hstep => h.step hcond hstep) (fun _ _ _ hcheck => of_decide_eq_true hcheck)
      (⟨freshMm_layout, by decide, by decide⟩ : VmaOk freshMm)
      (show checkSteps _ (fun m call => decide (VmaCond m call)) freshMm layoutCalls = true by decide +kernel)
  exact ⟨m, hrun, Except.ok.inj hslots,
    vma_layout_run _ freshMm m layoutCalls freshMm_layout ⟨by decide, by decide⟩ hall hrun⟩

/-- A length near `2^64` makes the sum of `vma_find_free_region` wrap around, and the new area ends before
it begins. -/
theorem mmap_wraps_around :
    ¬∀ (nodeType : FileId → Option VfsType) (m₀ m : Mm) (calls : List MemCall), VmaLayout m₀.proc →
      HintOk m₀.mmapHint → run (memStep nodeType) m₀ calls = .ok m → VmaLayout m.proc := by
  intro hclaim
  have heval : (do
      let m ← run (memStep fun _ => none) freshMm [.mmap 0 0xffff810000001000 3 0x22 (-1) 0]
      let vma := m.proc.vmas ⟨0, by decide⟩
      return (vma.valid, vma.start, vma.stop) :
        Except Panic (Bool × Nat × Nat)) = .ok (true, 0x7f0000000000, 0x1000) := by decide +kernel
  obtain ⟨m, hrun, heval⟩ := bind_eq_ok heval
  obtain ⟨hvalid, heval⟩ := Prod.mk.inj (Except.ok.inj heval)
  obtain ⟨hstart, hstop⟩ := Prod.mk.inj heval
  have hlayout := hclaim _ freshMm m _ freshMm_layout ⟨by decide, by decide⟩ hrun
  have hlt := (hlayout.formed _ hvalid).nonempty
  rw [hstart, hstop] at hlt
  exact absurd hlt (by decide)

end Litenix
