import Litenix.HeapCalls

/-! `kfree`, `krealloc` and `kmalloc_aligned` on the blocks of the heap. -/

namespace Litenix.KernelHeap

open Lib Bytes Function

variable {slabs free : Nat → List Nat} {live : List Block} {h h' : Heap} {b : Block} {bin slab c : Nat}
variable {n raw a alignment : Nat} {mem : Bytes}

/-! ### Chunks -/

theorem findSlab_of_mem (hseg : Seg (link mem) (if first = 0 then none else some first) l none) (hslab : slab ∈ l)
    (hin : slab ≤ raw ∧ raw < slab + pageSize) (hother : ∀ s ∈ l, s ≠ slab → ¬(s ≤ raw ∧ raw < s + pageSize))
    (hfuel : l.length < fuel) : findSlab mem raw fuel first = some slab := by
  induction l generalizing first fuel with
  | nil => cases hslab
  | cons s l ih =>
  obtain ⟨hhead, hrest⟩ := hseg
  obtain ⟨fuel, rfl⟩ : ∃ k, fuel = k + 1 := ⟨fuel - 1, by omega⟩
  split at hhead
  · cases hhead
  rename_i hne
  cases hhead
  rw [findSlab, if_neg hne]
  by_cases hs : s = slab
  · rw [hs, if_pos hin]
  rw [if_neg (hother s List.mem_cons_self hs)]
  refine ih hrest ((List.mem_cons.mp hslab).resolve_left (Ne.symm hs))
    (fun s' hs' => hother s' (List.mem_cons_of_mem _ hs')) ?_
  rw [List.length_cons] at hfuel
  omega

/-- A bin has no more slabs than the window has pages. -/
theorem HeapInv.length_slabs_lt (hinv : HeapInv slabs free live h) (bin : Nat) : (slabs bin).length < slabLimit := by
  have hinj : ((slabs bin).map fun s => (s - heapStart) / 4096).Nodup := by
    refine (hinv.nodup bin).map_on fun s hs s' hs' heq => ?_
    have hs := hinv.place bin s hs
    have hs' := hinv.place bin s' hs'
    omega
  have hsub : ((slabs bin).map fun s => (s - heapStart) / 4096) ⊆ List.range 65536 := by
    intro k hk
    obtain ⟨s, hs, rfl⟩ := List.mem_map.mp hk
    have := hinv.place bin s hs
    unfold heapStart heapSize at this
    rw [List.mem_range, heapStart]
    omega
  have hlen := (List.subperm_of_subset hinj hsub).length_le
  rw [List.length_map, List.length_range] at hlen
  exact Nat.lt_succ_of_le hlen

/-- The outcome of giving up a block. -/
structure Freed (slabs free : Nat → List Nat) (live : List Block) (b : Block) (h h' : Heap)
    (free' : Nat → List Nat) : Prop where
  undisturbed : Undisturbed live h h'
  onFree : ∀ x, OnFree slabs free x → OnFree slabs free' x
  freed : b.len < 4096 → OnFree slabs free' b.raw
  inv : HeapInv slabs free' live h'

theorem unmapLoop_spec (ptr base pages : Nat) (h : Heap) (hlt : base + pages * 4096 < 2 ^ 64)
    (hmapped : ∀ i < pages, h.mapped (base + i * 4096) = true) :
    ∃ mapped, (List.range pages).foldlM (fun h i => unmapPage ptr (add64 base (i * pageSize)) h) h =
        .ok { h with mapped := mapped } ∧
      ∀ v, (∀ i < pages, v ≠ base + i * 4096) → mapped v = h.mapped v := by
  induction pages with
  | zero => exact ⟨h.mapped, rfl, fun _ _ => rfl⟩
  | succ pages ih =>
  have hle : base + pages * 4096 < 2 ^ 64 :=
    lt_of_le_of_lt (Nat.add_le_add_left (Nat.mul_le_mul_right _ pages.le_succ) base) hlt
  obtain ⟨mapped, hloop, hsame⟩ := ih hle fun i hi => hmapped i (by omega)
  have hpage : add64 base (pages * pageSize) = base + pages * 4096 := by
    rw [pageSize, add64_of_lt hle]
  have hlast : mapped (base + pages * 4096) = true := by
    rw [hsame _ fun i hi => by omega, hmapped pages (by omega)]
  refine ⟨update mapped (base + pages * 4096) false, ?_, fun v hv => ?_⟩
  · rw [List.range_succ, List.foldlM_append, hloop]
    change unmapPage ptr (add64 base (pages * pageSize)) { h with mapped := mapped } >>= pure = _
    rw [hpage, unmapPage, if_pos hlast]
    rfl
  · rw [update_of_ne (hv pages (by omega)), hsame v fun i hi => hv i (by omega)]

theorem kfree_eq (h : Heap) (ptr : Nat) : kfree h ptr = kfreeUnlocked (2 ^ 64 - 2 + 2) h ptr :=
  congrArg (fun depth => kfreeUnlocked depth h ptr) (show 2 ^ 64 = 2 ^ 64 - 2 + 2 by norm_num)

section

variable (hinv : HeapInv slabs free (b :: live) h)

include hinv

theorem freeChunk_spec (hin : InChunk slabs free b bin slab)
    (hheader : Header h.mem b.raw bin magicAlloc 0) (ptr : Nat) :
    ∃ h' free', freeChunk h ptr b.raw = .ok h' ∧ Freed slabs free live b h h' free' := by
  have hbin := hinv.bins bin slab hin.mem
  have hbounds := hin.chunk.bounds
  have hsize := binSize_bounds hbin
  have hne := hinv.slab_ne_zero hin.mem
  have hfind : findSlab h.mem b.raw slabLimit (h.bins bin) = some slab := by
    refine findSlab_of_mem (hinv.chain bin hbin.2) hin.mem ⟨by omega, by unfold pageSize; omega⟩ (fun s hs hss => ?_)
      (hinv.length_slabs_lt bin)
    have := hinv.slabs_apart hs hin.mem hss
    unfold pageSize
    omega
  have hloose := hinv.loose hin
  have hpush := hinv.tail.push hloose hheader.base
  refine ⟨{ h with
      mem := freedMem h.mem slab b.raw
      stats := h.stats.freed (((h.mem.setU16 (b.raw + 2) magicFree).pushLink (freeListAt slab) b.raw).addr (b.raw + 8)) 0 },
    _, ?_, ⟨fun b' hb' k hlo hhi => ?_, rfl⟩, ?_, fun _ => ⟨bin, slab, hin.mem, ?_⟩,
    hpush.of_eq rfl rfl rfl rfl rfl⟩
  · rw [freeChunk, hheader.bin]
    rw [if_neg (Nat.not_le.mpr hbin.2), hfind]
    dsimp only
    rw [if_neg hne]
    rfl
  · have h1 := hinv.header_apart (List.mem_cons_of_mem b hb') hin.mem
    have h2 := hloose.apart b' hb'
    exact freedMem_of_outside h.mem hbin (by omega) (by omega)
  · rintro x ⟨bin', s, hs, hx⟩
    refine ⟨bin', s, hs, ?_⟩
    revert hx
    exact update_ind s (List.mem_cons_of_mem _) fun _ => id
  · rw [update_self]
    exact List.mem_cons_self

/-! ### Pages -/

theorem freePages_spec (hin : InPages slabs h b pages)
    (hheader : Header h.mem b.raw pages magicDirect 0) (ptr : Nat) :
    ∃ h' free', freePages h ptr b.raw = .ok h' ∧ Freed slabs free live b h h' free' := by
  obtain ⟨hlow, hhigh⟩ := hin.place
  have hcursor := hinv.cursor
  have hlen := hin.len
  have hbase : alignDown b.raw pageSize = b.raw := by
    have := hin.aligned
    rw [pageSize, alignDown_page (by omega)]
    omega
  have hlt : b.raw + pages * 4096 < 2 ^ 64 := by
    rw [← hlen]
    omega
  obtain ⟨mapped, hloop, hsame⟩ := unmapLoop_spec ptr b.raw pages h hlt hin.mapped
  refine ⟨{ h with mapped := mapped, stats := h.stats.freed (h.mem.addr (b.raw + 8)) pages }, free, ?_,
    ⟨fun b' _ => .refl _ b'.raw b'.len, rfl⟩, fun _ => id, fun hsmall => ?_, ?_⟩
  · rw [freePages, hheader.bin, hbase, hloop]
    rfl
  · have := hin.count
    omega
  refine hinv.tail.congr ⟨rfl, rfl, le_rfl, ⟨hcursor.1, hcursor.2.2⟩, fun b' hb' v hlo hhi => hsame v ?_⟩ ?_
  · intro i hi
    have := (List.pairwise_cons.mp hinv.apart).1 b' hb'
    unfold Block.Apart at this
    omega
  · exact .refl slabs free live h.mem

/-! ### `kfree` -/

theorem kfreeUnlocked_plain (hptr : b.ptr = b.raw + 24) (depth : Nat) :
    ∃ h' free', kfreeUnlocked (depth + 1) h b.ptr = .ok h' ∧ Freed slabs free live b h h' free' := by
  have hbd := hinv.block_bounds List.mem_cons_self
  have hcursor := hinv.cursor
  have hraw : sub64 b.ptr allocHeaderSize = b.raw := by
    rw [allocHeaderSize, sub64_of_le (by omega) (by omega)]
    omega
  rw [kfreeUnlocked, if_neg (by omega), hraw]
  dsimp only
  rcases (hinv.blocks b List.mem_cons_self).storage with ⟨bin, slab, hin, hheader⟩ | ⟨pages, hin, hheader⟩
  · rw [hheader.magic, if_neg (by decide), if_neg (by decide), if_pos rfl]
    exact freeChunk_spec hinv hin hheader b.ptr
  · rw [hheader.magic, if_neg (by decide), if_neg (by decide), if_neg (by decide), if_pos rfl]
    exact freePages_spec hinv hin hheader b.ptr

theorem kfreeUnlocked_spec (depth : Nat) :
    ∃ h' free', kfreeUnlocked (depth + 2) h b.ptr = .ok h' ∧ Freed slabs free live b h h' free' := by
  rcases (hinv.blocks b List.mem_cons_self).ptr with hptr | ⟨hptr, hheader⟩
  · exact kfreeUnlocked_plain hinv hptr (depth + 1)
  have hbd := hinv.block_bounds List.mem_cons_self
  have hcursor := hinv.cursor
  have hraw : sub64 b.ptr allocHeaderSize = b.ptr - 24 := by
    rw [allocHeaderSize, sub64_of_le (by omega) (by omega)]
  -- the magic number of the second header is storage of the block
  have houtside : SameOutside h.mem (h.mem.setU16 (b.ptr - 24 + 2) magicFree) b.raw b.len :=
    (sameOutside_setU16 _ _ _).mono (by omega) (by omega)
  have hheader' : SameHeader h.mem (h.mem.setU16 (b.ptr - 24 + 2) magicFree) b.raw :=
    .of_same ((sameOutside_setU16 _ _ _).same (by omega))
  have hplain : HeapInv slabs free (⟨b.raw + 24, 0, b.raw, b.len⟩ :: live) h := hinv.reshape (.inl rfl) (by omega)
  have hmarked : HeapInv slabs free (⟨b.raw + 24, 0, b.raw, b.len⟩ :: live)
      { h with mem := h.mem.setU16 (b.ptr - 24 + 2) magicFree } :=
    hplain.congr (hplain.advances_mem _) (hplain.keepsLists houtside hheader' (by rwa [Nat.add_sub_cancel]))
  obtain ⟨h', free', hfree, hfreed⟩ := kfreeUnlocked_plain hmarked rfl depth
  refine ⟨h', free', ?_, ?_, hfreed.onFree, hfreed.freed, hfreed.inv⟩
  · rw [kfreeUnlocked, if_neg (by omega), hraw]
    dsimp only
    rw [hheader.magic, if_neg (by decide), if_pos rfl, hheader.base]
    exact hfree
  · have hmark : Undisturbed live h { h with mem := h.mem.setU16 (b.ptr - 24 + 2) magicFree } :=
      ⟨fun b' hb' => houtside.same ((List.pairwise_cons.mp hinv.apart).1 b' hb').symm, rfl⟩
    exact hmark.trans hfreed.undisturbed

theorem kfree_spec : ∃ h' free', kfree h b.ptr = .ok h' ∧ Freed slabs free live b h h' free' := by
  rw [kfree_eq]
  exact kfreeUnlocked_spec hinv _

/-! ### `krealloc` -/

theorem HeapInv.header_of_plain (hptr : b.ptr = b.raw + 24) :
    (h.mem.u16 (b.raw + 2) = magicDirect ∨ h.mem.u16 (b.raw + 2) = magicAlloc) ∧ usableSize h.mem b.raw = b.len - 24 := by
  have hbd := hinv.block_bounds List.mem_cons_self
  have hcursor := hinv.cursor
  rcases (hinv.blocks b List.mem_cons_self).storage with ⟨bin, slab, hin, hheader⟩ | ⟨pages, hin, hheader⟩
  · refine ⟨.inr hheader.magic, ?_⟩
    rw [usableSize, hheader.magic, if_neg (by decide), hheader.bin, ← hin.len, allocHeaderSize,
      sub64_of_le (by omega) (by omega)]
  · refine ⟨.inl hheader.magic, ?_⟩
    rw [usableSize, hheader.magic, if_pos rfl, hheader.bin, pageSize, ← hin.len, allocHeaderSize,
      sub64_of_le (by omega) (by omega)]

end

/-- For an aligned block the size class in the header means nothing. -/
theorem usableSize_aligned (hheader : Header mem raw 0 magicAligned base) : usableSize mem raw = 2 ^ 64 - 8 := by
  rw [usableSize, hheader.magic, if_neg (by decide), hheader.bin]
  rfl

/-- The outcome of `krealloc` for a block: none, the same block with another size, or a new block that starts with
the bytes of the old one. For an aligned block it reads as many bytes as were asked for. -/
structure Reallocated (slabs free : Nat → List Nat) (live : List Block) (b : Block) (n : Nat) (h : Heap)
    (r : Heap × Nat) (slabs' free' : Nat → List Nat) : Prop where
  others : ∀ b' ∈ live, Same h.mem r.1.mem b'.raw b'.len
  onFree : ∀ x, OnFree slabs free x → x + allocHeaderSize ≠ r.2 → OnFree slabs' free' x
  failed : r.2 = 0 → HeapInv slabs' free' (b :: live) r.1 ∧ Same h.mem r.1.mem b.raw b.len ∧ r.1.copies = h.copies
  inPlace : r.2 = b.ptr → HeapInv slabs' free' ({ b with size := n } :: live) r.1 ∧
    (∀ x, OnFree slabs free x → OnFree slabs' free' x) ∧ SameOutside h.mem r.1.mem (b.raw + 8) 8 ∧
    r.1.copies = h.copies
  moved : r.2 ≠ 0 → r.2 ≠ b.ptr → HeapInv slabs' free' (blockAt r.2 n :: live) r.1 ∧
    (b.len < 4096 → OnFree slabs' free' b.raw) ∧ (∀ i < min b.size n, r.1.mem (r.2 + i) = h.mem (b.ptr + i)) ∧
    ∃ len, r.1.copies = (b.ptr, len) :: h.copies ∧
      if b.ptr = b.raw + 24 then b.ptr + len ≤ b.raw + b.len else len = n

theorem krealloc_inPlace (hinv : HeapInv slabs free (b :: live) h) (hptr : b.ptr = b.raw + 24) (hroom : n ≤ b.len - 24) :
    Reallocated slabs free live b n h ({ h with mem := h.mem.setAddr (b.raw + 8) n }, b.ptr) slabs free := by
  have hbd := hinv.block_bounds List.mem_cons_self
  have houtside := sameOutside_setAddr h.mem (b.raw + 8) n
  have hheader : SameHeader h.mem (h.mem.setAddr (b.raw + 8) n) b.raw :=
    ⟨houtside.same (by omega), houtside.same (by omega)⟩
  have hkeep := hinv.keepsLists (houtside.mono (by omega) (by omega)) hheader
    (by rwa [hptr, Nat.add_sub_cancel])
  have hnew := (hinv.congr (hinv.advances_mem _) hkeep).reshape (.inl hptr) (show b.ptr + n ≤ b.raw + b.len by omega)
  refine ⟨fun b' hb' => houtside.same ?_, fun x hx _ => hx, fun hzero => ?_, fun _ => ⟨hnew, fun _ => id, houtside, rfl⟩,
    fun _ hne => absurd rfl hne⟩
  · have := (List.pairwise_cons.mp hinv.apart).1 b' hb'
    unfold Block.Apart at this
    omega
  · omega

theorem HeapInv.copySize (hinv : HeapInv slabs free (b :: live) h) (hsize : n + 24 ≤ 65535 * 4096) :
    min b.size n ≤ min (usableSize h.mem (b.ptr - 24)) n ∧
      if b.ptr = b.raw + 24 then b.ptr + min (usableSize h.mem (b.ptr - 24)) n ≤ b.raw + b.len
      else min (usableSize h.mem (b.ptr - 24)) n = n := by
  have hbd := hinv.block_bounds List.mem_cons_self
  rcases (hinv.blocks b List.mem_cons_self).ptr with hptr | ⟨hptr, hheader⟩
  · have huse := (hinv.header_of_plain hptr).2
    rw [if_pos hptr, hptr, Nat.add_sub_cancel, huse]
    omega
  · rw [if_neg (by omega), usableSize_aligned hheader]
    omega

/-- The bytes go to a new block and the old one is given up. -/
theorem krealloc_move (hinv : HeapInv slabs free (blockAt q n :: b :: live) h) (hlen : len ≤ n) :
    ∃ h' free', kfree { h with mem := h.mem.copy q b.ptr len, copies := (b.ptr, len) :: h.copies } b.ptr = .ok h' ∧
      HeapInv slabs free' (blockAt q n :: live) h' ∧ (∀ x, OnFree slabs free x → OnFree slabs free' x) ∧
      (b.len < 4096 → OnFree slabs free' b.raw) ∧ (∀ b' ∈ live, Same h.mem h'.mem b'.raw b'.len) ∧
      (∀ i < len, h'.mem (q + i) = h.mem (b.ptr + i)) ∧ h'.copies = (b.ptr, len) :: h.copies := by
  have hbd : _ ∧ _ ∧ 32 ≤ storageLen n ∧ q - 24 + 24 ≤ q ∧ q + n ≤ q - 24 + storageLen n :=
    hinv.block_bounds List.mem_cons_self
  have houtside := sameOutside_copy h.mem q b.ptr len
  have hheader : SameHeader h.mem (h.mem.copy q b.ptr len) (q - 24) := .of_same (houtside.same (by omega))
  have hkeep := hinv.keepsLists (houtside.mono (show q - 24 ≤ q by omega) (show q + len ≤ q - 24 + storageLen n by omega))
    hheader hheader
  have hset := (hinv.congr (hinv.advances_mem (h.mem.copy q b.ptr len)) hkeep).perm (List.Perm.swap _ _ _)
  have hcopied : HeapInv slabs free (b :: blockAt q n :: live)
      { h with mem := h.mem.copy q b.ptr len, copies := (b.ptr, len) :: h.copies } := hset.of_eq rfl rfl rfl rfl rfl
  obtain ⟨h', free', hfree, hfreed⟩ := kfree_spec hcopied
  refine ⟨h', free', hfree, hfreed.inv, hfreed.onFree, hfreed.freed, fun b' hb' => ?_, fun i hi => ?_,
    hfreed.undisturbed.copies⟩
  · have hapart := (List.pairwise_cons.mp hinv.apart).1 b' (List.mem_cons_of_mem _ hb')
    have hcopy : Same h.mem (h.mem.copy q b.ptr len) b'.raw b'.len := by
      refine houtside.same ?_
      change q - 24 + storageLen n ≤ b'.raw ∨ b'.raw + b'.len ≤ q - 24 at hapart
      omega
    exact hcopy.trans (hfreed.undisturbed.same b' (List.mem_cons_of_mem _ hb'))
  · have hnew := hfreed.undisturbed.same (blockAt q n) List.mem_cons_self
    rw [hnew (q + i) (show q - 24 ≤ q + i by omega) (show q + i < q - 24 + storageLen n by omega)]
    exact copy_add h.mem q b.ptr hi

theorem krealloc_spec (hinv : HeapInv slabs free (b :: live) h) (hpos : 0 < n)
    (hsize : n + 24 ≤ 65535 * 4096) (hlt : binForSize n = none → h.heapNext + directPages n * 4096 < 2 ^ 64) :
    ∃ r slabs' free', krealloc h b.ptr n = .ok r ∧ Reallocated slabs free live b n h r slabs' free' := by
  have hbd := hinv.block_bounds List.mem_cons_self
  have hcursor := hinv.cursor
  have hraw : sub64 b.ptr allocHeaderSize = b.ptr - 24 := by
    rw [allocHeaderSize, sub64_of_le (by omega) (by omega)]
  rw [krealloc, if_neg (by omega), if_neg hpos.ne']
  by_cases hstay : staysInPlace h b.ptr n = true
  · rw [if_pos hstay, hraw]
    rw [staysInPlace, hraw] at hstay
    simp only [Bool.and_eq_true, Bool.or_eq_true, beq_iff_eq, decide_eq_true_eq] at hstay
    rcases (hinv.blocks b List.mem_cons_self).ptr with hptr | ⟨-, hheader⟩
    · have huse := (hinv.header_of_plain hptr).2
      rw [hptr, Nat.add_sub_cancel, huse] at hstay
      have hre := krealloc_inPlace hinv hptr hstay.2
      refine ⟨_, slabs, free, ?_, hre⟩
      rw [hptr, Nat.add_sub_cancel]
    · rw [hheader.magic] at hstay
      exact absurd hstay.1 (by decide)
  rw [if_neg hstay]
  obtain ⟨⟨h₁, q⟩, slabs', free', halloc, hsame, hkeep, hinv₁⟩ := kmalloc_spec hinv hpos hsize hlt
  rw [halloc]
  by_cases hq : q = 0
  · subst hq
    refine ⟨(h₁, 0), slabs', free', rfl, fun b' hb' => hsame.same b' (List.mem_cons_of_mem _ hb'), hkeep,
      fun _ => ⟨hinv₁, hsame.same b List.mem_cons_self, hsame.copies⟩, fun hz => ?_, fun hz => absurd rfl hz⟩
    omega
  rw [if_neg hq] at hinv₁
  have hcopy := hinv₁.tail.copySize hsize
  obtain ⟨h', free'', hfree, hinv', hkeep', hfreed, hothers, hbytes, hcopies⟩ :=
    krealloc_move hinv₁ (min_le_right (usableSize h₁.mem (b.ptr - 24)) n)
  have hne : q ≠ b.ptr := by
    have hapart := (List.pairwise_cons.mp hinv₁.apart).1 b List.mem_cons_self
    have hb₁ := hinv₁.block_bounds (List.mem_cons_self)
    change q - 24 + storageLen n ≤ b.raw ∨ b.raw + b.len ≤ q - 24 at hapart
    change _ ∧ _ ∧ 32 ≤ storageLen n ∧ q - 24 + 24 ≤ q ∧ q + n ≤ q - 24 + storageLen n at hb₁
    omega
  refine ⟨(h', q), slabs', free'', ?_, fun b' hb' => (hsame.same b' (List.mem_cons_of_mem _ hb')).trans
    (hothers b' hb'), fun x hx hxq => hkeep' x (hkeep x hx hxq), fun hz => absurd hz hq, fun hz => absurd hz hne,
    fun _ _ => ⟨hinv', hfreed, fun i hi => ?_, _, ?_, hcopy.2⟩⟩
  · simp only [bind, Except.bind, if_neg hq, hraw, hfree]
    rfl
  · rw [hbytes i (lt_of_lt_of_le hi hcopy.1)]
    exact hsame.same b List.mem_cons_self (b.ptr + i) (by omega) (by omega)
  · rw [hcopies, hsame.copies]

/-! ### `kmalloc_aligned` -/

theorem isPowerOfTwo_eq (ha : a < 2 ^ 64) (h : isPowerOfTwo a = true) : ∃ k, k ≤ 64 ∧ a = 2 ^ k := by
  rw [isPowerOfTwo, Bool.and_eq_true, bne_iff_ne, beq_iff_eq] at h
  obtain ⟨hne, hand⟩ := h
  rw [sub64_of_le (by omega) ha] at hand
  obtain ⟨k, hk⟩ := (Nat.and_sub_one_eq_zero_iff_isPowerOfTwo hne).mp hand
  refine ⟨k, ?_, hk⟩
  rw [hk] at ha
  exact ((Nat.pow_lt_pow_iff_right (by norm_num)).mp ha).le

theorem alignUp_bounds (ha : isPowerOfTwo a = true) (hlt : v + a < 2 ^ 64) :
    v ≤ alignUp v a ∧ alignUp v a < v + a := by
  obtain ⟨k, hk, rfl⟩ := isPowerOfTwo_eq (by omega) ha
  have hpos : 0 < 2 ^ k := Nat.two_pow_pos k
  rw [alignUp_two_pow hk, Nat.mod_eq_of_lt (by omega)]
  have hdiv := Nat.div_add_mod (v + (2 ^ k - 1)) (2 ^ k)
  have hmod := Nat.mod_lt (v + (2 ^ k - 1)) hpos
  rw [Nat.mul_comm] at hdiv
  omega

theorem raiseAligned_bounds (halign : 8 ≤ alignment) (hlt : raw + alignment + 24 < 2 ^ 64) :
    ∀ {rounds aligned}, raw ≤ aligned → aligned < raw + alignment + 24 → raw + 24 ≤ aligned + 8 * rounds →
      raw + 24 ≤ raiseAligned raw alignment rounds aligned ∧
        raiseAligned raw alignment rounds aligned < raw + alignment + 24
  | 0, aligned, _, hhi, hrest => ⟨hrest, hhi⟩
  | rounds + 1, aligned, hlo, hhi, hrest => by
      have hsub : sub64 aligned raw = aligned - raw := sub64_of_le hlo (by omega)
      rw [raiseAligned, hsub, allocHeaderSize]
      split
      · have hadd : add64 aligned alignment = aligned + alignment := add64_of_lt (by omega)
        rw [hadd]
        exact raiseAligned_bounds halign hlt (by omega) (by omega) (by omega)
      · exact ⟨by omega, hhi⟩

/-- The block that `kmalloc_aligned` hands out: a part of the block at `base`. -/
def alignedBlock (ptr size alignment base : Nat) : Block :=
  ⟨ptr, size, base - allocHeaderSize, storageLen (alignedTotal size alignment)⟩

theorem le_leastAlignment (alignment : Nat) : 8 ≤ leastAlignment alignment := by
  unfold leastAlignment
  split <;> omega

theorem kmallocAligned_spec (hinv : HeapInv slabs free live h) {size : Nat}
    (hsize : size + leastAlignment alignment + 48 ≤ 65535 * 4096)
    (hlt : binForSize (alignedTotal size alignment) = none →
      h.heapNext + directPages (alignedTotal size alignment) * 4096 < 2 ^ 64) :
    ∃ h' ptr slabs' free', kmallocAligned h size alignment = .ok (h', ptr) ∧ Undisturbed live h h' ∧
      (ptr = 0 ∧ HeapInv slabs' free' live h' ∧ (∀ x, OnFree slabs free x → OnFree slabs' free' x) ∨
        ptr ≠ 0 ∧ HeapInv slabs' free' (alignedBlock ptr size alignment (h'.mem.addr (ptr - 8)) :: live) h' ∧
          ∀ x, OnFree slabs free x → x + allocHeaderSize ≠ h'.mem.addr (ptr - 8) → OnFree slabs' free' x) := by
  have halign := le_leastAlignment alignment
  have htotal : alignedTotal size alignment = size + leastAlignment alignment + 24 := by
    rw [alignedTotal, add64_of_lt (show size + leastAlignment alignment < 2 ^ 64 by omega), allocHeaderSize,
      add64_of_lt (by omega)]
  unfold kmallocAligned
  by_cases hpow : isPowerOfTwo (leastAlignment alignment) = true
  · rw [hpow, Bool.not_true, if_neg Bool.false_ne_true]
    obtain ⟨⟨h₁, q⟩, slabs', free', halloc, hsame, hkeep, hinv₁⟩ :=
      kmalloc_spec hinv (show 0 < alignedTotal size alignment by omega) (by omega) hlt
    rw [halloc]
    dsimp only at hsame hkeep hinv₁
    by_cases hq : q = 0
    · subst hq
      exact ⟨h₁, 0, slabs', free', rfl, hsame, .inl ⟨rfl, hinv₁, fun x hx => hkeep x hx (Nat.succ_ne_zero _)⟩⟩
    rw [if_neg hq] at hinv₁
    have hcursor := hinv₁.cursor
    have hbd : heapStart ≤ q - 24 ∧ q - 24 + storageLen (alignedTotal size alignment) ≤ h₁.heapNext ∧ _ ∧ _ ∧
        q + alignedTotal size alignment ≤ q - 24 + storageLen (alignedTotal size alignment) :=
      hinv₁.block_bounds List.mem_cons_self
    have hstart : 24 ≤ q := by
      have := hbd.1
      unfold heapStart at this
      omega
    obtain ⟨hup, hup'⟩ := alignUp_bounds hpow (show q + leastAlignment alignment < 2 ^ 64 by omega)
    obtain ⟨hlo, hhi⟩ := raiseAligned_bounds halign (by omega) hup (by omega) (show q + 24 ≤ _ + 8 * 3 by omega)
    obtain ⟨p, hp⟩ : ∃ p, p = raiseAligned q (leastAlignment alignment) 3 (alignUp q (leastAlignment alignment)) :=
      ⟨_, rfl⟩
    rw [← hp] at hlo hhi
    have hraw : sub64 p allocHeaderSize = p - 24 := sub64_of_le (show 24 ≤ p by omega) (by omega)
    obtain ⟨mem, hmem⟩ : ∃ mem, mem = writeHeader h₁.mem (p - 24) 0 magicAligned size q := ⟨_, rfl⟩
    have houtside : SameOutside h₁.mem mem (p - 24) 24 := by
      rw [hmem]
      exact sameOutside_writeHeader _ _ _ _ _ _
    have hheader : Header mem (p - 24) 0 magicAligned q := by
      rw [hmem]
      exact header_writeHeader _ _ _ (by norm_num) (by decide) (by omega)
    have hbase : mem.addr (p - 8) = q := by
      have := hheader.base
      rwa [show p - 24 + 16 = p - 8 by omega] at this
    have hold : SameHeader h₁.mem mem (q - 24) := .of_same (houtside.same (by omega))
    have hkeep₁ := hinv₁.keepsLists
      (houtside.mono (show q - 24 ≤ p - 24 by omega) (show p - 24 + 24 ≤ q - 24 + storageLen _ by omega)) hold hold
    have hnew := (hinv₁.congr (hinv₁.advances_mem mem) hkeep₁).reshape
      (.inr ⟨show q - 24 + 48 ≤ p by omega, show Header mem (p - 24) 0 magicAligned (q - 24 + 24) by
        rwa [show q - 24 + 24 = q by omega]⟩) (show p + size ≤ q - 24 + storageLen _ by omega)
    refine ⟨{ h₁ with mem := mem }, p, slabs', free', ?_, hsame.trans ⟨fun b hb => houtside.same ?_, rfl⟩,
      .inr ⟨by omega, ?_, ?_⟩⟩
    · simp only [bind, Except.bind, if_neg hq, ← hp, hraw, hmem]
      rfl
    · have hapart : q - 24 + storageLen (alignedTotal size alignment) ≤ b.raw ∨ b.raw + b.len ≤ q - 24 :=
        (List.pairwise_cons.mp hinv₁.apart).1 b hb
      omega
    · rw [hbase]
      exact hnew
    · rw [hbase]
      exact hkeep
  · rw [Bool.not_eq_true] at hpow
    rw [hpow, Bool.not_false, if_pos rfl]
    exact ⟨h, 0, slabs, free, rfl, .refl live h, .inl ⟨rfl, hinv, fun _ => id⟩⟩

end Litenix.KernelHeap
