import Litenix.HeapBlocks

/-! What the functions of the heap do to its blocks. -/

namespace Litenix.KernelHeap

open Lib Bytes Function

variable {slabs free : Nat → List Nat} {live : List Block} {h h' : Heap} {b : Block} {bin slab c : Nat}
variable {size : Nat}

/-! ### New slabs -/

theorem ask_eq (h : Heap) : h.ask = ({ h with fails := fun n => h.fails (n + 1) }, h.fails 0) := rfl

theorem vmmMap_cases (h : Heap) (virt : Nat) :
    (∃ fails, h.vmmMap virt = ({ h with fails := fails }, false)) ∨
      ∃ fails, h.mapped virt = false ∧
        h.vmmMap virt = ({ h with fails := fails, mapped := update h.mapped virt true }, true) := by
  unfold Heap.vmmMap Heap.ask
  dsimp only
  split
  · exact .inl ⟨_, rfl⟩
  · rename_i hfree
    rw [Bool.or_eq_true, not_or, Bool.not_eq_true, Bool.not_eq_true] at hfree
    exact .inr ⟨_, hfree.2, rfl⟩

theorem heapMapPage_cases (haligned : h.heapNext % 4096 = 0) (hend : h.heapEnd = heapStart + heapSize) :
    (∃ fails, heapMapPage h = ({ h with fails := fails }, 0)) ∨
      ∃ fails, h.heapNext + 4096 ≤ heapStart + heapSize ∧
        heapMapPage h = ({ h with
          fails := fails
          heapNext := h.heapNext + 4096
          mapped := update h.mapped h.heapNext true
          mem := h.mem.fill h.heapNext 4096 0 }, h.heapNext) := by
  unfold heapMapPage
  split
  · exact .inl ⟨h.fails, rfl⟩
  have hfit : h.heapNext + 4096 ≤ heapStart + heapSize := by
    unfold heapStart heapSize at *
    omega
  have hlt : h.heapNext + 4096 < 2 ^ 64 := lt_of_le_of_lt hfit (by decide)
  have hnext : add64 h.heapNext pageSize = h.heapNext + 4096 := add64_of_lt hlt
  have hback : sub64 (h.heapNext + 4096) pageSize = h.heapNext :=
    (sub64_of_le (Nat.le_add_left ..) hlt).trans (Nat.add_sub_cancel ..)
  simp only [Heap.ask, hnext]
  split
  · exact .inl ⟨_, rfl⟩
  rcases vmmMap_cases { h with fails := fun n => h.fails (n + 1), heapNext := h.heapNext + 4096 } h.heapNext with
    ⟨fails, hmap⟩ | ⟨fails, -, hmap⟩
  · rw [hmap]
    refine .inl ⟨fails, ?_⟩
    dsimp only
    rw [hback]
  · rw [hmap]
    exact .inr ⟨fails, hfit, rfl⟩

/-- The chunks of a new slab. -/
def newChunks (bin slab : Nat) : List Nat := (List.range (chunkCount bin)).map (chunkAt bin slab)

theorem isChunk_of_newChunks (hc : c ∈ newChunks bin slab) : IsChunk bin slab c := by
  obtain ⟨k, hk, rfl⟩ := List.mem_map.mp hc
  exact ⟨k, List.mem_range.mp hk, rfl⟩

theorem newChunks_pairwise (hbin : ValidBin bin) (slab : Nat) : (newChunks bin slab).Pairwise fun x y => x + 32 ≤ y := by
  have hsize := binSize_bounds hbin
  refine List.pairwise_map.mpr (List.pairwise_lt_range.imp fun {k k'} hlt => ?_)
  have := chunkAt_le bin slab hlt
  omega

/-- The writes of `slab_create` to its page. -/
def slabMem (mem : Bytes) (bin page : Nat) : Bytes :=
  let mem := (((mem.setAddr page 0).setU16 (page + 8) bin).setAddr (freeListAt page) 0).setU16 (freeChunksAt page) 0
  let mem := (newChunks bin page).foldl (fun mem chunk => mem.pushLink (freeListAt page) chunk) mem
  (mem.setU16 (page + 10) (chunkCount bin)).setU16 (freeChunksAt page) (chunkCount bin)

theorem slabMem_of_outside (mem : Bytes) {k : Nat} (hbin : ValidBin bin) (hk : k < slab ∨ slab + 4096 ≤ k) :
    slabMem mem bin slab k = mem k := by
  unfold slabMem
  rw [sameOutside_setU16 _ _ _ k (by unfold freeChunksAt; omega), sameOutside_setU16 _ _ _ k (by omega)]
  refine (same_foldl_pushLink ?_ (show k + 1 ≤ freeListAt slab ∨ freeListAt slab + 8 ≤ k by unfold freeListAt; omega) k
    le_rfl (by omega)).trans ?_
  · intro x hx
    have := (isChunk_of_newChunks hx).bounds
    have := binSize_bounds hbin
    omega
  · rw [sameOutside_setU16 _ _ _ k (by unfold freeChunksAt; omega),
      sameOutside_setAddr _ _ _ k (by unfold freeListAt; omega), sameOutside_setU16 _ _ _ k (by omega),
      sameOutside_setAddr _ _ _ k (by omega)]

theorem slabOk_slabMem {mem : Bytes} (hbin : ValidBin bin) (hzero : ∀ k, slab ≤ k → k < slab + 4096 → mem k = 0)
    (hlt : slab + 4096 ≤ 2 ^ 64) : SlabOk (slabMem mem bin slab) bin slab (newChunks bin slab).reverse := by
  have hsize := binSize_bounds hbin
  have hbounds : ∀ x ∈ newChunks bin slab, slab + 24 ≤ x ∧ x + 32 ≤ slab + 4096 := by
    intro x hx
    have := (isChunk_of_newChunks hx).bounds
    omega
  have hpair := newChunks_pairwise hbin slab
  obtain ⟨start, hstart⟩ : ∃ start, start =
      (((mem.setAddr slab 0).setU16 (slab + 8) bin).setAddr (freeListAt slab) 0).setU16 (freeChunksAt slab) 0 :=
    ⟨_, rfl⟩
  have hempty : Seg (link start) (link start (freeListAt slab)) [] none := by
    have hhead : start.addr (freeListAt slab) = 0 := by
      rw [hstart, ((sameOutside_setU16 _ _ _).same (by unfold freeChunksAt freeListAt; omega)).addr,
        addr_setAddr _ _ (by norm_num)]
    rw [link, hhead]
    rfl
  have hseg := seg_foldl_pushLink hempty
    (fun x hx => ⟨by have := hbounds x hx; omega, by have := hbounds x hx; omega, .inr (by
      have := hbounds x hx
      unfold freeListAt
      omega)⟩) (by simp) (by simp) (hpair.imp fun hxy => .inl (by omega))
  rw [List.append_nil] at hseg
  have hmem : slabMem mem bin slab = (((newChunks bin slab).foldl (fun mem chunk => mem.pushLink (freeListAt slab) chunk)
      start).setU16 (slab + 10) (chunkCount bin)).setU16 (freeChunksAt slab) (chunkCount bin) := by
    rw [slabMem, hstart]
  refine ⟨?_, ?_, fun x hx => isChunk_of_newChunks (List.mem_reverse.mp hx), ?_, fun x hx => ?_⟩
  · have hsame : ∀ {x}, slab + 16 ≤ x → Same ((newChunks bin slab).foldl
        (fun mem chunk => mem.pushLink (freeListAt slab) chunk) start) (slabMem mem bin slab) x 8 := by
      intro x hx
      rw [hmem]
      exact ((sameOutside_setU16 _ _ _).same (.inr (by omega))).trans
        ((sameOutside_setU16 _ _ _).same (.inr (by unfold freeChunksAt; omega)))
    rw [(hsame (show slab + 16 ≤ freeListAt slab from le_rfl)).link]
    exact hseg.congr fun x hx => (hsame (by have := hbounds x (List.mem_reverse.mp hx); omega)).link
  · exact List.nodup_reverse.mpr (hpair.imp fun hxy heq => by omega)
  · rw [hmem, u16_setU16, Nat.mod_eq_of_lt hsize.2.2.2, List.length_reverse, newChunks, List.length_map,
      List.length_range]
  have hx' := List.mem_reverse.mp hx
  have hb := hbounds x hx'
  rw [hmem, ((sameOutside_setU16 _ _ _).same (.inr (by unfold freeChunksAt; omega))).addr,
    ((sameOutside_setU16 _ _ _).same (.inr (by omega))).addr]
  -- the links of the other chunks are apart from this one
  have hlinks : ∀ y ∈ newChunks bin slab, x + 16 + 8 ≤ y ∨ y + 8 ≤ x + 16 := by
    intro y hy
    by_cases hxy : y = x
    · omega
    · have := (isChunk_of_newChunks hy).apart (isChunk_of_newChunks hx') hxy
      omega
  rw [(same_foldl_pushLink hlinks (.inr (by unfold freeListAt; omega))).addr, hstart,
    ((sameOutside_setU16 _ _ _).same (.inr (by unfold freeChunksAt; omega))).addr,
    ((sameOutside_setAddr _ _ _).same (.inr (by unfold freeListAt; omega))).addr,
    ((sameOutside_setU16 _ _ _).same (.inr (by omega))).addr,
    ((sameOutside_setAddr _ _ _).same (.inr (by omega))).addr]
  have hz : Same zero mem (x + 16) 8 := fun k hlo hhi => hzero k (by omega) (by omega)
  rw [hz.addr]
  rfl

theorem mem_update_cons {bin' s : Nat} : s ∈ update slabs bin (slab :: slabs bin) bin' ↔
    s ∈ slabs bin' ∨ s = slab ∧ bin' = bin := by
  by_cases hne : bin' = bin
  · rw [hne, update_self, List.mem_cons, or_comm, and_iff_left rfl]
  · simp [hne]

/-- A new page becomes a slab in front of its bin. -/
theorem HeapInv.addSlab (hinv : HeapInv slabs free live h) (hbin : ValidBin bin) {l : List Nat}
    (hfit : h.heapNext + 4096 ≤ heapStart + heapSize) (hbins : h'.bins = update h.bins bin h.heapNext)
    (hend : h'.heapEnd = h.heapEnd) (hnext : h'.heapNext = h.heapNext + 4096)
    (hmapped : ∀ v < h.heapNext, h'.mapped v = h.mapped v) (hmem : SameOutside h.mem h'.mem h.heapNext 4096)
    (hlink : h'.mem.addr h.heapNext = h.bins bin) (hok : SlabOk h'.mem bin h.heapNext l) :
    HeapInv (update slabs bin (h.heapNext :: slabs bin)) (update free h.heapNext l) live h' := by
  obtain ⟨haligned, hstart, -⟩ := hinv.cursor
  have hlt : h.heapNext + 4096 < 2 ^ 64 := lt_of_le_of_lt hfit (by decide)
  have hcases : ∀ {bin' s}, s ∈ update slabs bin (h.heapNext :: slabs bin) bin' →
      s ∈ slabs bin' ∧ s + 4096 ≤ h.heapNext ∨ s = h.heapNext ∧ bin' = bin := by
    exact fun hs => (mem_update_cons.mp hs).imp_left fun hs => ⟨hs, (hinv.place _ _ hs).2.2.1⟩
  have hbelow : ∀ {off len}, off + len ≤ h.heapNext → Same h.mem h'.mem off len := fun hle => hmem.same (.inl hle)
  have hchain : ∀ bin', Seg (link h.mem) (if h.bins bin' = 0 then none else some (h.bins bin')) (slabs bin') none →
      Seg (link h'.mem) (if h.bins bin' = 0 then none else some (h.bins bin')) (slabs bin') none := fun bin' hseg =>
    hseg.congr fun s hs => (hbelow (by have := hinv.place _ _ hs; omega)).link
  refine ⟨fun bin' hbin' => ?_, fun bin' s hs => ?_, fun bin' s hs => ?_, fun bin' => ?_, fun b1 b2 s hs1 hs2 => ?_,
    fun bin' s hs => ?_, fun b hb => ?_, hinv.apart, ?_, hend.trans hinv.heapEnd⟩
  · rw [hbins]
    by_cases hne : bin' = bin
    · subst hne
      rw [update_self, update_self, if_neg (by unfold heapStart at hstart; omega)]
      refine ⟨rfl, ?_⟩
      rw [link, hlink]
      exact hchain bin' (hinv.chain bin' hbin')
    · rw [update_of_ne hne, update_of_ne hne]
      exact hchain bin' (hinv.chain bin' hbin')
  · rcases hcases hs with ⟨hs, -⟩ | ⟨rfl, rfl⟩
    · exact hinv.bins bin' s hs
    · exact hbin
  · rw [hnext]
    rcases hcases hs with ⟨hs, -⟩ | ⟨rfl, rfl⟩
    · have := hinv.place bin' s hs
      omega
    · exact ⟨haligned, hstart, le_rfl, hfit⟩
  · refine update_ind bin' (List.nodup_cons.mpr ⟨fun hmem' => ?_, hinv.nodup bin⟩) fun _ => hinv.nodup bin'
    have := (hinv.place _ _ hmem').2.2.1
    omega
  · rcases hcases hs1 with ⟨hs1, hlt1⟩ | ⟨rfl, rfl⟩ <;> rcases hcases hs2 with ⟨hs2, hlt2⟩ | ⟨heq, rfl⟩
    · exact hinv.once _ _ _ hs1 hs2
    · omega
    · omega
    · rfl
  · rcases hcases hs with ⟨hs, hle⟩ | ⟨rfl, rfl⟩
    · rw [update_of_ne (by omega)]
      refine (hinv.slabOk bin' s hs).congr (hbelow (by omega)) fun x hx => hbelow ?_
      have := ((hinv.slabOk bin' s hs).chunks x hx).bounds
      have := binSize_bounds (hinv.bins bin' s hs)
      omega
    · rwa [update_self]
  · have hbd := hinv.block_bounds hb
    have hkept : BlockOk slabs free h' b := (hinv.blocks b hb).congr (by omega)
      (fun v _ hv => hmapped v (by omega))
      (.of_same (hbelow (by omega))) (.of_same (hbelow (by omega)))
    refine ⟨hkept.storage.imp ?_ ?_, hkept.ptr, hkept.room⟩
    · rintro ⟨bin', s, hin, hheader⟩
      refine ⟨bin', s, ⟨mem_update_cons.mpr (.inl hin.mem), hin.chunk, ?_, hin.len⟩, hheader⟩
      have := (hinv.place _ _ hin.mem).2.2.1
      rw [update_of_ne (by omega)]
      exact hin.used
    · rintro ⟨pages, hin, hheader⟩
      refine ⟨pages, { hin with apart := fun bin' s hs => ?_ }, hheader⟩
      rcases hcases hs with ⟨hs, -⟩ | ⟨rfl, -⟩
      · exact hin.apart bin' s hs
      · exact .inr hbd.2.1
  · rw [hnext]
    omega

theorem slabCreate_eq {page fails} (hmap : heapMapPage h = ({ h with
      fails := fails
      heapNext := h.heapNext + 4096
      mapped := update h.mapped h.heapNext true
      mem := h.mem.fill h.heapNext 4096 0 }, page)) (hpage : page ≠ 0) :
    slabCreate h bin = ({ h with
      fails := fails
      heapNext := h.heapNext + 4096
      mapped := update h.mapped h.heapNext true
      mem := slabMem (h.mem.fill h.heapNext 4096 0) bin page
      stats := { h.stats with slabPages := add64 h.stats.slabPages 1 } }, page) := by
  rw [slabCreate, hmap]
  dsimp only
  rw [if_neg hpage]
  rfl

theorem slabGrow_cases (hinv : HeapInv slabs free live h) (hbin : ValidBin bin) :
    (∃ fails, slabGrow h bin = ({ h with fails := fails }, 0)) ∨
      ∃ h' l, slabGrow h bin = (h', h.heapNext) ∧ h.heapNext ≠ 0 ∧ l ≠ [] ∧ Undisturbed live h h' ∧
        HeapInv (update slabs bin (h.heapNext :: slabs bin)) (update free h.heapNext l) live h' := by
  have hsize := binSize_bounds hbin
  have hne : h.heapNext ≠ 0 := by
    have := hinv.cursor.2.1
    unfold heapStart at this
    omega
  rcases heapMapPage_cases hinv.cursor.1 hinv.heapEnd with ⟨fails, hmap⟩ | ⟨fails, hfit, hmap⟩
  · exact .inl ⟨fails, by rw [slabGrow, slabCreate, hmap]; rfl⟩
  right
  have hlt : h.heapNext + 4096 < 2 ^ 64 := lt_of_le_of_lt hfit (by decide)
  have hfill : ∀ k, h.heapNext ≤ k → k < h.heapNext + 4096 → h.mem.fill h.heapNext 4096 0 k = 0 :=
    fun k hlo hhi => if_pos ⟨hlo, hhi⟩
  have hok := slabOk_slabMem hbin hfill hlt.le
  obtain ⟨mem, hmem⟩ : ∃ mem, mem = (slabMem (h.mem.fill h.heapNext 4096 0) bin h.heapNext).setAddr h.heapNext
      (h.bins bin) := ⟨_, rfl⟩
  have hlink : mem.addr h.heapNext = h.bins bin := by
    rw [hmem]
    refine addr_setAddr _ _ ?_
    -- the bin starts with a slab or is empty
    have hhead := (hinv.chain bin hbin.2).head_eq
    by_cases hzero : h.bins bin = 0
    · omega
    · rw [if_neg hzero] at hhead
      have := (hinv.place bin (h.bins bin) (List.mem_of_mem_head? hhead.symm)).2.2.1
      omega
  have houtside : SameOutside h.mem mem h.heapNext 4096 := by
    intro k hk
    rw [hmem, sameOutside_setAddr _ _ _ k (by omega), slabMem_of_outside _ hbin hk, sameOutside_fill _ _ _ _ k hk]
  refine ⟨{ h with
      fails := fails
      heapNext := h.heapNext + 4096
      mapped := update h.mapped h.heapNext true
      mem := mem
      stats := { h.stats with slabPages := add64 h.stats.slabPages 1 }
      bins := update h.bins bin h.heapNext }, (newChunks bin h.heapNext).reverse, ?_, hne, ?_,
    ⟨fun b hb => houtside.same (.inl (hinv.block_bounds hb).2.1), rfl⟩,
    hinv.addSlab hbin hfit rfl rfl rfl (fun v hv => update_of_ne hv.ne _ _) houtside hlink
      (hok.congr ?_ ?_)⟩
  · rw [slabGrow, slabCreate_eq hmap hne]
    dsimp only
    rw [if_neg hne, hmem]
  · intro hnil
    have := congrArg List.length hnil
    rw [List.length_reverse, newChunks, List.length_map, List.length_range, List.length_nil] at this
    omega
  · rw [hmem]
    exact (sameOutside_setAddr _ _ _).same (.inr le_rfl)
  intro c hc
  have := (isChunk_of_newChunks (List.mem_reverse.mp hc)).bounds
  rw [hmem]
  exact (sameOutside_setAddr _ _ _).same (.inr (by omega))

/-- The outcome of a search for a chunk: no chunk, or one that left its free list. -/
def ChunkTaken (slabs free : Nat → List Nat) (live : List Block) (bin : Nat) (h : Heap)
    (r : Result (Heap × Nat)) : Prop :=
  ∃ h' c slabs' free', r = .ok (h', c) ∧ Undisturbed live h h' ∧ HeapInv slabs' free' live h' ∧
    (∀ x, OnFree slabs free x → x ≠ c → OnFree slabs' free' x) ∧ (c ≠ 0 → ∃ slab, Loose slabs' free' live bin slab c)

section

variable (hinv : HeapInv slabs free live h)

include hinv

theorem chunkTaken_pop (hslab : slab ∈ slabs bin) (hne : free slab ≠ []) :
    ChunkTaken slabs free live bin h (slabPop h slab) := by
  obtain ⟨c, l, hfree⟩ := List.exists_cons_of_ne_nil hne
  obtain ⟨h', hpop, hsame, hinv', hloose⟩ := hinv.pop hslab hfree
  refine ⟨h', c, slabs, _, hpop, hsame, hinv', ?_, fun _ => ⟨slab, hloose⟩⟩
  rintro x ⟨bin', s, hs, hx⟩ hxc
  refine ⟨bin', s, hs, ?_⟩
  revert hx
  refine update_ind s (fun hx => ?_) fun _ => id
  rw [hfree] at hx
  exact (List.mem_cons.mp hx).resolve_left hxc

theorem chunkTaken_grow (hbin : ValidBin bin) : ChunkTaken slabs free live bin h (match slabGrow h bin with
      | (h, slab) => if slab = 0 then .ok (h, 0) else slabPop h slab) := by
  rcases slabGrow_cases hinv hbin with ⟨fails, hgrow⟩ | ⟨h₁, l, hgrow, hne, hl, hsame, hinv₁⟩
  · rw [hgrow]
    exact ⟨_, 0, slabs, free, rfl, ⟨fun b _ => .refl _ b.raw b.len, rfl⟩, hinv.of_eq rfl rfl rfl rfl rfl,
      fun x hx _ => hx, fun hno => absurd rfl hno⟩
  rw [hgrow]
  dsimp only
  rw [if_neg hne]
  have hnew : h.heapNext ∈ update slabs bin (h.heapNext :: slabs bin) bin := mem_update_cons.mpr (.inr ⟨rfl, rfl⟩)
  obtain ⟨h', c, slabs', free', hpop, hsame', hinv', hkeep, hloose⟩ :=
    chunkTaken_pop hinv₁ hnew (by rwa [update_self])
  refine ⟨h', c, slabs', free', hpop, hsame.trans hsame', hinv', fun x hx => hkeep x ?_, hloose⟩
  obtain ⟨bin', s, hs, hx⟩ := hx
  have := (hinv.place bin' s hs).2.2.1
  exact ⟨bin', s, mem_update_cons.mpr (.inl hs), by rwa [update_of_ne (by omega)]⟩

theorem slabAlloc_spec (hbin : ValidBin bin) : ChunkTaken slabs free live bin h (slabAlloc h bin) := by
  unfold slabAlloc
  by_cases hzero : h.bins bin = 0
  · have htaken := chunkTaken_grow hinv hbin
    rw [if_pos hzero]
    rcases slabGrow_cases hinv hbin with ⟨fails, hgrow⟩ | ⟨h₁, l, hgrow, hne, hl, -, hinv₁⟩
    · rw [hgrow] at htaken ⊢
      exact htaken
    -- the new slab has free chunks
    have hnew : h.heapNext ∈ update slabs bin (h.heapNext :: slabs bin) bin := mem_update_cons.mpr (.inr ⟨rfl, rfl⟩)
    have hcount : h₁.mem.u16 (freeChunksAt h.heapNext) ≠ 0 := by
      rw [(hinv₁.slabOk bin _ hnew).count, update_self]
      exact fun hlen => hl (List.length_eq_zero_iff.mp hlen)
    rw [hgrow] at htaken ⊢
    dsimp only at htaken ⊢
    rw [if_neg hne] at htaken ⊢
    rwa [if_neg hcount]
  rw [if_neg hzero]
  dsimp only
  rw [if_neg hzero]
  have hslab : h.bins bin ∈ slabs bin := by
    have hhead := (hinv.chain bin hbin.2).head_eq
    rw [if_neg hzero] at hhead
    exact List.mem_of_mem_head? hhead.symm
  split
  · exact chunkTaken_grow hinv hbin
  rename_i hcount
  refine chunkTaken_pop hinv hslab fun hnil => hcount ?_
  rw [(hinv.slabOk bin _ hslab).count, hnil]
  rfl

end

/-! ### Direct allocations -/

/-- What the loop that maps pages does; it maps only pages from the cursor on. -/
structure PagesMapped (h : Heap) (i rest : Nat) (r : Heap × Option Nat) : Prop where
  eq : ∃ fails next mapped, r.1 = { h with fails := fails, heapNext := next, mapped := mapped }
  below : ∀ v < h.heapNext, r.1.mapped v = h.mapped v
  only : ∀ v, r.1.mapped v = true → h.mapped v = true ∨ h.heapNext ≤ v ∧ v + 4096 ≤ h.heapNext + rest * 4096
  failed : ∀ k, r.2 = some k → k < i + rest
  done : r.2 = none → r.1.heapNext = h.heapNext + rest * 4096 ∧
    ∀ j < rest, r.1.mapped (h.heapNext + j * 4096) = true

theorem mapPages_spec (h : Heap) (i rest : Nat) (hlt : h.heapNext + rest * 4096 < 2 ^ 64) :
    PagesMapped h i rest (mapPages h i rest) := by
  induction rest generalizing h i with
  | zero =>
    exact ⟨⟨h.fails, h.heapNext, h.mapped, rfl⟩, fun _ _ => rfl, fun _ => .inl, nofun, fun _ => ⟨rfl, nofun⟩⟩
  | succ rest ih =>
  have hnext : add64 h.heapNext pageSize = h.heapNext + 4096 :=
    add64_of_lt (show h.heapNext + 4096 < 2 ^ 64 by omega)
  rw [mapPages, hnext]
  rcases vmmMap_cases { h with heapNext := h.heapNext + 4096 } h.heapNext with
    ⟨fails, hmap⟩ | ⟨fails, -, hmap⟩
  · rw [hmap]
    refine ⟨⟨fails, h.heapNext + 4096, h.mapped, rfl⟩, fun _ _ => rfl, fun _ => .inl, ?_, nofun⟩
    rintro k ⟨⟩
    omega
  rw [hmap]
  have hrest := ih { h with
    fails := fails
    heapNext := h.heapNext + 4096
    mapped := update h.mapped h.heapNext true } (i + 1) (by dsimp only; omega)
  obtain ⟨fails', next, mapped, heq⟩ := hrest.eq
  have hbelow := hrest.below
  dsimp only at hbelow
  refine ⟨⟨fails', next, mapped, heq⟩, fun v hv => ?_, fun v hv => ?_, fun k hk => ?_, fun hnone => ?_⟩
  · rw [hbelow v (by omega), update_of_ne (by omega)]
  · rcases hrest.only v hv with hold | hnew
    · dsimp only at hold
      by_cases hvn : v = h.heapNext
      · exact .inr ⟨hvn.ge, by omega⟩
      · rw [update_of_ne hvn] at hold
        exact .inl hold
    · dsimp only at hnew
      exact .inr ⟨by omega, by omega⟩
  · have := hrest.failed k hk
    omega
  obtain ⟨hend, hall⟩ := hrest.done hnone
  dsimp only at hend hall
  refine ⟨by rw [hend]; omega, fun j hj => ?_⟩
  cases j with
  | zero =>
    have hfirst : h.heapNext + 0 * 4096 = h.heapNext := by omega
    rw [hfirst, hbelow _ (by omega), update_self]
  | succ j =>
    rw [show h.heapNext + (j + 1) * 4096 = h.heapNext + 4096 + j * 4096 by omega]
    exact hall j (by omega)

/-- The heap after `count` pages have been mapped above the cursor. -/
def Heap.grown (h : Heap) (count : Nat) : Heap :=
  { h with
    heapNext := h.heapNext + count * 4096
    mapped := fun v => h.mapped v || decide (h.heapNext ≤ v ∧ v < h.heapNext + count * 4096 ∧ v % 4096 = 0) }

theorem grown_succ (haligned : h.heapNext % 4096 = 0) (count : Nat) :
    Heap.grown { h with
      heapNext := h.heapNext + 4096
      mapped := update h.mapped h.heapNext true } count = h.grown (count + 1) := by
  have hnext : h.heapNext + 4096 + count * 4096 = h.heapNext + (count + 1) * 4096 := by omega
  have hmapped : (fun v => update h.mapped h.heapNext true v ||
      decide (h.heapNext + 4096 ≤ v ∧ v < h.heapNext + (count + 1) * 4096 ∧ v % 4096 = 0)) =
      fun v => h.mapped v || decide (h.heapNext ≤ v ∧ v < h.heapNext + (count + 1) * 4096 ∧ v % 4096 = 0) := by
    funext v
    by_cases hv : v = h.heapNext
    · rw [hv, update_self, Bool.true_or, decide_eq_true ⟨le_rfl, by omega, haligned⟩, Bool.or_true]
    · rw [update_of_ne hv]
      exact congrArg _ (decide_eq_decide.mpr (by omega))
  rw [Heap.grown, Heap.grown, hnext, hmapped]

theorem mapPages_eq_grown (i : Nat) {rest : Nat} (hlt : h.heapNext + rest * 4096 < 2 ^ 64)
    (haligned : h.heapNext % 4096 = 0) (hfails : h.fails = fun _ => false)
    (hfree : ∀ v, h.heapNext ≤ v → h.mapped v = false) : mapPages h i rest = (h.grown rest, none) := by
  induction rest generalizing h i with
  | zero =>
    have hnone : (fun v => h.mapped v || decide (h.heapNext ≤ v ∧ v < h.heapNext + 0 * 4096 ∧ v % 4096 = 0)) =
        h.mapped := by
      funext v
      rw [decide_eq_false (by omega), Bool.or_false]
    rw [Heap.grown, hnone, Nat.zero_mul]
    rfl
  | succ rest ih =>
  have hnext : add64 h.heapNext pageSize = h.heapNext + 4096 :=
    add64_of_lt (show h.heapNext + 4096 < 2 ^ 64 by omega)
  have hmap : Heap.vmmMap { h with heapNext := h.heapNext + 4096 } h.heapNext = ({ h with
      heapNext := h.heapNext + 4096
      mapped := update h.mapped h.heapNext true }, true) := by
    simp only [Heap.vmmMap, Heap.ask, hfails, hfree h.heapNext le_rfl, Bool.or_false, Bool.false_eq_true, if_false]
  have hfree' : ∀ v, h.heapNext + 4096 ≤ v → update h.mapped h.heapNext true v = false := fun v hv =>
    (update_of_ne (by omega) _ _).trans (hfree v (by omega))
  have hrest := ih (h := { h with
    heapNext := h.heapNext + 4096
    mapped := update h.mapped h.heapNext true }) (i + 1) (by dsimp only; omega) (by dsimp only; omega)
    hfails hfree'
  rw [mapPages, hnext, hmap]
  dsimp only
  rw [hrest, grown_succ haligned]

theorem kmalloc_eq_grown (hbin : binForSize size = none) (hsize : size ≠ 0) (hpages : directPages size ≠ 0)
    (hlt : h.heapNext + directPages size * 4096 < 2 ^ 64) (haligned : h.heapNext % 4096 = 0)
    (hfails : h.fails = fun _ => false) (hfree : ∀ v, h.heapNext ≤ v → h.mapped v = false) :
    kmalloc h size = .ok ({ h.grown (directPages size) with
      mem := writeHeader h.mem h.heapNext (directPages size) magicDirect size 0
      stats := h.stats.allocated size (directPages size) }, add64 h.heapNext allocHeaderSize) := by
  have hask : h.ask = (h, false) := by
    rw [ask_eq, hfails]
    exact congrArg (fun fails => ({ h with fails := fails }, false)) hfails.symm
  rw [kmalloc, if_neg hsize, hbin]
  rw [kmallocDirect, hask]
  dsimp only
  rw [if_neg (by simp [hpages]), mapPages_eq_grown 0 hlt haligned hfails hfree]
  rfl

theorem unmapPages_mapped (h : Heap) (base count : Nat) (hlt : base + count * 4096 < 2 ^ 64) (v : Nat) :
    ((h.unmapPages base count).mapped v = true → h.mapped v = true) ∧
      (v < base → (h.unmapPages base count).mapped v = h.mapped v) := by
  unfold Heap.unmapPages
  dsimp only
  induction count with
  | zero => exact ⟨id, fun _ => rfl⟩
  | succ count ih =>
  have hle : base + count * 4096 < 2 ^ 64 :=
    lt_of_le_of_lt (Nat.add_le_add_left (Nat.mul_le_mul_right _ count.le_succ) base) hlt
  obtain ⟨ih, ih'⟩ := ih hle
  have hpage : add64 base (count * pageSize) = base + count * 4096 := by
    rw [pageSize, add64_of_lt hle]
  rw [List.range_succ, List.foldl_append, List.foldl_cons, List.foldl_nil, hpage]
  exact update_ind v ⟨nofun, fun hlt => by omega⟩ fun _ => ⟨ih, ih'⟩

theorem directPages_spec (hsize : size + 24 ≤ 65535 * 4096) :
    size + 24 ≤ directPages size * 4096 ∧ 0 < directPages size ∧ directPages size < 65536 := by
  have htotal : add64 size allocHeaderSize = size + 24 := add64_of_lt (show size + 24 < 2 ^ 64 by omega)
  rw [directPages, htotal, pageSize, alignUp_page]
  omega

theorem HeapInv.addPages (hinv : HeapInv slabs free live h) {pages : Nat} (hpages : 0 < pages ∧ pages < 65536)
    (hsize : size + 24 ≤ pages * 4096) (hlt : h.heapNext + pages * 4096 < 2 ^ 64) (hbins : h'.bins = h.bins)
    (hend : h'.heapEnd = h.heapEnd) (hnext : h'.heapNext = h.heapNext + pages * 4096)
    (hbelow : ∀ v < h.heapNext, h'.mapped v = h.mapped v)
    (hmapped : ∀ j < pages, h'.mapped (h.heapNext + j * 4096) = true) (hmem : SameOutside h.mem h'.mem h.heapNext 24)
    (hheader : Header h'.mem h.heapNext pages magicDirect 0) :
    HeapInv slabs free (⟨h.heapNext + 24, size, h.heapNext, pages * 4096⟩ :: live) h' := by
  obtain ⟨haligned, hstart, -⟩ := hinv.cursor
  have hkeep : KeepsLists slabs free live h.mem h'.mem := by
    refine hinv.keepsApart hmem (fun bin s hs => .inl ?_) (fun bin s hs c hc => .inl ?_)
      fun b hb => .inl (hinv.block_bounds hb).2.1
    · have := hinv.place bin s hs
      omega
    · have := hinv.place bin s hs
      have := ((hinv.slabOk bin s hs).chunks c hc).bounds
      have := binSize_bounds (hinv.bins bin s hs)
      omega
  have hnew := hinv.congr ⟨hbins, hend, by omega, by omega, fun b hb v _ hv => hbelow v (by
    have := hinv.block_bounds hb
    omega)⟩ hkeep
  have hin : InPages slabs h' ⟨h.heapNext + 24, size, h.heapNext, pages * 4096⟩ pages :=
    ⟨hpages, rfl, haligned, ⟨hstart, hnext.ge⟩, hmapped, fun bin s hs => .inl (hinv.place bin s hs).2.2.1⟩
  refine { hnew with
    blocks := List.forall_mem_cons.mpr ⟨⟨.inr ⟨pages, hin, hheader⟩, .inl rfl, ?_⟩, hnew.blocks⟩
    apart := List.pairwise_cons.mpr ⟨fun b hb => .inr (hinv.block_bounds hb).2.1, hnew.apart⟩ }
  show h.heapNext + 24 + size ≤ h.heapNext + pages * 4096
  omega

/-- The length of the storage that a request gets. -/
def storageLen (size : Nat) : Nat :=
  match binForSize size with
  | some bin => binSize bin
  | none => directPages size * pageSize

/-- The block that `kmalloc` hands out at a pointer. -/
def blockAt (ptr size : Nat) : Block := ⟨ptr, size, ptr - allocHeaderSize, storageLen size⟩

/-- The outcome of a request: no block, or a new one, whose chunk left its free list. -/
structure Allocated (slabs free : Nat → List Nat) (live : List Block) (size : Nat) (h : Heap) (r : Heap × Nat)
    (slabs' free' : Nat → List Nat) : Prop where
  undisturbed : Undisturbed live h r.1
  onFree : ∀ x, OnFree slabs free x → x + allocHeaderSize ≠ r.2 → OnFree slabs' free' x
  inv : HeapInv slabs' free' (if r.2 = 0 then live else blockAt r.2 size :: live) r.1

theorem kmallocDirect_spec (hinv : HeapInv slabs free live h) (hsize : size + 24 ≤ 65535 * 4096)
    (hbin : binForSize size = none) (hlt : h.heapNext + directPages size * 4096 < 2 ^ 64) :
    Allocated slabs free live size h (kmallocDirect h size) slabs free := by
  obtain ⟨hfit, hpos, hmax⟩ := directPages_spec hsize
  rw [kmallocDirect, ask_eq]
  dsimp only
  split
  · exact ⟨⟨fun b _ => .refl _ b.raw b.len, rfl⟩, fun x hx _ => hx, hinv.of_eq rfl rfl rfl rfl rfl⟩
  obtain ⟨⟨fails, next, mapped, heq⟩, hbelow, -, hfailed, hdone⟩ :=
    mapPages_spec { h with fails := fun n => h.fails (n + 1) } 0 (directPages size) hlt
  rcases hmap : mapPages { h with fails := fun n => h.fails (n + 1) } 0 (directPages size) with ⟨h₁, _ | i⟩
  · rw [hmap] at heq hbelow hdone
    obtain ⟨hnext, hmapped⟩ := hdone rfl
    subst heq
    have hptr : add64 h.heapNext allocHeaderSize = h.heapNext + 24 :=
      add64_of_lt (show h.heapNext + 24 < 2 ^ 64 by omega)
    have houtside := sameOutside_writeHeader h.mem h.heapNext (directPages size) magicDirect size 0
    refine ⟨⟨fun b hb => houtside.same (.inl (hinv.block_bounds hb).2.1), rfl⟩, fun x hx _ => hx, ?_⟩
    have hblock : blockAt (h.heapNext + 24) size = ⟨h.heapNext + 24, size, h.heapNext, directPages size * 4096⟩ := by
      rw [blockAt, storageLen, hbin]
      rfl
    rw [hptr, if_neg (Nat.succ_ne_zero _), hblock]
    exact hinv.addPages ⟨hpos, hmax⟩ hfit hlt rfl rfl hnext hbelow hmapped houtside
      (header_writeHeader _ _ _ hmax (by decide) (by norm_num))
  rw [hmap] at heq hbelow hfailed
  subst heq
  have hi := hfailed i rfl
  have hunmap := unmapPages_mapped { h with fails := fails, heapNext := next, mapped := mapped } h.heapNext i
    (lt_of_le_of_lt (Nat.add_le_add_left (Nat.mul_le_mul_right 4096 (by omega)) h.heapNext) hlt)
  refine ⟨⟨fun b _ => .refl _ b.raw b.len, rfl⟩, fun x hx _ => hx, hinv.congr ⟨rfl, rfl, le_rfl,
    ⟨hinv.cursor.1, hinv.cursor.2.2⟩, fun b hb v _ hv => ?_⟩ ?_⟩
  · have hv' := lt_of_lt_of_le hv (hinv.block_bounds hb).2.1
    exact ((hunmap v).2 hv').trans (hbelow v hv')
  · exact .refl slabs free live h.mem

/-! ### Requests -/

theorem binForSize_eq_some (hsize : 0 < size) (hlt : size + 24 < 2 ^ 64)
    (hbin : binForSize size = some bin) : ValidBin bin ∧ size + 24 ≤ binSize bin := by
  have htotal : add64 size allocHeaderSize = size + 24 := add64_of_lt hlt
  rw [binForSize, htotal] at hbin
  have hfit : size + 24 ≤ binSize bin := by simpa using List.find?_some hbin
  have hlt' : bin < 8 := List.mem_range.mp (List.mem_of_find?_eq_some hbin)
  refine ⟨⟨?_, hlt'⟩, hfit⟩
  by_contra hzero
  obtain rfl : bin = 0 := by omega
  have : binSize 0 = 16 := rfl
  omega

theorem kmalloc_spec (hinv : HeapInv slabs free live h) (hpos : 0 < size) (hsize : size + 24 ≤ 65535 * 4096)
    (hlt : binForSize size = none → h.heapNext + directPages size * 4096 < 2 ^ 64) :
    ∃ r slabs' free', kmalloc h size = .ok r ∧ Allocated slabs free live size h r slabs' free' := by
  unfold kmalloc
  rw [if_neg hpos.ne']
  cases hbin : binForSize size with
  | none => exact ⟨_, slabs, free, rfl, kmallocDirect_spec hinv hsize hbin (hlt hbin)⟩
  | some bin =>
  obtain ⟨hvalid, hfit⟩ := binForSize_eq_some hpos (by omega) hbin
  obtain ⟨h₁, c, slabs', free', halloc, hsame, hinv₁, hkeep, hloose⟩ := slabAlloc_spec hinv hvalid
  dsimp only
  rw [halloc]
  by_cases hc : c = 0
  · subst hc
    refine ⟨(h₁, 0), slabs', free', rfl, hsame, fun x hx _ => hkeep x hx ?_, hinv₁⟩
    exact hinv.onFree_ne_zero hx
  obtain ⟨slab, hloose⟩ := hloose hc
  have hbounds := hloose.chunk.bounds
  have hplace := hinv₁.place bin slab hloose.mem
  have hcursor := hinv₁.cursor
  have hptr : add64 c allocHeaderSize = c + 24 := add64_of_lt (show c + 24 < 2 ^ 64 by omega)
  have houtside := sameOutside_writeHeader h₁.mem c bin magicAlloc size 0
  have hheader := header_writeHeader h₁.mem c size (lt_trans hvalid.2 (by decide)) (show magicAlloc < 65536 by decide)
    (show 0 < 2 ^ 64 by norm_num)
  have hblock : blockAt (c + 24) size = ⟨c + 24, size, c, binSize bin⟩ := by
    rw [blockAt, storageLen, hbin]
    rfl
  refine ⟨({ h₁ with
    mem := writeHeader h₁.mem c bin magicAlloc size 0
    stats := h₁.stats.allocated size 0 }, add64 c allocHeaderSize), slabs', free', ?_, ?_, fun x hx hne =>
      hkeep x hx ?_, ?_⟩
  · simp only [bind, Except.bind, if_neg hc]
    rfl
  · refine hsame.trans ⟨fun b hb => houtside.same ?_, rfl⟩
    have := hloose.apart b hb
    omega
  · rintro rfl
    exact hne hptr.symm
  · rw [hptr, if_neg (Nat.succ_ne_zero _), hblock]
    exact (hinv₁.handOut hloose hfit houtside hheader).of_eq rfl rfl rfl rfl rfl

end Litenix.KernelHeap
