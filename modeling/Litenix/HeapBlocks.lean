import Litenix.Heap
import Mathlib.Tactic.IntervalCases

/-! What the heap looks like in memory. A block that has been handed out is a chunk of a slab or a run of pages,
starts with a header, and has its storage for itself; an aligned block lies inside such a block and has a second
header right before it. The chunks that are not handed out are linked from their slab, and the slabs of a bin from
the bin. -/

namespace Litenix.KernelHeap

open Lib Bytes Function

variable {l : List Nat} {mem mem' : Bytes} {bin slab c k raw magic base : Nat}

/-! ### Chunks -/

/-- The bins that have chunks larger than a header. -/
def ValidBin (bin : Nat) : Prop := 1 ≤ bin ∧ bin < binCount

theorem binSize_bounds (h : ValidBin bin) :
    32 ≤ binSize bin ∧ binSize bin ≤ 2048 ∧ 0 < chunkCount bin ∧ chunkCount bin < 65536 := by
  obtain ⟨hlo, hhi⟩ := h
  unfold binCount at hhi
  interval_cases bin <;> decide

def IsChunk (bin slab c : Nat) : Prop := ∃ k < chunkCount bin, c = chunkAt bin slab k

theorem IsChunk.bounds (h : IsChunk bin slab c) : slab + 24 ≤ c ∧ c + binSize bin ≤ slab + 4096 := by
  obtain ⟨k, hk, rfl⟩ := h
  have hfit : (k + 1) * binSize bin ≤ 4096 - 24 :=
    (Nat.mul_le_mul_right _ hk).trans (Nat.div_mul_le_self (pageSize - slabHeaderSize) (binSize bin))
  rw [Nat.add_mul, Nat.one_mul] at hfit
  unfold chunkAt slabHeaderSize
  omega

theorem chunkAt_le (bin slab : Nat) {k' : Nat} (hlt : k < k') :
    chunkAt bin slab k + binSize bin ≤ chunkAt bin slab k' := by
  have := Nat.mul_le_mul_right (binSize bin) (Nat.succ_le_of_lt hlt)
  rw [Nat.succ_mul] at this
  unfold chunkAt
  omega

theorem IsChunk.apart (h : IsChunk bin slab c) (h' : IsChunk bin slab c') (hne : c ≠ c') :
    c + binSize bin ≤ c' ∨ c' + binSize bin ≤ c := by
  obtain ⟨k, -, rfl⟩ := h
  obtain ⟨k', -, rfl⟩ := h'
  rcases lt_trichotomy k k' with hlt | rfl | hgt
  · exact .inl (chunkAt_le bin slab hlt)
  · exact absurd rfl hne
  · exact .inr (chunkAt_le bin slab hgt)

/-! ### Headers -/

structure Header (mem : Bytes) (raw bin magic base : Nat) : Prop where
  bin : mem.u16 raw = bin
  magic : mem.u16 (raw + 2) = magic
  base : mem.addr (raw + 16) = base

/-- The fields of a header other than `requested_size`. -/
def SameHeader (mem mem' : Bytes) (raw : Nat) : Prop := Same mem mem' raw 4 ∧ Same mem mem' (raw + 16) 8

theorem SameHeader.of_same (h : Same mem mem' raw 24) : SameHeader mem mem' raw :=
  ⟨h.mono (by omega) (by omega), h.mono (by omega) (by omega)⟩

theorem Header.congr (h : Header mem raw bin magic base)
    (hsame : SameHeader mem mem' raw) : Header mem' raw bin magic base where
  bin := (hsame.1.mono (by omega) (by omega)).u16.trans h.bin
  magic := (hsame.1.mono (by omega) (by omega)).u16.trans h.magic
  base := hsame.2.addr.trans h.base

theorem sameOutside_writeHeader (mem : Bytes) (raw bin magic size base : Nat) :
    SameOutside mem (writeHeader mem raw bin magic size base) raw 24 := by
  refine ((((SameOutside.mono (sameOutside_setU16 _ _ _) ?_ ?_).trans
    (.mono (sameOutside_setU16 _ _ _) ?_ ?_)).trans (.mono (sameOutside_setU32 _ _ _) ?_ ?_)).trans
    (.mono (sameOutside_setAddr _ _ _) ?_ ?_)).trans (.mono (sameOutside_setAddr _ _ _) ?_ ?_) <;> omega

theorem header_writeHeader (mem : Bytes) (raw size : Nat) (hbin : bin < 65536)
    (hmagic : magic < 65536) (hbase : base < 2 ^ 64) :
    Header (writeHeader mem raw bin magic size base) raw bin magic base where
  bin := by
    unfold writeHeader
    rw [((sameOutside_setAddr _ _ _).same (by omega)).u16, ((sameOutside_setAddr _ _ _).same (by omega)).u16,
      ((sameOutside_setU32 _ _ _).same (by omega)).u16, ((sameOutside_setU16 _ _ _).same (by omega)).u16,
      u16_setU16, Nat.mod_eq_of_lt hbin]
  magic := by
    unfold writeHeader
    rw [((sameOutside_setAddr _ _ _).same (by omega)).u16, ((sameOutside_setAddr _ _ _).same (by omega)).u16,
      ((sameOutside_setU32 _ _ _).same (by omega)).u16, u16_setU16, Nat.mod_eq_of_lt hmagic]
  base := addr_setAddr _ _ hbase

/-! ### Slabs and blocks -/

/-- A slab with the list of its free chunks. The `base` of a free chunk is `0`: the page was zeroed, and every
header of a chunk has this base. -/
structure SlabOk (mem : Bytes) (bin slab : Nat) (free : List Nat) : Prop where
  seg : Seg (link mem) (link mem (freeListAt slab)) free none
  nodup : free.Nodup
  chunks : ∀ c ∈ free, IsChunk bin slab c
  count : mem.u16 (freeChunksAt slab) = free.length
  bases : ∀ c ∈ free, mem.addr (c + 16) = 0

theorem SlabOk.congr (h : SlabOk mem bin slab free)
    (hslab : Same mem mem' (slab + 8) 16) (hfree : ∀ c ∈ free, Same mem mem' c 24) : SlabOk mem' bin slab free where
  seg := by
    rw [(hslab.mono (by unfold freeListAt; omega) (by unfold freeListAt; omega)).link]
    exact h.seg.congr fun c hc => ((hfree c hc).mono (by omega) (by omega)).link
  nodup := h.nodup
  chunks := h.chunks
  count := (hslab.mono (by unfold freeChunksAt; omega) (by unfold freeChunksAt; omega)).u16.trans h.count
  bases := fun c hc => ((hfree c hc).mono (by omega) (by omega)).addr.trans (h.bases c hc)

/-- A block that has been handed out: its pointer, the size that was asked for, and its storage. -/
structure Block where
  ptr : Nat
  size : Nat
  raw : Nat
  len : Nat
  deriving DecidableEq

def Block.Apart (b b' : Block) : Prop := b.raw + b.len ≤ b'.raw ∨ b'.raw + b'.len ≤ b.raw

theorem Block.Apart.symm {b b' : Block} (h : b.Apart b') : b'.Apart b := Or.symm h

structure InChunk (slabs free : Nat → List Nat) (b : Block) (bin slab : Nat) : Prop where
  mem : slab ∈ slabs bin
  chunk : IsChunk bin slab b.raw
  used : b.raw ∉ free slab
  len : b.len = binSize bin

structure InPages (slabs : Nat → List Nat) (h : Heap) (b : Block) (pages : Nat) : Prop where
  count : 0 < pages ∧ pages < 65536
  len : b.len = pages * 4096
  aligned : b.raw % 4096 = 0
  place : heapStart ≤ b.raw ∧ b.raw + b.len ≤ h.heapNext
  mapped : ∀ i < pages, h.mapped (b.raw + i * 4096) = true
  apart : ∀ bin slab, slab ∈ slabs bin → slab + 4096 ≤ b.raw ∨ b.raw + b.len ≤ slab

structure BlockOk (slabs free : Nat → List Nat) (h : Heap) (b : Block) : Prop where
  storage : (∃ bin slab, InChunk slabs free b bin slab ∧ Header h.mem b.raw bin magicAlloc 0) ∨
    ∃ pages, InPages slabs h b pages ∧ Header h.mem b.raw pages magicDirect 0
  ptr : b.ptr = b.raw + 24 ∨ b.raw + 48 ≤ b.ptr ∧ Header h.mem (b.ptr - 24) 0 magicAligned (b.raw + 24)
  room : b.ptr + b.size ≤ b.raw + b.len

/-- `slabs` are the slabs of each bin and `free` the free chunks of each slab, in the order of their lists. -/
structure HeapInv (slabs free : Nat → List Nat) (live : List Block) (h : Heap) : Prop where
  chain : ∀ bin < binCount, Seg (link h.mem) (if h.bins bin = 0 then none else some (h.bins bin)) (slabs bin) none
  bins : ∀ bin slab, slab ∈ slabs bin → ValidBin bin
  place : ∀ bin slab, slab ∈ slabs bin → slab % 4096 = 0 ∧ heapStart ≤ slab ∧ slab + 4096 ≤ h.heapNext ∧
    slab + 4096 ≤ heapStart + heapSize
  nodup : ∀ bin, (slabs bin).Nodup
  once : ∀ bin bin' slab, slab ∈ slabs bin → slab ∈ slabs bin' → bin = bin'
  slabOk : ∀ bin slab, slab ∈ slabs bin → SlabOk h.mem bin slab (free slab)
  blocks : ∀ b ∈ live, BlockOk slabs free h b
  apart : live.Pairwise Block.Apart
  cursor : h.heapNext % 4096 = 0 ∧ heapStart ≤ h.heapNext ∧ h.heapNext < 2 ^ 64
  heapEnd : h.heapEnd = heapStart + heapSize

variable {slabs free : Nat → List Nat} {live : List Block} {h h' : Heap} {b : Block} {bin slab c size : Nat}

theorem HeapInv.slab_ne_zero (hinv : HeapInv slabs free live h) (hslab : slab ∈ slabs bin) : slab ≠ 0 := by
  have := (hinv.place bin slab hslab).2.1
  unfold heapStart at this
  omega

theorem HeapInv.slabs_apart (hinv : HeapInv slabs free live h) {bin' slab' : Nat} (hslab : slab ∈ slabs bin)
    (hslab' : slab' ∈ slabs bin') (hne : slab ≠ slab') : slab + 4096 ≤ slab' ∨ slab' + 4096 ≤ slab := by
  have h1 := (hinv.place bin slab hslab).1
  have h2 := (hinv.place bin' slab' hslab').1
  omega

section

variable (hinv : HeapInv slabs free live h) (hb : b ∈ live)

include hinv hb

theorem HeapInv.storage_cases (hslab : slab ∈ slabs bin) :
    (IsChunk bin slab b.raw ∧ b.raw ∉ free slab ∧ b.len = binSize bin) ∨
      slab + 4096 ≤ b.raw ∨ b.raw + b.len ≤ slab := by
  rcases (hinv.blocks b hb).storage with ⟨bin', slab', hchunk, -⟩ | ⟨pages, hpages, -⟩
  · by_cases hsame : slab' = slab
    · subst hsame
      obtain rfl := hinv.once _ _ _ hchunk.mem hslab
      exact .inl ⟨hchunk.chunk, hchunk.used, hchunk.len⟩
    have hbounds := hchunk.chunk.bounds
    have := hinv.slabs_apart hchunk.mem hslab hsame
    rw [hchunk.len]
    omega
  · exact .inr (hpages.apart bin slab hslab)

theorem HeapInv.header_apart (hslab : slab ∈ slabs bin) : slab + 24 ≤ b.raw ∨ b.raw + b.len ≤ slab := by
  rcases hinv.storage_cases hb hslab with ⟨hchunk, -, -⟩ | hapart
  · exact .inl hchunk.bounds.1
  · omega

theorem HeapInv.free_apart (hslab : slab ∈ slabs bin)
    (hc : c ∈ free slab) : c + binSize bin ≤ b.raw ∨ b.raw + b.len ≤ c := by
  have hfree := (hinv.slabOk bin slab hslab).chunks c hc
  rcases hinv.storage_cases hb hslab with ⟨hchunk, hused, hlen⟩ | hapart
  · rw [hlen]
    refine hfree.apart hchunk ?_
    rintro rfl
    exact hused hc
  · have := hfree.bounds
    omega

theorem HeapInv.block_bounds :
    heapStart ≤ b.raw ∧ b.raw + b.len ≤ h.heapNext ∧ 32 ≤ b.len ∧ b.raw + 24 ≤ b.ptr ∧
      b.ptr + b.size ≤ b.raw + b.len := by
  have hok := hinv.blocks b hb
  have hptr : b.raw + 24 ≤ b.ptr := by
    rcases hok.ptr with hptr | hptr <;> omega
  rcases hok.storage with ⟨bin, slab, hchunk, -⟩ | ⟨pages, hpages, -⟩
  · have hbounds := hchunk.chunk.bounds
    have hplace := hinv.place bin slab hchunk.mem
    have hsize := binSize_bounds (hinv.bins bin slab hchunk.mem)
    have := hchunk.len
    exact ⟨by omega, by omega, by omega, hptr, hok.room⟩
  · have := hpages.len
    have := hpages.count
    have := hpages.place
    exact ⟨by omega, by omega, by omega, hptr, hok.room⟩

end

/-! ### Writes that change no list -/

/-- The headers, the slabs and the links of the free chunks. -/
structure KeepsLists (slabs free : Nat → List Nat) (live : List Block) (mem mem' : Bytes) : Prop where
  slab : ∀ bin slab, slab ∈ slabs bin → Same mem mem' slab 24
  free : ∀ bin slab, slab ∈ slabs bin → ∀ c ∈ free slab, Same mem mem' c 24
  raw : ∀ b ∈ live, SameHeader mem mem' b.raw
  ptr : ∀ b ∈ live, SameHeader mem mem' (b.ptr - 24)

/-- More address space may be in use than before, and the pages of the blocks are still mapped. -/
structure Advances (live : List Block) (h h' : Heap) : Prop where
  bins : h'.bins = h.bins
  heapEnd : h'.heapEnd = h.heapEnd
  grows : h.heapNext ≤ h'.heapNext
  cursor : h'.heapNext % 4096 = 0 ∧ h'.heapNext < 2 ^ 64
  mapped : ∀ b ∈ live, ∀ v, b.raw ≤ v → v < b.raw + b.len → h'.mapped v = h.mapped v

theorem HeapInv.advances_mem (hinv : HeapInv slabs free live h) (mem : Bytes) : Advances live h { h with mem := mem } :=
  ⟨rfl, rfl, le_rfl, ⟨hinv.cursor.1, hinv.cursor.2.2⟩, fun _ _ _ _ _ => rfl⟩

theorem InPages.advance (hpages : InPages slabs h b pages) (hgrows : h.heapNext ≤ h'.heapNext)
    (hmapped : ∀ v, b.raw ≤ v → v < b.raw + b.len → h'.mapped v = h.mapped v) : InPages slabs h' b pages where
  count := hpages.count
  len := hpages.len
  aligned := hpages.aligned
  place := ⟨hpages.place.1, hpages.place.2.trans hgrows⟩
  mapped := fun i hi => by
    have := hpages.len
    rw [hmapped _ (by omega) (by omega), hpages.mapped i hi]
  apart := hpages.apart

theorem BlockOk.congr (hok : BlockOk slabs free h b) (hgrows : h.heapNext ≤ h'.heapNext)
    (hmapped : ∀ v, b.raw ≤ v → v < b.raw + b.len → h'.mapped v = h.mapped v) (hraw : SameHeader h.mem h'.mem b.raw)
    (hptr : SameHeader h.mem h'.mem (b.ptr - 24)) : BlockOk slabs free h' b where
  storage := by
    rcases hok.storage with ⟨bin, slab, hchunk, hheader⟩ | ⟨pages, hpages, hheader⟩
    · exact .inl ⟨bin, slab, hchunk, hheader.congr hraw⟩
    · exact .inr ⟨pages, hpages.advance hgrows hmapped, hheader.congr hraw⟩
  ptr := hok.ptr.imp_right fun haligned => ⟨haligned.1, haligned.2.congr hptr⟩
  room := hok.room

theorem HeapInv.congr (hinv : HeapInv slabs free live h) (hadv : Advances live h h')
    (hkeep : KeepsLists slabs free live h.mem h'.mem) : HeapInv slabs free live h' where
  chain := fun bin hbin => by
    rw [hadv.bins]
    exact (hinv.chain bin hbin).congr fun s hs => ((hkeep.slab bin s hs).mono (by omega) (by omega)).link
  bins := hinv.bins
  place := fun bin s hs => by
    have := hinv.place bin s hs
    have := hadv.grows
    omega
  nodup := hinv.nodup
  once := hinv.once
  slabOk := fun bin s hs => (hinv.slabOk bin s hs).congr ((hkeep.slab bin s hs).mono (by omega) (by omega)) (hkeep.free bin s hs)
  blocks := fun b hb => (hinv.blocks b hb).congr hadv.grows (hadv.mapped b hb) (hkeep.raw b hb) (hkeep.ptr b hb)
  apart := hinv.apart
  cursor := ⟨hadv.cursor.1, hinv.cursor.2.1.trans hadv.grows, hadv.cursor.2⟩
  heapEnd := hadv.heapEnd.trans hinv.heapEnd

theorem KeepsLists.refl (slabs free : Nat → List Nat) (live : List Block) (mem : Bytes) :
    KeepsLists slabs free live mem mem :=
  ⟨fun _ s _ => .refl _ s 24, fun _ _ _ c _ => .refl _ c 24, fun b _ => .of_same (.refl _ b.raw 24),
    fun b _ => .of_same (.refl _ (b.ptr - 24) 24)⟩

/-- The counters and the records play no part. -/
theorem HeapInv.of_eq (hinv : HeapInv slabs free live h) (hmem : h'.mem = h.mem) (hbins : h'.bins = h.bins)
    (hend : h'.heapEnd = h.heapEnd) (hnext : h'.heapNext = h.heapNext) (hmapped : h'.mapped = h.mapped) :
    HeapInv slabs free live h' := by
  refine hinv.congr ⟨hbins, hend, hnext.ge, ?_, fun _ _ v _ _ => by rw [hmapped]⟩ ?_
  · rw [hnext]
    exact ⟨hinv.cursor.1, hinv.cursor.2.2⟩
  · rw [hmem]
    exact .refl slabs free live h.mem

theorem HeapInv.perm (hinv : HeapInv slabs free live h) (hperm : live.Perm live') : HeapInv slabs free live' h :=
  { hinv with
    blocks := fun b hb => hinv.blocks b (hperm.mem_iff.mpr hb)
    apart := (hperm.pairwise_iff fun {_ _} hapart => Block.Apart.symm hapart).mp hinv.apart }

theorem HeapInv.tail (hinv : HeapInv slabs free (b :: live) h) : HeapInv slabs free live h :=
  { hinv with
    blocks := fun b' hb' => hinv.blocks b' (List.mem_cons_of_mem _ hb')
    apart := (List.pairwise_cons.mp hinv.apart).2 }

theorem HeapInv.front (hinv : HeapInv slabs free live h) (hb : b ∈ live) : HeapInv slabs free (b :: live.erase b) h :=
  hinv.perm (List.perm_cons_erase hb)

theorem HeapInv.reshape (hinv : HeapInv slabs free (b :: live) h) {ptr : Nat}
    (hptr : ptr = b.raw + 24 ∨ b.raw + 48 ≤ ptr ∧ Header h.mem (ptr - 24) 0 magicAligned (b.raw + 24))
    (hroom : ptr + size ≤ b.raw + b.len) : HeapInv slabs free (⟨ptr, size, b.raw, b.len⟩ :: live) h := by
  obtain ⟨hb, hlive⟩ := List.forall_mem_cons.mp hinv.blocks
  refine { hinv with
    blocks := List.forall_mem_cons.mpr ⟨⟨hb.storage.imp ?_ ?_, hptr, hroom⟩, hlive⟩
    apart := List.pairwise_cons.mpr ⟨(List.pairwise_cons.mp hinv.apart).1, (List.pairwise_cons.mp hinv.apart).2⟩ }
  · rintro ⟨bin, slab, hin, hheader⟩
    exact ⟨bin, slab, ⟨hin.mem, hin.chunk, hin.used, hin.len⟩, hheader⟩
  · rintro ⟨pages, hin, hheader⟩
    exact ⟨pages, ⟨hin.count, hin.len, hin.aligned, hin.place, hin.mapped, hin.apart⟩, hheader⟩

/-- A write outside the blocks, the slabs and the free chunks. -/
theorem HeapInv.keepsApart (hinv : HeapInv slabs free live h) {off len : Nat} (hmem : SameOutside h.mem mem off len)
    (hslab : ∀ bin slab, slab ∈ slabs bin → slab + 24 ≤ off ∨ off + len ≤ slab)
    (hfree : ∀ bin slab, slab ∈ slabs bin → ∀ c ∈ free slab, c + 24 ≤ off ∨ off + len ≤ c)
    (hblock : ∀ b ∈ live, b.raw + b.len ≤ off ∨ off + len ≤ b.raw) : KeepsLists slabs free live h.mem mem := by
  refine ⟨fun bin s hs => hmem.same (hslab bin s hs), fun bin s hs c hc => hmem.same (hfree bin s hs c hc),
    fun b hb => .of_same (hmem.same ?_), fun b hb => .of_same (hmem.same ?_)⟩
  all_goals
    have := hblock b hb
    have := hinv.block_bounds hb
    omega

/-- A write to the storage of a block, after its header, that keeps a second header. -/
theorem HeapInv.keepsLists (hinv : HeapInv slabs free (b :: live) h)
    (hmem : SameOutside h.mem mem b.raw b.len) (hraw : SameHeader h.mem mem b.raw)
    (hptr : SameHeader h.mem mem (b.ptr - 24)) : KeepsLists slabs free (b :: live) h.mem mem := by
  have hself : b ∈ b :: live := List.mem_cons_self
  obtain ⟨hslab, hfree, hraws, hptrs⟩ := hinv.tail.keepsApart hmem (fun _ _ hs => hinv.header_apart hself hs)
    (fun bin s hs c hc => by
      have := hinv.free_apart hself hs hc
      have := binSize_bounds (hinv.bins bin s hs)
      omega)
    fun b' hb' => ((List.pairwise_cons.mp hinv.apart).1 b' hb').symm
  exact ⟨hslab, hfree, List.forall_mem_cons.mpr ⟨hraw, hraws⟩, List.forall_mem_cons.mpr ⟨hptr, hptrs⟩⟩

/-! ### Chunks that change hands -/

/-- A chunk that is on the free list of a slab. -/
def OnFree (slabs free : Nat → List Nat) (c : Nat) : Prop := ∃ bin slab, slab ∈ slabs bin ∧ c ∈ free slab

theorem HeapInv.onFree_ne_zero (hinv : HeapInv slabs free live h) (hc : OnFree slabs free c) : c ≠ 0 := by
  obtain ⟨bin, slab, hslab, hc⟩ := hc
  have := ((hinv.slabOk bin slab hslab).chunks c hc).bounds
  omega

/-- The blocks there are keep their bytes, and `krealloc` has read nothing. -/
structure Undisturbed (live : List Block) (h h' : Heap) : Prop where
  same : ∀ b ∈ live, Same h.mem h'.mem b.raw b.len
  copies : h'.copies = h.copies

theorem Undisturbed.refl (live : List Block) (h : Heap) : Undisturbed live h h := ⟨fun b _ => .refl _ b.raw b.len, rfl⟩

theorem Undisturbed.trans (hu : Undisturbed live h h') (hu' : Undisturbed live h' h'') : Undisturbed live h h'' :=
  ⟨fun b hb => (hu.same b hb).trans (hu'.same b hb), hu'.copies.trans hu.copies⟩

/-- A chunk that is neither free nor part of a block. -/
structure Loose (slabs free : Nat → List Nat) (live : List Block) (bin slab c : Nat) : Prop where
  mem : slab ∈ slabs bin
  chunk : IsChunk bin slab c
  unlinked : c ∉ free slab
  apart : ∀ b ∈ live, c + binSize bin ≤ b.raw ∨ b.raw + b.len ≤ c

section

variable (hinv : HeapInv slabs free live h) (hslab : slab ∈ slabs bin)

include hinv hslab

/-- The free list of one slab changes, and with it at most the slab and one chunk that is in no block. -/
theorem HeapInv.setSlab (hchunk : IsChunk bin slab c)
    (hapart : ∀ b ∈ live, c + binSize bin ≤ b.raw ∨ b.raw + b.len ≤ c)
    (hmem : ∀ k, k < slab + 8 ∨ slab + 24 ≤ k → k < c ∨ c + binSize bin ≤ k → mem k = h.mem k)
    (hok : SlabOk mem bin slab l) (hl : ∀ x ∈ l, x ∈ free slab ∨ x = c) :
    HeapInv slabs (update free slab l) live { h with mem := mem } := by
  have hbounds := hchunk.bounds
  have hsize := binSize_bounds (hinv.bins bin slab hslab)
  -- another slab lies outside the page of this one
  have hother : ∀ {bin' s}, s ∈ slabs bin' → s ≠ slab → Same h.mem mem s 4096 := by
    intro bin' s hs hne k hlo hhi
    have := hinv.slabs_apart hs hslab hne
    exact hmem k (by omega) (by omega)
  have hblock : ∀ b ∈ live, Same h.mem mem b.raw b.len := by
    intro b hb k hlo hhi
    have h1 := hinv.header_apart hb hslab
    have h2 := hapart b hb
    exact hmem k (by omega) (by omega)
  refine ⟨fun bin' hbin' => ?_, hinv.bins, hinv.place, hinv.nodup, hinv.once, fun bin' s hs => ?_, fun b hb => ?_,
    hinv.apart, hinv.cursor, hinv.heapEnd⟩
  · refine (hinv.chain bin' hbin').congr fun s hs => ?_
    by_cases hne : s = slab
    · exact Same.link fun k hlo hhi => hmem k (by omega) (by omega)
    · exact ((hother hs hne).mono le_rfl (by omega)).link
  · by_cases hne : s = slab
    · subst hne
      obtain rfl := hinv.once _ _ _ hs hslab
      rwa [update_self]
    rw [update_of_ne hne]
    refine (hinv.slabOk bin' s hs).congr ((hother hs hne).mono (by omega) (by omega)) fun x hx => ?_
    have := ((hinv.slabOk bin' s hs).chunks x hx).bounds
    have := binSize_bounds (hinv.bins bin' s hs)
    exact (hother hs hne).mono (by omega) (by omega)
  have hbd := hinv.block_bounds hb
  have hraw : SameHeader h.mem mem b.raw := .of_same ((hblock b hb).mono le_rfl (by omega))
  have hptr : SameHeader h.mem mem (b.ptr - 24) := .of_same ((hblock b hb).mono (by omega) (by omega))
  have hkept : BlockOk slabs free { h with mem := mem } b :=
    (hinv.blocks b hb).congr le_rfl (fun _ _ _ => rfl) hraw hptr
  obtain ⟨hstorage, hptr', hroom⟩ := hkept
  refine ⟨hstorage.imp_left ?_, hptr', hroom⟩
  rintro ⟨bin', s, hin, hheader⟩
  refine ⟨bin', s, ⟨hin.mem, hin.chunk, ?_, hin.len⟩, hheader⟩
  have hused := hin.used
  revert hused
  refine update_ind s (fun hused hmem' => ?_) fun _ => id
  rcases hl _ hmem' with hold | hc
  · exact hused hold
  · have := hapart b hb
    omega

theorem HeapInv.pop (hfree : free slab = c :: l) : ∃ h', slabPop h slab = .ok (h', c) ∧ Undisturbed live h h' ∧
      HeapInv slabs (update free slab l) live h' ∧ Loose slabs (update free slab l) live bin slab c := by
  have hok := hinv.slabOk bin slab hslab
  rw [hfree] at hok
  have hc : c ∈ free slab := by
    rw [hfree]
    exact List.mem_cons_self
  have hchunk := hok.chunks c List.mem_cons_self
  have hbounds := hchunk.bounds
  have hsize := binSize_bounds (hinv.bins bin slab hslab)
  obtain ⟨hhead, hne⟩ := link_eq_some hok.seg.1
  obtain ⟨hnotin, hnodup⟩ := List.nodup_cons.mp hok.nodup
  have hlb : ∀ x ∈ l, slab + 24 ≤ x := fun x hx => (hok.chunks x (List.mem_cons_of_mem _ hx)).bounds.1
  have hseg := seg_pop hok.seg fun x hx => .inr (by have := hlb x hx; unfold freeListAt; omega)
  have hcount : (h.mem.setAddr (freeListAt slab) (h.mem.addr c)).u16 (freeChunksAt slab) = l.length + 1 := by
    rw [((sameOutside_setAddr _ _ _).same (by unfold freeListAt freeChunksAt; omega)).u16, hok.count, List.length_cons]
  have hlen : l.length + 1 < 65536 := by
    have := u16_of_addr (h.mem.setAddr (freeListAt slab) (h.mem.addr c)) (freeChunksAt slab)
    omega
  have hapart : ∀ b ∈ live, c + binSize bin ≤ b.raw ∨ b.raw + b.len ≤ c := fun b hb => hinv.free_apart hb hslab hc
  obtain ⟨mem, hmem⟩ : ∃ mem, mem = (h.mem.setAddr (freeListAt slab) (h.mem.addr c)).setU16 (freeChunksAt slab)
      ((h.mem.setAddr (freeListAt slab) (h.mem.addr c)).u16 (freeChunksAt slab) + 65535) := ⟨_, rfl⟩
  have houtside : SameOutside h.mem mem (slab + 8) 16 := by
    intro k hk
    rw [hmem, sameOutside_setU16 _ _ _ k (by unfold freeChunksAt; omega),
      sameOutside_setAddr _ _ _ k (by unfold freeListAt; omega)]
  refine ⟨{ h with mem := mem }, ?_, ⟨fun b hb => houtside.same ?_, rfl⟩,
    hinv.setSlab hslab hchunk hapart (fun k hk _ => houtside k hk) ?_ ?_, hslab, hchunk, ?_, hapart⟩
  · rw [slabPop, hhead, if_neg hne, hmem]
  · have := hinv.header_apart hb hslab
    omega
  · refine ⟨?_, hnodup, fun x hx => hok.chunks x (List.mem_cons_of_mem _ hx), ?_, fun x hx => ?_⟩
    · rw [hmem, ((sameOutside_setU16 _ (freeChunksAt slab) _).same (by unfold freeListAt freeChunksAt; omega)).link]
      refine hseg.congr fun x hx => ?_
      have := hlb x hx
      exact ((sameOutside_setU16 _ (freeChunksAt slab) _).same (by unfold freeChunksAt; omega)).link
    · rw [hmem, u16_setU16, hcount]
      omega
    have := hlb x hx
    rw [hmem, ((sameOutside_setU16 _ _ _).same (by unfold freeChunksAt; omega)).addr,
      ((sameOutside_setAddr _ _ _).same (by unfold freeListAt; omega)).addr]
    exact hok.bases x (List.mem_cons_of_mem _ hx)
  · intro x hx
    rw [hfree]
    exact .inl (List.mem_cons_of_mem _ hx)
  · rw [update_self]
    exact hnotin

end

theorem length_chunks_le (hnodup : l.Nodup) (hl : ∀ x ∈ l, IsChunk bin slab x) : l.length ≤ chunkCount bin := by
  have hsub : l ⊆ (List.range (chunkCount bin)).map (chunkAt bin slab) := by
    intro x hx
    obtain ⟨k, hk, rfl⟩ := hl x hx
    exact List.mem_map_of_mem (List.mem_range.mpr hk)
  simpa using (List.subperm_of_subset hnodup hsub).length_le

/-- The memory after a chunk has been put on the free list of its slab. -/
def freedMem (mem : Bytes) (slab c : Nat) : Bytes :=
  ((mem.setU16 (c + 2) magicFree).pushLink (freeListAt slab) c).setU16 (freeChunksAt slab)
    (((mem.setU16 (c + 2) magicFree).pushLink (freeListAt slab) c).u16 (freeChunksAt slab) + 1)

theorem SlabOk.push (hok : SlabOk mem bin slab l) (hbin : ValidBin bin)
    (hchunk : IsChunk bin slab c) (hc : c ∉ l) (hne : c ≠ 0) (hlt : c < 2 ^ 64) (hbase : mem.addr (c + 16) = 0) :
    SlabOk (freedMem mem slab c) bin slab (c :: l) := by
  have hbounds := hchunk.bounds
  have hsize := binSize_bounds hbin
  have hother : ∀ x ∈ l, slab + 24 ≤ x ∧ (x + 32 ≤ c ∨ c + 32 ≤ x) := by
    intro x hx
    have := (hok.chunks x hx).bounds
    have := (hok.chunks x hx).apart hchunk (by rintro rfl; exact hc hx)
    omega
  have hnodup : (c :: l).Nodup := List.nodup_cons.mpr ⟨hc, hok.nodup⟩
  have hchunks : ∀ x ∈ c :: l, IsChunk bin slab x := List.forall_mem_cons.mpr ⟨hchunk, hok.chunks⟩
  have hlen := length_chunks_le hnodup hchunks
  have hbases : ∀ x ∈ c :: l, mem.addr (x + 16) = 0 := List.forall_mem_cons.mpr ⟨hbase, hok.bases⟩
  have hmagic : Seg (link (mem.setU16 (c + 2) magicFree)) (link (mem.setU16 (c + 2) magicFree) (freeListAt slab)) l
      none := by
    rw [((sameOutside_setU16 _ _ _).same (by unfold freeListAt; omega)).link]
    exact hok.seg.congr fun x hx => ((sameOutside_setU16 _ _ _).same (by have := hother x hx; omega)).link
  have hseg := seg_pushLink hmagic (.inr (by unfold freeListAt; omega)) hne hlt
    fun x hx => ⟨by have := hother x hx; omega, .inr (by have := hother x hx; unfold freeListAt; omega)⟩
  unfold freedMem
  refine ⟨?_, hnodup, hchunks, ?_, fun x hx => ?_⟩
  · rw [((sameOutside_setU16 _ (freeChunksAt slab) _).same (by unfold freeListAt freeChunksAt; omega)).link]
    refine hseg.congr fun x hx => ?_
    have := (hchunks x hx).bounds
    exact ((sameOutside_setU16 _ (freeChunksAt slab) _).same (by unfold freeChunksAt; omega)).link
  · rw [u16_setU16, (same_pushLink (.inl (by unfold freeChunksAt; omega))
      (.inl (by unfold freeListAt freeChunksAt; omega))).u16,
      ((sameOutside_setU16 _ _ _).same (by unfold freeChunksAt; omega)).u16, hok.count]
    rw [List.length_cons] at hlen ⊢
    omega
  have hx' : slab + 24 ≤ x ∧ (x + 32 ≤ c ∨ c + 32 ≤ x ∨ x = c) := by
    rcases List.mem_cons.mp hx with rfl | hx
    · omega
    · have := hother x hx
      omega
  rw [((sameOutside_setU16 _ _ _).same (by unfold freeChunksAt; omega)).addr,
    (same_pushLink (by omega) (.inr (by unfold freeListAt; omega))).addr,
    ((sameOutside_setU16 _ _ _).same (by omega)).addr, hbases x hx]

theorem freedMem_of_outside (mem : Bytes) (hbin : ValidBin bin) (hslab : k < slab + 8 ∨ slab + 24 ≤ k)
    (hk : k < c ∨ c + binSize bin ≤ k) : freedMem mem slab c k = mem k := by
  have hsize := binSize_bounds hbin
  have hpush : Same (mem.setU16 (c + 2) magicFree) ((mem.setU16 (c + 2) magicFree).pushLink (freeListAt slab) c) k 1 :=
    same_pushLink (by omega) (by unfold freeListAt; omega)
  rw [freedMem, sameOutside_setU16 _ _ _ k (by unfold freeChunksAt; omega), hpush k le_rfl (by omega),
    sameOutside_setU16 _ _ _ k (by omega)]

section

variable (hinv : HeapInv slabs free live h) (hc : Loose slabs free live bin slab c)

include hinv hc

theorem HeapInv.push (hbase : h.mem.addr (c + 16) = 0) :
    HeapInv slabs (update free slab (c :: free slab)) live { h with mem := freedMem h.mem slab c } := by
  have hbounds := hc.chunk.bounds
  have hbin := hinv.bins bin slab hc.mem
  have hplace := hinv.place bin slab hc.mem
  have hcursor := hinv.cursor
  refine hinv.setSlab hc.mem hc.chunk hc.apart (fun k hk hk' => freedMem_of_outside h.mem hbin hk hk') ?_ ?_
  · exact (hinv.slabOk bin slab hc.mem).push hbin hc.chunk hc.unlinked (by omega) (by omega) hbase
  · intro x hx
    exact (List.mem_cons.mp hx).symm

theorem HeapInv.handOut
    (hsize : size + 24 ≤ binSize bin) (hmem : SameOutside h.mem mem c 24) (hheader : Header mem c bin magicAlloc 0) :
    HeapInv slabs free (⟨c + 24, size, c, binSize bin⟩ :: live) { h with mem := mem } := by
  have hbounds := hc.chunk.bounds
  have hbin := binSize_bounds (hinv.bins bin slab hc.mem)
  have hkeep : KeepsLists slabs free live h.mem mem := by
    refine hinv.keepsApart hmem (fun bin' s hs => ?_) (fun bin' s hs x hx => ?_) fun b hb => ?_
    · by_cases hne : s = slab
      · omega
      · have := hinv.slabs_apart hs hc.mem hne
        omega
    · have hx' := (hinv.slabOk bin' s hs).chunks x hx
      have hxb := hx'.bounds
      by_cases hne : s = slab
      · subst hne
        obtain rfl := hinv.once _ _ _ hs hc.mem
        have := hx'.apart hc.chunk (by rintro rfl; exact hc.unlinked hx)
        omega
      · have := hinv.slabs_apart hs hc.mem hne
        omega
    · have := hc.apart b hb
      omega
  have hnew := hinv.congr (hinv.advances_mem mem) hkeep
  refine { hnew with
    blocks := List.forall_mem_cons.mpr ⟨⟨.inl ⟨bin, slab, ⟨hc.mem, hc.chunk, hc.unlinked, rfl⟩, hheader⟩, .inl rfl, ?_⟩,
      hnew.blocks⟩
    apart := List.pairwise_cons.mpr ⟨fun b hb => hc.apart b hb, hnew.apart⟩ }
  show c + 24 + size ≤ c + binSize bin
  omega

end

theorem HeapInv.loose (hinv : HeapInv slabs free (b :: live) h) (hin : InChunk slabs free b bin slab) :
    Loose slabs free live bin slab b.raw where
  mem := hin.mem
  chunk := hin.chunk
  unlinked := hin.used
  apart := fun b' hb' => by
    rw [← hin.len]
    exact (List.pairwise_cons.mp hinv.apart).1 b' hb'

end Litenix.KernelHeap
