import Litenix.HeapRuns

/-! Freeing a chunk twice. The first word of a free chunk is the address of the next one, and `kfree` reads the
magic number in bits 16 to 31 of that word. It is `0xA116`, the magic number of an aligned block, when the next
chunk is in the 64 KiB from `0xffffffffa1160000` on; the `base` of a free chunk is null, and `kfree` returns. Every
other next chunk of the window leads to a panic. -/

namespace Litenix.KernelHeap

open Lib Bytes

variable {slabs free : Nat → List Nat} {live : List Block} {h : Heap} {c slab slab' : Nat} {l l' : List Nat}

/-! ### What `kfree` reads -/

/-- `kfree` of a pointer behind a header without a base. -/
theorem kfree_of_base_zero (hlt : c + 24 < 2 ^ 64) (hbase : h.mem.addr (c + 16) = 0) :
    kfree h (c + allocHeaderSize) =
      if h.mem.u16 (c + 2) = magicFree then .error (.doubleFree (c + allocHeaderSize), h)
      else if h.mem.u16 (c + 2) = magicAligned then .ok { h with mem := h.mem.setU16 (c + 2) magicFree }
      else if h.mem.u16 (c + 2) = magicAlloc then freeChunk h (c + allocHeaderSize) c
      else if h.mem.u16 (c + 2) = magicDirect then freePages h (c + allocHeaderSize) c
      else .error (.invalidMagic (c + allocHeaderSize) (h.mem.u16 (c + 2)) (h.mem.u16 c) (h.mem.u32 (c + 4))
        (h.mem.addr (c + 8)) 0, h) := by
  have hraw : sub64 (c + allocHeaderSize) allocHeaderSize = c :=
    (sub64_of_le (Nat.le_add_left ..) hlt).trans (Nat.add_sub_cancel ..)
  rw [kfree_eq, kfreeUnlocked, if_neg (show c + allocHeaderSize ≠ 0 from Nat.succ_ne_zero _)]
  dsimp only
  rw [hraw, hbase, kfreeUnlocked, if_pos rfl]

section

variable (hinv : HeapInv slabs free live h)

include hinv

/-- The first word of a free chunk is null or the address of a free chunk. -/
theorem HeapInv.next_cases (hc : OnFree slabs free c) :
    c + 24 < 2 ^ 64 ∧ h.mem.addr (c + 16) = 0 ∧ (h.mem.addr c = 0 ∨
      heapStart ≤ h.mem.addr c ∧ h.mem.addr c < heapStart + heapSize ∧ 24 ≤ h.mem.addr c % 4096) := by
  obtain ⟨bin, slab, hslab, hc⟩ := hc
  have hok := hinv.slabOk bin slab hslab
  obtain ⟨haligned, hstart, -, hend⟩ := hinv.place bin slab hslab
  have hsize := binSize_bounds (hinv.bins bin slab hslab)
  have hwithin : ∀ x ∈ free slab, slab + 24 ≤ x ∧ x + 32 ≤ slab + 4096 := fun x hx => by
    have := (hok.chunks x hx).bounds
    omega
  refine ⟨?_, hok.bases c hc, ?_⟩
  · have := hwithin c hc
    unfold heapStart heapSize at *
    omega
  rcases hok.seg.next_mem hc with hnone | ⟨x, hx, hsome⟩
  · exact .inl (addr_of_link_none hnone)
  · rw [(link_eq_some hsome).1]
    have := hwithin x hx
    omega

/-- **Freed again.** `kfree` panics and changes nothing, unless the next chunk is where the address has the magic
number of an aligned block; then it returns. -/
theorem HeapInv.kfree_free (hc : OnFree slabs free c) :
    (∃ e, kfree h (c + allocHeaderSize) = .error (e, h)) ↔ h.mem.addr c / 65536 ≠ 0xffffffffa116 := by
  obtain ⟨hlt, hbase, hnext⟩ := hinv.next_cases hc
  obtain ⟨hlow, hhigh⟩ := u16_of_addr h.mem c
  unfold heapStart heapSize at hnext
  have hfree : h.mem.u16 (c + 2) ≠ magicFree := by
    unfold magicFree
    omega
  have hdirect : h.mem.u16 (c + 2) ≠ magicDirect := by
    unfold magicDirect
    omega
  rw [kfree_of_base_zero hlt hbase, if_neg hfree]
  by_cases haligned : h.mem.u16 (c + 2) = magicAligned
  · rw [if_pos haligned]
    unfold magicAligned at haligned
    refine ⟨?_, fun hne => absurd ?_ hne⟩
    · rintro ⟨_, hok⟩
      cases hok
    · omega
  rw [if_neg haligned]
  have hcond : h.mem.addr c / 65536 ≠ 0xffffffffa116 := by
    unfold magicAligned at haligned
    omega
  refine ⟨fun _ => hcond, fun _ => ?_⟩
  by_cases halloc : h.mem.u16 (c + 2) = magicAlloc
  · -- the size class is the low half-word of the address of a chunk
    have hbin : binCount ≤ h.mem.u16 c := by
      unfold magicAlloc at halloc
      unfold binCount
      omega
    rw [if_pos halloc, freeChunk, if_pos hbin]
    exact ⟨_, rfl⟩
  · rw [if_neg halloc, if_neg hdirect]
    exact ⟨_, rfl⟩

/-! ### The free lists in memory -/

/-- `l` is what is met from the free list of `slab`, which is met from its bin. -/
def IsFreeList (h : Heap) (slab : Nat) (l : List Nat) : Prop :=
  ∃ bin < binCount, ∃ ss, Seg (link h.mem) (if h.bins bin = 0 then none else some (h.bins bin)) ss none ∧ slab ∈ ss ∧
    Seg (link h.mem) (link h.mem (freeListAt slab)) l none

theorem HeapInv.isFreeList_iff : IsFreeList h slab l ↔ (∃ bin, slab ∈ slabs bin) ∧ l = free slab := by
  constructor
  · rintro ⟨bin, hbin, ss, hss, hslab, hl⟩
    rw [hss.unique (hinv.chain bin hbin)] at hslab
    exact ⟨⟨bin, hslab⟩, hl.unique (hinv.slabOk bin slab hslab).seg⟩
  · rintro ⟨⟨bin, hslab⟩, rfl⟩
    have hbin := (hinv.bins bin slab hslab).2
    exact ⟨bin, hbin, slabs bin, hinv.chain bin hbin, hslab, (hinv.slabOk bin slab hslab).seg⟩

theorem HeapInv.isFreeList_once (hl : IsFreeList h slab l)
    (hl' : IsFreeList h slab' l') : l.Nodup ∧ (slab ≠ slab' → l.Disjoint l') := by
  obtain ⟨⟨bin, hslab⟩, rfl⟩ := hinv.isFreeList_iff.mp hl
  obtain ⟨⟨bin', hslab'⟩, rfl⟩ := hinv.isFreeList_iff.mp hl'
  refine ⟨(hinv.slabOk bin slab hslab).nodup, fun hne x hx hx' => ?_⟩
  have hin := ((hinv.slabOk bin slab hslab).chunks x hx).bounds
  have hin' := ((hinv.slabOk bin' slab' hslab').chunks x hx').bounds
  have happ := hinv.slabs_apart hslab hslab' hne
  have hsize := binSize_bounds (hinv.bins bin slab hslab)
  have hsize' := binSize_bounds (hinv.bins bin' slab' hslab')
  omega

end

/-- **Double free.** After every run, a chunk that has been freed and not handed out again is on one free list, no
chunk is on the free lists twice, and freeing the chunk again is detected unless the next free chunk is in the
64 KiB from `0xffffffffa1160000` on. -/
theorem double_free_detected {mem : Bytes} {fails : Nat → Bool} {calls : List HeapCall} {log : HeapLog}
    (hsteps : AllSteps heapStep (fun log call => Legal log call ∧ CallFits log call) (.init mem fails) calls)
    (hrun : run heapStep (.init mem fails) calls = .ok log) :
    (∀ c ∈ log.freed, (∃ slab l, IsFreeList log.heap slab l ∧ c ∈ l) ∧
      ((∃ e, kfree log.heap (c + allocHeaderSize) = .error (e, log.heap)) ↔
        log.heap.mem.addr c / 65536 ≠ 0xffffffffa116)) ∧
    ∀ slab l slab' l', IsFreeList log.heap slab l → IsFreeList log.heap slab' l' →
      l.Nodup ∧ (slab ≠ slab' → l.Disjoint l') := by
  obtain ⟨slabs, free, hinv, hfreed⟩ := heap_run_ok hsteps hrun
  refine ⟨fun c hc => ⟨?_, hinv.kfree_free (hfreed c hc)⟩, fun _ _ _ _ => hinv.isFreeList_once⟩
  obtain ⟨bin, slab, hslab, hmem⟩ := hfreed c hc
  exact ⟨slab, free slab, hinv.isFreeList_iff.mpr ⟨⟨bin, hslab⟩, rfl⟩, hmem⟩

/-- A chunk of the first slab is freed twice. -/
theorem double_free_detected_first : ∃ log e,
    run heapStep (.init (fun _ => 0) fun _ => false) [.kmalloc 600, .kfree (heapStart + 2096)] = .ok log ∧
    kfree log.heap (heapStart + 2072 + allocHeaderSize) = .error (e, log.heap) := by
  have hsteps : AllSteps heapStep (fun log call => Legal log call ∧ CallFits log call)
      (.init (fun _ => 0) fun _ => false) [.kmalloc 600, .kfree (heapStart + 2096)] := .of_decide (by decide +kernel)
  have heval : (do
      let log ← run heapStep (.init (fun _ => 0) fun _ => false) [.kmalloc 600, .kfree (heapStart + 2096)]
      return (log.freed, log.heap.mem.addr (heapStart + 2072)) : Result (List Nat × Nat)).toOption =
      some ([heapStart + 2072], heapStart + 1048) := by
    decide +kernel
  obtain ⟨log, hrun, heval⟩ := bind_eq_ok (eq_ok_of_toOption heval)
  obtain ⟨hfreed, hnext⟩ := Prod.mk.inj (Except.ok.inj heval)
  have hc : heapStart + 2072 ∈ log.freed := by
    rw [hfreed]
    exact List.mem_singleton_self _
  obtain ⟨e, he⟩ := ((double_free_detected hsteps hrun).1 _ hc).2.mpr (by rw [hnext]; decide)
  exact ⟨log, e, hrun, he⟩

/-! ### A double free that is not detected -/

/-- The heap when `4448` pages have been handed out from the start of the window. -/
def afterPages : HeapLog :=
  (HeapLog.init (fun _ => 0) fun _ => false).handOut
    { (heapInit (fun _ => 0) fun _ => false).grown 4448 with
      mem := writeHeader (fun _ => 0) heapStart 4448 magicDirect 18218984 0
      stats := HeapStats.allocated ⟨0, 0, 0, 0, 0, 0⟩ 18218984 4448 } (blockAt (heapStart + 24) 18218984)

theorem heapStep_afterPages : heapStep (.init (fun _ => 0) fun _ => false) (.kmalloc 18218984) = .ok afterPages := by
  have hpages : directPages 18218984 = 4448 := by decide +kernel
  have hgrown := kmalloc_eq_grown (h := heapInit (fun _ => 0) fun _ => false) (show binForSize 18218984 = none by decide)
    (by decide) (by decide +kernel) (by decide +kernel) (by decide) rfl fun _ _ => rfl
  rw [hpages] at hgrown
  show (kmalloc (heapInit (fun _ => 0) fun _ => false) 18218984 >>= fun _ => _) = _
  rw [hgrown]
  rfl

/-- The chunk at `0xffffffffa1160818` is followed by the one at `0xffffffffa1160418`. -/
theorem double_free_returns : ∃ log h,
    AllSteps heapStep (fun log call => Legal log call ∧ CallFits log call) (.init (fun _ => 0) fun _ => false)
      [.kmalloc 18218984, .kmalloc 600, .kfree 0xffffffffa1160830] ∧
    run heapStep (.init (fun _ => 0) fun _ => false)
      [.kmalloc 18218984, .kmalloc 600, .kfree 0xffffffffa1160830] = .ok log ∧
    0xffffffffa1160818 ∈ log.freed ∧ kfree log.heap (0xffffffffa1160818 + allocHeaderSize) = .ok h := by
  have hsteps : AllSteps heapStep (fun log call => Legal log call ∧ CallFits log call) afterPages
      [.kmalloc 600, .kfree 0xffffffffa1160830] := .of_decide (by decide +kernel)
  have heval : (do
      let log ← run heapStep afterPages [.kmalloc 600, .kfree 0xffffffffa1160830]
      let h ← kfree log.heap (0xffffffffa1160818 + allocHeaderSize)
      return log.freed : Result (List Nat)).toOption = some [0xffffffffa1160818] := by
    decide +kernel
  obtain ⟨log, hrun, heval⟩ := bind_eq_ok (eq_ok_of_toOption heval)
  obtain ⟨h, hkfree, heval⟩ := bind_eq_ok heval
  refine ⟨log, h, ⟨⟨trivial, by decide +kernel⟩, fun t ht => ?_⟩, ?_, ?_, hkfree⟩
  · rw [heapStep_afterPages] at ht
    cases ht
    exact hsteps
  · rw [run, heapStep_afterPages]
    exact hrun
  · rw [Except.ok.inj heval]
    exact List.mem_singleton_self _

end Litenix.KernelHeap
