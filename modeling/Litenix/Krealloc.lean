import Litenix.HeapRuns

/-! What `krealloc` promises about a block. It keeps the promise for blocks of `kmalloc`, `kzalloc` and `krealloc`.
For a block of `kmalloc_aligned` the size class in its header is `0`, the usable size comes out as
`16 - 24 = 2 ^ 64 - 8`, and the copy is as long as the new size, whatever the old storage holds. -/

namespace Litenix.KernelHeap

open Lib Bytes

/-- The state `log'` and the pointer `q` after `krealloc` of block `b` to size `n`. -/
structure Reallocs (log : HeapLog) (b : Block) (n : Nat) (log' : HeapLog) (q : Nat) : Prop where
  failed : q = 0 → b ∈ log'.live ∧ Same log.heap.mem log'.heap.mem b.ptr b.size
  bytes : q ≠ 0 → ∀ i < min b.size n, log'.heap.mem (q + i) = log.heap.mem (b.ptr + i)
  block : q ≠ 0 → ∃ b' ∈ log'.live, b'.ptr = q ∧ b'.raw ≤ q ∧ q + n ≤ b'.raw + b'.len ∧
    ∀ b'' ∈ log'.live, b'' ≠ b' → b'.Apart b''
  reads : ∃ ranges, log'.heap.copies = ranges ++ log.heap.copies ∧
    ∀ x ∈ ranges, b.raw ≤ x.1 ∧ x.1 + x.2 ≤ b.raw + b.len
  others : ∀ b' ∈ log.live, b' ≠ b → b' ∈ log'.live ∧ Same log.heap.mem log'.heap.mem b'.ptr b'.size

section

variable {log : HeapLog} {slabs free slabs' free' : Nat → List Nat} {b : Block} {n : Nat} {r : Heap × Nat}

theorem HeapInv.head_block (hinv : HeapInv slabs free (b :: live) h) (hsize : b.size = n) :
    ∃ b' ∈ b :: live, b'.ptr = b.ptr ∧ b'.raw ≤ b.ptr ∧ b.ptr + n ≤ b'.raw + b'.len ∧
      ∀ b'' ∈ b :: live, b'' ≠ b' → b'.Apart b'' := by
  have hbd := hinv.block_bounds List.mem_cons_self
  refine ⟨b, List.mem_cons_self, rfl, by omega, by omega, fun b'' hb'' hne => ?_⟩
  exact (List.pairwise_cons.mp hinv.apart).1 b'' ((List.mem_cons.mp hb'').resolve_left hne)

theorem Reallocated.reallocs (hinv : HeapInv slabs free log.live log.heap) (hb : b ∈ log.live)
    (hre : Reallocated slabs free (log.live.erase b) b n log.heap r slabs' free')
    (hcond : b.ptr = b.raw + allocHeaderSize ∨ b.ptr + n ≤ b.raw + b.len) :
    Reallocs log b n (log.realloc b n r) r.2 := by
  have hbd := hinv.block_bounds hb
  have hothers : ∀ b' ∈ log.live, b' ≠ b → b' ∈ log.live.erase b ∧ Same log.heap.mem r.1.mem b'.ptr b'.size := by
    intro b' hb' hne
    have hmem := (List.mem_erase_of_ne hne).mpr hb'
    have hbd' := hinv.block_bounds hb'
    exact ⟨hmem, (hre.others b' hmem).mono (by omega) (by omega)⟩
  unfold HeapLog.realloc
  split
  · rename_i hzero
    obtain ⟨-, hsame, hcopies⟩ := hre.failed hzero
    refine ⟨fun _ => ⟨hb, hsame.mono (by omega) (by omega)⟩, fun hne => absurd hzero hne, fun hne => absurd hzero hne,
      ⟨[], hcopies, nofun⟩, fun b' hb' hne => ⟨hb', (hothers b' hb' hne).2⟩⟩
  rename_i hne
  split
  · rename_i hptr
    obtain ⟨hnew, -, hsame, hcopies⟩ := hre.inPlace hptr
    refine ⟨fun hzero => absurd hzero hne, fun _ i hi => ?_, fun _ => ?_, ⟨[], hcopies, nofun⟩,
      fun b' hb' hbb => ⟨List.mem_cons_of_mem _ (hothers b' hb' hbb).1, (hothers b' hb' hbb).2⟩⟩
    · rw [hptr]
      exact hsame _ (.inr (by omega))
    · rw [hptr]
      exact hnew.head_block rfl
  rename_i hptr
  obtain ⟨hnew, -, hbytes, len, hcopies, hlen⟩ := hre.moved hne hptr
  refine ⟨fun hzero => absurd hzero hne, fun _ => hbytes, fun _ => hnew.head_block rfl,
    ⟨[(b.ptr, len)], hcopies, ?_⟩,
    fun b' hb' hbb => ⟨List.mem_cons_of_mem _ (hothers b' hb' hbb).1, (hothers b' hb' hbb).2⟩⟩
  rintro x hx
  obtain rfl := List.mem_singleton.mp hx
  refine ⟨by omega, ?_⟩
  split at hlen
  · exact hlen
  · rename_i hplain
    rw [hlen]
    exact hcond.resolve_left hplain

/-- What is read when the block moves is in its storage only under the condition. -/
theorem Reallocated.cond_of_reallocs (hre : Reallocated slabs free (log.live.erase b) b n log.heap r slabs' free') (hne : r.2 ≠ 0)
    (hspec : Reallocs log b n (log.realloc b n r) r.2) :
    b.ptr = b.raw + allocHeaderSize ∨ b.ptr + n ≤ b.raw + b.len := by
  by_cases hptr : r.2 = b.ptr
  · obtain ⟨hnew, -⟩ := hre.inPlace hptr
    exact .inr (hnew.block_bounds List.mem_cons_self).2.2.2.2
  obtain ⟨-, -, -, len, hcopies, hlen⟩ := hre.moved hne hptr
  obtain ⟨ranges, heq, hinside⟩ := hspec.reads
  have hheap : (log.realloc b n r).heap = r.1 := by
    rw [HeapLog.realloc, if_neg hne, if_neg hptr]
    rfl
  rw [hheap, hcopies] at heq
  have hranges : ranges = [(b.ptr, len)] := List.append_cancel_right (heq.symm.trans rfl)
  split at hlen
  · rename_i hplain
    exact .inl hplain
  · right
    have := (hinside (b.ptr, len) (by rw [hranges]; exact List.mem_singleton_self _)).2
    rwa [hlen] at this

end

/-- **`krealloc`.** For every block of every run the promise is kept when the block is not aligned, or its storage
has the new size from the block on; when a new block is handed out in the other case, the promise is broken. -/
theorem krealloc_keeps_blocks {mem : Bytes} {fails : Nat → Bool} {calls : List HeapCall} {log : HeapLog}
    (hsteps : AllSteps heapStep (fun log call => Legal log call ∧ CallFits log call) (.init mem fails) calls)
    (hrun : run heapStep (.init mem fails) calls = .ok log) {b : Block} (hb : b ∈ log.live) {n : Nat} (hn : 0 < n)
    (hfits : Fits log.heap n) :
    ∃ h q log', krealloc log.heap b.ptr n = .ok (h, q) ∧ heapStep log (.krealloc b.ptr n) = .ok log' ∧ log'.heap = h ∧
      (b.ptr = b.raw + allocHeaderSize ∨ b.ptr + n ≤ b.raw + b.len → Reallocs log b n log' q) ∧
      (q ≠ 0 → Reallocs log b n log' q → b.ptr = b.raw + allocHeaderSize ∨ b.ptr + n ≤ b.raw + b.len) := by
  have hlog := heap_run_ok hsteps hrun
  obtain ⟨slabs, free, hinv, -⟩ := id hlog
  obtain ⟨r, slabs', free', hr, hre⟩ := krealloc_spec (hinv.front hb) hn hfits.1 hfits.2
  refine ⟨r.1, r.2, log.realloc b n r, hr, heapStep_krealloc hlog hb hn hr, ?_, hre.reallocs hinv hb,
    hre.cond_of_reallocs⟩
  unfold HeapLog.realloc HeapLog.resize HeapLog.handOut
  split
  · rfl
  · split <;> rfl

/-- A block of `1200` bytes moves to a page of its own. -/
theorem krealloc_keeps_blocks_moved : ∃ log log' q,
    run heapStep (.init (fun _ => 0) fun _ => false) [.kmalloc 1200] = .ok log ∧
    heapStep log (.krealloc (heapStart + 48) 3000) = .ok log' ∧
    Reallocs log ⟨heapStart + 48, 1200, heapStart + 24, 2048⟩ 3000 log' q := by
  have hsteps : AllSteps heapStep (fun log call => Legal log call ∧ CallFits log call)
      (.init (fun _ => 0) fun _ => false) [.kmalloc 1200] := .of_decide (by decide +kernel)
  have heval : (do
      let log ← run heapStep (.init (fun _ => 0) fun _ => false) [.kmalloc 1200]
      return (log.live, decide (Fits log.heap 3000)) : Result (List Block × Bool)).toOption =
      some ([⟨heapStart + 48, 1200, heapStart + 24, 2048⟩], true) := by
    decide +kernel
  obtain ⟨log, hrun, heval⟩ := bind_eq_ok (eq_ok_of_toOption heval)
  obtain ⟨hlive, hfits⟩ := Prod.mk.inj (Except.ok.inj heval)
  have hb : ⟨heapStart + 48, 1200, heapStart + 24, 2048⟩ ∈ log.live := by
    rw [hlive]
    exact List.mem_singleton_self _
  obtain ⟨h, q, log', -, hstep, -, hspec, -⟩ :=
    krealloc_keeps_blocks hsteps hrun hb (show 0 < 3000 by decide) (of_decide_eq_true hfits)
  exact ⟨log, log', q, hrun, hstep, hspec (.inl rfl)⟩

/-- The aligned block has `2000` bytes of storage, and `2001` are read from it. -/
theorem krealloc_reads_past_aligned : ∃ log h q log',
    run heapStep (.init (fun _ => 0) fun _ => false) [.kmallocAligned 1200 8] = .ok log ∧
    ⟨heapStart + 72, 1200, heapStart + 24, 2048⟩ ∈ log.live ∧
    krealloc log.heap (heapStart + 72) 2001 = .ok (h, q) ∧
    heapStep log (.krealloc (heapStart + 72) 2001) = .ok log' ∧
    ¬ Reallocs log ⟨heapStart + 72, 1200, heapStart + 24, 2048⟩ 2001 log' q := by
  have heval : (do
      let log ← run heapStep (.init (fun _ => 0) fun _ => false) [.kmallocAligned 1200 8]
      let r ← krealloc log.heap (heapStart + 72) 2001
      let log' ← heapStep log (.krealloc (heapStart + 72) 2001)
      return (log.live, log.heap.copies, log'.heap.copies) :
        Result (List Block × List (Nat × Nat) × List (Nat × Nat))).toOption =
      some ([⟨heapStart + 72, 1200, heapStart + 24, 2048⟩], [], [(heapStart + 72, 2001)]) := by
    decide +kernel
  obtain ⟨log, hrun, heval⟩ := bind_eq_ok (eq_ok_of_toOption heval)
  obtain ⟨⟨h, q⟩, hr, heval⟩ := bind_eq_ok heval
  obtain ⟨log', hstep, heval⟩ := bind_eq_ok heval
  obtain ⟨hlive, hcopies⟩ := Prod.mk.inj (Except.ok.inj heval)
  obtain ⟨hbefore, hafter⟩ := Prod.mk.inj hcopies
  refine ⟨log, h, q, log', hrun, ?_, hr, hstep, fun hspec => ?_⟩
  · rw [hlive]
    exact List.mem_singleton_self _
  obtain ⟨ranges, heq, hinside⟩ := hspec.reads
  rw [hbefore, hafter, List.append_nil] at heq
  have := (hinside (heapStart + 72, 2001) (by rw [← heq]; exact List.mem_singleton_self _)).2
  dsimp only at this
  omega

end Litenix.KernelHeap
