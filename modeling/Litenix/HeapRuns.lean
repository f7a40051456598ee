import Litenix.HeapFree

/-! Runs of the heap. Beside the heap stand the blocks that are handed out and the chunks that have been freed and
not handed out again; a client also writes to the bytes of its blocks. -/

namespace Litenix.KernelHeap

open Lib Bytes Function

variable {r : Heap × Nat} {size : Nat} {free' slabs' : Nat → List Nat} {mem : Bytes}

inductive HeapCall where
  | kmalloc (size : Nat)
  | kzalloc (size : Nat)
  | kmallocAligned (size alignment : Nat)
  | krealloc (ptr size : Nat)
  | kfree (ptr : Nat)
  | store (addr : Nat) (byte : UInt8)

structure HeapLog where
  heap : Heap
  live : List Block
  freed : List Nat

namespace HeapLog

def init (mem : Bytes) (fails : Nat → Bool) : HeapLog := ⟨heapInit mem fails, [], []⟩

def blockOf (log : HeapLog) (ptr : Nat) : Option Block := log.live.find? fun b => b.ptr == ptr

/-- A call has handed out a block. -/
def handOut (log : HeapLog) (h : Heap) (b : Block) : HeapLog :=
  ⟨h, b :: log.live, log.freed.filter fun c => c != b.raw⟩

/-- A call has freed a block; those shorter than a page are chunks. -/
def release (log : HeapLog) (h : Heap) (b : Block) : HeapLog :=
  ⟨h, log.live.erase b, if b.len < pageSize then b.raw :: log.freed else log.freed⟩

/-- A call has changed the size of a block. -/
def resize (log : HeapLog) (h : Heap) (b : Block) (size : Nat) : HeapLog :=
  ⟨h, { b with size := size } :: log.live.erase b, log.freed⟩

end HeapLog

def heapStep (log : HeapLog) : HeapCall → Result HeapLog
  | .kmalloc size => do
      let (h, ptr) ← kmalloc log.heap size
      return if ptr = 0 then { log with heap := h } else log.handOut h (blockAt ptr size)
  | .kzalloc size => do
      let (h, ptr) ← kzalloc log.heap size
      return if ptr = 0 then { log with heap := h } else log.handOut h (blockAt ptr size)
  | .kmallocAligned size alignment => do
      let (h, ptr) ← kmallocAligned log.heap size alignment
      return if ptr = 0 then { log with heap := h }
        else log.handOut h (alignedBlock ptr size alignment (h.mem.addr (ptr - 8)))
  | .krealloc ptr size => do
      let (h, q) ← krealloc log.heap ptr size
      match log.blockOf ptr with
      | none => return if q = 0 then { log with heap := h } else log.handOut h (blockAt q size)
      | some b =>
        return if size = 0 then log.release h b
          else if q = 0 then { log with heap := h }
          else if q = ptr then log.resize h b size
          else (log.release h b).handOut h (blockAt q size)
  | .kfree ptr => do
      let h ← kfree log.heap ptr
      match log.blockOf ptr with
      | none => return { log with heap := h }
      | some b => return log.release h b
  | .store addr byte => .ok { log with heap := { log.heap with mem := update log.heap.mem addr byte } }

/-- Pointers are null or blocks that are handed out, and a client writes to its own bytes only. -/
def Legal (log : HeapLog) : HeapCall → Prop
  | .krealloc ptr _ => ptr = 0 ∨ ∃ b ∈ log.live, b.ptr = ptr
  | .kfree ptr => ptr = 0 ∨ ∃ b ∈ log.live, b.ptr = ptr
  | .store addr _ => ∃ b ∈ log.live, b.ptr ≤ addr ∧ addr < b.ptr + b.size
  | _ => True

instance (log : HeapLog) : ∀ call, Decidable (Legal log call)
  | .krealloc ptr _ => inferInstanceAs (Decidable (ptr = 0 ∨ ∃ b ∈ log.live, b.ptr = ptr))
  | .kfree ptr => inferInstanceAs (Decidable (ptr = 0 ∨ ∃ b ∈ log.live, b.ptr = ptr))
  | .store addr _ => inferInstanceAs (Decidable (∃ b ∈ log.live, b.ptr ≤ addr ∧ addr < b.ptr + b.size))
  | .kmalloc _ => .isTrue trivial
  | .kzalloc _ => .isTrue trivial
  | .kmallocAligned _ _ => .isTrue trivial

/-- The header can hold the number of pages, and the cursor stays below the end of the address space. -/
def Fits (h : Heap) (size : Nat) : Prop :=
  size + allocHeaderSize ≤ 65535 * pageSize ∧
    (binForSize size = none → h.heapNext + directPages size * pageSize < 2 ^ 64)

instance (h : Heap) (size : Nat) : Decidable (Fits h size) := inferInstanceAs (Decidable (_ ∧ _))

def CallFits (log : HeapLog) : HeapCall → Prop
  | .kmalloc size => Fits log.heap size
  | .kzalloc size => Fits log.heap size
  | .kmallocAligned size alignment =>
    size + leastAlignment alignment + allocHeaderSize < 2 ^ 64 ∧ Fits log.heap (alignedTotal size alignment)
  | .krealloc _ size => Fits log.heap size
  | _ => True

instance (log : HeapLog) : ∀ call, Decidable (CallFits log call)
  | .kmalloc size => inferInstanceAs (Decidable (Fits log.heap size))
  | .kzalloc size => inferInstanceAs (Decidable (Fits log.heap size))
  | .kmallocAligned size alignment =>
    inferInstanceAs (Decidable (size + leastAlignment alignment + allocHeaderSize < 2 ^ 64 ∧
      Fits log.heap (alignedTotal size alignment)))
  | .krealloc _ size => inferInstanceAs (Decidable (Fits log.heap size))
  | .kfree _ => .isTrue trivial
  | .store _ _ => .isTrue trivial

/-- The blocks of the log are those of the heap, and the freed chunks are on their free lists. -/
def LogOk (log : HeapLog) : Prop :=
  ∃ slabs free, HeapInv slabs free log.live log.heap ∧ ∀ c ∈ log.freed, OnFree slabs free c

theorem logOk_init (mem : Bytes) (fails : Nat → Bool) : LogOk (.init mem fails) := by
  refine ⟨fun _ => [], fun _ => [], ⟨fun _ _ => ?_, nofun, nofun, fun _ => List.nodup_nil, nofun, nofun, nofun,
    List.Pairwise.nil, ?_, rfl⟩, nofun⟩
  · exact if_pos rfl
  · show heapStart % 4096 = 0 ∧ heapStart ≤ heapStart ∧ heapStart < 2 ^ 64
    decide

section

variable {log : HeapLog} {slabs free : Nat → List Nat} {h : Heap} {b : Block}

theorem mem_of_blockOf {ptr : Nat} (hb : log.blockOf ptr = some b) : b ∈ log.live ∧ b.ptr = ptr :=
  ⟨List.mem_of_find?_eq_some hb, by simpa using List.find?_some hb⟩

theorem blockOf_ptr (hinv : HeapInv slabs free log.live h) (hb : b ∈ log.live) : log.blockOf b.ptr = some b := by
  cases hfind : log.blockOf b.ptr with
  | none => exact absurd (List.find?_eq_none.mp hfind b hb) (by simp)
  | some b' =>
  obtain ⟨hb', hptr⟩ := mem_of_blockOf hfind
  by_contra hne
  have hbd := hinv.block_bounds hb
  have hbd' := hinv.block_bounds hb'
  have happ := (List.pairwise_cons.mp (hinv.front hb).apart).1 b'
    ((List.mem_erase_of_ne fun heq => hne (by rw [heq])).mpr hb')
  unfold Block.Apart at happ
  omega

theorem blockOf_zero (hlog : LogOk log) : log.blockOf 0 = none := by
  obtain ⟨slabs, free, hinv, -⟩ := hlog
  refine List.find?_eq_none.mpr fun b hb => ?_
  have := hinv.block_bounds hb
  rw [beq_iff_eq]
  omega

section

variable (hfreed : ∀ c ∈ log.freed, OnFree slabs free c)

include hfreed

theorem LogOk.handOut (hinv : HeapInv slabs' free' (b :: log.live) h)
    (hkeep : ∀ x, OnFree slabs free x → x ≠ b.raw → OnFree slabs' free' x) : LogOk (log.handOut h b) := by
  refine ⟨slabs', free', hinv, fun c hc => ?_⟩
  obtain ⟨hc, hne⟩ := List.mem_filter.mp hc
  exact hkeep c (hfreed c hc) (by simpa using hne)

theorem LogOk.release
    (hinv : HeapInv slabs free' (log.live.erase b) h) (hkeep : ∀ x, OnFree slabs free x → OnFree slabs free' x)
    (hb : b.len < 4096 → OnFree slabs free' b.raw) : LogOk (log.release h b) := by
  refine ⟨slabs, free', hinv, fun c hc => ?_⟩
  unfold HeapLog.release at hc
  split at hc
  · rename_i hlen
    rcases List.mem_cons.mp hc with rfl | hc
    · exact hb hlen
    · exact hkeep c (hfreed c hc)
  · exact hkeep c (hfreed c hc)

/-- A request, with the pointer it gives and the log after it. -/
theorem Allocated.logOk (halloc : Allocated slabs free log.live size log.heap r slabs' free') :
    LogOk (if r.2 = 0 then { log with heap := r.1 } else log.handOut r.1 (blockAt r.2 size)) := by
  have hinv := halloc.inv
  split at hinv
  · rename_i hzero
    rw [if_pos hzero]
    exact ⟨slabs', free', hinv, fun c hc => halloc.onFree c (hfreed c hc) (by rw [hzero]; exact Nat.succ_ne_zero _)⟩
  rename_i hne
  rw [if_neg hne]
  refine .handOut hfreed hinv fun x hx hxr => halloc.onFree x hx ?_
  intro heq
  apply hxr
  rw [blockAt, ← heq]
  exact (Nat.add_sub_cancel ..).symm

end

theorem LogOk.write (hlog : LogOk log) (hb : b ∈ log.live)
    (hmem : SameOutside log.heap.mem mem b.ptr (b.raw + b.len - b.ptr)) :
    LogOk { log with heap := { log.heap with mem := mem } } := by
  obtain ⟨slabs, free, hinv, hfreed⟩ := hlog
  have hfront := hinv.front hb
  have hbd := hinv.block_bounds hb
  have hkeep := hfront.keepsLists (hmem.mono (by omega) (by omega)) (.of_same (hmem.same (.inl hbd.2.2.2.1)))
    (.of_same (hmem.same (.inl (by omega))))
  refine ⟨slabs, free, ?_, hfreed⟩
  exact (hfront.congr (hfront.advances_mem mem) hkeep).perm (List.perm_cons_erase hb).symm

/-- The log after `krealloc` of a block. -/
def HeapLog.realloc (log : HeapLog) (b : Block) (size : Nat) (r : Heap × Nat) : HeapLog :=
  if r.2 = 0 then { log with heap := r.1 }
  else if r.2 = b.ptr then log.resize r.1 b size
  else (log.release r.1 b).handOut r.1 (blockAt r.2 size)

theorem Reallocated.logOk (hfreed : ∀ c ∈ log.freed, OnFree slabs free c) (hb : b ∈ log.live)
    (hre : Reallocated slabs free (log.live.erase b) b size log.heap r slabs' free') : LogOk (log.realloc b size r) := by
  unfold HeapLog.realloc
  have hkept : ∀ c ∈ log.freed, c + allocHeaderSize ≠ r.2 → OnFree slabs' free' c := fun c hc =>
    hre.onFree c (hfreed c hc)
  split
  · rename_i hzero
    refine ⟨slabs', free', (hre.failed hzero).1.perm (List.perm_cons_erase hb).symm, fun c hc => hkept c hc ?_⟩
    rw [hzero]
    exact Nat.succ_ne_zero _
  rename_i hne
  split
  · rename_i hptr
    obtain ⟨hinv, hkeep, -⟩ := hre.inPlace hptr
    exact ⟨slabs', free', hinv, fun c hc => hkeep c (hfreed c hc)⟩
  rename_i hptr
  obtain ⟨hinv, hraw, -⟩ := hre.moved hne hptr
  refine ⟨slabs', free', hinv, fun c hc => ?_⟩
  obtain ⟨hc, hcr⟩ := List.mem_filter.mp hc
  have hcr' : c + allocHeaderSize ≠ r.2 := by
    rintro heq
    simp [blockAt, ← heq] at hcr
  unfold HeapLog.release at hc
  split at hc
  · rename_i hlen
    rcases List.mem_cons.mp hc with rfl | hc
    · exact hraw hlen
    · exact hkept c hc hcr'
  · exact hkept c hc hcr'

section

variable (hlog : LogOk log)

include hlog

theorem kmalloc_logOk (hfits : Fits log.heap size) : ∃ r, kmalloc log.heap size = .ok r ∧
      LogOk (if r.2 = 0 then { log with heap := r.1 } else log.handOut r.1 (blockAt r.2 size)) := by
  obtain ⟨slabs, free, hinv, hfreed⟩ := hlog
  rcases Nat.eq_zero_or_pos size with rfl | hpos
  · exact ⟨(log.heap, 0), rfl, slabs, free, hinv, hfreed⟩
  · obtain ⟨r, slabs', free', hr, halloc⟩ := kmalloc_spec hinv hpos hfits.1 hfits.2
    exact ⟨r, hr, halloc.logOk hfreed⟩

theorem kzalloc_logOk (hfits : Fits log.heap size) : ∃ r, kzalloc log.heap size = .ok r ∧
      LogOk (if r.2 = 0 then { log with heap := r.1 } else log.handOut r.1 (blockAt r.2 size)) := by
  obtain ⟨⟨h, ptr⟩, hr, hok⟩ := kmalloc_logOk hlog hfits
  refine ⟨(if ptr = 0 then h else { h with mem := h.mem.fill ptr size 0 }, ptr), ?_, ?_⟩
  · rw [kzalloc, hr]
    rfl
  by_cases hptr : ptr = 0
  · rw [if_pos hptr] at hok ⊢
    rwa [if_pos hptr]
  rw [if_neg hptr] at hok ⊢
  rw [if_neg hptr]
  obtain ⟨slabs, free, hinv, -⟩ := id hok
  have hbd : _ ∧ _ ∧ _ ∧ _ ∧ ptr + size ≤ ptr - 24 + storageLen size := hinv.block_bounds List.mem_cons_self
  refine hok.write (b := blockAt ptr size) List.mem_cons_self ((sameOutside_fill h.mem ptr size 0).mono le_rfl ?_)
  show ptr + size ≤ ptr + (ptr - 24 + storageLen size - ptr)
  omega

theorem kmallocAligned_logOk (hsize : size + leastAlignment alignment + allocHeaderSize < 2 ^ 64)
    (hfits : Fits log.heap (alignedTotal size alignment)) :
    ∃ h ptr, kmallocAligned log.heap size alignment = .ok (h, ptr) ∧
      LogOk (if ptr = 0 then { log with heap := h }
        else log.handOut h (alignedBlock ptr size alignment (h.mem.addr (ptr - 8)))) := by
  obtain ⟨slabs, free, hinv, hfreed⟩ := hlog
  have htotal : alignedTotal size alignment = size + leastAlignment alignment + allocHeaderSize := by
    rw [alignedTotal, add64_of_lt (show size + leastAlignment alignment < 2 ^ 64 by omega), add64_of_lt hsize]
  have hfit := hfits.1
  rw [htotal, allocHeaderSize, pageSize] at hfit
  obtain ⟨h, ptr, slabs', free', hr, -, ⟨rfl, hinv', hkeep⟩ | ⟨hne, hinv', hkeep⟩⟩ :=
    kmallocAligned_spec hinv (by omega) hfits.2
  · exact ⟨h, 0, hr, slabs', free', hinv', fun c hc => hkeep c (hfreed c hc)⟩
  refine ⟨h, ptr, hr, ?_⟩
  rw [if_neg hne]
  refine .handOut hfreed hinv' fun x hx hxr => hkeep x hx ?_
  intro heq
  apply hxr
  rw [alignedBlock, ← heq]
  exact (Nat.add_sub_cancel ..).symm

theorem kfree_logOk (hb : b ∈ log.live) : ∃ h, kfree log.heap b.ptr = .ok h ∧ LogOk (log.release h b) := by
  obtain ⟨slabs, free, hinv, hfreed⟩ := hlog
  obtain ⟨h, free', hr, hfree⟩ := kfree_spec (hinv.front hb)
  exact ⟨h, hr, .release hfreed hfree.inv hfree.onFree hfree.freed⟩

theorem krealloc_logOk (hb : b ∈ log.live) (hpos : 0 < size) (hfits : Fits log.heap size) :
    ∃ r, krealloc log.heap b.ptr size = .ok r ∧ LogOk (log.realloc b size r) := by
  obtain ⟨slabs, free, hinv, hfreed⟩ := hlog
  obtain ⟨r, slabs', free', hr, hre⟩ := krealloc_spec (hinv.front hb) hpos hfits.1 hfits.2
  exact ⟨r, hr, hre.logOk hfreed hb⟩

theorem heapStep_krealloc (hb : b ∈ log.live) (hpos : 0 < size) (hr : krealloc log.heap b.ptr size = .ok r) :
    heapStep log (.krealloc b.ptr size) = .ok (log.realloc b size r) := by
  obtain ⟨slabs, free, hinv, -⟩ := hlog
  simp only [heapStep, hr, bind, Except.bind, blockOf_ptr hinv hb]
  rw [if_neg hpos.ne']
  rfl

/-- **One step.** A legal call that fits does not panic. -/
theorem heapStep_logOk (call : HeapCall) (hlegal : Legal log call) (hfits : CallFits log call) :
    ∃ log', heapStep log call = .ok log' ∧ LogOk log' := by
  cases call with
  | kmalloc size =>
    obtain ⟨r, hr, hok⟩ := kmalloc_logOk hlog hfits
    exact ⟨_, by rw [heapStep, hr]; rfl, hok⟩
  | kzalloc size =>
    obtain ⟨r, hr, hok⟩ := kzalloc_logOk hlog hfits
    exact ⟨_, by rw [heapStep, hr]; rfl, hok⟩
  | kmallocAligned size alignment =>
    obtain ⟨h, ptr, hr, hok⟩ := kmallocAligned_logOk hlog hfits.1 hfits.2
    exact ⟨_, by rw [heapStep, hr]; rfl, hok⟩
  | krealloc ptr size =>
    rcases hlegal with rfl | ⟨b, hb, rfl⟩
    · obtain ⟨r, hr, hok⟩ := kmalloc_logOk hlog hfits
      have hnone := blockOf_zero hlog
      refine ⟨_, ?_, hok⟩
      simp only [heapStep, krealloc, if_pos, hr, bind, Except.bind, hnone]
      rfl
    rcases Nat.eq_zero_or_pos size with rfl | hpos
    · obtain ⟨h, hr, hok⟩ := kfree_logOk hlog hb
      obtain ⟨slabs, free, hinv, -⟩ := hlog
      have hptr : b.ptr ≠ 0 := by
        have := hinv.block_bounds hb
        omega
      refine ⟨_, ?_, hok⟩
      simp only [heapStep, krealloc, if_neg hptr, if_pos, hr, bind, Except.bind, blockOf_ptr hinv hb]
      rfl
    · obtain ⟨r, hr, hok⟩ := krealloc_logOk hlog hb hpos hfits
      exact ⟨_, heapStep_krealloc hlog hb hpos hr, hok⟩
  | kfree ptr =>
    rcases hlegal with rfl | ⟨b, hb, rfl⟩
    · have hnone := blockOf_zero hlog
      refine ⟨log, ?_, hlog⟩
      rw [heapStep, kfree_eq, kfreeUnlocked, if_pos rfl]
      simp only [bind, Except.bind, hnone]
      rfl
    · obtain ⟨h, hr, hok⟩ := kfree_logOk hlog hb
      obtain ⟨slabs, free, hinv, -⟩ := hlog
      refine ⟨_, ?_, hok⟩
      simp only [heapStep, hr, bind, Except.bind, blockOf_ptr hinv hb]
      rfl
  | store addr byte =>
    obtain ⟨b, hb, hlo, hhi⟩ := hlegal
    refine ⟨_, rfl, hlog.write hb fun k hk => update_of_ne ?_ _ _⟩
    obtain ⟨slabs, free, hinv, -⟩ := hlog
    have := hinv.block_bounds hb
    omega

end

end

/-- **Runs.** Legal calls that fit never panic and keep the blocks apart. -/
theorem heap_run_ok
    (hsteps : AllSteps heapStep (fun log call => Legal log call ∧ CallFits log call) (.init mem fails) calls)
    (hrun : run heapStep (.init mem fails) calls = .ok log) : LogOk log := by
  refine run_inv (fun log call log' hlog hcond hstep => ?_) (logOk_init mem fails) hsteps hrun
  obtain ⟨log₁, hstep₁, hok⟩ := heapStep_logOk hlog call hcond.1 hcond.2
  rw [hstep₁] at hstep
  cases hstep
  exact hok

/-- **The heap is safe.** Whatever legal calls that fit are made, none panics, and the blocks handed out lie in
the used part of the heap, no two sharing a byte. -/
theorem heap_blocks_run (mem : Bytes) (fails : Nat → Bool) (calls : List HeapCall)
    (hsteps : AllSteps heapStep (fun log call => Legal log call ∧ CallFits log call) (.init mem fails) calls) :
    ∃ log, run heapStep (.init mem fails) calls = .ok log ∧
      (∀ b ∈ log.live, heapStart ≤ b.ptr ∧ b.ptr + b.size ≤ log.heap.heapNext) ∧
      log.live.Pairwise fun b b' => b.ptr + b.size ≤ b'.ptr ∨ b'.ptr + b'.size ≤ b.ptr := by
  obtain ⟨log, hrun, slabs, free, hinv, -⟩ :=
    run_ok (fun _ call hlog hcond => heapStep_logOk hlog call hcond.1 hcond.2) (logOk_init mem fails) hsteps
  refine ⟨log, hrun, fun b hb => ?_, hinv.apart.imp_of_mem fun {b b'} hb hb' hapart => ?_⟩
  · have := hinv.block_bounds hb
    omega
  · have := hinv.block_bounds hb
    have := hinv.block_bounds hb'
    rcases hapart with hapart | hapart <;> omega

theorem heap_blocks_run_two :
    ∃ log, run heapStep (.init (fun _ => 0) fun _ => false) [.kmalloc 1200, .kzalloc 40] = .ok log ∧
      log.live.Pairwise fun b b' => b.ptr + b.size ≤ b'.ptr ∨ b'.ptr + b'.size ≤ b.ptr := by
  obtain ⟨log, hrun, -, hapart⟩ :=
    heap_blocks_run (fun _ => 0) (fun _ => false) [.kmalloc 1200, .kzalloc 40] (.of_decide (by decide +kernel))
  exact ⟨log, hrun, hapart⟩

end Litenix.KernelHeap
