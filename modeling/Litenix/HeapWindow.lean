import Litenix.HeapRuns

/-! The window of the heap. A new slab is refused at the end of the window, but the pages of a direct allocation are
mapped from the cursor on without a look at the end, and freeing them does not move the cursor back. -/

namespace Litenix.KernelHeap

open Lib Function

structure Window (h : Heap) : Prop where
  heapEnd : h.heapEnd = heapStart + heapSize
  cursor : h.heapNext % 4096 = 0 ∧ heapStart ≤ h.heapNext ∧ h.heapNext ≤ heapStart + heapSize
  pages : ∀ v, h.mapped v = true → heapStart ≤ v ∧ v + pageSize ≤ heapStart + heapSize

/-- The pages of the request, if it is a direct one, end inside the window. -/
def DirectFits (h : Heap) (size : Nat) : Prop :=
  binForSize size = none → h.heapNext + directPages size * pageSize ≤ h.heapEnd

instance (h : Heap) (size : Nat) : Decidable (DirectFits h size) := inferInstanceAs (Decidable (_ → _))

/-- The request that a call makes, if it makes one, ends inside the window. -/
def CallInside (log : HeapLog) : HeapCall → Prop
  | .kmalloc size => DirectFits log.heap size
  | .kzalloc size => DirectFits log.heap size
  | .kmallocAligned size alignment =>
    isPowerOfTwo (leastAlignment alignment) = true → DirectFits log.heap (alignedTotal size alignment)
  | .krealloc ptr size =>
    ptr = 0 ∨ size ≠ 0 ∧ staysInPlace log.heap ptr size = false → DirectFits log.heap size
  | _ => True

instance (log : HeapLog) : ∀ call, Decidable (CallInside log call)
  | .kmalloc size => inferInstanceAs (Decidable (DirectFits log.heap size))
  | .kzalloc size => inferInstanceAs (Decidable (DirectFits log.heap size))
  | .kmallocAligned size alignment => inferInstanceAs (Decidable
      (isPowerOfTwo (leastAlignment alignment) = true → DirectFits log.heap (alignedTotal size alignment)))
  | .krealloc ptr size => inferInstanceAs (Decidable
      (ptr = 0 ∨ size ≠ 0 ∧ staysInPlace log.heap ptr size = false → DirectFits log.heap size))
  | .kfree _ => .isTrue trivial
  | .store _ _ => .isTrue trivial

variable {h h' : Heap} {bin size ptr rest : Nat} {r : Heap × Nat}

/-! ### Requests -/

section

variable (hw : Window h) {raw : Nat}

include hw

theorem Window.congr (hend : h'.heapEnd = h.heapEnd) (hnext : h'.heapNext = h.heapNext)
    (hmapped : ∀ v, h'.mapped v = true → h.mapped v = true) : Window h' where
  heapEnd := hend.trans hw.heapEnd
  cursor := hnext ▸ hw.cursor
  pages := fun v hv => hw.pages v (hmapped v hv)

theorem Window.write (mem : Bytes) (copies : List (Nat × Nat)) : Window { h with mem := mem, copies := copies } :=
  hw.congr rfl rfl fun _ => id

theorem Window.heapMapPage : Window (heapMapPage h).1 := by
  obtain ⟨haligned, hstart, -⟩ := hw.cursor
  rcases heapMapPage_cases haligned hw.heapEnd with ⟨fails, hmap⟩ | ⟨fails, hfit, hmap⟩
  · rw [hmap]
    exact hw.congr rfl rfl fun _ => id
  rw [hmap]
  refine ⟨hw.heapEnd, ⟨?_, ?_, hfit⟩, fun v hv => ?_⟩
  · show (h.heapNext + 4096) % 4096 = 0
    omega
  · show heapStart ≤ h.heapNext + 4096
    omega
  by_cases hv' : v = h.heapNext
  · rw [hv']
    exact ⟨hstart, hfit⟩
  · exact hw.pages v ((update_of_ne hv' _ _).symm.trans hv)

theorem Window.slabCreate (bin : Nat) : Window (slabCreate h bin).1 := by
  have hmap := hw.heapMapPage
  rw [KernelHeap.slabCreate]
  rcases hpage : KernelHeap.heapMapPage h with ⟨h₁, page⟩
  rw [hpage] at hmap
  dsimp only at hmap ⊢
  split
  · exact hmap
  · exact hmap.congr rfl rfl fun _ => id

theorem Window.slabGrow (bin : Nat) : Window (slabGrow h bin).1 := by
  have hcreate := hw.slabCreate bin
  rw [KernelHeap.slabGrow]
  rcases hslab : KernelHeap.slabCreate h bin with ⟨h₁, slab⟩
  rw [hslab] at hcreate
  dsimp only at hcreate ⊢
  split
  · exact hcreate
  · exact hcreate.congr rfl rfl fun _ => id

theorem Window.slabPop (hr : slabPop h slab = .ok r) : Window r.1 := by
  unfold KernelHeap.slabPop at hr
  dsimp only at hr
  split at hr
  · cases hr
  · cases hr
    exact hw.congr rfl rfl fun _ => id

theorem Window.slabAlloc (hr : slabAlloc h bin = .ok r) : Window r.1 := by
  have hfirst : Window (if h.bins bin = 0 then KernelHeap.slabGrow h bin else (h, h.bins bin)).1 := by
    split
    · exact hw.slabGrow bin
    · exact hw
  rw [KernelHeap.slabAlloc] at hr
  rcases hslab : (if h.bins bin = 0 then KernelHeap.slabGrow h bin else (h, h.bins bin)) with ⟨h₁, slab⟩
  rw [hslab] at hfirst hr
  dsimp only at hfirst hr
  split at hr
  · cases hr
    exact hfirst
  split at hr
  · have hgrow := hfirst.slabGrow bin
    rcases hslab' : KernelHeap.slabGrow h₁ bin with ⟨h₂, slab'⟩
    rw [hslab'] at hgrow hr
    split at hr
    · cases hr
      exact hgrow
    · exact hgrow.slabPop hr
  · exact hfirst.slabPop hr

theorem Window.kmallocDirect (hfits : h.heapNext + directPages size * pageSize ≤ h.heapEnd) :
    Window (kmallocDirect h size).1 := by
  obtain ⟨haligned, hstart, -⟩ := hw.cursor
  rw [hw.heapEnd, pageSize] at hfits
  have hlt : h.heapNext + directPages size * 4096 < 2 ^ 64 := lt_of_le_of_lt hfits (by decide)
  rw [KernelHeap.kmallocDirect, ask_eq]
  dsimp only
  split
  · exact hw.congr rfl rfl fun _ => id
  obtain ⟨⟨fails, next, mapped, heq⟩, -, honly, hfailed, hdone⟩ :=
    mapPages_spec { h with fails := fun n => h.fails (n + 1) } 0 (directPages size) hlt
  have hpages : ∀ v, (mapPages { h with fails := fun n => h.fails (n + 1) } 0 (directPages size)).1.mapped v = true →
      heapStart ≤ v ∧ v + pageSize ≤ heapStart + heapSize := by
    intro v hv
    rcases honly v hv with hold | ⟨hlo, hhi⟩
    · exact hw.pages v hold
    · exact ⟨hstart.trans hlo, hhi.trans hfits⟩
  rcases hmap : mapPages { h with fails := fun n => h.fails (n + 1) } 0 (directPages size) with ⟨h₁, _ | i⟩
  · rw [hmap] at heq hpages hdone
    have hnext := (hdone rfl).1
    subst heq
    refine ⟨hw.heapEnd, ?_, hpages⟩
    dsimp only at hnext ⊢
    rw [hnext]
    omega
  · rw [hmap] at heq hpages hfailed
    have hi := hfailed i rfl
    subst heq
    have hunmap := unmapPages_mapped { h with fails := fails, heapNext := next, mapped := mapped } h.heapNext i
      (lt_of_le_of_lt (Nat.add_le_add_left (Nat.mul_le_mul_right 4096 (by omega)) h.heapNext) hlt)
    exact ⟨hw.heapEnd, hw.cursor, fun v hv => hpages v ((hunmap v).1 hv)⟩

theorem Window.kmalloc (hfits : DirectFits h size) (hr : kmalloc h size = .ok r) : Window r.1 := by
  unfold KernelHeap.kmalloc at hr
  split at hr
  · cases hr
    exact hw
  cases hbin : binForSize size with
  | none =>
    rw [hbin] at hr
    cases hr
    exact hw.kmallocDirect (hfits hbin)
  | some bin =>
  rw [hbin] at hr
  obtain ⟨⟨h₁, chunk⟩, hslab, hr⟩ := bind_eq_ok hr
  have hw₁ := hw.slabAlloc hslab
  dsimp only at hr hw₁
  split at hr
  · cases hr
    exact hw₁
  · cases hr
    exact hw₁.congr rfl rfl fun _ => id

/-! ### The other calls -/

theorem Window.freeChunk (hr : freeChunk h ptr raw = .ok h') : Window h' := by
  unfold KernelHeap.freeChunk at hr
  dsimp only at hr
  split at hr
  · cases hr
  split at hr
  · cases hr
  split at hr
  · cases hr
  · cases hr
    exact hw.congr rfl rfl fun _ => id

theorem Window.unmapPage (ptr page : Nat) : Outcome Window (fun _ => True) (KernelHeap.unmapPage ptr page h) := by
  unfold KernelHeap.unmapPage
  split
  · refine hw.congr rfl rfl fun v hv => ?_
    by_cases hv' : v = page
    · rwa [hv']
    · exact (update_of_ne hv' _ _).symm.trans hv
  · trivial

theorem Window.freePages (hr : freePages h ptr raw = .ok h') : Window h' := by
  obtain ⟨h₁, hloop, hr⟩ := bind_eq_ok hr
  have houtcome : Outcome Window (fun _ => True) ((List.range (h.mem.u16 raw)).foldlM
      (fun h i => KernelHeap.unmapPage ptr (add64 (alignDown raw pageSize) (i * pageSize)) h) h) :=
    foldlM_outcome Window (fun _ => True) hw fun h i _ hw => hw.unmapPage ptr _
  rw [hloop] at houtcome
  cases hr
  exact Window.congr houtcome rfl rfl fun _ => id

theorem Window.kfreeUnlocked (hr : kfreeUnlocked depth h ptr = .ok h') : Window h' := by
  induction depth generalizing h ptr with
  | zero => cases hr
  | succ depth ih =>
  rw [KernelHeap.kfreeUnlocked] at hr
  dsimp only at hr
  split at hr
  · cases hr
    exact hw
  split at hr
  · cases hr
  split at hr
  · exact ih (hw.write _ h.copies) hr
  split at hr
  · exact hw.freeChunk hr
  split at hr
  · exact hw.freePages hr
  · cases hr

theorem Window.kfree (hr : kfree h ptr = .ok h') : Window h' := by
  rw [kfree_eq] at hr
  exact hw.kfreeUnlocked hr

theorem Window.kzalloc (hfits : DirectFits h size) (hr : kzalloc h size = .ok r) : Window r.1 := by
  obtain ⟨⟨h₁, p⟩, hmalloc, hr⟩ := bind_eq_ok hr
  have hw₁ := hw.kmalloc hfits hmalloc
  cases hr
  split
  · exact hw₁
  · exact hw₁.congr rfl rfl fun _ => id

theorem Window.kmallocAligned
    (hfits : isPowerOfTwo (leastAlignment alignment) = true → DirectFits h (alignedTotal size alignment))
    (hr : kmallocAligned h size alignment = .ok r) : Window r.1 := by
  unfold KernelHeap.kmallocAligned at hr
  cases hpow : isPowerOfTwo (leastAlignment alignment) with
  | false =>
    rw [hpow] at hr
    cases hr
    exact hw
  | true =>
  rw [hpow, Bool.not_true, if_neg Bool.false_ne_true] at hr
  obtain ⟨⟨h₁, raw⟩, hmalloc, hr⟩ := bind_eq_ok hr
  have hw₁ := hw.kmalloc (hfits hpow) hmalloc
  dsimp only at hr hw₁
  by_cases hraw : raw = 0
  · rw [if_pos hraw] at hr
    rw [← Except.ok.inj hr]
    exact hw₁
  · rw [if_neg hraw] at hr
    rw [← Except.ok.inj hr]
    exact hw₁.write _ h₁.copies

theorem Window.krealloc (hfits : ptr = 0 ∨ size ≠ 0 ∧ staysInPlace h ptr size = false → DirectFits h size)
    (hr : krealloc h ptr size = .ok r) : Window r.1 := by
  rw [KernelHeap.krealloc] at hr
  by_cases hnull : ptr = 0
  · rw [if_pos hnull] at hr
    exact hw.kmalloc (hfits (.inl hnull)) hr
  rw [if_neg hnull] at hr
  by_cases hsize : size = 0
  · rw [if_pos hsize] at hr
    obtain ⟨h₁, hfree, hr⟩ := bind_eq_ok hr
    rw [← Except.ok.inj hr]
    exact hw.kfree hfree
  rw [if_neg hsize] at hr
  cases hstay : staysInPlace h ptr size with
  | true =>
    rw [if_pos hstay] at hr
    rw [← Except.ok.inj hr]
    exact hw.write _ h.copies
  | false =>
  rw [hstay, if_neg Bool.false_ne_true] at hr
  obtain ⟨⟨h₁, q⟩, hmalloc, hr⟩ := bind_eq_ok hr
  have hw₁ := hw.kmalloc (hfits (.inr ⟨hsize, hstay⟩)) hmalloc
  dsimp only at hw₁ hr
  by_cases hq : q = 0
  · rw [if_pos hq] at hr
    rw [← Except.ok.inj hr]
    exact hw₁
  rw [if_neg hq] at hr
  obtain ⟨h₂, hfree, hr⟩ := bind_eq_ok hr
  rw [← Except.ok.inj hr]
  exact (hw₁.write _ _).kfree hfree

end

/-- **One step.** -/
theorem Window.heapStep (hw : Window log.heap) (call : HeapCall) (hinside : CallInside log call)
    (hstep : heapStep log call = .ok log') : Window log'.heap := by
  cases call with
  | kmalloc size =>
    obtain ⟨⟨h₁, p⟩, hr, hstep⟩ := bind_eq_ok hstep
    have hw₁ := hw.kmalloc hinside hr
    cases hstep
    split <;> exact hw₁
  | kzalloc size =>
    obtain ⟨⟨h₁, p⟩, hr, hstep⟩ := bind_eq_ok hstep
    have hw₁ := hw.kzalloc hinside hr
    cases hstep
    split <;> exact hw₁
  | kmallocAligned size alignment =>
    obtain ⟨⟨h₁, p⟩, hr, hstep⟩ := bind_eq_ok hstep
    have hw₁ := hw.kmallocAligned hinside hr
    cases hstep
    split <;> exact hw₁
  | krealloc ptr size =>
    obtain ⟨⟨h₁, q⟩, hr, hstep⟩ := bind_eq_ok hstep
    have hw₁ := hw.krealloc hinside hr
    dsimp only at hstep
    split at hstep <;> cases hstep
    · split <;> exact hw₁
    · repeat' split
      all_goals exact hw₁
  | kfree ptr =>
    obtain ⟨h₁, hr, hstep⟩ := bind_eq_ok hstep
    have hw₁ := hw.kfree hr
    split at hstep <;> cases hstep <;> exact hw₁
  | store addr byte =>
    cases hstep
    exact hw.congr rfl rfl fun _ => id

theorem window_init (mem : Bytes) (fails : Nat → Bool) : Window (HeapLog.init mem fails).heap := by
  refine ⟨rfl, ?_, nofun⟩
  show heapStart % 4096 = 0 ∧ heapStart ≤ heapStart ∧ heapStart ≤ heapStart + heapSize
  decide

/-! ### Requests that do not fit -/

/-- There is no chunk for the request, and the cursor is at the end. -/
theorem kmalloc_at_end (hend : h.heapEnd ≤ h.heapNext) (hbin : binForSize size = some bin)
    (hempty : h.bins bin = 0 ∨ h.mem.u16 (freeChunksAt (h.bins bin)) = 0) : kmalloc h size = .ok (h, 0) := by
  have hgrow : slabGrow h bin = (h, 0) := by
    rw [slabGrow, slabCreate, heapMapPage, if_pos hend]
    rfl
  rw [kmalloc]
  split
  · rfl
  rw [hbin]
  dsimp only
  have hslab : slabAlloc h bin = .ok (h, 0) := by
    rw [slabAlloc]
    by_cases hzero : h.bins bin = 0
    · rw [if_pos hzero, hgrow]
      rfl
    rw [if_neg hzero]
    dsimp only
    rw [if_neg hzero, if_pos (hempty.resolve_left hzero), hgrow]
    rfl
  rw [hslab]
  rfl

theorem mapPages_keeps (hv : h.mapped v = true) : (mapPages h i rest).1.mapped v = true := by
  induction rest generalizing h i with
  | zero => exact hv
  | succ rest ih =>
  rw [mapPages]
  rcases vmmMap_cases { h with heapNext := add64 h.heapNext pageSize } h.heapNext with
    ⟨fails, hmap⟩ | ⟨fails, hfree, hmap⟩
  · rw [hmap]
    exact hv
  rw [hmap]
  refine ih ?_
  dsimp only
  rw [update_of_ne, hv]
  rintro rfl
  exact Bool.false_ne_true (hfree.symm.trans hv)

theorem mapPages_maps (hj : j < rest) (hlt : h.heapNext + j * 4096 < 2 ^ 64)
    (hdone : (mapPages h i rest).2 = none) : (mapPages h i rest).1.mapped (h.heapNext + j * 4096) = true := by
  induction rest generalizing h i j with
  | zero => exact absurd hj (Nat.not_lt_zero j)
  | succ rest ih =>
  rw [mapPages] at hdone ⊢
  rcases vmmMap_cases { h with heapNext := add64 h.heapNext pageSize } h.heapNext with
    ⟨fails, hmap⟩ | ⟨fails, -, hmap⟩
  · rw [hmap] at hdone
    cases hdone
  rw [hmap] at hdone ⊢
  cases j with
  | zero =>
    rw [Nat.zero_mul, Nat.add_zero]
    exact mapPages_keeps (update_self ..)
  | succ j =>
    have hnext : add64 h.heapNext pageSize = h.heapNext + 4096 :=
      add64_of_lt (show h.heapNext + 4096 < 2 ^ 64 by omega)
    rw [hnext] at hdone ⊢
    rw [show h.heapNext + (j + 1) * 4096 = h.heapNext + 4096 + j * 4096 by omega]
    exact ih (Nat.lt_of_succ_lt_succ hj) (show h.heapNext + 4096 + j * 4096 < 2 ^ 64 by omega) hdone

/-- A direct request that does not fit and is not refused maps the page behind the window. -/
theorem Window.kmalloc_past_end (hw : Window h) (hbin : binForSize size = none)
    (hpast : h.heapEnd < h.heapNext + directPages size * pageSize) (hr : KernelHeap.kmalloc h size = .ok r) (hne : r.2 ≠ 0) :
    r.1.mapped (heapStart + heapSize) = true := by
  obtain ⟨haligned, hstart, hend⟩ := hw.cursor
  rw [hw.heapEnd, pageSize] at hpast
  obtain ⟨j, hj⟩ : ∃ j, h.heapNext + j * 4096 = heapStart + heapSize :=
    ⟨(heapStart + heapSize - h.heapNext) / 4096, by unfold heapStart heapSize at *; omega⟩
  have hjlt : j < directPages size := by omega
  have hlt : h.heapNext + j * 4096 < 2 ^ 64 := lt_of_eq_of_lt hj (by decide)
  rw [KernelHeap.kmalloc] at hr
  split at hr
  · cases hr
    exact absurd rfl hne
  rw [hbin] at hr
  rw [← Except.ok.inj hr] at hne ⊢
  rw [KernelHeap.kmallocDirect, ask_eq] at hne ⊢
  dsimp only at hne ⊢
  split at hne
  · exact absurd rfl hne
  rename_i hask
  rw [if_neg hask]
  have hmaps := mapPages_maps (h := { h with fails := fun n => h.fails (n + 1) }) (i := 0) hjlt hlt
  rcases hmap : mapPages { h with fails := fun n => h.fails (n + 1) } 0 (directPages size) with ⟨h₁, _ | i⟩
  · rw [hmap] at hmaps
    rw [← hj]
    exact hmaps rfl
  · rw [hmap] at hne
    exact absurd rfl hne

/-- **The window.** When no direct request goes past the end, every page of every run is in the window. A request
for a chunk that needs a page at the end is refused; a direct request that goes past the end is not. -/
theorem heap_stays_in_window {mem : Bytes} {fails : Nat → Bool} {calls : List HeapCall} {log : HeapLog}
    (hsteps : AllSteps heapStep CallInside (.init mem fails) calls)
    (hrun : run heapStep (.init mem fails) calls = .ok log) :
    (∀ v, log.heap.mapped v = true → heapStart ≤ v ∧ v + pageSize ≤ heapStart + heapSize) ∧
    log.heap.heapNext ≤ heapStart + heapSize ∧
    (∀ size bin, binForSize size = some bin →
      log.heap.bins bin = 0 ∨ log.heap.mem.u16 (freeChunksAt (log.heap.bins bin)) = 0 →
      log.heap.heapNext = heapStart + heapSize → kmalloc log.heap size = .ok (log.heap, 0)) ∧
    ∀ size r, kmalloc log.heap size = .ok r → r.2 ≠ 0 → ¬ DirectFits log.heap size →
      r.1.mapped (heapStart + heapSize) = true := by
  have hkeep : ∀ (log : HeapLog) call log', Window log.heap → CallInside log call → heapStep log call = .ok log' →
      Window log'.heap := fun _ call _ hw => hw.heapStep call
  have hw : Window log.heap := run_inv hkeep (window_init mem fails) hsteps hrun
  refine ⟨hw.pages, hw.cursor.2.2, fun size bin hbin hempty hnext => ?_, fun size r hr hne hfits => ?_⟩
  · exact kmalloc_at_end (by rw [hw.heapEnd, hnext]) hbin hempty
  · obtain ⟨hbin, hpast⟩ := Classical.not_imp.mp hfits
    exact hw.kmalloc_past_end hbin (Nat.lt_of_not_le hpast) hr hne

/-- A slab, a direct block that is freed again, and an aligned block. -/
theorem heap_stays_in_window_calls : ∃ log,
    run heapStep (.init (fun _ => 0) fun _ => false)
      [.kmalloc 1200, .kmalloc 5000, .kfree (heapStart + 4120), .kmallocAligned 1200 8] = .ok log ∧
    ∀ v, log.heap.mapped v = true → heapStart ≤ v ∧ v + pageSize ≤ heapStart + heapSize := by
  have hsteps : AllSteps heapStep CallInside (.init (fun _ => 0) fun _ => false)
      [.kmalloc 1200, .kmalloc 5000, .kfree (heapStart + 4120), .kmallocAligned 1200 8] := .of_decide (by decide +kernel)
  have heval : (do
      let log ← run heapStep (.init (fun _ => 0) fun _ => false)
        [.kmalloc 1200, .kmalloc 5000, .kfree (heapStart + 4120), .kmallocAligned 1200 8]
      return log.live.length : Result Nat).toOption = some 2 := by
    decide +kernel
  obtain ⟨log, hrun, -⟩ := bind_eq_ok (eq_ok_of_toOption heval)
  exact ⟨log, hrun, (heap_stays_in_window hsteps hrun).1⟩

/-- One request of 256 MiB maps the page behind the window. -/
theorem heap_leaves_window : ∃ log,
    run heapStep (.init (fun _ => 0) fun _ => false) [.kmalloc 0x10000000] = .ok log ∧
    log.heap.mapped (heapStart + heapSize) = true ∧ log.live ≠ [] := by
  have hgrown := kmalloc_eq_grown (h := heapInit (fun _ => 0) fun _ => false) (show binForSize 0x10000000 = none by decide)
    (by decide) (by decide +kernel) (by decide +kernel) (by decide) rfl fun _ _ => rfl
  obtain ⟨h, hr, hmapped⟩ : ∃ h, kmalloc (heapInit (fun _ => 0) fun _ => false) 0x10000000 =
      .ok (h, heapStart + 24) ∧ h.mapped (heapStart + heapSize) = true := ⟨_, hgrown, by decide +kernel⟩
  refine ⟨(HeapLog.init (fun _ => 0) fun _ => false).handOut h (blockAt (heapStart + 24) 0x10000000), ?_, hmapped,
    List.cons_ne_nil _ _⟩
  have hstep : heapStep (.init (fun _ => 0) fun _ => false) (.kmalloc 0x10000000) =
      .ok ((HeapLog.init (fun _ => 0) fun _ => false).handOut h (blockAt (heapStart + 24) 0x10000000)) := by
    show (kmalloc (heapInit (fun _ => 0) fun _ => false) 0x10000000 >>= fun _ => _) = _
    rw [hr]
    rfl
  rw [run, hstep]
  rfl

end Litenix.KernelHeap
