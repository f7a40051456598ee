import Litenix.PmmOwnership

/-! The references of one page over a run. A log keeps, beside the allocator, the calls of `pmm_ref_page` and
`pmm_free_page` on a page since it was last handed out. `page_ref_counts` holds 16-bit words, and
`pmm_ref_page` increments one without a check: the word is one more than the references minus the frees only
as long as no call adds a reference to a page that has `2 ^ 16 - 1` of them. -/

namespace Litenix

open Lib Function

variable {c : PageCall} {p : Pmm} {page : UInt64}

/-- The calls on single pages. -/
inductive PageCall where
  | allocPage
  | refPage (page : UInt64)
  | freePage (page : UInt64)

def PageCall.op : PageCall → PmmOp
  | .allocPage => .allocPage
  | .refPage page => .refPage page
  | .freePage page => .freePage page

/-- The allocator and the calls on one page since it was last handed out. -/
structure PageLog where
  pmm : Pmm
  refs : Nat
  frees : Nat

/-- The log after a call that leaves the allocator in the state `p`. -/
def PageLog.note (index : Nat) (s : PageLog) (p : Pmm) : PageCall → PageLog
  | .allocPage => if pageAddr index ∈ pmmPages s.pmm .allocPage then ⟨p, 0, 0⟩ else ⟨p, s.refs, s.frees⟩
  | .refPage page => ⟨p, if pageIndex page.toNat = index then s.refs + 1 else s.refs, s.frees⟩
  | .freePage page => ⟨p, s.refs, if pageIndex page.toNat = index then s.frees + 1 else s.frees⟩

def pageLogStep (index : Nat) (s : PageLog) (c : PageCall) : Except Panic PageLog :=
  (pmmStep s.pmm c.op).map fun p => s.note index p c

/-- The log of a page that `pmm_alloc_page` has just returned. -/
def PageLog.start (p : Pmm) : PageLog := ⟨(pmmAllocPage p).1, 0, 0⟩

/-- A call that makes the page available again drops its last reference. -/
def DropsLast (index : Nat) (s : PageLog) (c : PageCall) : Prop :=
  ∀ t, pageLogStep index s c = .ok t → s.pmm.available index = false → t.pmm.available index = true →
    t.frees = 1 + t.refs

/-- No call adds a reference to the page when it is in use with `2 ^ 16 - 1` references. -/
def RoomForRef (index : Nat) (s : PageLog) : PageCall → Prop
  | .refPage page => pageIndex page.toNat = index → s.pmm.available index = false →
      1 + s.refs < s.frees + (2 ^ 16 - 1)
  | _ => True

instance (index : Nat) (s : PageLog) (c : PageCall) : Decidable (RoomForRef index s c) := by
  cases c <;> unfold RoomForRef <;> infer_instance

/-- The page is one the allocator hands out, and in use its count is that of the log. -/
structure RefsCounted (index : Nat) (s : PageLog) : Prop where
  pos : 0 < index
  lt_total : index < s.pmm.totalPages
  managed : s.pmm.managedBitmap index = true
  count : s.pmm.pageBitmap index = true → 0 < s.pmm.pageRefCounts index ∧
    s.pmm.pageRefCounts index < 2 ^ 16 ∧ s.pmm.pageRefCounts index + s.frees = 1 + s.refs

/-! ### One call -/

section

variable {index : Nat} {s t : PageLog}

theorem pageLogStep_ok (h : pageLogStep index s c = .ok t) :
    ∃ p, pmmStep s.pmm c.op = .ok p ∧ t = s.note index p c := by
  unfold pageLogStep at h
  cases hstep : pmmStep s.pmm c.op with
  | error e =>
    rw [hstep] at h
    cases h
  | ok p =>
    rw [hstep] at h
    exact ⟨p, rfl, (Except.ok.inj h).symm⟩

theorem RefsCounted.available_iff (h : RefsCounted index s) :
    s.pmm.available index = true ↔ s.pmm.pageBitmap index = false := by
  rw [Pmm.available_iff]
  simp [h.managed]

theorem RefsCounted.not_available_iff (h : RefsCounted index s) :
    s.pmm.available index = false ↔ s.pmm.pageBitmap index = true := by
  rw [← Bool.not_eq_true, h.available_iff, Bool.not_eq_false]

/-- A page that `pmm_alloc_page` returns was available, and is the only one it takes. -/
theorem mem_pmmPages_allocPage (h : pageAddr index ∈ pmmPages p .allocPage) :
    0 < index ∧ index < p.totalPages ∧ p.available index = true ∧ (pmmAllocPage p).1 = p.take index := by
  dsimp only [pmmPages, pagesFrom] at h
  split at h
  · cases h
  rename_i hzero
  have hmem : pageAddr index = (pmmAllocPage p).2 := by simpa using h
  unfold pmmAllocPage at *
  rcases p.allocBelowIndex_cases p.totalPages with ⟨hnone, -⟩ | ⟨i, hi, havail, -, hsome⟩
  · exact absurd (by rw [hnone]) hzero
  rw [hsome] at hmem hzero ⊢
  have hindex : index = i := by
    rw [← pageIndex_pageAddr index, hmem, pageIndex_pageAddr]
  subst hindex
  refine ⟨Nat.pos_of_ne_zero fun h0 => hzero ?_, hi, havail, rfl⟩
  rw [h0, pageAddr, Nat.zero_mul]

theorem RefsCounted.start (h : pageAddr index ∈ pmmPages p .allocPage) : RefsCounted index (.start p) := by
  obtain ⟨hpos, hlt, havail, htake⟩ := mem_pmmPages_allocPage h
  rw [PageLog.start, htake]
  exact ⟨hpos, hlt, (Pmm.available_iff.mp havail).1, fun _ => by simp [Pmm.take]⟩

section

variable (h : RefsCounted index s)

include h

theorem RefsCounted.of_same (htotal : t.pmm.totalPages = s.pmm.totalPages)
    (hmanaged : t.pmm.managedBitmap = s.pmm.managedBitmap) (hbitmap : t.pmm.pageBitmap index = s.pmm.pageBitmap index)
    (hcount : t.pmm.pageRefCounts index = s.pmm.pageRefCounts index) (hrefs : t.refs = s.refs)
    (hfrees : t.frees = s.frees) : RefsCounted index t where
  pos := h.pos
  lt_total := htotal ▸ h.lt_total
  managed := hmanaged ▸ h.managed
  count := by
    rw [hbitmap, hcount, hrefs, hfrees]
    exact h.count

theorem RefsCounted.allocPage : RefsCounted index (s.note index (pmmAllocPage s.pmm).1 .allocPage) := by
  dsimp only [PageLog.note]
  split
  · rename_i hmem
    exact .start hmem
  rename_i hmem
  dsimp only [pmmPages] at hmem
  unfold pmmAllocPage at *
  rcases s.pmm.allocBelowIndex_cases s.pmm.totalPages with ⟨hnone, -⟩ | ⟨i, hi, havail, -, hsome⟩
  · rw [hnone]
    exact h.of_same rfl rfl rfl rfl rfl rfl
  rw [hsome] at hmem ⊢
  have hindex : index ≠ i := by
    rintro rfl
    have hne : pageAddr index ≠ 0 := Nat.mul_ne_zero h.pos.ne' (by decide)
    exact hmem (by simp [pagesFrom, hne])
  exact h.of_same rfl rfl (update_of_ne hindex _ _) (update_of_ne hindex _ _) rfl rfl

theorem RefsCounted.refPage (hroom : RoomForRef index s (.refPage page)) :
    RefsCounted index (s.note index (pmmRefPage s.pmm page.toNat) (.refPage page)) := by
  dsimp only [PageLog.note, RoomForRef] at *
  by_cases hindex : pageIndex page.toNat = index
  · subst hindex
    have hpass : (pageIndex page.toNat < s.pmm.totalPages && s.pmm.managedBitmap (pageIndex page.toNat)) = true := by
      simp [h.lt_total, h.managed]
    rw [pmmRefPage, if_pos hpass, if_pos rfl]
    refine ⟨h.pos, h.lt_total, h.managed, fun hused => ?_⟩
    have hless := hroom rfl (h.not_available_iff.mpr hused)
    obtain ⟨hpos, hlt, hcount⟩ := h.count hused
    dsimp only
    rw [update_self, Nat.mod_eq_of_lt (by omega)]
    omega
  have hcount : (pmmRefPage s.pmm page.toNat).pageRefCounts index = s.pmm.pageRefCounts index := by
    unfold pmmRefPage
    split
    · exact update_of_ne (Ne.symm hindex) _ _
    · rfl
  have hrest : (pmmRefPage s.pmm page.toNat).totalPages = s.pmm.totalPages ∧
      (pmmRefPage s.pmm page.toNat).managedBitmap = s.pmm.managedBitmap ∧
      (pmmRefPage s.pmm page.toNat).pageBitmap = s.pmm.pageBitmap := by
    unfold pmmRefPage
    split <;> exact ⟨rfl, rfl, rfl⟩
  rw [if_neg hindex]
  exact h.of_same hrest.1 hrest.2.1 (congrFun hrest.2.2 index) hcount rfl rfl

/-- A free of the page takes one reference off, and clears the bit with the last one. -/
theorem RefsCounted.dropRef (hused : s.pmm.pageBitmap index = true) :
    RefsCounted index ⟨s.pmm.dropRef index, s.refs, s.frees + 1⟩ ∧
      ((s.pmm.dropRef index).pageBitmap index = false → s.frees + 1 = 1 + s.refs) := by
  obtain ⟨hpos, hlt, hcount⟩ := h.count hused
  dsimp only [Pmm.dropRef]
  split
  · refine ⟨⟨h.pos, h.lt_total, h.managed, fun hset => ?_⟩, fun _ => by omega⟩
    simp at hset
  refine ⟨⟨h.pos, h.lt_total, h.managed, fun _ => ?_⟩, fun hclear => ?_⟩
  · dsimp only
    rw [update_self]
    omega
  · rw [hused] at hclear
    cases hclear

end

theorem Pmm.dropRef_of_ne (p : Pmm) {i : Nat} (hne : index ≠ i) :
    (p.dropRef i).totalPages = p.totalPages ∧ (p.dropRef i).managedBitmap = p.managedBitmap ∧
      (p.dropRef i).pageBitmap index = p.pageBitmap index ∧
      (p.dropRef i).pageRefCounts index = p.pageRefCounts index := by
  dsimp only [Pmm.dropRef]
  split <;> simp [update_of_ne hne]

section

variable (h : RefsCounted index s)

include h

theorem RefsCounted.freePage (hfree : pmmFreePage s.pmm page.toNat = .ok p) :
    RefsCounted index (s.note index p (.freePage page)) ∧ DropsLast index s (.freePage page) := by
  obtain ⟨-, -, -, hused, rfl⟩ := pmmFreePage_ok_iff.mp hfree
  have hstep : pageLogStep index s (.freePage page) =
      .ok (s.note index (s.pmm.dropRef (pageIndex page.toNat)) (.freePage page)) := by
    simp only [pageLogStep, PageCall.op, pmmStep, hfree, Except.map]
  by_cases hindex : pageIndex page.toNat = index
  · subst hindex
    have hnote : s.note (pageIndex page.toNat) (s.pmm.dropRef (pageIndex page.toNat)) (.freePage page) =
        ⟨s.pmm.dropRef (pageIndex page.toNat), s.refs, s.frees + 1⟩ := by
      simp [PageLog.note]
    rw [hnote] at hstep ⊢
    obtain ⟨hcounted, hlast⟩ := h.dropRef hused
    refine ⟨hcounted, fun t ht _ havail => ?_⟩
    obtain rfl := Except.ok.inj (hstep.symm.trans ht)
    exact hlast (hcounted.available_iff.mp havail)
  obtain ⟨htotal, hmanaged, hbitmap, hcount⟩ := s.pmm.dropRef_of_ne (Ne.symm hindex)
  have hnote : s.note index (s.pmm.dropRef (pageIndex page.toNat)) (.freePage page) =
      ⟨s.pmm.dropRef (pageIndex page.toNat), s.refs, s.frees⟩ := by
    simp [PageLog.note, hindex]
  rw [hnote] at hstep ⊢
  have hcounted : RefsCounted index ⟨s.pmm.dropRef (pageIndex page.toNat), s.refs, s.frees⟩ :=
    h.of_same htotal hmanaged hbitmap hcount rfl rfl
  refine ⟨hcounted, fun t ht hbusy havail => ?_⟩
  obtain rfl := Except.ok.inj (hstep.symm.trans ht)
  rw [hcounted.available_iff, hbitmap] at havail
  rw [h.not_available_iff, havail] at hbusy
  cases hbusy

/-- **One step.** -/
theorem RefsCounted.step (hroom : RoomForRef index s c)
    (hstep : pageLogStep index s c = .ok t) : RefsCounted index t := by
  obtain ⟨p, hp, rfl⟩ := pageLogStep_ok hstep
  cases c with
  | allocPage =>
    obtain rfl := Except.ok.inj hp
    exact h.allocPage
  | refPage page =>
    obtain rfl := Except.ok.inj hp
    exact h.refPage hroom
  | freePage page => exact (h.freePage hp).1

/-- A call that leaves the bit of a page in use set does not make it available. -/
theorem RefsCounted.dropsLast_of_kept
    (hkept : ∀ p, pmmStep s.pmm c.op = .ok p → s.pmm.pageBitmap index = true → p.pageBitmap index = true) :
    DropsLast index s c := by
  intro t ht hbusy havail
  obtain ⟨p, hp, rfl⟩ := pageLogStep_ok ht
  have hset := hkept p hp (h.not_available_iff.mp hbusy)
  have hpmm : (s.note index p c).pmm = p := by
    cases c with
    | allocPage => exact apply_ite PageLog.pmm _ _ _ |>.trans (ite_self p)
    | refPage page => rfl
    | freePage page => rfl
  rw [hpmm, Pmm.available_iff, hset] at havail
  cases havail.2

/-- No call but the free of the last reference makes the page available. -/
theorem RefsCounted.dropsLast (c : PageCall) : DropsLast index s c := by
  cases c with
  | allocPage =>
    refine h.dropsLast_of_kept fun q hq hused => ?_
    obtain rfl := Except.ok.inj hq
    unfold pmmAllocPage
    rcases s.pmm.allocBelowIndex_cases s.pmm.totalPages with ⟨hnone, -⟩ | ⟨i, -, -, -, hsome⟩
    · rw [hnone]
      exact hused
    rw [hsome]
    by_cases hindex : index = i
    · simp [Pmm.take, hindex]
    · simp [Pmm.take, update_of_ne hindex, hused]
  | refPage page =>
    refine h.dropsLast_of_kept fun q hq hused => ?_
    obtain rfl := Except.ok.inj hq
    unfold pmmRefPage
    split <;> exact hused
  | freePage page =>
    cases hfree : pmmFreePage s.pmm page.toNat with
    | ok p => exact (h.freePage hfree).2
    | error e =>
      intro t ht
      obtain ⟨p, hp, -⟩ := pageLogStep_ok ht
      cases hfree.symm.trans hp

/-- At `2 ^ 16 - 1` references the next one clears the count, and a single free releases the page. -/
theorem RefsCounted.wraps (haligned : page.toNat % pmmPageSize = 0) (hfull : ¬RoomForRef index s (.refPage page)) :
    ∃ t u, pageLogStep index s (.refPage page) = .ok t ∧ pageLogStep index t (.freePage page) = .ok u ∧
      t.pmm.available index = false ∧ u.pmm.available index = true ∧ u.frees + (2 ^ 16 - 1) = 1 + u.refs := by
  simp only [RoomForRef, Classical.not_imp, not_lt] at hfull
  obtain ⟨rfl, hbusy, hfull⟩ := hfull
  have hused := h.not_available_iff.mp hbusy
  obtain ⟨hpos, hlt, hcount⟩ := h.count hused
  have hword : s.pmm.pageRefCounts (pageIndex page.toNat) = 2 ^ 16 - 1 := by omega
  have hpass : (pageIndex page.toNat < s.pmm.totalPages && s.pmm.managedBitmap (pageIndex page.toNat)) = true := by
    simp [h.lt_total, h.managed]
  have href : pmmRefPage s.pmm page.toNat =
      { s.pmm with pageRefCounts := update s.pmm.pageRefCounts (pageIndex page.toNat) 0 } := by
    rw [pmmRefPage, if_pos hpass, hword]
    rfl
  refine ⟨⟨pmmRefPage s.pmm page.toNat, s.refs + 1, s.frees⟩,
    ⟨(pmmRefPage s.pmm page.toNat).dropRef (pageIndex page.toNat), s.refs + 1, s.frees + 1⟩, ?_, ?_, ?_, ?_, ?_⟩
  · simp [pageLogStep, PageCall.op, pmmStep, PageLog.note, Except.map]
  · have hfree : pmmFreePage (pmmRefPage s.pmm page.toNat) page.toNat =
        .ok ((pmmRefPage s.pmm page.toNat).dropRef (pageIndex page.toNat)) := by
      rw [href]
      exact pmmFreePage_ok_iff.mpr ⟨haligned, h.lt_total, h.managed, hused, rfl⟩
    simp [pageLogStep, PageCall.op, pmmStep, PageLog.note, Except.map, hfree]
  · rw [href]
    exact hbusy
  · rw [href, Pmm.available_iff]
    simp [Pmm.dropRef, h.managed]
  · dsimp only
    omega

end

end

/-! ### Runs -/

/-- **Runs.** After a page is handed out, a call makes it available again only with the free of its last reference,
as long as no reference is added to a page that has `2 ^ 16 - 1`. One more clears the count, and the next free
releases the page with the others outstanding. -/
theorem page_outlives_refs (p : Pmm) (index : Nat) (calls : List PageCall) (s : PageLog)
    (halloc : pageAddr index ∈ pmmPages p .allocPage)
    (hroom : AllSteps (pageLogStep index) (RoomForRef index) (.start p) calls)
    (hrun : run (pageLogStep index) (.start p) calls = .ok s) :
    (∀ c, DropsLast index s c) ∧
    ∀ page : UInt64, page.toNat % pmmPageSize = 0 → ¬RoomForRef index s (.refPage page) →
      ∃ t, pageLogStep index s (.refPage page) = .ok t ∧ ¬DropsLast index t (.freePage page) := by
  have hcounted : RefsCounted index s := 
    run_inv (fun _ _ _ h hroom hstep => h.step hroom hstep) (.start halloc) hroom hrun
  refine ⟨hcounted.dropsLast, fun page haligned hfull => ?_⟩
  obtain ⟨t, u, ht, hu, hbusy, havail, hcount⟩ := hcounted.wraps haligned hfull
  refine ⟨t, ht, fun hlast => ?_⟩
  have := hlast u hu hbusy havail
  omega

/-- A machine with one page to hand out. -/
def onePage : Pmm where
  totalPages := 2
  pageBitmap := fun index => index == 0
  managedBitmap := fun _ => true
  pageRefCounts := fun _ => 0
  freePages := 1
  bitmapPhys := 0
  bitmapStorageBytes := 0
  trampolinePool := []

theorem onePage_allocPage : pageAddr 1 ∈ pmmPages onePage .allocPage := by decide

/-- A page with two references is available again after two frees. -/
theorem page_outlives_refs_shared : ∃ s,
    run (pageLogStep 1) (.start onePage) [.refPage 0x1000, .freePage 0x1000] = .ok s ∧
    pageAddr 1 ∈ pmmPages onePage .allocPage ∧
    AllSteps (pageLogStep 1) (RoomForRef 1) (.start onePage) [.refPage 0x1000, .freePage 0x1000] ∧
    s.pmm.available 1 = false ∧
    ((pageLogStep 1 s (.freePage 0x1000)).map fun t => (t.pmm.available 1, t.frees, t.refs)) = .ok (true, 2, 1) ∧
    ∀ c, DropsLast 1 s c := by
  have heval : (do
      let s ← run (pageLogStep 1) (.start onePage) [.refPage 0x1000, .freePage 0x1000]
      let t ← pageLogStep 1 s (.freePage 0x1000)
      return (s.pmm.available 1, t.pmm.available 1, t.frees, t.refs) : Except Panic _) =
      .ok (false, true, 2, 1) := by decide +kernel
  obtain ⟨s, hrun, heval⟩ := bind_eq_ok heval
  obtain ⟨t, ht, heval⟩ := bind_eq_ok heval
  obtain ⟨hbusy, hlast⟩ := Prod.mk.inj (Except.ok.inj heval)
  have hroom : AllSteps (pageLogStep 1) (RoomForRef 1) (.start onePage) [.refPage 0x1000, .freePage 0x1000] :=
    .of_decide (by decide +kernel)
  refine ⟨s, hrun, onePage_allocPage, hroom, hbusy, ?_,
    (page_outlives_refs onePage 1 _ s onePage_allocPage hroom hrun).1⟩
  rw [ht, Except.map, hlast]

/-- References can be added up to `2 ^ 16 - 1` of them. -/
theorem RefsCounted.refPages (h : RefsCounted index s) (hbusy : s.pmm.available index = false)
    (hindex : pageIndex page.toNat = index) {n : Nat} (hn : 1 + s.refs + n ≤ s.frees + (2 ^ 16 - 1)) :
    ∃ t, run (pageLogStep index) s (List.replicate n (.refPage page)) = .ok t ∧ RefsCounted index t ∧
      t.pmm.available index = false ∧ t.refs = s.refs + n ∧ t.frees = s.frees := by
  induction n generalizing s with
  | zero => exact ⟨s, rfl, h, hbusy, rfl, rfl⟩
  | succ n ih =>
  have hroom : RoomForRef index s (.refPage page) := fun _ _ => by omega
  have hstep : pageLogStep index s (.refPage page) =
      .ok ⟨pmmRefPage s.pmm page.toNat, s.refs + 1, s.frees⟩ := by
    simp [pageLogStep, PageCall.op, pmmStep, PageLog.note, Except.map, hindex]
  have hkept : (pmmRefPage s.pmm page.toNat).available index = false := by
    unfold pmmRefPage
    split <;> exact hbusy
  obtain ⟨t, hrun, hcounted, hbusy', hrefs, hfrees⟩ := ih (h.step hroom hstep) hkept (by dsimp only; omega)
  refine ⟨t, ?_, hcounted, hbusy', by rw [hrefs]; dsimp only; omega, hfrees⟩
  rw [List.replicate_succ, run, hstep]
  exact hrun

/-- A page with `2 ^ 16` references is released by the first free. -/
theorem page_released_early :
    ¬∀ (p : Pmm) (index : Nat) (calls : List PageCall) (s : PageLog), pageAddr index ∈ pmmPages p .allocPage →
      run (pageLogStep index) (.start p) calls = .ok s → ∀ c, DropsLast index s c := by
  intro hall
  have hstart : RefsCounted 1 (.start onePage) := .start onePage_allocPage
  have hindex : pageIndex (0x1000 : UInt64).toNat = 1 := by decide
  obtain ⟨s, hrun, hcounted, hbusy, hrefs, hfrees⟩ :=
    hstart.refPages (by decide) hindex (n := 2 ^ 16 - 2) (by decide)
  have hfull : ¬RoomForRef 1 s (.refPage 0x1000) := by
    intro hroom
    have := hroom hindex hbusy
    rw [hrefs, hfrees] at this
    revert this
    decide
  obtain ⟨t, u, ht, hu, hbusy', havail, hcount⟩ := hcounted.wraps (by decide) hfull
  have hmore : run (pageLogStep 1) (.start onePage)
      (List.replicate (2 ^ 16 - 2) (.refPage 0x1000) ++ [.refPage 0x1000]) = .ok t := by
    rw [run_append hrun, run, ht]
    rfl
  have := hall onePage 1 _ t onePage_allocPage hmore (.freePage 0x1000) u hu hbusy' havail
  omega

end Litenix
