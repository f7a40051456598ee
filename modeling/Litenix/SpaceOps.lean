import Litenix.Spaces
import Litenix.Supply

/-! What each function of `vmm.c` does to the address spaces. -/

namespace Litenix

open Lib Radix Function

variable {boot : Nat → Prop} {live : Finset Nat} {extra : Nat → Int}
  {pos : Nat → Option (Nat × List Nat)} {p p' : Phys}
variable {space : AddressSpace} {e f i pt r t v virt w : Nat} {x : Nat × List Nat} {q : Pmm} {s : Supply}

/-! ### The allocator -/

theorem Pmm.InUse.not_available (h : q.InUse f) : q.available f = false := by
  simp [Pmm.available, h.2.2]

theorem Pmm.take_inUse (hi : i < q.totalPages) (havail : q.available i = true) :
    (q.take i).InUse f ↔ q.InUse f ∨ f = i := by
  have hmanaged := (Pmm.available_iff.mp havail).1
  by_cases hfi : f = i
  · subst hfi
    simp [Pmm.InUse, Pmm.take, hi, hmanaged]
  · simp [Pmm.InUse, Pmm.take, hfi]

theorem Pmm.take_refs : (q.take i).pageRefCounts f = if f = i then 1 else q.pageRefCounts f := by
  by_cases hfi : f = i <;> simp [Pmm.take, hfi]

theorem Pmm.dropRef_refs :
    (q.dropRef i).pageRefCounts f = if f = i then q.pageRefCounts i - 1 else q.pageRefCounts f := by
  unfold Pmm.dropRef
  dsimp only
  by_cases hfi : f = i <;> split <;> simp [hfi]

theorem Pmm.dropRef_inUse : (q.dropRef i).InUse f ↔ q.InUse f ∧ (f = i → q.pageRefCounts i - 1 ≠ 0) := by
  unfold Pmm.dropRef
  dsimp only
  split
  · rename_i hzero
    by_cases hfi : f = i <;> simp [Pmm.InUse, hfi, hzero]
  · tauto

theorem Pmm.dropRef_totalPages (q : Pmm) (i : Nat) : (q.dropRef i).totalPages = q.totalPages := by
  unfold Pmm.dropRef
  dsimp only
  split <;> rfl

theorem Pmm.dropRef_managed (q : Pmm) (i : Nat) : (q.dropRef i).managedBitmap = q.managedBitmap := by
  unfold Pmm.dropRef
  dsimp only
  split <;> rfl

theorem Phys.freePage_of_inUse (h : p.pmm.InUse f) :
    p.freePage (pageAddr f) = .ok { p with pmm := p.pmm.dropRef f, freeCalls := pageAddr f :: p.freeCalls } := by
  have hfree : pmmFreePage p.pmm (pageAddr f) = .ok (p.pmm.dropRef f) := by
    refine pmmFreePage_ok_iff.mpr ⟨Nat.mul_mod_left .., ?_⟩
    rw [pageIndex_pageAddr]
    exact ⟨h.1, h.2.1, h.2.2, rfl⟩
  rw [Phys.freePage, hfree]

namespace Wf

section

variable (h : Wf boot live extra pos p)

include h

theorem extra_of_pos (hf : pos f ≠ none) : extra f = 0 :=
  ((h.page f).tables hf).2.2

theorem not_boot (hf : 0 < userRefs p.mem live f ∨ extra f ≠ 0) : ¬boot f := by
  intro hb
  obtain ⟨-, -, hx, hu⟩ := h.booted f hb
  rcases hf with hf | hf
  · omega
  · exact hf hx

theorem unused (hf : ¬p.pmm.InUse f) : pos f = none ∧ extra f = 0 ∧ userRefs p.mem live f = 0 := by
  obtain ⟨htables, hcounted, -, -⟩ := h.page f
  have hpos : pos f = none := by_contra fun hne => hf (htables hne).1
  have hnone : ¬(0 < userRefs p.mem live f ∨ extra f ≠ 0) := fun hreason => hf (hcounted (not_not.mpr hpos) hreason).1
  exact ⟨hpos, by omega, by omega⟩

theorem congr_tables (hmem : ∀ f x, pos f = some x → mem' f = p.mem f) :
    Wf boot live extra pos { p with mem := mem' } ∧ SameView live p.mem mem' := by
  have hview : SameView live p.mem mem' :=
    fun _ hr _ hv => h.shape.tables.leafEntry_congr hmem hr (length_pathOf ..).le (validPath_user hv) _
  refine ⟨.of_pages (h.shape.congr_tables hmem) (fun f => ?_) h.zero h.total, hview⟩
  rw [Wf.Page, hview.userRefs]
  exact h.page f

theorem setPage (hf : pos f = none) (page : Nat → Nat) :
    Wf boot live extra pos { p with mem := update p.mem f page } ∧
      SameView live p.mem (update p.mem f page) := by
  refine h.congr_tables fun g x hg => update_of_ne ?_ _ _
  rintro rfl
  rw [hf] at hg
  cases hg

theorem kernelSame_setPage (hf : pos f = none) (hboot : ¬boot f)
    (page : Nat → Nat) : KernelSame boot live p { p with mem := update p.mem f page } := by
  refine ⟨fun g hg => update_of_ne ?_ _ _, fun r hr i _ => ?_, rfl⟩
  · rintro rfl
    exact hboot hg
  have hne : r ≠ f := ne_of_apply_ne pos (by simp [hf, h.shape.root r hr])
  change update p.mem f page r i = _
  rw [update_of_ne hne]

/-- The references to one page that is no table change, and nothing else does. -/
theorem recount (hpos : pos f = none) (hboot : ¬boot f) (hshape : Shape entryPage userWidth 3 pos live p'.mem)
    (hview : ∀ g, userRefs p'.mem live g = userRefs p.mem live g)
    (hothers : ∀ g ≠ f, (p'.pmm.InUse g ↔ p.pmm.InUse g) ∧ p'.pmm.pageRefCounts g = p.pmm.pageRefCounts g)
    (hcounted : 0 < userRefs p.mem live f ∨ n ≠ 0 → p'.pmm.InUse f ∧ 0 < p'.pmm.pageRefCounts f ∧
      (p'.pmm.pageRefCounts f : Int) = userRefs p.mem live f + n)
    (hnoLeak : p'.pmm.InUse f → n ≠ 0 ∨ 0 < userRefs p.mem live f)
    (hmanaged : p'.pmm.managedBitmap = p.pmm.managedBitmap) (htotal : p'.pmm.totalPages = p.pmm.totalPages) :
    Wf boot live (update extra f n) pos p' := by
  refine .of_pages hshape (fun g => ?_) ((congrFun hmanaged 0).trans h.zero) (htotal.trans_le h.total)
  rw [Wf.Page, hview]
  by_cases hgf : g = f
  · subst hgf
    rw [update_self]
    exact ⟨fun hno => absurd hpos hno, fun _ => hcounted, fun hu => .inr (.inr (hnoLeak hu)), fun hb => absurd hb hboot⟩
  · rw [(hothers g hgf).1, (hothers g hgf).2, update_of_ne hgf]
    exact h.page g

theorem take (hf : f < p.pmm.totalPages) (havail : p.pmm.available f = true) :
    Wf boot live (update extra f 1) pos { p with pmm := p.pmm.take f, mem := update p.mem f fun _ => 0 } := by
  have hnot : ¬p.pmm.InUse f := fun hu => by
    rw [hu.not_available] at havail
    cases havail
  obtain ⟨hpos, -, hrefs⟩ := h.unused hnot
  obtain ⟨hset, hview⟩ := h.setPage hpos fun _ => 0
  refine h.recount hpos (fun hb => hnot (h.booted f hb).1) hset.shape hview.userRefs (fun g hg => ?_) (fun _ => ?_)
    (fun _ => .inl one_ne_zero) rfl rfl
  · exact ⟨(Pmm.take_inUse hf havail).trans (or_iff_left hg), by rw [Pmm.take_refs, if_neg hg]⟩
  · rw [Pmm.take_refs, if_pos rfl, hrefs]
    exact ⟨(Pmm.take_inUse hf havail).mpr (.inr rfl), by norm_num, rfl⟩

end

/-- What an allocation that succeeds gives: a page that nothing refers to; from now on the caller does. -/
structure Fresh (boot : Nat → Prop) (live : Finset Nat) (extra : Nat → Int)
    (pos : Nat → Option (Nat × List Nat)) (p p' : Phys) (f : Nat) : Prop where
  pmm : p'.pmm = p.pmm.take f
  mem : p'.mem = update p.mem f fun _ => 0
  freeCalls : p'.freeCalls = p.freeCalls
  addr : pageAddr f ≠ 0
  bound : f < 2 ^ 40
  noTable : pos f = none
  noExtra : extra f = 0
  unmapped : userRefs p.mem live f = 0
  wf : Wf boot live (update extra f 1) pos p'
  view : SameView live p.mem p'.mem
  kernel : KernelSame boot live p p'

section

variable (h : Fresh boot live extra pos p p' f)

include h

theorem Fresh.not_referenced : ¬Referenced live extra p.mem f := by
  rintro (hrefs | hextra)
  · rw [h.unmapped] at hrefs
    omega
  · exact hextra h.noExtra

theorem Fresh.sameData : SameData live extra p.mem p'.mem := by
  intro g hg
  rw [h.mem, update_of_ne]
  rintro rfl
  exact h.not_referenced hg

theorem Fresh.not_boot : ¬boot f := h.wf.not_boot (.inr (by simp))

theorem Fresh.confined : Confined p p' := by
  have hmanages : ∀ g, p'.pmm.Manages g ↔ p.pmm.Manages g := fun g => by rw [h.pmm]; rfl
  have hused := (h.wf.counted f h.noTable (.inr (by simp))).1
  refine ⟨hmanages, fun g hg => ?_⟩
  rw [h.mem, update_of_ne]
  rintro rfl
  exact hg ((hmanages g).mp hused.manages)

end

theorem manages_of_pos (h : Wf boot live extra pos p) (ht : pos t = some x) :
    p.pmm.Manages t := (h.tables t x ht).1.manages

theorem allocPage (h : Wf boot live extra pos p) :
    p.allocPage = (p, 0) ∧ (∀ i < p.pmm.totalPages, p.pmm.available i = false) ∨
    ∃ f p', p.allocPage = (p', pageAddr f) ∧ Fresh boot live extra pos p p' f := by
  rcases p.allocPage_cases h.zero with hnone | ⟨f, hf, havail, haddr, halloc⟩
  · exact .inl hnone
  have hnot : ¬p.pmm.InUse f := fun hu => by
    rw [hu.not_available] at havail
    cases havail
  obtain ⟨hpos, hextra, hrefs⟩ := h.unused hnot
  obtain ⟨hpages, hupper, hpml4⟩ := h.kernelSame_setPage hpos (fun hb => hnot (h.booted f hb).1) fun _ => 0
  exact .inr ⟨f, _, halloc, rfl, rfl, rfl, haddr, by have := h.total; omega, hpos, hextra, hrefs, h.take hf havail,
    (h.setPage hpos _).2, hpages, hupper, hpml4⟩

/-- An allocation that may fail though a page is free. -/
theorem allocPage_supply (h : Wf boot live extra pos s.phys) :
    (∃ s', s.allocPage = (s', 0) ∧ s'.phys = s.phys) ∨
      ∃ f s', s.allocPage = (s', pageAddr f) ∧ Fresh boot live extra pos s.phys s'.phys f := by
  unfold Supply.allocPage
  split
  · exact .inl ⟨_, rfl, rfl⟩
  rcases h.allocPage with ⟨halloc, -⟩ | ⟨f, p', halloc, hfresh⟩
  · rw [halloc]
    exact .inl ⟨_, rfl, rfl⟩
  · rw [halloc]
    exact .inr ⟨f, _, rfl, hfresh⟩

section

variable (h : Wf boot live extra pos p)

include h

/-- A reference beyond those of the entries can be given up. -/
theorem freePage (hf : 0 < extra f) :
    ∃ p', p.freePage (pageAddr f) = .ok p' ∧ p'.mem = p.mem ∧ p'.kernelPml4 = p.kernelPml4 ∧
      p'.freeCalls = pageAddr f :: p.freeCalls ∧ Wf boot live (update extra f (extra f - 1)) pos p' := by
  have hpos : pos f = none := by
    by_contra hne
    rw [h.extra_of_pos hne] at hf
    omega
  obtain ⟨hu, -, href⟩ := h.counted f hpos (.inr (by omega))
  refine ⟨_, Phys.freePage_of_inUse hu, rfl, rfl, rfl, h.recount hpos (h.not_boot (.inr (by omega))) h.shape (fun _ => rfl)
    (fun g hg => ?_) (fun hreason => ?_) (fun hu' => ?_) (Pmm.dropRef_managed ..) (Pmm.dropRef_totalPages ..)⟩
  · exact ⟨Pmm.dropRef_inUse.trans (and_iff_left fun hgf => absurd hgf hg), by rw [Pmm.dropRef_refs, if_neg hg]⟩
  · rw [Pmm.dropRef_inUse, Pmm.dropRef_refs, if_pos rfl]
    exact ⟨⟨hu, fun _ => by omega⟩, by omega, by omega⟩
  · have := (Pmm.dropRef_inUse.mp hu').2 rfl
    omega

theorem refPage (hpos : pos f = none)
    (hf : 0 < userRefs p.mem live f ∨ extra f ≠ 0) (hmax : p.pmm.pageRefCounts f < 65535) :
    Wf boot live (update extra f (extra f + 1)) pos { p with pmm := pmmRefPage p.pmm (pageAddr f) } := by
  obtain ⟨hu, -, href⟩ := h.counted f hpos hf
  have heq : pmmRefPage p.pmm (pageAddr f) = { p.pmm with
      pageRefCounts := update p.pmm.pageRefCounts f (p.pmm.pageRefCounts f + 1) } := by
    rw [pmmRefPage, pageIndex_pageAddr, if_pos (by simp [hu.1, hu.2.1]), Nat.mod_eq_of_lt (by omega)]
  rw [heq]
  refine h.recount hpos (h.not_boot hf) h.shape (fun _ => rfl) (fun g hg => ⟨Iff.rfl, update_of_ne hg _ _⟩)
    (fun _ => ?_) (fun _ => by omega) rfl rfl
  simp only [update_self]
  exact ⟨hu, by omega, by omega⟩

/-! ### Entries -/

theorem pos_of_walk (hr : r ∈ live) (hv : v < userPages)
    (ht : tableAt entryPage p.mem r (pathOf pageEntries 3 (v / pageEntries)) = some t) :
    pos t = some (r, pathOf pageEntries 3 (v / pageEntries)) :=
  h.shape.tables.pos_of_tableAt hr (length_pathOf ..).le (validPath_user hv) ht

theorem pte_of_pos (ht : pos pt = some (r, pathOf pageEntries 3 (v / pageEntries)))
    (hpresent : (p.mem pt (v % pageEntries)).testBit 0 = true) :
    pte p.mem r v = some (p.mem pt (v % pageEntries)) := by
  rw [pte, leafEntry, (h.shape.tables.tableAt_of_pos ht).1, Option.bind_some,
    entryPage_eq_some_iff.mpr ⟨hpresent, rfl⟩]
  rfl

/-- A mapped page is no table, and it is counted. -/
theorem mapped (hr : r ∈ live) (hv : v < userPages)
    (hf : userFrame p.mem (r, v) = some f) : pos f = none ∧ 0 < userRefs p.mem live f := by
  refine ⟨?_, refs_pos_iff.mpr ⟨(r, v), mem_userDom.mpr ⟨hr, hv⟩, hf⟩⟩
  obtain ⟨e, he, rfl⟩ := userFrame_eq_some hf
  obtain ⟨hpresent, -, t, ht, rfl⟩ := pte_eq_some he
  exact h.shape.leaf (h.pos_of_walk hr hv ht) (length_pathOf ..) (mod_pageEntries_lt v)
    (entryPage_eq_some_iff.mpr ⟨hpresent, rfl⟩)

theorem userRefs_table (hf : pos f = some x) : userRefs p.mem live f = 0 := by
  by_contra hne
  obtain ⟨⟨r, v⟩, hk, hmap⟩ := refs_pos_iff.mp (Nat.pos_of_ne_zero hne)
  obtain ⟨hr, hv⟩ := mem_userDom.mp hk
  rw [(h.mapped hr hv hmap).1] at hf
  cases hf

theorem not_referenced (ht : pos t = some x) : ¬Referenced live extra p.mem t := by
  rintro (hrefs | hextra)
  · rw [h.userRefs_table ht] at hrefs
    omega
  · exact hextra (h.tables t x ht).2.2

theorem sameData_setWord (ht : pos t = some x) (i w : Nat) : SameData live extra p.mem (p.setWord t i w).mem := by
  intro f hf
  refine update_of_ne ?_ _ _
  rintro rfl
  exact h.not_referenced ht hf

end

/-- The position and the index of an entry determine the page number. -/
theorem eq_of_pathOf_eq (hv : v < userPages) (hv' : v' < userPages)
    (hpath : pathOf pageEntries 3 (v / pageEntries) = pathOf pageEntries 3 (v' / pageEntries))
    (hi : v % pageEntries = v' % pageEntries) : v = v' := by
  simp only [pathOf, pageEntries, userPages, List.cons.injEq, and_true] at *
  omega

/-- A write to the entry of one page: the page that was mapped gains a reference in transit, the page that
is mapped now loses one. -/
theorem setPte (h : Wf boot live extra pos p) (hr : r ∈ live) (hv : v < userPages)
    (ht : pos t = some (r, pathOf pageEntries 3 (v / pageEntries)))
    (hw : ∀ f, entryPage w = some f → pos f = none ∧ (0 < userRefs p.mem live f ∨ extra f ≠ 0)) :
    Wf boot live (fun f => extra f + (if userFrame p.mem (r, v) = some f then 1 else 0) -
        (if entryPage w = some f then 1 else 0)) pos (p.setWord t (v % pageEntries) w) ∧
      ViewSet live p.mem (p.setWord t (v % pageEntries) w).mem r v (if (entryPage w).isSome then some w else none) ∧
      KernelSame boot live p (p.setWord t (v % pageEntries) w) := by
  have hshape := h.shape.setLeaf (i := v % pageEntries) ht (length_pathOf ..) fun f hf => (hw f hf).1
  have hread : ∀ r' ∈ live, ∀ v' < userPages, pte (p.setWord t (v % pageEntries) w).mem r' v' =
      if (r', v') = (r, v) then (if (entryPage w).isSome then some w else none) else pte p.mem r' v' := by
    intro r' hr' v' hv'
    have hleaf := h.shape.tables.leafEntry_setLeaf (i := v % pageEntries) w ht (length_pathOf ..) hr'
      (length_pathOf ..).le (validPath_user hv') (v' % pageEntries)
    refine hleaf.trans ?_
    by_cases hsame : (r', v') = (r, v)
    · cases hsame
      rw [if_pos ⟨rfl, rfl, rfl⟩, if_pos rfl]
    rw [if_neg hsame, if_neg]
    · rfl
    · rintro ⟨rfl, hpath, hi⟩
      exact hsame (by rw [eq_of_pathOf_eq hv' hv hpath hi])
  have hview : ViewSet live p.mem (p.setWord t (v % pageEntries) w).mem r v
      (if (entryPage w).isSome then some w else none) := by
    refine ⟨by rw [hread r hr v hv, if_pos rfl], fun r' hr' v' hv' hne => ?_⟩
    rw [hread r' hr' v' hv', if_neg hne]
  have hbind : (if (entryPage w).isSome then some w else none).bind entryPage = entryPage w := by
    cases hpage : entryPage w <;> simp [hpage]
  have hrefs : ∀ f, (userRefs (p.setWord t (v % pageEntries) w).mem live f : Int) =
      userRefs p.mem live f + (if entryPage w = some f then 1 else 0) -
        (if userFrame p.mem (r, v) = some f then 1 else 0) := by
    intro f
    have hcount := hview.userRefs hr hv f
    rw [hbind] at hcount
    rw [userFrame_of_pte]
    split_ifs at hcount ⊢ <;> omega
  have hkernel : KernelSame boot live p (p.setWord t (v % pageEntries) w) := by
    refine ⟨fun f hf => ?_, fun r' hr' i _ => ?_, rfl⟩
    · refine update_of_ne ?_ _ _
      rintro rfl
      rw [(h.booted f hf).2.1] at ht
      cases ht
    refine setWord_of_ne _ _ (.inl ?_)
    rintro rfl
    rw [h.shape.root r' hr'] at ht
    have := congrArg List.length (Prod.mk.inj (Option.some.inj ht)).2
    rw [length_pathOf] at this
    cases this
  refine ⟨.of_pages hshape (fun f => ?_) h.zero h.total, hview, hkernel⟩
  exact (h.page f).move (fun hf => by simpa using h.mapped hr hv hf) (fun hf => by simpa using hw f hf) (hrefs f)

/-! ### Tables -/

theorem unreferenced (h : Wf boot live extra pos p) (hf : pos f = none)
    (hrefs : userRefs p.mem live f = 0) : Shape.Unreferenced entryPage pos p.mem userWidth f := by
  intro t r path i ht hi hentry
  obtain ⟨hr, hlen, -⟩ := h.shape.live ht
  rcases Nat.lt_or_ge path.length 3 with hlt | hge
  · rw [h.shape.child ht hlt hi hentry] at hf
    cases hf
  obtain ⟨hwalk, hvalid⟩ := h.shape.tables.tableAt_of_pos ht
  have hlen : path.length = 3 := by omega
  rw [hlen] at hi
  obtain ⟨v, hv, rfl, rfl⟩ := exists_vpn hlen hvalid hi
  have hmapped : userFrame p.mem (r, v) = some f := by
    rw [userFrame_of_pte, pte, leafEntry, hwalk, Option.bind_some, hentry]
    exact hentry
  have := (h.mapped hr hv hmapped).2
  omega

/-- A page that has one reference and no entry becomes a table. -/
theorem addTable (h : Wf boot live extra pos p) {live' : Finset Nat} {g : Nat} (hg : pos g = none) (hextra : extra g = 1)
    (hrefs : userRefs p.mem live g = 0) (hshape : Shape entryPage userWidth 3 (update pos g (some x)) live' p'.mem)
    (hview : ∀ f, userRefs p'.mem live' f = userRefs p.mem live f) (hpmm : p'.pmm = p.pmm) :
    Wf boot live' (update extra g 0) (update pos g (some x)) p' := by
  refine .of_pages hshape (fun f => ?_) (hpmm ▸ h.zero) (hpmm ▸ h.total)
  rw [Wf.Page, hview, hpmm]
  have hpage := h.page f
  by_cases hfg : f = g
  · subst hfg
    rw [Wf.Page, hg, hextra, hrefs] at hpage
    simpa [hrefs] using PageOk.table (by simpa using hpage)
  · rwa [update_of_ne hfg, update_of_ne hfg]

theorem insertTable (h : Wf boot live extra pos p) {g : Nat} {path : List Nat}
    (hg : pos g = none) (hrefs : userRefs p.mem live g = 0) (hextra : extra g = 1)
    (hempty : p.mem g = fun _ => 0) (ht : pos t = some (r, path)) (hlen : path.length < 3)
    (hi : i < userWidth path.length) (hnone : entryPage (p.mem t i) = none) (hw : entryPage w = some g) :
    Wf boot live (update extra g 0) (update pos g (some (r, i :: path))) (p.setWord t i w) ∧
      SameView live p.mem (p.setWord t i w).mem ∧ KernelSame boot live p (p.setWord t i w) := by
  have hzero : ∀ j, entryPage (p.mem g j) = none := fun j => by rw [hempty, entryPage_zero]
  have hview : SameView live p.mem (p.setWord t i w).mem := fun r' hr' v hv =>
    h.shape.tables.leafEntry_insertTable hg hzero ht hlen hi hnone hw hr' (length_pathOf ..)
      (validPath_user hv) _
  refine ⟨h.addTable hg hextra hrefs (h.shape.insertTable hg (h.unreferenced hg hrefs) hzero ht hlen hi hnone hw)
    hview.userRefs rfl, hview, ?_, ?_, rfl⟩
  · intro f hf
    refine update_of_ne ?_ _ _
    rintro rfl
    rw [(h.booted f hf).2.1] at ht
    cases ht
  intro r' hr' j hj
  refine setWord_of_ne _ _ ?_
  by_cases hrt : r' = t
  · subst hrt
    rw [h.shape.root r' hr'] at ht
    cases ht
    right
    rintro rfl
    simp only [userWidth, List.length_nil, if_true] at hi
    omega
  · exact .inl hrt

/-- What the functions that only make tables do. -/
structure Extends (boot : Nat → Prop) (live : Finset Nat) (extra : Nat → Int)
    (pos : Nat → Option (Nat × List Nat)) (p : Phys) (pos' : Nat → Option (Nat × List Nat)) (p' : Phys) :
    Prop where
  wf : Wf boot live extra pos' p'
  view : SameView live p.mem p'.mem
  kernel : KernelSame boot live p p'
  freeCalls : p'.freeCalls = p.freeCalls
  grows : ∀ f x, pos f = some x → pos' f = some x
  data : SameData live extra p.mem p'.mem
  confined : Confined p p'

theorem Extends.refl (h : Wf boot live extra pos p) : Extends boot live extra pos p pos p where
  wf := h
  view := SameView.refl live p.mem
  kernel := KernelSame.refl boot live p
  freeCalls := rfl
  grows := fun _ _ => id
  data := fun _ _ => rfl
  confined := .refl p

theorem Extends.trans (h : Extends boot live extra pos p pos₁ p₁) (h' : Extends boot live extra pos₁ p₁ pos₂ p₂) :
    Extends boot live extra pos p pos₂ p₂ where
  wf := h'.wf
  view := h.view.trans h'.view
  kernel := h.kernel.trans h'.kernel
  freeCalls := h'.freeCalls.trans h.freeCalls
  grows := fun f x hf => h'.grows f x (h.grows f x hf)
  data := h.data.trans h.view h'.data
  confined := h.confined.trans h'.confined

/-- A page that is referred to does not become a table. -/
theorem Extends.pos_eq_none (h : Extends boot live extra pos p pos' p')
    (hf : 0 < userRefs p.mem live f ∨ extra f ≠ 0) : pos' f = none := by
  by_contra hne
  rcases hf with hf | hf
  · rw [← h.view.userRefs] at hf
    obtain ⟨⟨r, v⟩, hk, hmap⟩ := refs_pos_iff.mp hf
    obtain ⟨hr, hv⟩ := mem_userDom.mp hk
    exact hne (h.wf.mapped hr hv hmap).1
  · exact hf (h.wf.extra_of_pos hne)

/-- The tables that are new belong to the space with root `r`. -/
def NewIn (r : Nat) (pos pos' : Nat → Option (Nat × List Nat)) : Prop := ∀ f x, pos' f = some x → x.1 ≠ r → pos f = some x

theorem NewIn.refl (r : Nat) (pos : Nat → Option (Nat × List Nat)) : NewIn r pos pos := fun _ _ hf _ => hf

theorem NewIn.trans (h : NewIn r pos₁ pos₂) (h' : NewIn r pos₂ pos₃) : NewIn r pos₁ pos₃ :=
  fun f x hf hne => h f x (h' f x hf hne) hne

/-- One level of a walk that makes missing tables. -/
theorem ensureNextTable_supply (h : Wf boot live extra pos s.phys) {path : List Nat}
    (ht : pos t = some (r, path)) (hlen : path.length < 3) (hi : i < userWidth path.length) (flags : Nat) :
    ∃ pos', NewIn r pos pos' ∧ Extends boot live extra pos s.phys pos' (s.ensureNextTable t i flags).1.phys ∧
      ∀ g, (s.ensureNextTable t i flags).2 = some g → pos' g = some (r, i :: path) := by
  unfold Supply.ensureNextTable
  cases hentry : entryPage (s.phys.mem t i) with
  | some next =>
    refine ⟨pos, .refl r pos, Extends.refl h, ?_⟩
    rintro g ⟨⟩
    exact h.shape.child ht hlen hi hentry
  | none =>
  rcases h.allocPage_supply with ⟨s', halloc, hsame⟩ | ⟨f, s', halloc, hfresh⟩
  · rw [halloc]
    refine ⟨pos, .refl r pos, ?_, fun g hg => by cases hg⟩
    dsimp only
    rw [if_pos rfl, hsame]
    exact Extends.refl h
  rw [halloc]
  simp only [hfresh.addr, if_false, pageIndex_pageAddr]
  have htf : t ≠ f := ne_of_apply_ne pos (by simp [hfresh.noTable, ht])
  have hnone : entryPage (s'.phys.mem t i) = none := by
    rw [hfresh.mem, update_of_ne htf, hentry]
  have hins := hfresh.wf.insertTable hfresh.noTable
    (by rw [hfresh.view.userRefs]; exact hfresh.unmapped) (update_self ..)
    (by rw [hfresh.mem, update_self]) ht hlen hi hnone
    (entryPage_makeEntry hfresh.bound (tableFlagsFromLeaf_present flags))
  rw [update_idem, ← hfresh.noExtra, update_eq_self] at hins
  refine ⟨_, ?_, ⟨hins.1, hfresh.view.trans hins.2.1, hfresh.kernel.trans hins.2.2, hfresh.freeCalls,
    ?_, ?_, hfresh.confined.trans (.setWord (hfresh.wf.manages_of_pos ht) _ _)⟩, ?_⟩
  · intro g x hg hne
    rwa [update_of_ne] at hg
    rintro rfl
    rw [update_self] at hg
    cases hg
    exact hne rfl
  · intro g x hg
    rwa [update_of_ne]
    rintro rfl
    rw [hfresh.noTable] at hg
    cases hg
  · intro g hg
    have hgt : g ≠ t := by
      rintro rfl
      exact h.not_referenced ht hg
    exact (update_of_ne hgt _ _).trans (hfresh.sameData g hg)
  · rintro g ⟨⟩
    exact update_self ..

/-- A walk that makes missing tables ends at the page table of the address, or fails. -/
theorem walkToPteCreate_supply (h : Wf boot live extra pos s.phys) (hr : r ∈ live)
    (hv : vpn virt < userPages) (flags : Nat) :
    ∃ pos', NewIn r pos pos' ∧ Extends boot live extra pos s.phys pos' (s.walkToPteCreate r virt flags).1.phys ∧
      ∀ pt i, (s.walkToPteCreate r virt flags).2 = some (pt, i) →
        pos' pt = some (r, pathOf pageEntries 3 (vpn virt / pageEntries)) ∧ i = vpn virt % pageEntries := by
  have hvalid := validPath_user hv
  rw [pathOf_vpn] at hvalid ⊢
  obtain ⟨hpd, hpdpt, hpml4, -⟩ := hvalid
  unfold Supply.walkToPteCreate
  obtain ⟨pos₁, hnew₁, hext₁, hpos₁⟩ := h.ensureNextTable_supply (h.shape.root r hr) (by norm_num) hpml4 flags
  rcases hstep₁ : s.ensureNextTable r (pml4Index virt) flags with ⟨s₁, _ | pdpt⟩ <;> rw [hstep₁] at hext₁ hpos₁
  · exact ⟨pos₁, hnew₁, hext₁, fun _ _ hno => by cases hno⟩
  obtain ⟨pos₂, hnew₂, hext₂, hpos₂⟩ := hext₁.wf.ensureNextTable_supply (hpos₁ pdpt rfl) (by norm_num) hpdpt flags
  dsimp only
  rcases hstep₂ : s₁.ensureNextTable pdpt (pdptIndex virt) flags with ⟨s₂, _ | pd⟩ <;> rw [hstep₂] at hext₂ hpos₂
  · exact ⟨pos₂, hnew₁.trans hnew₂, hext₁.trans hext₂, fun _ _ hno => by cases hno⟩
  obtain ⟨pos₃, hnew₃, hext₃, hpos₃⟩ := hext₂.wf.ensureNextTable_supply (hpos₂ pd rfl) (by norm_num) hpd flags
  dsimp only
  rcases hstep₃ : s₂.ensureNextTable pd (pdIndex virt) flags with ⟨s₃, o₃⟩
  rw [hstep₃] at hext₃ hpos₃
  have hall := (hext₁.trans hext₂).trans hext₃
  have hnew := (hnew₁.trans hnew₂).trans hnew₃
  cases o₃ with
  | none => exact ⟨pos₃, hnew, hall, fun _ _ hno => by cases hno⟩
  | some pt =>
  refine ⟨pos₃, hnew, hall, ?_⟩
  rintro _ _ ⟨⟩
  exact ⟨hpos₃ pt rfl, (vpn_mod virt).symm⟩

/-- What `vmm_map` does when it succeeds: the page had no entry, and the reference in transit is now that
of the entry. -/
structure Maps (boot : Nat → Prop) (live : Finset Nat) (extra : Nat → Int)
    (pos : Nat → Option (Nat × List Nat)) (p : Phys) (pos' : Nat → Option (Nat × List Nat)) (p' : Phys)
    (r v f flags : Nat) : Prop where
  wf : Wf boot live (update extra f (extra f - 1)) pos' p'
  before : pte p.mem r v = none
  view : ViewSet live p.mem p'.mem r v (some (makeEntry (pageAddr f) flags))
  kernel : KernelSame boot live p p'
  freeCalls : p'.freeCalls = p.freeCalls
  grows : ∀ g x, pos g = some x → pos' g = some x
  data : SameData live extra p.mem p'.mem
  confined : Confined p p'

theorem vmmMap_supply (h : Wf boot live extra pos s.phys) (space : AddressSpace) (virt f flags : Nat)
    (hr : space.root ∈ live) (hv : vpn virt < userPages) (hbound : f < 2 ^ 40)
    (hf : 0 < userRefs s.phys.mem live f ∨ extra f ≠ 0) :
    ∃ pos', NewIn space.root pos pos' ∧ (((s.vmmMap space virt (pageAddr f) flags).2 = false ∧
        Extends boot live extra pos s.phys pos' (s.vmmMap space virt (pageAddr f) flags).1.phys) ∨
      ((s.vmmMap space virt (pageAddr f) flags).2 = true ∧
        Maps boot live extra pos s.phys pos' (s.vmmMap space virt (pageAddr f) flags).1.phys
          space.root (vpn virt) f flags)) := by
  unfold Supply.vmmMap
  split
  · exact ⟨pos, .refl _ pos, .inl ⟨rfl, Extends.refl h⟩⟩
  split
  · exact ⟨pos, .refl _ pos, .inl ⟨rfl, Extends.refl h⟩⟩
  rename_i hpresent
  simp only [Bool.not_eq_true', Bool.not_eq_false, hasFlag_present] at hpresent
  obtain ⟨pos', hnew, hext, hpos⟩ := h.walkToPteCreate_supply hr hv flags
  rcases hwalk : s.walkToPteCreate space.root virt flags with ⟨s₁, _ | ⟨pt, i⟩⟩ <;> rw [hwalk] at hext hpos
  · exact ⟨pos', hnew, .inl ⟨rfl, hext⟩⟩
  obtain ⟨hpt, rfl⟩ := hpos pt i rfl
  dsimp only
  split
  · exact ⟨pos', hnew, .inl ⟨rfl, hext⟩⟩
  rename_i habsent
  have hbefore : pte s₁.phys.mem space.root (vpn virt) = none := by
    rw [pte, leafEntry, (hext.wf.shape.tables.tableAt_of_pos hpt).1, Option.bind_some, entryPage,
      if_neg habsent]
    rfl
  have hentry := entryPage_makeEntry hbound hpresent
  have hset := hext.wf.setPte hr hv hpt (w := makeEntry (pageAddr f) flags) (by
    intro g hg
    rw [hentry] at hg
    cases hg
    rw [hext.view.userRefs]
    exact ⟨hext.pos_eq_none hf, hf⟩)
  rw [userFrame_of_pte, hbefore, hentry] at hset
  obtain ⟨hwf, hview, hkernel⟩ := hset
  refine ⟨pos', hnew, .inr ⟨rfl, ?_, ?_, ⟨hview.1, fun r' hr' v' hv' hne => ?_⟩, hext.kernel.trans hkernel,
    hext.freeCalls, hext.grows, hext.data.trans hext.view (hext.wf.sameData_setWord hpt _ _),
    hext.confined.trans (.setWord (hext.wf.manages_of_pos hpt) _ _)⟩⟩
  · change Wf boot live _ pos' (s₁.phys.setWord pt _ _)
    convert hwf using 2
    rename_i g
    by_cases hgf : g = f
    · subst hgf
      simp
    · simp [update_of_ne hgf, Ne.symm hgf]
  · rw [← hext.view _ hr _ hv, hbefore]
  · exact (hview.2 r' hr' v' hv' hne).trans (hext.view r' hr' v' hv')

section

variable (h : Wf boot live extra pos p)

include h

theorem vmmMap (space : AddressSpace) (virt f flags : Nat)
    (hr : space.root ∈ live) (hv : vpn virt < userPages) (hbound : f < 2 ^ 40)
    (hf : 0 < userRefs p.mem live f ∨ extra f ≠ 0) :
    ∃ pos', ((Litenix.vmmMap p space virt (pageAddr f) flags).2 = false ∧
        Extends boot live extra pos p pos' (Litenix.vmmMap p space virt (pageAddr f) flags).1) ∨
      ((Litenix.vmmMap p space virt (pageAddr f) flags).2 = true ∧
        Maps boot live extra pos p pos' (Litenix.vmmMap p space virt (pageAddr f) flags).1
          space.root (vpn virt) f flags) := by
  obtain ⟨pos', -, hmap⟩ := vmmMap_supply (s := .full p) h space virt f flags hr hv hbound hf
  rw [Supply.vmmMap_full] at hmap
  exact ⟨pos', hmap⟩

/-! ### Unmapping, protection and copy on write -/

section

variable (hr : r ∈ live) (hv : vpn virt < userPages) (hpte : Litenix.presentPte p.mem r virt = some (pt, i, e))

include hr hv hpte

theorem presentPte : pos pt = some (r, pathOf pageEntries 3 (vpn virt / pageEntries)) ∧ i = vpn virt % pageEntries ∧
      p.mem pt i = e ∧ entryPage e = some (entryIndex e) ∧ pte p.mem r (vpn virt) = some e ∧
      userFrame p.mem (r, vpn virt) = some (entryIndex e) := by
  obtain ⟨hwalk, hi, he, hpresent, hview⟩ := presentPte_eq_some hpte
  exact ⟨h.pos_of_walk hr hv hwalk, hi, he, entryPage_eq_some_iff.mpr ⟨hpresent, rfl⟩, hview,
    (pte_eq_some hview).2.1⟩

/-- The entry of a page is rewritten and still maps the same page: no count changes. -/
theorem rewritePte (hw : entryPage w = some (entryIndex e)) :
    Wf boot live extra pos (p.setWord pt i w) ∧
      ViewSet live p.mem (p.setWord pt i w).mem r (vpn virt) (some w) ∧
      KernelSame boot live p (p.setWord pt i w) := by
  obtain ⟨hpt, rfl, -, -, -, hframe⟩ := h.presentPte hr hv hpte
  have hmapped := h.mapped hr hv hframe
  have hset := h.setPte hr hv hpt (w := w) (by
    intro f hf
    rw [hw] at hf
    cases hf
    exact ⟨hmapped.1, .inl hmapped.2⟩)
  rw [hframe, hw] at hset
  refine ⟨?_, hset.2⟩
  convert hset.1 using 1
  funext f
  omega

end

theorem vmmProtect (flags : Nat) (hr : space.root ∈ live) (hv : vpn virt < userPages) :
    Wf boot live extra pos (Litenix.vmmProtect p space virt flags).1 ∧
      KernelSame boot live p (Litenix.vmmProtect p space virt flags).1 ∧
      ((Litenix.vmmProtect p space virt flags).1 = p ∨
        ∃ e, pte p.mem space.root (vpn virt) = some e ∧ flags.testBit 0 = true ∧
          ViewSet live p.mem (Litenix.vmmProtect p space virt flags).1.mem space.root (vpn virt)
            (some (makeEntry (entryPhys e) flags))) := by
  unfold Litenix.vmmProtect
  split
  · exact ⟨h, KernelSame.refl .., .inl rfl⟩
  rename_i hcheck
  simp only [Bool.or_eq_true, Bool.not_eq_true', not_or, Bool.not_eq_false, hasFlag_present] at hcheck
  cases hpte : Litenix.presentPte p.mem space.root virt with
  | none => exact ⟨h, KernelSame.refl .., .inl rfl⟩
  | some x =>
    obtain ⟨pt, i, e⟩ := x
    have hentry : entryPage (makeEntry (entryPhys e) flags) = some (entryIndex e) := by
      rw [entryPhys_eq_pageAddr]
      exact entryPage_makeEntry (entryIndex_lt e) hcheck.2
    obtain ⟨hwf, hview, hkernel⟩ := h.rewritePte hr hv hpte hentry
    exact ⟨hwf, hkernel, .inr ⟨e, (h.presentPte hr hv hpte).2.2.2.2.1, hcheck.2, hview⟩⟩

section

variable (hr : space.root ∈ live) (hv : vpn virt < userPages) (flags : Nat)

include hr hv

theorem sameData_vmmProtect : SameData live extra p.mem (Litenix.vmmProtect p space virt flags).1.mem := by
  unfold Litenix.vmmProtect
  split
  · exact fun _ _ => rfl
  · cases hpte : Litenix.presentPte p.mem space.root virt with
    | none => exact fun _ _ => rfl
    | some x => exact h.sameData_setWord (h.presentPte hr hv hpte).1 _ _

theorem confined_vmmProtect : Confined p (Litenix.vmmProtect p space virt flags).1 := by
  unfold Litenix.vmmProtect
  split
  · exact .refl p
  · cases hpte : Litenix.presentPte p.mem space.root virt with
    | none => exact .refl p
    | some x => exact .setWord (h.manages_of_pos (h.presentPte hr hv hpte).1) _ _

end

/-- The body of the unmapping loops: unmap a present page and free what it was mapped to. -/
theorem unmapFree (hextra : ∀ f, 0 ≤ extra f) {phys : Nat}
    (hr : space.root ∈ live) (hv : vpn virt < userPages) (haligned : pageAligned virt = true)
    (hphys : vmmVirtToPhys p space virt = some phys) :
    ∃ e p', pte p.mem space.root (vpn virt) = some e ∧ phys = pageAddr (entryIndex e) ∧
      (vmmUnmap p space virt).1.freePage phys = .ok p' ∧ Wf boot live extra pos p' ∧
      ViewSet live p.mem p'.mem space.root (vpn virt) none ∧ KernelSame boot live p p' ∧
      p'.freeCalls = phys :: p.freeCalls := by
  rw [vmmVirtToPhys_aligned p space haligned] at hphys
  obtain ⟨⟨pt, i, e⟩, hpte, rfl⟩ := Option.map_eq_some_iff.mp hphys
  obtain ⟨hpt, rfl, -, -, hview, hframe⟩ := h.presentPte hr hv hpte
  have hmapped := h.mapped hr hv hframe
  obtain ⟨hwf, hset, hkernel⟩ := h.setPte hr hv hpt (w := 0) (by
    intro f hf
    rw [entryPage_zero] at hf
    cases hf)
  rw [hframe, entryPage_zero] at hwf
  have hunmap : vmmUnmap p space virt = (p.setWord pt (vpn virt % pageEntries) 0, true) := by
    simp [vmmUnmap, haligned, hpte]
  have hpos : (0 : Int) < extra (entryIndex e) + (if some (entryIndex e) = some (entryIndex e) then 1 else 0) -
      (if (none : Option Nat) = some (entryIndex e) then 1 else 0) := by
    have := hextra (entryIndex e)
    simp
    omega
  obtain ⟨p', hfree, hmem, hpml4, hcalls, hwf'⟩ := hwf.freePage hpos
  refine ⟨e, p', hview, entryPhys_eq_pageAddr e, ?_, ?_, by rwa [hmem], ?_, ?_⟩
  · rw [hunmap, entryPhys_eq_pageAddr]
    exact hfree
  · convert hwf' using 1
    funext f
    by_cases hf : f = entryIndex e
    · subst hf
      simp
    · simp [update_of_ne hf, Ne.symm hf]
  · exact hkernel.of_mem hmem hpml4
  · rw [hcalls, entryPhys_eq_pageAddr]
    rfl

end

theorem testBit_cowFlags (e i : Nat) (hi : i < 64) : (cowFlags e).testBit i =
    (e.testBit i && decide (i < 12 ∨ 52 ≤ i) && decide (i ≠ 9) || decide (i = 1)) := by
  have hcow : (not64 vmmCow).testBit i = decide (i ≠ 9) := by
    revert i
    decide
  have hwritable : vmmWritable.testBit i = decide (i = 1) := by
    revert i
    decide
  rw [cowFlags, Nat.testBit_or, Nat.testBit_and, Nat.testBit_and, testBit_pageFlagsMask, hcow, hwritable]
  simp [hi]

/-- An entry with the page bits of page `g` and the other bits of a resolved entry. -/
structure Resolved (e g w : Nat) : Prop where
  page : entryPage w = some g
  writable : w.testBit 1 = true
  notCow : w.testBit 9 = false
  user : w.testBit 2 = e.testBit 2
  noExecute : w.testBit 63 = e.testBit 63

theorem resolved_same (he : e.testBit 0 = true) :
    Resolved e (entryIndex e) ((e &&& not64 pageFlagsMask) ||| cowFlags e) := by
  have hbit (i : Nat) (hi : i < 64) := (testBit_withFlags e (cowFlags e) hi).trans (by rw [testBit_cowFlags e i hi])
  refine ⟨entryPage_withFlags ?_ fun i h12 h52 => ?_, ?_, ?_, ?_, ?_⟩
  · rw [testBit_cowFlags e 0 (by norm_num), he]
    rfl
  · simp [testBit_cowFlags e i (by omega), show ¬i < 12 by omega, show ¬52 ≤ i by omega, show i ≠ 1 by omega]
  · simp [hbit 1 (by norm_num)]
  · simp [hbit 9 (by norm_num)]
  · simp [hbit 2 (by norm_num)]
  · simp [hbit 63 (by norm_num)]

theorem resolved_copy (he : e.testBit 0 = true) (hg : g < 2 ^ 40) : Resolved e g (pageAddr g ||| cowFlags e) := by
  have hlow : ∀ i < 12, (pageAddr g).testBit i = false := by
    intro i hi
    rw [pageAddr, pmmPageSize, show (4096 : Nat) = 2 ^ 12 by norm_num, Nat.testBit_mul_two_pow]
    simp [show ¬12 ≤ i by omega]
  have hbit : ∀ i < 64, (pageAddr g ||| cowFlags e).testBit i = ((pageAddr g).testBit i ||
        (e.testBit i && decide (i < 12 ∨ 52 ≤ i) && decide (i ≠ 9) || decide (i = 1))) := by
    intro i hi
    rw [Nat.testBit_or, testBit_cowFlags e i hi]
  have hhigh : (pageAddr g).testBit 63 = false := by
    refine Nat.testBit_lt_two_pow ?_
    rw [pageAddr, pmmPageSize]
    omega
  refine ⟨entryPage_eq_some_iff.mpr ⟨by rw [hbit 0 (by norm_num), he]; simp, ?_⟩, ?_, ?_, ?_, ?_⟩
  · refine (entryIndex_congr fun i h12 h52 => ?_).trans (entryIndex_pageAddr hg)
    rw [hbit i (by omega)]
    simp [show ¬i < 12 by omega, show ¬52 ≤ i by omega, show i ≠ 1 by omega]
  · simp [hbit 1 (by norm_num)]
  · simp [hbit 9 (by norm_num), hlow 9 (by norm_num)]
  · simp [hbit 2 (by norm_num), hlow 2 (by norm_num)]
  · simp [hbit 63 (by norm_num), hhigh]

/-- What `vmm_handle_cow` does to a page with a copy-on-write entry: a page with one reference is made
writable, and for a shared page the entry gets a page that nothing else maps. -/
inductive Cow (live : Finset Nat) (extra : Nat → Int) (p p' : Phys) (r v : Nat) : CowResult → Prop where
  | last (e w : Nat) : pte p.mem r v = some e → e.testBit 9 = true →
      userRefs p.mem live (entryIndex e) + extra (entryIndex e) = 1 → Resolved e (entryIndex e) w →
      ViewSet live p.mem p'.mem r v (some w) → p'.freeCalls = p.freeCalls → Cow live extra p p' r v .handled
  | copy (e g w : Nat) : pte p.mem r v = some e → e.testBit 9 = true → userRefs p.mem live g = 0 →
      extra g = 0 → Resolved e g w → ViewSet live p.mem p'.mem r v (some w) →
      p'.freeCalls = pageAddr (entryIndex e) :: p.freeCalls → Cow live extra p p' r v .handled
  | full : (∀ i < p.pmm.totalPages, p.pmm.available i = false) → p' = p → Cow live extra p p' r v .outOfMemory
  | absent : (∀ e, pte p.mem r v = some e → e.testBit 9 = false) → p' = p → Cow live extra p p' r v .notCow

/-- The copying branch of `vmm_handle_cow`, from the state after the allocation. -/
theorem cowCopy (h : Wf boot live extra pos p) (hextra : ∀ g, 0 ≤ extra g) {p₁ : Phys}
    (hr : r ∈ live) (hv : vpn virt < userPages)
    (hpte : Litenix.presentPte p.mem r virt = some (pt, i, e)) (hfresh : Fresh boot live extra pos p p₁ f)
    (page : Nat → Nat) :
    ∃ p', Phys.freePage (Phys.setWord { p₁ with mem := update p₁.mem f page } pt i
        (pageAddr f ||| cowFlags (update p₁.mem f page pt i))) (entryPhys e) = .ok p' ∧
      Wf boot live extra pos p' ∧ KernelSame boot live p p' ∧
      ViewSet live p.mem p'.mem r (vpn virt) (some (pageAddr f ||| cowFlags e)) ∧
      p'.freeCalls = entryPhys e :: p.freeCalls := by
  obtain ⟨hpt, rfl, hword, hentry, hview, hframe⟩ := h.presentPte hr hv hpte
  have hpresent := (entryPage_eq_some_iff.mp hentry).1
  have hptf : pt ≠ f := ne_of_apply_ne pos (by simp [hfresh.noTable, hpt])
  have hread : update p₁.mem f page pt (vpn virt % pageEntries) = e := by
    rw [update_of_ne hptf, hfresh.mem, update_of_ne hptf, hword]
  rw [hread]
  obtain ⟨hcopied, hsame⟩ := hfresh.wf.setPage hfresh.noTable page
  have hsame' := hfresh.view.trans hsame
  have hres := resolved_copy hpresent hfresh.bound
  obtain ⟨hwf, hset, hkernel⟩ := hcopied.setPte hr hv hpt (w := pageAddr f ||| cowFlags e) (by
    intro g hg
    rw [hres.page] at hg
    cases hg
    exact ⟨hfresh.noTable, .inr (by simp)⟩)
  have hold : userFrame (update p₁.mem f page) (r, vpn virt) = some (entryIndex e) := by
    rw [userFrame_of_pte, hsame' r hr _ hv, hview]
    exact hentry
  have hef : entryIndex e ≠ f := by
    intro heq
    have := (h.mapped hr hv hframe).2
    rw [heq, hfresh.unmapped] at this
    omega
  simp only [hold, hres.page] at hwf
  obtain ⟨p', hfree, hmem, hpml4, hcalls, hwf'⟩ := hwf.freePage (f := entryIndex e) (by
    have := hextra (entryIndex e)
    simp [update_of_ne hef, Ne.symm hef]
    omega)
  rw [hres.page, Option.isSome_some, if_pos rfl] at hset
  refine ⟨p', ?_, ?_, ?_, ?_, ?_⟩
  · rw [entryPhys_eq_pageAddr]
    exact hfree
  · convert hwf' using 1
    funext g
    by_cases hg : g = entryIndex e
    · subst hg
      simp [update_of_ne hef, Ne.symm hef]
    by_cases hgf : g = f
    · subst hgf
      simp [update_of_ne hg, hfresh.noExtra, hef]
    · simp [update_of_ne hg, update_of_ne hgf, Ne.symm hg, Ne.symm hgf]
  · have hpage := hfresh.wf.kernelSame_setPage hfresh.noTable hfresh.not_boot page
    exact ((hfresh.kernel.trans hpage).trans hkernel).of_mem hmem hpml4
  · rw [hmem]
    exact ⟨hset.1, fun r' hr' v' hv' hne => (hset.2 r' hr' v' hv' hne).trans (hsame' r' hr' v' hv')⟩
  · rw [hcalls, entryPhys_eq_pageAddr, ← hfresh.freeCalls]
    rfl

theorem vmmHandleCow (h : Wf boot live extra pos p) (hextra : ∀ f, 0 ≤ extra f)
    (hr : space.root ∈ live) (hv : vpn virt < userPages) :
    ∃ p' res, Litenix.vmmHandleCow p space virt = .ok (p', res) ∧ Wf boot live extra pos p' ∧
      KernelSame boot live p p' ∧ Cow live extra p p' space.root (vpn virt) res := by
  unfold Litenix.vmmHandleCow
  rw [presentPte_congr _ _ (vpn_alignDown virt)]
  cases hpte : Litenix.presentPte p.mem space.root virt with
  | none =>
    refine ⟨p, .notCow, rfl, h, KernelSame.refl .., .absent (fun e he => ?_) rfl⟩
    rw [presentPte_eq_none hpte] at he
    cases he
  | some x =>
  obtain ⟨pt, i, e⟩ := x
  obtain ⟨hpt, rfl, hword, hentry, hview, hframe⟩ := h.presentPte hr hv hpte
  have hpresent := (entryPage_eq_some_iff.mp hentry).1
  obtain ⟨hnoTable, hcounted⟩ := h.mapped hr hv hframe
  obtain ⟨hu, hpos, href⟩ := h.counted _ hnoTable (.inl hcounted)
  have hget : pmmGetPageRef p.pmm (entryPhys e) = p.pmm.pageRefCounts (entryIndex e) := by
    rw [pmmGetPageRef, ← entryIndex, if_pos (by simp [hu.1, hu.2.1])]
  dsimp only
  rw [hasFlag_cow, hget]
  split
  · rename_i hcow
    refine ⟨p, .notCow, rfl, h, KernelSame.refl .., .absent (fun e' he' => ?_) rfl⟩
    rw [hview] at he'
    cases he'
    simpa using hcow
  rename_i hcow
  have hcow : e.testBit 9 = true := by simpa using hcow
  split
  · have hres := resolved_same hpresent
    obtain ⟨hwf, hset, hkernel⟩ := h.rewritePte hr hv hpte hres.page
    exact ⟨_, .handled, rfl, hwf, hkernel, .last e _ hview hcow (by omega) hres hset rfl⟩
  rw [if_pos (by omega)]
  rcases h.allocPage with ⟨halloc, hnone⟩ | ⟨f, p₁, halloc, hfresh⟩
  · rw [halloc]
    exact ⟨p, .outOfMemory, rfl, h, KernelSame.refl .., .full hnone rfl⟩
  rw [halloc]
  simp only [hfresh.addr, if_false, pageIndex_pageAddr]
  obtain ⟨p', hfree, hwf, hkernel, hset, hcalls⟩ := h.cowCopy hextra hr hv hpte hfresh
    (p₁.mem (pageIndex (entryPhys e)))
  rw [hfree]
  exact ⟨p', .handled, rfl, hwf, hkernel,
    .copy e f _ hview hcow hfresh.unmapped hfresh.noExtra (resolved_copy hpresent hfresh.bound) hset
      (entryPhys_eq_pageAddr e ▸ hcalls)⟩

end Wf

end Litenix
