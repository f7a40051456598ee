import Litenix.SpaceOps

/-! The life of an address space: `vmm_create_address_space` and `vmm_destroy_address_space`. -/

namespace Litenix

open Lib Radix Function

variable {boot : Nat → Prop} {live : Finset Nat} {extra : Nat → Int}
  {pos : Nat → Option (Nat × List Nat)} {p p' : Phys}
variable {r : Nat}

/-- The number of user entries of one space that map page `f`. -/
def spaceRefs (mem : Nat → Nat → Nat) (r f : Nat) : Nat := userRefs mem {r} f

theorem userDom_insert (live : Finset Nat) (r : Nat) : userDom (insert r live) = userDom live ∪ userDom {r} := by
  rw [userDom, userDom, userDom, ← Finset.union_product, Finset.union_comm, ← Finset.insert_eq]

theorem userRefs_insert (hr : r ∉ live) (mem : Nat → Nat → Nat) (f : Nat) :
    userRefs mem (insert r live) f = userRefs mem live f + spaceRefs mem r f := by
  rw [spaceRefs, userRefs, userRefs, userRefs, userDom_insert, refs_union]
  rw [Finset.disjoint_left]
  rintro ⟨r', v⟩ hk hk'
  obtain ⟨hr', -⟩ := mem_userDom.mp hk
  obtain ⟨heq, -⟩ := mem_userDom.mp hk'
  rw [Finset.mem_singleton] at heq
  exact hr (heq ▸ hr')

theorem userRefs_erase (hr : r ∈ live) (mem : Nat → Nat → Nat) (f : Nat) :
    userRefs mem live f = userRefs mem (live.erase r) f + spaceRefs mem r f := by
  rw [← userRefs_insert (Finset.notMem_erase r live), Finset.insert_erase hr]

theorem spaceRefs_eq_sum (mem : Nat → Nat → Nat) (r f : Nat) :
    spaceRefs mem r f = ∑ v ∈ Finset.range userPages, if userFrame mem (r, v) = some f then 1 else 0 := by
  rw [spaceRefs, userRefs, refs_eq_sum, userDom, Finset.sum_product, Finset.sum_singleton]

theorem pte_of_empty (hempty : ∀ j < 256, entryPage (mem r j) = none) (hv : v < userPages) : pte mem r v = none := by
  have htop : v / 512 / 512 / 512 % 512 < 256 := by
    rw [userPages] at hv
    omega
  simp only [pte, leafEntry, pathOf, tableAt, pageEntries, Option.bind_some, hempty _ htop, Option.bind_none]

/-! ### The counts of pages that no entry maps -/

/-- A free page has no references. -/
def Pmm.FreeZero (q : Pmm) : Prop := ∀ f, q.Manages f → ¬q.InUse f → q.pageRefCounts f = 0

/-- The allocator keeps the counts of the pages `boot`, which stay in use, and of those that it does not manage, and
free pages stay without references. -/
structure Tally (boot : Nat → Prop) (q q' : Pmm) : Prop where
  manages : ∀ f, q'.Manages f ↔ q.Manages f
  boot : ∀ f, boot f → q.InUse f → q'.InUse f ∧ q'.pageRefCounts f = q.pageRefCounts f
  unmanaged : ∀ f, ¬q.Manages f → q'.pageRefCounts f = q.pageRefCounts f
  freeZero : q.FreeZero → q'.FreeZero

namespace Tally

variable {q q' q'' : Pmm} {f : Nat}

theorem refl (boot : Nat → Prop) (q : Pmm) : Tally boot q q :=
  ⟨fun _ => .rfl, fun _ _ hu => ⟨hu, rfl⟩, fun _ _ => rfl, id⟩

theorem trans (h : Tally boot q q') (h' : Tally boot q' q'') : Tally boot q q'' where
  manages := fun f => (h'.manages f).trans (h.manages f)
  boot := fun f hf hu => by
    obtain ⟨hu', hcount⟩ := h.boot f hf hu
    obtain ⟨hu'', hcount'⟩ := h'.boot f hf hu'
    exact ⟨hu'', hcount'.trans hcount⟩
  unmanaged := fun f hf => (h'.unmanaged f (mt (h.manages f).mp hf)).trans (h.unmanaged f hf)
  freeZero := fun hq => h'.freeZero (h.freeZero hq)

/-- A page is as before, or its count changes: then it is managed and not one of `boot` in use, and has no references
when it is free. -/
theorem of_pages (hmanages : ∀ f, q'.Manages f ↔ q.Manages f)
    (hpages : ∀ f, (q'.InUse f ↔ q.InUse f) ∧ q'.pageRefCounts f = q.pageRefCounts f ∨
      q.Manages f ∧ (boot f → ¬q.InUse f) ∧ (¬q'.InUse f → q'.pageRefCounts f = 0)) : Tally boot q q' := by
  refine ⟨hmanages, fun f hb hu => ?_, fun f hf => ?_, fun hq f hf hu => ?_⟩
  all_goals rcases hpages f with ⟨hinUse, hcount⟩ | ⟨hm, hboot, hfree⟩
  · exact ⟨hinUse.mpr hu, hcount⟩
  · exact absurd hu (hboot hb)
  · exact hcount
  · exact absurd hm hf
  · exact hcount.trans (hq f ((hmanages f).mp hf) (mt hinUse.mpr hu))
  · exact hfree hu

theorem take (boot : Nat → Prop) (hf : f < q.totalPages) (havail : q.available f = true) :
    Tally boot q (q.take f) := by
  refine of_pages (fun _ => .rfl) fun g => ?_
  rw [Pmm.take_inUse hf havail, Pmm.take_refs]
  by_cases hgf : g = f
  · subst hgf
    refine .inr ⟨⟨hf, (Pmm.available_iff.mp havail).1⟩, fun _ hu => ?_, fun hno => absurd (.inr rfl) hno⟩
    rw [hu.not_available] at havail
    cases havail
  · exact .inl ⟨or_iff_left hgf, if_neg hgf⟩

theorem dropRef (hu : q.InUse f) (hf : ¬boot f) : Tally boot q (q.dropRef f) := by
  refine of_pages (fun g => by rw [Pmm.Manages, Pmm.Manages, Pmm.dropRef_totalPages, Pmm.dropRef_managed]) fun g => ?_
  rw [Pmm.dropRef_inUse, Pmm.dropRef_refs]
  by_cases hgf : g = f
  · subst hgf
    rw [if_pos rfl]
    exact .inr ⟨hu.manages, fun hb => absurd hb hf, fun hno => by_contra fun hcount => hno ⟨hu, fun _ => hcount⟩⟩
  · exact .inl ⟨and_iff_left fun heq => absurd heq hgf, if_neg hgf⟩

theorem refPage (hu : q.InUse f) (hf : ¬boot f) : Tally boot q (pmmRefPage q (pageAddr f)) := by
  rw [pmmRefPage, pageIndex_pageAddr, if_pos (by simp [hu.1, hu.2.1])]
  refine of_pages (fun _ => .rfl) fun g => ?_
  by_cases hgf : g = f
  · subst hgf
    exact .inr ⟨hu.manages, fun hb => absurd hb hf, fun hno => absurd hu hno⟩
  · exact .inl ⟨.rfl, update_of_ne hgf _ _⟩

theorem allocPage (boot : Nat → Prop) (s : Supply) : Tally boot s.phys.pmm s.allocPage.1.phys.pmm := by
  unfold Supply.allocPage
  split
  · exact .refl boot _
  rcases s.phys.allocPage_pmm with hsame | ⟨i, hi, havail, htake⟩
  · rw [hsame]
    exact .refl boot _
  · rw [htake]
    exact .take boot hi havail

theorem steps (boot : Nat → Prop) : Supply.Steps fun s s' => Tally boot s.phys.pmm s'.phys.pmm :=
  ⟨fun s => .refl boot s.phys.pmm, .trans, allocPage boot, fun s _ _ _ => .refl boot s.phys.pmm⟩

end Tally

namespace Wf

/-- A page in transit whose lower half is empty becomes the root of a new space. -/
theorem insertRoot (h : Wf boot live extra pos p) {g : Nat} (hg : pos g = none)
    (hrefs : userRefs p.mem live g = 0) (hextra : extra g = 1) (hempty : ∀ j < 256, entryPage (p.mem g j) = none) :
    Wf boot (insert g live) (update extra g 0) (update pos g (some (g, []))) p := by
  have hlive : g ∉ live := by
    intro hmem
    rw [h.shape.root g hmem] at hg
    cases hg
  have hview : ∀ f, userRefs p.mem (insert g live) f = userRefs p.mem live f := by
    intro f
    have hzero : spaceRefs p.mem g f = 0 := by
      rw [spaceRefs, userRefs, refs_eq_zero_iff]
      rintro ⟨r, v⟩ hk
      obtain ⟨hr, hv⟩ := mem_userDom.mp hk
      rw [Finset.mem_singleton] at hr
      subst hr
      rw [userFrame_of_pte, pte_of_empty hempty hv]
      exact fun hno => by cases hno
    rw [userRefs_insert hlive, hzero, add_zero]
  exact h.addTable hg hextra hrefs (h.shape.insertRoot hg (h.unreferenced hg hrefs) hempty (by norm_num)) hview rfl

/-- What a new address space is. -/
structure Created (boot : Nat → Prop) (live : Finset Nat) (extra : Nat → Int)
    (pos : Nat → Option (Nat × List Nat)) (p p' : Phys) (space : AddressSpace) (s : Nat) : Prop where
  root : space.pml4Phys = pageAddr space.root
  self : space.selfPhys = pageAddr s
  fresh : space.root ∉ live
  noTable : pos space.root = none
  noBoot : ¬boot space.root
  noExtra : extra s = 0
  unmapped : userRefs p.mem live s = 0
  wf : Wf boot (insert space.root live) (update extra s 1)
    (update pos space.root (some (space.root, []))) p'
  empty : ∀ v < userPages, pte p'.mem space.root v = none
  view : SameView live p.mem p'.mem
  kernel : KernelSame boot live p p'
  freeCalls : p'.freeCalls = p.freeCalls
  confined : Confined p p'
  upper : boot (pageIndex p.kernelPml4) → ∀ i, 256 ≤ i → i < pageEntries →
    p'.mem space.root i = p.mem (pageIndex p.kernelPml4) i

theorem vmmCreateAddressSpace_supply {sup : Supply} (h : Wf boot live extra pos sup.phys) :
    ∃ sup' o, sup.vmmCreateAddressSpace = .ok (sup', o) ∧
      ((o = none ∧ Wf boot live extra pos sup'.phys ∧ SameView live sup.phys.mem sup'.phys.mem ∧
          KernelSame boot live sup.phys sup'.phys ∧
          ∀ f, ¬sup.phys.pmm.Manages f → sup'.phys.mem f = sup.phys.mem f) ∨
        ∃ space s, o = some space ∧ Created boot live extra pos sup.phys sup'.phys space s) := by
  unfold Supply.vmmCreateAddressSpace
  rcases h.allocPage_supply with ⟨sup', halloc, hsame⟩ | ⟨g, sup₁, halloc, hg⟩
  · rw [halloc]
    refine ⟨sup', none, rfl, .inl ⟨rfl, ?_⟩⟩
    rw [hsame]
    exact ⟨h, SameView.refl live _, KernelSame.refl boot live _, fun _ _ => rfl⟩
  rw [halloc]
  simp only [hg.addr, if_false, pageIndex_pageAddr]
  generalize hpage : (fun i => if 256 ≤ i ∧ i < pageEntries then
    sup₁.phys.mem (pageIndex sup₁.phys.kernelPml4) i else 0) = page
  obtain ⟨hwf₂, hview₂⟩ := hg.wf.setPage hg.noTable page
  have hkernel₂ := hg.wf.kernelSame_setPage hg.noTable hg.not_boot page
  have hconfined₂ : Confined sup.phys { sup₁.phys with mem := update sup₁.phys.mem g page } :=
    hg.confined.trans (.update (hg.wf.counted g hg.noTable (.inr (by simp))).1.manages page)
  have hempty : ∀ j < 256, entryPage (page j) = none := by
    intro j hj
    rw [← hpage]
    simp only [show ¬256 ≤ j by omega, false_and, if_false, entryPage_zero]
  generalize hsup₂ : ({ sup₁ with phys := { sup₁.phys with mem := update sup₁.phys.mem g page } } :
    Supply) = sup₂
  have hphys₂ : sup₂.phys = { sup₁.phys with mem := update sup₁.phys.mem g page } := by rw [← hsup₂]
  rw [← hphys₂] at hwf₂ hkernel₂ hconfined₂
  change SameView live sup₁.phys.mem ({ sup₁.phys with mem := update sup₁.phys.mem g page } : Phys).mem
    at hview₂
  rw [← hphys₂] at hview₂
  rcases hwf₂.allocPage_supply with ⟨sup₃, halloc', hsame⟩ | ⟨s, sup₃, halloc', hs⟩
  · -- no page for the record: the table is given back
    rw [halloc']
    obtain ⟨p', hfree, hmem, hpml4, -, hwf'⟩ := hwf₂.freePage (f := g) (by simp)
    rw [← hsame] at hfree
    rw [if_pos rfl, hfree]
    refine ⟨{ sup₃ with phys := p' }, none, rfl, .inl ⟨rfl, ?_, ?_, ?_, ?_⟩⟩
    · convert hwf' using 1
      rw [update_idem, update_self]
      exact (update_eq_self_iff.mpr (by rw [hg.noExtra]; rfl)).symm
    · rw [hmem]
      exact hg.view.trans hview₂
    · exact (hg.kernel.trans hkernel₂).of_mem hmem hpml4
    · intro f hf
      rw [hmem, hconfined₂.mem f hf]
  rw [halloc']
  simp only [hs.addr, if_false]
  have hsg : g ≠ s := by
    rintro rfl
    have := hs.noExtra
    simp at this
  have hroot : sup₃.phys.mem g = page := by
    rw [hs.mem, update_of_ne hsg, hphys₂]
    exact update_self ..
  have hempty' : ∀ j < 256, entryPage (sup₃.phys.mem g j) = none := fun j hj => by rw [hroot, hempty j hj]
  have hins := hs.wf.insertRoot (g := g) hg.noTable (by
    rw [hs.view.userRefs, hview₂.userRefs, hg.view.userRefs, hg.unmapped])
    (by rw [update_of_ne hsg, update_self]) hempty'
  refine ⟨sup₃, _, rfl, .inr ⟨_, s, rfl, ?_⟩⟩
  have hrootIndex : AddressSpace.root ⟨pageAddr g, pageAddr s, 1⟩ = g := pageIndex_pageAddr g
  refine ⟨by rw [hrootIndex], rfl, ?_, ?_, ?_, ?_, ?_, ?_, ?_, ?_, ?_, ?_, hconfined₂.trans hs.confined, ?_⟩
  · rw [hrootIndex]
    intro hmem
    have := hg.noTable
    rw [h.shape.root g hmem] at this
    cases this
  · rw [hrootIndex]
    exact hg.noTable
  · rw [hrootIndex]
    exact hg.not_boot
  · have := hs.noExtra
    rwa [update_of_ne hsg.symm] at this
  · have := hs.unmapped
    rwa [hview₂.userRefs, hg.view.userRefs] at this
  · rw [hrootIndex]
    convert hins using 1
    funext f
    by_cases hfs : f = s
    · subst hfs
      rw [update_self, update_of_ne hsg.symm, update_self]
    rw [update_of_ne hfs]
    by_cases hfg : f = g
    · subst hfg
      rw [update_self, hg.noExtra]
    · rw [update_of_ne hfg, update_of_ne hfs, update_of_ne hfg]
  · rw [hrootIndex]
    exact fun v hv => pte_of_empty hempty' hv
  · exact (hg.view.trans hview₂).trans hs.view
  · exact (hg.kernel.trans hkernel₂).trans hs.kernel
  · rw [hs.freeCalls, hphys₂]
    exact hg.freeCalls
  intro hboot i hlo hhi
  rw [hrootIndex, hroot, ← hpage]
  simp only [hlo, hhi, and_self, if_true]
  rw [hg.kernel.kernelPml4, hg.kernel.pages _ hboot]

theorem tally_vmmCreateAddressSpace {sup sup' : Supply} {o : Option AddressSpace}
    (h : Wf boot live extra pos sup.phys) (hcall : sup.vmmCreateAddressSpace = .ok (sup', o)) :
    Tally boot sup.phys.pmm sup'.phys.pmm := by
  unfold Supply.vmmCreateAddressSpace at hcall
  rcases h.allocPage_supply with ⟨sup₁, halloc, hsame⟩ | ⟨g, sup₁, halloc, hg⟩
  · rw [halloc] at hcall
    cases hcall
    rw [hsame]
    exact .refl boot _
  have htally := Tally.allocPage boot sup
  rw [halloc] at hcall htally
  simp only [hg.addr, if_false] at hcall
  generalize hsup₂ : ({ sup₁ with phys := { sup₁.phys with mem := _ } } : Supply) = sup₂ at hcall
  have hpmm : sup₂.phys.pmm = sup₁.phys.pmm := by rw [← hsup₂]
  rw [← hpmm] at htally
  split at hcall
  · -- the table is in use and not a page of boot
    have hu : sup₂.allocPage.1.phys.pmm.InUse g := by
      refine ((Tally.allocPage (· = g) sup₂).boot g rfl ?_).1
      rw [hpmm]
      exact (hg.wf.counted g hg.noTable (.inr (by simp))).1
    rw [Phys.freePage_of_inUse hu] at hcall
    cases hcall
    exact (htally.trans (.allocPage boot sup₂)).trans (.dropRef hu hg.not_boot)
  · cases hcall
    exact htally.trans (.allocPage boot sup₂)

theorem vmmCreateAddressSpace (h : Wf boot live extra pos p) :
    ∃ p' o, Litenix.vmmCreateAddressSpace p = .ok (p', o) ∧
      ((o = none ∧ Wf boot live extra pos p' ∧ SameView live p.mem p'.mem ∧ KernelSame boot live p p') ∨
        ∃ space s, o = some space ∧ Created boot live extra pos p p' space s) := by
  obtain ⟨sup', o, hcall, hcase⟩ := (show Wf boot live extra pos (Supply.full p).phys from h).vmmCreateAddressSpace_supply
  rw [Supply.vmmCreateAddressSpace_full] at hcall
  cases hplain : Litenix.vmmCreateAddressSpace p with
  | error e =>
    rw [hplain] at hcall
    cases hcall
  | ok r =>
    rw [hplain] at hcall
    cases hcall
    rcases hcase with ⟨hnone, hwf, hview, hkernel, -⟩ | hcreated
    · exact ⟨r.1, r.2, rfl, .inl ⟨hnone, hwf, hview, hkernel⟩⟩
    · exact ⟨r.1, r.2, rfl, .inr hcreated⟩

end Wf

/-! ### Destroying a space -/

/-- The fields of the allocator after a list of pages has lost one reference each. -/
structure Dropped (l : List Nat) (p p' : Phys) : Prop where
  mem : p'.mem = p.mem
  kernelPml4 : p'.kernelPml4 = p.kernelPml4
  totalPages : p'.pmm.totalPages = p.pmm.totalPages
  managed : p'.pmm.managedBitmap = p.pmm.managedBitmap
  refs : ∀ f, p'.pmm.pageRefCounts f = p.pmm.pageRefCounts f - l.count f
  inUse : ∀ f, p'.pmm.InUse f ↔ p.pmm.InUse f ∧ (0 < l.count f → l.count f < p.pmm.pageRefCounts f)

theorem Dropped.tally (h : Dropped l p p') (hl : ∀ f, 0 < l.count f → p.pmm.InUse f ∧ ¬boot f) :
    Tally boot p.pmm p'.pmm := by
  refine .of_pages (fun f => by rw [Pmm.Manages, Pmm.Manages, h.totalPages, h.managed]) fun f => ?_
  rw [h.inUse, h.refs]
  rcases Nat.eq_zero_or_pos (l.count f) with hzero | hpos
  · exact .inl ⟨and_iff_left fun hpos => by omega, by omega⟩
  · obtain ⟨hu, hb⟩ := hl f hpos
    refine .inr ⟨hu.manages, fun hf => absurd hf hb, fun hno => ?_⟩
    by_contra hcount
    exact hno ⟨hu, fun _ => by omega⟩

/-- Pages that are in use with enough references can be freed one after the other. -/
theorem freeAll (l : List Nat) : ∀ (p : Phys),
    (∀ f, 0 < l.count f → p.pmm.InUse f ∧ l.count f ≤ p.pmm.pageRefCounts f) →
    ∃ p', l.foldlM (fun p page => p.freePage (pageAddr page)) p = .ok p' ∧ Dropped l p p' := by
  induction l with
  | nil =>
    intro p _
    exact ⟨p, rfl, rfl, rfl, rfl, rfl, fun f => by simp, fun f => by simp⟩
  | cons g rest ih =>
  intro p hl
  obtain ⟨hu, hg⟩ := hl g (by simp)
  have hfree := Phys.freePage_of_inUse hu
  generalize hp₁ : ({ p with pmm := p.pmm.dropRef g, freeCalls := pageAddr g :: p.freeCalls } : Phys) = p₁
    at hfree
  -- the page has one reference less
  obtain ⟨d, hd⟩ : ∃ d : Nat → Nat, ∀ f, (if g = f then 1 else 0) = d f := ⟨_, fun _ => rfl⟩
  have hone (f : Nat) : d f ≤ 1 := by
    rw [← hd]
    split <;> omega
  have hcount (f : Nat) : (g :: rest).count f = rest.count f + d f := by simp [List.count_cons, ← hd]
  have hrefs (f : Nat) : p₁.pmm.pageRefCounts f = p.pmm.pageRefCounts f - d f := by
    rw [← hp₁, ← hd]
    refine Pmm.dropRef_refs.trans ?_
    by_cases hfg : g = f
    · simp [hfg]
    · simp [hfg, Ne.symm hfg]
  have hinUse (f : Nat) : p₁.pmm.InUse f ↔ p.pmm.InUse f ∧ (0 < d f → 1 < p.pmm.pageRefCounts f) := by
    rw [← hp₁, ← hd]
    refine Pmm.dropRef_inUse.trans (and_congr_right fun _ => ?_)
    split_ifs with hfg
    · subst hfg
      omega
    · simp [Ne.symm hfg]
  simp only [hcount] at hl
  obtain ⟨p', hfold, hdropped⟩ := ih p₁ fun f hf => by
    obtain ⟨hu', hle⟩ := hl f (by omega)
    rw [hinUse, hrefs]
    exact ⟨⟨hu', by omega⟩, by omega⟩
  refine ⟨p', ?_, ?_, ?_, ?_, ?_, fun f => ?_, fun f => ?_⟩
  · rw [List.foldlM_cons, hfree]
    exact hfold
  · rw [hdropped.mem, ← hp₁]
  · rw [hdropped.kernelPml4, ← hp₁]
  · rw [hdropped.totalPages, ← hp₁]
    exact Pmm.dropRef_totalPages ..
  · rw [hdropped.managed, ← hp₁]
    exact Pmm.dropRef_managed ..
  · rw [hdropped.refs, hrefs, hcount]
    omega
  · rw [hdropped.inUse, hinUse, hrefs, hcount, and_assoc]
    refine and_congr_right fun _ => ?_
    have := hone f
    omega

open Classical in
/-- What `vmm_destroy_address_space` frees: a page once for each entry of the space that maps it, each
table of the space and its record once. -/
theorem Wf.count_spacePages (h : Wf boot live extra pos p) {space : AddressSpace} (hr : space.root ∈ live)
    {s : Nat} (hs : space.selfPhys = pageAddr s) (f : Nat) :
    (spacePages p.mem space).count f = spaceRefs p.mem space.root f +
      (if ∃ path, pos f = some (space.root, path) then 1 else 0) + (if f = s then 1 else 0) := by
  have hroot := h.shape.root _ hr
  have hbelow := h.shape.count_below pageEntries (by norm_num [pageEntries])
    (fun d hd => by simp [userWidth, Nat.pos_iff_ne_zero.mp hd]) (by simp [userWidth, pageEntries]) f 3
    (t := space.root) (r := space.root) (d := 0) (n := 0) hroot rfl
  have hleaves : (∑ j ∈ Finset.range (userWidth 0 * pageEntries ^ 3),
      if leafFrame entryPage pageEntries 3 p.mem space.root (0 * pageEntries ^ (3 + 1) + j) = some f
        then 1 else 0) = spaceRefs p.mem space.root f := by
    rw [spaceRefs_eq_sum, show userWidth 0 * pageEntries ^ 3 = userPages by
      norm_num [userWidth, pageEntries, userPages]]
    simp only [Nat.zero_mul, Nat.zero_add]
    rfl
  rw [hleaves] at hbelow
  have hself : pageIndex space.selfPhys = s := by rw [hs, pageIndex_pageAddr]
  have hunder : Shape.Under pos space.root (pathOf pageEntries 0 0) f ↔
      ∃ path, pos f = some (space.root, path) :=
    exists_congr fun q => and_iff_left List.nil_suffix
  rw [hunder] at hbelow
  rw [spacePages, List.count_append, hself, show (256 : Nat) = userWidth 0 from rfl, hbelow]
  by_cases hf : f = space.root
  · subst hf
    rw [if_neg (by simp), if_pos ⟨[], hroot⟩]
    simp only [List.count_cons, List.count_nil, beq_iff_eq]
    split_ifs <;> omega
  · simp only [ne_eq, hf, not_false_eq_true, and_true, List.count_cons, List.count_nil, beq_iff_eq]
    split_ifs <;> omega

/-- **Destroying a space.** Its tables and its record are free again, and every page it mapped has lost
the references of its entries. -/
theorem Wf.vmmDestroyAddressSpace (h : Wf boot live extra pos p) (hextra : ∀ f, 0 ≤ extra f)
    {space : AddressSpace} (hr : space.root ∈ live) {s : Nat} (hs : space.selfPhys = pageAddr s)
    (hheld : 0 < extra s) :
    ∃ p', Litenix.vmmDestroyAddressSpace p space = .ok p' ∧
      Wf boot (live.erase space.root) (update extra s (extra s - 1)) (Shape.dropTree pos space.root) p' ∧
      p'.mem = p.mem ∧ p'.kernelPml4 = p.kernelPml4 ∧ Tally boot p.pmm p'.pmm := by
  classical
  have hless (f : Nat) : update extra s (extra s - 1) f = extra f - (if f = s then 1 else 0 : Nat) ∧
      ((if f = s then 1 else 0 : Nat) : Int) ≤ extra f := by
    by_cases hfs : f = s
    · subst hfs
      simp
      omega
    · simp [hfs, hextra f]
  -- what each page loses, whatever is in use afterwards
  have hdrop (f : Nat) (used : Prop) := (h.page f).drop used (hless f).2 (userRefs_erase hr p.mem f)
    (fun ⟨path, hf⟩ => by simp [hf]) (fun hf => (Option.ne_none_iff_exists'.mp hf).elim fun _ => h.userRefs_table)
    (h.count_spacePages hr hs f)
  have hused (f : Nat) := (hdrop f _ Iff.rfl).2
  obtain ⟨p', hfold, hdropped⟩ := freeAll (spacePages p.mem space) p fun f hf => ⟨(hused f hf).1, (hused f hf).2.1⟩
  refine ⟨p', hfold, .of_pages ?_ (fun f => ?_) ?_ ?_, hdropped.mem, hdropped.kernelPml4, hdropped.tally fun f hf =>
    ⟨(hused f hf).1, (hused f hf).2.2⟩⟩
  · rw [hdropped.mem]
    exact h.shape.eraseRoot
  · have hkept : Shape.dropTree pos space.root f ≠ none ↔ pos f ≠ none ∧ ¬∃ path, pos f = some (space.root, path) := by
      rcases hf : pos f with _ | ⟨r, path⟩
      · simp [Shape.dropTree, hf]
      · simp [Shape.dropTree, hf, Option.filter_some]
    rw [Wf.Page, hkept, hdropped.mem, hdropped.refs, (hless f).1]
    exact (hdrop f _ (hdropped.inUse f)).1
  · rw [hdropped.managed]
    exact h.zero
  · rw [hdropped.totalPages]
    exact h.total

end Litenix
