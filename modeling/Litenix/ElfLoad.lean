import Litenix.Elf
import Litenix.SpaceLife
import Litenix.FreeFrames

/-! What the loader does to the new address space, page by page. A page is placed, or it is lost because
`vmm_map` has failed and nobody looked at the result; the contents of all other pages stay. Everything that was
in use before the load is kept. -/

namespace Litenix

open Lib Radix Function

variable {boot : Nat → Prop} {live : Finset Nat} {extra : Nat → Int} {pos : Nat → Option (Nat × List Nat)}
variable {space : AddressSpace} {d : ElfFile} {args : ExecArgs} {env : LoadEnv} {reply : LoadReply}
  {flags v vaddr virt : Nat} {mem m₁ m₂ m₃ : Nat → Nat → Nat} {p p' : Phys} {proc : Process}
variable {r e : Nat} {mem' : Nat → Nat → Nat} {outside : Bool} {page : Bytes}

/-! ### The contents of a space -/

/-- The bytes of a user page. -/
def userPage (mem : Nat → Nat → Nat) (r v : Nat) : Option Bytes :=
  (pte mem r v).map fun e => pageBytes (mem (entryIndex e))

def SamePages (r : Nat) (mem mem' : Nat → Nat → Nat) : Prop := ∀ v < userPages, userPage mem' r v = userPage mem r v

/-- Page `v` holds `page` now, and the other pages are as before. -/
def PageSet (r : Nat) (mem mem' : Nat → Nat → Nat) (v : Nat) (page : Bytes) : Prop :=
  userPage mem' r v = some page ∧ ∀ v' < userPages, v' ≠ v → userPage mem' r v' = userPage mem r v'

theorem SamePages.refl (r : Nat) (mem : Nat → Nat → Nat) : SamePages r mem mem := fun _ _ => rfl

theorem SamePages.trans (h : SamePages r m₁ m₂) (h' : SamePages r m₂ m₃) :
    SamePages r m₁ m₃ := fun v hv => (h' v hv).trans (h v hv)

theorem SamePages.pageSet (h : SamePages r m₁ m₂) (h' : PageSet r m₂ m₃ v page) : PageSet r m₁ m₃ v page :=
  ⟨h'.1, fun v' hv' hne => (h'.2 v' hv' hne).trans (h v' hv')⟩

theorem userPage_eq_none : userPage mem r v = none ↔ pte mem r v = none :=
  Option.map_eq_none_iff

theorem userPage_of_pte (h : pte mem r v = some e) :
    userPage mem r v = some (pageBytes (mem (entryIndex e))) := by rw [userPage, h, Option.map_some]

theorem userPage_congr (hpte : pte mem' r v = pte mem r v)
    (hmem : ∀ e, pte mem r v = some e → mem' (entryIndex e) = mem (entryIndex e)) :
    userPage mem' r v = userPage mem r v := by
  rw [userPage, userPage, hpte]
  cases hcase : pte mem r v with
  | none => rfl
  | some e => rw [Option.map_some, Option.map_some, hmem e hcase]

/-- What an address space shows when its tables and its data stay. -/
theorem samePages_of_data (hr : r ∈ live) (hview : SameView live mem mem')
    (hdata : SameData live extra mem mem') : SamePages r mem mem' := by
  intro v hv
  exact userPage_congr (hview r hr v hv) fun e he => hdata _ (.inl (userRefs_pos hr hv he))

/-! ### Loading -/

/-- The state in a load: the new space is the only one described, everything in use before the load is in
`boot`, and no page is mapped twice. -/
structure Loading (boot : Nat → Prop) (root : Nat) (p₀ : Phys) (s : Supply) : Prop where
  wf : ∃ extra pos, Wf boot {root} extra pos s.phys
  single : ∀ f, userRefs s.phys.mem {root} f ≤ 1
  kernel : KernelSame boot {root} p₀ s.phys
  confined : Confined p₀ s.phys

variable {root phys i : Nat} {p₀ : Phys} {s s₁ : Supply}

section

variable (h : Loading boot root p₀ s)

include h

theorem Loading.zero : s.phys.pmm.managedBitmap 0 = false := by
  obtain ⟨_, _, hwf⟩ := h.wf
  exact hwf.zero

theorem Loading.allocFailed (halloc : s.allocPage = (s₁, 0)) : Loading boot root p₀ s₁ ∧ s₁.phys = s.phys := by
  obtain ⟨extra, pos, hwf⟩ := h.wf
  rcases hwf.allocPage_supply with ⟨s', hfail, hphys⟩ | ⟨f, s', hok, hfresh⟩
  · rw [halloc] at hfail
    cases hfail
    exact ⟨⟨hphys ▸ h.wf, hphys ▸ h.single, hphys ▸ h.kernel, hphys ▸ h.confined⟩, hphys⟩
  · rw [halloc] at hok
    exact absurd (Prod.mk.inj hok).2.symm hfresh.addr

theorem Loading.fillPage (hv : v < userPages)
    (he : pte s.phys.mem root v = some e) (change : (Nat → Nat) → Nat → Nat) :
    Loading boot root p₀ (s.changePage (entryIndex e) change) ∧
      PageSet root s.phys.mem (s.changePage (entryIndex e) change).phys.mem v
        (pageBytes (change (s.phys.mem (entryIndex e)))) := by
  obtain ⟨extra, pos, hwf⟩ := h.wf
  have hroot : root ∈ ({root} : Finset Nat) := Finset.mem_singleton_self root
  obtain ⟨hpos, hrefs⟩ := hwf.mapped hroot hv (pte_eq_some he).2.1
  obtain ⟨hused, -, -⟩ := hwf.counted _ hpos (.inl hrefs)
  obtain ⟨hset, hview⟩ := hwf.setPage hpos (change (s.phys.mem (entryIndex e)))
  refine ⟨⟨⟨extra, pos, hset⟩, fun f => ?_, ?_, ?_⟩, ?_, fun v' hv' hne => ?_⟩
  · exact (hview.userRefs f).le.trans (h.single f)
  · exact h.kernel.trans (hwf.kernelSame_setPage hpos (hwf.not_boot (.inl hrefs)) _)
  · exact h.confined.trans (.update hused.manages _)
  · exact (userPage_of_pte ((hview root hroot v hv).trans he)).trans
      (congrArg (some ∘ pageBytes) (update_self ..))
  refine userPage_congr (hview root hroot v' hv') fun e' he' => update_of_ne (fun hsame => hne ?_) _ _
  -- the page of another entry is another one, since no page is mapped twice
  have hone : userRefs s.phys.mem {root} (entryIndex e) = 1 := by
    have := h.single (entryIndex e)
    omega
  exact (Prod.mk.inj (eq_of_userRefs_eq_one hroot hv he hroot hv' he' hone hsame)).2

theorem Loading.protect (hroot : space.root = root)
    (hv : vpn virt < userPages) (he : pte s.phys.mem root (vpn virt) = some e) (flags : Nat) :
    Loading boot root p₀ { s with phys := (vmmProtect s.phys space virt flags).1 } ∧
      SamePages root s.phys.mem (vmmProtect s.phys space virt flags).1.mem ∧
      ∃ e', pte (vmmProtect s.phys space virt flags).1.mem root (vpn virt) = some e' ∧
        entryIndex e' = entryIndex e := by
  subst hroot
  obtain ⟨extra, pos, hwf⟩ := h.wf
  have hr : space.root ∈ ({space.root} : Finset Nat) := Finset.mem_singleton_self _
  obtain ⟨hwf', hkernel, hcase⟩ := hwf.vmmProtect flags hr hv
  have hconfined := hwf.confined_vmmProtect hr hv flags
  have hdata := hwf.sameData_vmmProtect hr hv flags
  rcases hcase with heq | ⟨e₀, he₀, hpresent, hview⟩
  · rw [heq]
    exact ⟨h, .refl _ _, e, he, rfl⟩
  rw [he] at he₀
  cases he₀
  have hindex : entryIndex (makeEntry (entryPhys e) flags) = entryIndex e := by
    rw [entryPhys_eq_pageAddr, entryIndex_makeEntry (entryIndex_lt e)]
  have hpage : entryPage (makeEntry (entryPhys e) flags) = some (entryIndex e) := by
    rw [entryPhys_eq_pageAddr]
    exact entryPage_makeEntry (entryIndex_lt e) hpresent
  refine ⟨⟨⟨extra, pos, hwf'⟩, fun f => ?_, h.kernel.trans hkernel, h.confined.trans hconfined⟩, fun v' hv' => ?_,
    _, hview.1, hindex⟩
  · have hcount := hview.userRefs hr hv f
    rw [he, Option.bind_some, Option.bind_some, hpage, entryPage_eq_some_iff.mpr ⟨(pte_eq_some he).1, rfl⟩] at hcount
    have := h.single f
    dsimp only
    omega
  · have hmapped : ∀ {v e}, v < userPages → pte s.phys.mem space.root v = some e →
        (vmmProtect s.phys space virt flags).1.mem (entryIndex e) = s.phys.mem (entryIndex e) := fun hv he =>
      hdata _ (.inl (userRefs_pos hr hv he))
    by_cases hne : v' = vpn virt
    · subst hne
      rw [userPage_of_pte hview.1, userPage_of_pte he, hindex, hmapped hv he]
    · exact userPage_congr (hview.2 _ hr v' hv' fun hk => hne (Prod.mk.inj hk).2) fun e' he' => hmapped hv' he'

end

/-- `vmm_map` of a page that has no entry fails only when no page is left for a table. -/
theorem Wf.dry_of_vmmMap (h : Wf boot live extra pos s.phys) (phys : Nat)
    (hr : space.root ∈ live) (hv : vpn virt < userPages) (hvirt : pageAligned virt = true)
    (hphys : pageAligned phys = true) (hflags : flags.testBit 0 = true)
    (hnone : pte s.phys.mem space.root (vpn virt) = none) (hs : s.Persistent)
    (hfail : (s.vmmMap space virt phys flags).2 = false) : (s.vmmMap space virt phys flags).1.Dry := by
  have hpresent : hasFlag flags vmmPresent = true := by rw [hasFlag_present, hflags]
  obtain ⟨pos', -, hext, hpt⟩ := h.walkToPteCreate_supply hr hv flags
  have hdry := Supply.dry_of_walkToPteCreate hs h.zero space.root virt flags
  unfold Supply.vmmMap at hfail ⊢
  simp only [hvirt, hphys, hpresent, Bool.not_true, Bool.or_self, Bool.false_eq_true, if_false] at hfail ⊢
  rcases hwalk : s.walkToPteCreate space.root virt flags with ⟨s₁, _ | ⟨pt, i⟩⟩ <;> rw [hwalk] at hext hpt hdry hfail
  · exact hdry rfl
  obtain ⟨htable, rfl⟩ := hpt pt i rfl
  dsimp only at hfail
  split at hfail
  · rename_i hleaf
    have hpte := hext.wf.pte_of_pos htable (by rwa [hasFlag_present] at hleaf)
    rw [hext.view _ hr _ hv, hnone] at hpte
    cases hpte
  · cases hfail

/-- `vmm_map` of a page without an entry does not fail when its table holds an entry. -/
theorem vmmMap_of_table (phys : Nat) (hvirt : pageAligned virt = true)
    (hphys : pageAligned phys = true) (hflags : flags.testBit 0 = true) (he : pte s.phys.mem space.root v = some e)
    (hv : v / pageEntries = vpn virt / pageEntries) (hnone : pte s.phys.mem space.root (vpn virt) = none) :
    (s.vmmMap space virt phys flags).2 = true := by
  have hpresent : hasFlag flags vmmPresent = true := by rw [hasFlag_present, hflags]
  obtain ⟨-, -, t, ht, -⟩ := pte_eq_some he
  rw [hv] at ht
  have hwalk : walkToPte s.phys.mem space.root virt = some (t, vpn virt % pageEntries) := by
    rw [walkToPte_eq, ht, Option.map_some]
  have hleaf : hasFlag (s.phys.mem t (vpn virt % pageEntries)) vmmPresent = false := by
    rw [Bool.eq_false_iff, hasFlag_present]
    intro hbit
    simp [pte, leafEntry, ht, entryPage_eq_some_iff.mpr ⟨hbit, rfl⟩] at hnone
  simp [Supply.vmmMap, hvirt, hphys, hpresent, Supply.walkToPteCreate_of_walkToPte hwalk, hleaf]

/-- What became of a new page: `vmm_map` has failed, and the page is lost, or it is in its place. A page without an
entry is lost only if its table has to be made. -/
inductive PagePlaced (root : Nat) (s s' : Supply) (v : Nat) (page : Bytes) : Prop where
  | lost : SamePages root s.phys.mem s'.phys.mem → (userPage s.phys.mem root v = none → s.Persistent → s'.Dry) →
      (userPage s.phys.mem root v = none → ∀ v' < userPages, v' / pageEntries = v / pageEntries →
        userPage s.phys.mem root v' = none) → PagePlaced root s s' v page
  | placed : userPage s.phys.mem root v = none → PageSet root s.phys.mem s'.phys.mem v page → PagePlaced root s s' v page

/-- **A new page** is mapped and written, which the loops over the segments and over the stack have in common. -/
theorem Loading.mapPage (h : Loading boot root p₀ s) (hroot : space.root = root)
    (hv : vpn virt < userPages) (hvirt : pageAligned virt = true)
    (hflags : flags.testBit 0 = true) (halloc : s.allocPage = (s₁, phys)) (hphys : phys ≠ 0) (page : Nat → Nat) :
    Loading boot root p₀ ((s₁.vmmMap space virt phys flags).1.changePage (pageIndex phys) fun _ => page) ∧
      PagePlaced root s ((s₁.vmmMap space virt phys flags).1.changePage (pageIndex phys) fun _ => page) (vpn virt)
        (pageBytes page) := by
  subst hroot
  obtain ⟨extra, pos, hwf⟩ := h.wf
  have hr : space.root ∈ ({space.root} : Finset Nat) := Finset.mem_singleton_self _
  rcases hwf.allocPage_supply with ⟨s', hfail, -⟩ | ⟨f, s', hok, hfresh⟩
  · rw [halloc] at hfail
    cases hfail
    exact absurd rfl hphys
  rw [halloc] at hok
  cases hok
  rw [pageIndex_pageAddr]
  have hextra : update extra f 1 f ≠ 0 := by simp
  have hsame₁ : SamePages space.root s.phys.mem s₁.phys.mem := samePages_of_data hr hfresh.view hfresh.sameData
  have habsent (hnone : userPage s.phys.mem space.root (vpn virt) = none) :
      pte s₁.phys.mem space.root (vpn virt) = none := userPage_eq_none.mp ((hsame₁ _ hv).trans hnone)
  have hzero₁ : userRefs s₁.phys.mem {space.root} f = 0 := by rw [hfresh.view.userRefs, hfresh.unmapped]
  obtain ⟨pos', -, hcase⟩ := hfresh.wf.vmmMap_supply space virt f flags hr hv hfresh.bound (.inr hextra)
  have hlater := Supply.later_steps.vmmMap s₁ space virt (pageAddr f) flags
  have haddr : pageAligned (pageAddr f) = true := pageAligned_iff.mpr (Nat.mul_mod_left ..)
  have hdry := hfresh.wf.dry_of_vmmMap (pageAddr f) hr hv hvirt haddr hflags
  have htable {v' e : Nat} (he : pte s₁.phys.mem space.root v' = some e) :=
    vmmMap_of_table (pageAddr f) hvirt haddr hflags he
  generalize s₁.vmmMap space virt (pageAddr f) flags = r at hcase hdry hlater htable ⊢
  rcases hcase with ⟨hno, hext⟩ | ⟨hyes, hmaps⟩
  · -- the page stays in transit for ever
    have hpos : pos' f = none := hext.pos_eq_none (.inr hextra)
    have hused := (hext.wf.counted f hpos (.inr hextra)).1
    obtain ⟨hset, hview⟩ := hext.wf.setPage hpos page
    have hsame₂ := samePages_of_data hr hext.view hext.data
    have hsame₃ : SamePages space.root r.1.phys.mem (update r.1.phys.mem f page) := by
      intro v hv
      refine userPage_congr (hview _ hr v hv) fun e he => update_of_ne ?_ _ _
      rintro rfl
      have := userRefs_pos hr hv he
      rw [hext.view.userRefs, hzero₁] at this
      omega
    refine ⟨⟨⟨_, _, hset⟩, fun g => ?_, ?_, ?_⟩, .lost ((hsame₁.trans hsame₂).trans hsame₃) (fun hnone hs => ?_)
      fun hnone v' hv' hsame => ?_⟩
    · rw [show userRefs (r.1.changePage f fun _ => page).phys.mem {space.root} g =
        userRefs s.phys.mem {space.root} g from
          (hview.userRefs g).trans ((hext.view.userRefs g).trans (hfresh.view.userRefs g))]
      exact h.single g
    · exact ((h.kernel.trans hfresh.kernel).trans hext.kernel).trans (hext.wf.kernelSame_setPage hpos (hext.wf.not_boot (.inr hextra)) _)
    · exact ((h.confined.trans hfresh.confined).trans hext.confined).trans (.update hused.manages _)
    · have hs₁ : s₁.Persistent := by
        have := s.later_allocPage.persistent hs
        rwa [halloc] at this
      exact (Supply.Later.of_eq rfl rfl : Supply.Later r.1 _).dry (hlater.persistent hs₁) (hdry (habsent hnone) hs₁ hno)
    rw [userPage_eq_none]
    by_contra hsome
    obtain ⟨e, he⟩ := Option.ne_none_iff_exists'.mp hsome
    have he₁ : pte s₁.phys.mem space.root v' = some e := by rw [hfresh.view _ hr v' hv', he]
    rw [htable he₁ hsame (habsent hnone)] at hno
    cases hno
  have hindex : entryIndex (makeEntry (pageAddr f) flags) = f := entryIndex_makeEntry hfresh.bound flags
  have hpage : entryPage (makeEntry (pageAddr f) flags) = some f := entryPage_makeEntry hfresh.bound hflags
  have hload : Loading boot space.root p₀ r.1 := by
    refine ⟨⟨_, _, hmaps.wf⟩, fun g => ?_, (h.kernel.trans hfresh.kernel).trans hmaps.kernel,
      (h.confined.trans hfresh.confined).trans hmaps.confined⟩
    have hcount := hmaps.view.userRefs hr hv g
    rw [hmaps.before, Option.bind_none, Option.bind_some, hpage, if_neg (by simp)] at hcount
    have hold := h.single g
    rw [← hfresh.view.userRefs] at hold
    by_cases hgf : g = f
    · subst hgf
      rw [if_pos rfl] at hcount
      omega
    · rw [if_neg (by simpa using Ne.symm hgf)] at hcount
      omega
  have hfill := hload.fillPage hv hmaps.view.1 fun _ => page
  rw [hindex] at hfill
  refine ⟨hfill.1, .placed ?_ ⟨hfill.2.1, fun v' hv' hne => ?_⟩⟩
  · exact (hsame₁ _ hv).symm.trans (userPage_eq_none.mpr hmaps.before)
  · refine (hfill.2.2 v' hv' hne).trans (Eq.trans ?_ (hsame₁ v' hv'))
    refine userPage_congr (hmaps.view.2 _ hr v' hv' fun hk => hne (Prod.mk.inj hk).2) fun e he =>
      hmaps.data _ (.inl (userRefs_pos hr hv' he))

/-! ### Segments -/

theorem Phdr.pageFlags_present (ph : Phdr) : ph.pageFlags.testBit 0 = true := by
  unfold Phdr.pageFlags
  split <;> split <;> decide

theorem Phdr.mem_pages {ph : Phdr} {base : Nat} (h : vaddr ∈ ph.pages base) :
    pageAligned vaddr = true ∧ pageAlignDown (ph.start base) ≤ vaddr ∧ vaddr < ph.pageEnd base ∧
      vaddr + 4096 < 2 ^ 64 := by
  obtain ⟨i, rfl, hlt⟩ := mem_pageAddrs h
  have hend : ph.pageEnd base + 4096 ≤ 2 ^ 64 := by
    rw [Phdr.pageEnd, pageAlignUp_eq]
    omega
  have haligned : pageAlignDown (ph.start base) % 4096 = 0 := by
    rw [pageAlignDown_eq]
    omega
  have hend' : ph.pageEnd base % 4096 = 0 := by
    rw [Phdr.pageEnd, pageAlignUp_eq]
    omega
  exact ⟨pageAligned_iff.mpr (by omega), by omega, hlt, by omega⟩

/-- What a segment does to the bytes of a page. -/
def segmentBytes (d : ElfFile) (ph : Phdr) (base vaddr : Nat) (page : Bytes) : Bytes := fun k =>
  if k < 4096 ∧ ph.start base ≤ vaddr + k ∧ vaddr + k < add64 (ph.start base) ph.pFilesz then
    d.mem (ph.pOffset + (vaddr + k - ph.start base))
  else page k

theorem pageBytes_segmentPage (d : ElfFile) (ph : Phdr) (base : Nat) (hwrap : vaddr + 4096 < 2 ^ 64)
    (page : Nat → Nat) :
    pageBytes (segmentPage d ph base vaddr page) = segmentBytes d ph base vaddr (pageBytes page) := by
  funext k
  unfold segmentPage segmentBytes
  rw [add64_of_lt hwrap]
  dsimp only
  split
  · rw [pageBytes_pagePut]
    by_cases hk : k < 4096 ∧ ph.start base ≤ vaddr + k ∧ vaddr + k < add64 (ph.start base) ph.pFilesz
    · rw [if_pos (by omega), if_pos hk]
      congr 1
      omega
    · rw [if_neg (by omega), if_neg hk]
  · rw [if_neg (by omega)]

theorem vmmVirtToPhys_eq_pte (p : Phys) (space : AddressSpace) (h : pageAligned virt = true) :
    vmmVirtToPhys p space virt = (pte p.mem space.root (vpn virt)).map entryPhys := by
  rw [vmmVirtToPhys_aligned p space h, ← presentPte_of_pte, Option.map_map]
  rfl

/-- What became of a page of a segment. -/
inductive PageLoaded (root : Nat) (s s' : Supply) (v : Nat) (fill : Bytes → Bytes) : Bool → Prop where
  | full : SamePages root s.phys.mem s'.phys.mem → PageLoaded root s s' v fill false
  | lost : SamePages root s.phys.mem s'.phys.mem → (s.Persistent → s'.Dry) → PageLoaded root s s' v fill true
  | done : PageSet root s.phys.mem s'.phys.mem v (fill ((userPage s.phys.mem root v).getD Bytes.zero)) →
      PageLoaded root s s' v fill true

/-- **One page of a segment.** -/
theorem Loading.loadPage (h : Loading boot root p₀ s) (hroot : space.root = root)
    (hv : vpn vaddr < userPages) (haligned : pageAligned vaddr = true) (hwrap : vaddr + 4096 < 2 ^ 64)
    (d : ElfFile) (base : Nat) (ph : Phdr) :
    Loading boot root p₀ (loadPage space d base ph s vaddr).1 ∧
      PageLoaded root s (loadPage space d base ph s vaddr).1 (vpn vaddr) (segmentBytes d ph base vaddr)
        (loadPage space d base ph s vaddr).2 := by
  unfold Litenix.loadPage
  rw [vmmVirtToPhys_eq_pte s.phys space haligned, hroot]
  cases he : pte s.phys.mem root (vpn vaddr) with
  | some e =>
    obtain ⟨hload, hsame, e', he', hindex⟩ := h.protect hroot hv he ph.pageFlags
    obtain ⟨hfill, hset⟩ := hload.fillPage hv he' (segmentPage d ph base vaddr)
    dsimp only [Option.map_some]
    rw [show pageIndex (entryPhys e) = entryIndex e' from hindex.symm]
    refine ⟨hfill, .done ?_⟩
    rw [userPage_of_pte he, Option.getD_some]
    have hbytes := userPage_of_pte he'
    rw [hsame _ hv, userPage_of_pte he] at hbytes
    rw [pageBytes_segmentPage d ph base hwrap, ← Option.some.inj hbytes] at hset
    exact hsame.pageSet hset
  | none =>
  dsimp only [Option.map_none]
  rcases halloc : s.allocPage with ⟨s₁, phys⟩
  split
  · rename_i hzero
    subst hzero
    obtain ⟨hload, hsame⟩ := h.allocFailed halloc
    exact ⟨hload, .full (hsame ▸ .refl _ _)⟩
  rename_i hphys
  obtain ⟨hload, hplaced⟩ := h.mapPage hroot hv haligned ph.pageFlags_present halloc hphys
    (segmentPage d ph base vaddr fun _ => 0)
  refine ⟨hload, ?_⟩
  cases hplaced with
  | lost hsame hdry _ => exact .lost hsame (hdry (userPage_eq_none.mpr he))
  | placed hnone hset =>
    refine .done ?_
    rw [hnone, Option.getD_none]
    rw [pageBytes_segmentPage d ph base hwrap, funext pageBytes_zero] at hset
    exact hset

theorem Supply.later_changePage (s : Supply) (f : Nat) (change : (Nat → Nat) → Nat → Nat) :
    s.Later (s.changePage f change) := .of_eq rfl rfl

theorem later_loadPage (space : AddressSpace) (d : ElfFile) (base : Nat) (ph : Phdr) (s : Supply) (vaddr : Nat) :
    s.Later (loadPage space d base ph s vaddr).1 := by
  unfold loadPage
  split
  · refine .of_eq rfl ?_
    unfold vmmProtect
    split
    · rfl
    · split <;> rfl
  · have halloc := s.later_allocPage
    dsimp only
    split
    · exact halloc
    · exact (halloc.trans (Supply.later_steps.vmmMap ..)).trans (.of_eq rfl rfl)

/-! ### The image of a program -/

/-- The contents of an address space. -/
abbrev Image := Nat → Option Bytes

/-- A page is made if it is missing, and changed. -/
def Image.put (im : Image) (v : Nat) (fill : Bytes → Bytes) : Image :=
  update im v (some (fill ((im v).getD Bytes.zero)))

def Image.loadPages (d : ElfFile) (base : Nat) (ph : Phdr) (im : Image) (pages : List Nat) : Image :=
  pages.foldl (fun im vaddr => im.put (vpn vaddr) (segmentBytes d ph base vaddr)) im

/-- The segments of a file, one after the other. -/
def Image.loadSegments (d : ElfFile) (base : Nat) (im : Image) (phs : List Phdr) : Image :=
  phs.foldl (fun im ph => if ph.pType = ptLoad then im.loadPages d base ph (ph.pages base) else im) im

/-- The space holds the image, unless the load has run out of pages. -/
def HoldsImage (root : Nat) (s : Supply) (im : Image) : Prop :=
  s.Dry ∨ ∀ v < userPages, userPage s.phys.mem root v = im v

/-- What a part of the load does: it changes the image, as long as there are pages and no allocation succeeds
after one that has failed. -/
structure Loads (boot : Nat → Prop) (root : Nat) (p₀ : Phys) (s : Supply) (r : Supply × Bool)
    (change : Image → Image) : Prop where
  loading : Loading boot root p₀ r.1
  later : s.Later r.1
  image : r.2 = true → s.Persistent → ∀ im, HoldsImage root s im → HoldsImage root r.1 (change im)

theorem Loads.refl (h : Loading boot root p₀ s) : Loads boot root p₀ s (s, true) id :=
  ⟨h, .refl s, fun _ _ _ => id⟩

theorem Loads.trans {change₁ change₂ : Image → Image} {r : Supply × Bool}
    (h : Loads boot root p₀ s (s₁, true) change₁) (h' : Loads boot root p₀ s₁ r change₂) :
    Loads boot root p₀ s r fun im => change₂ (change₁ im) where
  loading := h'.loading
  later := h.later.trans h'.later
  image := fun hok hs im him => h'.image hok (h.later.persistent hs) _ (h.image rfl hs im him)

theorem Loads.loadPage (h : Loading boot root p₀ s) (hroot : space.root = root)
    (hv : vpn vaddr < userPages) (haligned : pageAligned vaddr = true) (hwrap : vaddr + 4096 < 2 ^ 64)
    (d : ElfFile) (base : Nat) (ph : Phdr) :
    Loads boot root p₀ s (loadPage space d base ph s vaddr) fun im =>
      im.put (vpn vaddr) (segmentBytes d ph base vaddr) := by
  obtain ⟨hload, hpage⟩ := h.loadPage hroot hv haligned hwrap d base ph
  have hlater := later_loadPage space d base ph s vaddr
  refine ⟨hload, hlater, fun hok hs im him => ?_⟩
  rw [hok] at hpage
  cases hpage with
  | lost _ hdry => exact .inl (hdry hs)
  | done hset =>
  rcases him with hdry | him
  · exact .inl (hlater.dry hs hdry)
  right
  intro v' hv'
  by_cases hne : v' = vpn vaddr
  · subst hne
    rw [hset.1, him _ hv', Image.put, update_self]
  · rw [hset.2 v' hv' hne, him v' hv', Image.put, update_of_ne hne]

/-- **The pages of a segment.** -/
theorem Loads.loadPages (hroot : space.root = root) (d : ElfFile) (base : Nat) (ph : Phdr)
    (pages : List Nat) (hpages : ∀ vaddr ∈ pages, vpn vaddr < userPages ∧ pageAligned vaddr = true ∧
      vaddr + 4096 < 2 ^ 64) (h : Loading boot root p₀ s) :
    Loads boot root p₀ s (loadPages space d base ph s pages) fun im => im.loadPages d base ph pages := by
  induction pages generalizing s with
  | nil => exact .refl h
  | cons vaddr rest ih =>
  obtain ⟨hv, haligned, hwrap⟩ := hpages vaddr List.mem_cons_self
  have hstep := Loads.loadPage h hroot hv haligned hwrap d base ph
  unfold Litenix.loadPages
  generalize Litenix.loadPage space d base ph s vaddr = r at hstep
  obtain ⟨s₁, ok⟩ := r
  cases ok with
  | false => exact ⟨hstep.loading, hstep.later, fun hok => by cases hok⟩
  | true => exact hstep.trans (ih (fun v hv => hpages v (List.mem_cons_of_mem _ hv)) hstep.loading)

/-- The pages of a segment lie in the user half. -/
def Phdr.InUserHalf (ph : Phdr) (base : Nat) : Prop := ∀ vaddr ∈ ph.pages base, pml4Index vaddr < 256

instance (ph : Phdr) (base : Nat) : Decidable (ph.InUserHalf base) :=
  inferInstanceAs (Decidable (∀ vaddr ∈ ph.pages base, pml4Index vaddr < 256))

/-- **The segments of a file.** -/
theorem Loads.loadSegments (hroot : space.root = root) (d : ElfFile) (base : Nat)
    (phs : List Phdr) (huser : ∀ ph ∈ phs, ph.pType = ptLoad → ph.InUserHalf base) (h : Loading boot root p₀ s) :
    Loads boot root p₀ s (loadSegments space d base s phs) fun im => im.loadSegments d base phs := by
  induction phs generalizing s with
  | nil => exact .refl h
  | cons ph rest ih =>
  have hrest : ∀ ph ∈ rest, ph.pType = ptLoad → ph.InUserHalf base :=
    fun ph hph => huser ph (List.mem_cons_of_mem _ hph)
  unfold Litenix.loadSegments Image.loadSegments
  simp only [List.foldl_cons]
  split
  · rename_i hload
    have hstep := Loads.loadPages hroot d base ph (ph.pages base) (fun vaddr hvaddr =>
      ⟨vpn_lt_userPages_iff.mpr (huser ph List.mem_cons_self hload vaddr hvaddr), (Phdr.mem_pages hvaddr).1,
        (Phdr.mem_pages hvaddr).2.2.2⟩) h
    generalize Litenix.loadPages space d base ph s (ph.pages base) = r at hstep
    obtain ⟨s₁, ok⟩ := r
    cases ok with
    | false => exact ⟨hstep.loading, hstep.later, fun hok => by cases hok⟩
    | true => exact hstep.trans (ih hrest hstep.loading)
  · exact ih hrest h

/-! ### The interpreter -/

/-- The file of the interpreter, if the program names one that can be read. -/
def interpFile (env : LoadEnv) (d : ElfFile) : Option ElfFile := do
  let path ← d.interpPath env.elfData
  let node ← env.vfsLookup path
  let bytes ← node.data
  return ⟨bytes, node.size⟩

def ElfFile.interpBase (d : ElfFile) : Nat := interpLoadBase (maxVaddr d.loadBase d.phdrs)

def ElfFile.InUserHalf (d : ElfFile) (base : Nat) : Prop := ∀ ph ∈ d.phdrs, ph.pType = ptLoad → ph.InUserHalf base

instance (d : ElfFile) (base : Nat) : Decidable (d.InUserHalf base) :=
  inferInstanceAs (Decidable (∀ ph ∈ d.phdrs, ph.pType = ptLoad → ph.InUserHalf base))

/-- All segments of the program and of its interpreter lie in the user half. -/
structure LoadsUserHalf (env : LoadEnv) (d : ElfFile) : Prop where
  program : d.InUserHalf d.loadBase
  interp : ∀ d', interpFile env d = some d' → d'.InUserHalf d.interpBase

/-- What a program and its interpreter look like in memory. -/
def Image.loadFiles (env : LoadEnv) (d : ElfFile) (im : Image) : Image :=
  let im := im.loadSegments d d.loadBase d.phdrs
  match interpFile env d with
  | none => im
  | some d' => im.loadSegments d' d.interpBase d'.phdrs

section

variable (h : Loading boot root p₀ s) (hroot : space.root = root) (huser : LoadsUserHalf env d)

include h hroot huser

theorem Loads.loadInterp (hpath : d.interpPath env.elfData = some path) {change : Image → Image}
    (hchange : ∀ im, change im =
      match interpFile env d with
      | none => im
      | some d' => im.loadSegments d' d.interpBase d'.phdrs) :
    Loads boot root p₀ s ((loadInterp env space (maxVaddr d.loadBase d.phdrs) path s).1,
        (loadInterp env space (maxVaddr d.loadBase d.phdrs) path s).2.isOk) change := by
  have hfail (e : Errno) : Loads boot root p₀ s (s, (.error e : Except Errno (Nat × Nat)).isOk) change :=
    ⟨h, .refl s, fun hok => by cases hok⟩
  unfold Litenix.loadInterp
  cases hnode : env.vfsLookup path with
  | none => exact hfail .ENOENT
  | some node =>
  dsimp only
  split
  · exact hfail .ENOMEM
  cases hdata : node.data with
  | none => exact hfail .EIOErr
  | some bytes =>
  dsimp only
  split
  · exact hfail .ENOEXEC
  have hfile : interpFile env d = some ⟨bytes, node.size⟩ := by simp [interpFile, hpath, hnode, hdata]
  have hstep := Loads.loadSegments hroot ⟨bytes, node.size⟩ d.interpBase (ElfFile.phdrs ⟨bytes, node.size⟩)
    (huser.interp _ hfile) h
  rw [hfile] at hchange
  rw [← funext hchange] at hstep
  rw [← ElfFile.interpBase]
  generalize Litenix.loadSegments space _ d.interpBase s _ = r at hstep
  obtain ⟨s₁, ok⟩ := r
  cases ok with
  | false => exact ⟨hstep.loading, hstep.later, fun hok => by cases hok⟩
  | true => exact hstep

/-- **The program and its interpreter.** -/
theorem Loads.loadImage :
    Loads boot root p₀ s ((loadImage env space d s).1, (loadImage env space d s).2.isOk) fun im =>
      im.loadFiles env d := by
  have hstep := Loads.loadSegments hroot d d.loadBase d.phdrs huser.program h
  unfold Litenix.loadImage
  generalize Litenix.loadSegments space d d.loadBase s d.phdrs = r at hstep
  obtain ⟨s₁, ok⟩ := r
  cases ok with
  | false => exact ⟨hstep.loading, hstep.later, fun hok => by cases hok⟩
  | true =>
    cases hpath : d.interpPath env.elfData with
    | none =>
      have hfile : interpFile env d = none := by simp [interpFile, hpath]
      refine ⟨hstep.loading, hstep.later, fun _ hs im him => ?_⟩
      rw [Image.loadFiles, hfile]
      exact hstep.image rfl hs im him
    | some path => exact hstep.trans (.loadInterp hstep.loading hroot huser hpath fun _ => rfl)

end

/-! ### The stack -/

def stackPage (i : Nat) : Nat := userStackTop - (i + 1) * 4096

/-- The pages of a space keep what they hold, and only pages of the stack are new. -/
structure KeepsPages (root : Nat) (mem mem' : Nat → Nat → Nat) : Prop where
  mapped : ∀ v < userPages, ∀ page, userPage mem root v = some page → userPage mem' root v = some page
  others : ∀ v < userPages, (∀ i < userStackPages, v ≠ vpn (stackPage i)) → userPage mem' root v = userPage mem root v

theorem KeepsPages.refl (root : Nat) (mem : Nat → Nat → Nat) : KeepsPages root mem mem :=
  ⟨fun _ _ _ => id, fun _ _ _ => rfl⟩

theorem KeepsPages.trans (h : KeepsPages root m₁ m₂) (h' : KeepsPages root m₂ m₃) :
    KeepsPages root m₁ m₃ where
  mapped := fun v hv page hpage => h'.mapped v hv page (h.mapped v hv page hpage)
  others := fun v hv hne => (h'.others v hv hne).trans (h.others v hv hne)

theorem stackPage_user (hi : i < userStackPages) :
    vpn (stackPage i) < userPages ∧ pageAligned (stackPage i) = true := by
  simp only [userStackPages] at hi
  simp only [vpn, stackPage, userStackTop, vmmPageSize, userPages, pageAligned_iff]
  omega

theorem PagePlaced.keepsPages (hi : i < userStackPages)
    (h : PagePlaced root s s' (vpn (stackPage i)) page) : KeepsPages root s.phys.mem s'.phys.mem := by
  cases h with
  | lost hsame _ _ => exact ⟨fun v hv page hpage => by rw [hsame v hv, hpage], fun v hv _ => hsame v hv⟩
  | placed hnone hset =>
    refine ⟨fun v hv page hpage => ?_, fun v hv hne => hset.2 v hv (hne i hi)⟩
    rw [hset.2 v hv ?_, hpage]
    rintro rfl
    rw [hnone] at hpage
    cases hpage

theorem Loading.mapStack (hroot : space.root = root) (buf : Bytes) (l : List Nat)
    (hl : ∀ i ∈ l, i < userStackPages) (h : Loading boot root p₀ s) :
    Loading boot root p₀ (mapStack space buf s l).1 ∧ s.Later (mapStack space buf s l).1 ∧
      KeepsPages root s.phys.mem (mapStack space buf s l).1.phys.mem := by
  induction l generalizing s with
  | nil => exact ⟨h, .refl s, .refl _ _⟩
  | cons i rest ih =>
  obtain ⟨hv, haligned⟩ := stackPage_user (hl i List.mem_cons_self)
  have hrest : ∀ i ∈ rest, i < userStackPages := fun i hi => hl i (List.mem_cons_of_mem _ hi)
  have hlater := s.later_allocPage
  unfold Litenix.mapStack
  rcases halloc : s.allocPage with ⟨s₁, phys⟩
  rw [halloc] at hlater
  dsimp only
  split
  · rename_i hzero
    subst hzero
    obtain ⟨hload, hsame⟩ := h.allocFailed halloc
    exact ⟨hload, hlater, hsame ▸ .refl _ _⟩
  rename_i hphys
  obtain ⟨hload, hplaced⟩ := h.mapPage hroot hv haligned (by decide : stackFlags.testBit 0 = true) halloc hphys
    (pageWords fun k => buf (stackBytes - (i + 1) * 4096 + k))
  obtain ⟨hload', hlater', hkeeps⟩ := ih hrest hload
  have hmap := hlater.trans (Supply.later_steps.vmmMap s₁ space (stackPage i) phys stackFlags)
  exact ⟨hload', (hmap.trans (Supply.later_changePage ..)).trans hlater',
    (hplaced.keepsPages (hl i List.mem_cons_self)).trans hkeeps⟩

/-! ### The whole load -/

/-- The state of physical memory in which a program is loaded: page `0` is never handed out, page numbers fit an
entry, and the root of the kernel is in use. -/
structure LoadReady (p : Phys) : Prop where
  zero : p.pmm.managedBitmap 0 = false
  total : p.pmm.totalPages ≤ 2 ^ 40
  kernel : p.pmm.InUse (pageIndex p.kernelPml4)

/-- Pages that are not free are as before. -/
def KeepsUsed (p p' : Phys) : Prop :=
  ∀ f, ¬(f < p.pmm.totalPages ∧ p.pmm.available f = true) → p'.mem f = p.mem f

theorem keepsUsed_of (hused : ∀ f, p.pmm.InUse f → p'.mem f = p.mem f)
    (hconfined : ∀ f, ¬p.pmm.Manages f → p'.mem f = p.mem f) : KeepsUsed p p' := by
  intro f hf
  by_cases hmanages : p.pmm.Manages f
  · refine hused f ⟨hmanages.1, hmanages.2, ?_⟩
    by_contra hfree
    exact hf ⟨hmanages.1, Pmm.available_iff.mpr ⟨hmanages.2, by simpa using hfree⟩⟩
  · exact hconfined f hmanages

/-- **The new space.** It shares the kernel half, and nothing is mapped. -/
theorem LoadReady.create (h : LoadReady s.phys) :
    ∃ s₁ o, s.vmmCreateAddressSpace = .ok (s₁, o) ∧ KeepsUsed s.phys s₁.phys ∧
      ∀ space, o = some space → Loading s.phys.pmm.InUse space.root s₁.phys s₁ ∧ Confined s.phys s₁.phys ∧
        (∀ v < userPages, userPage s₁.phys.mem space.root v = none) ∧
        ∀ i, 256 ≤ i → i < pageEntries → s₁.phys.mem space.root i = s.phys.mem (pageIndex s.phys.kernelPml4) i := by
  have hwf := Wf.empty h.zero h.total
  obtain ⟨s₁, o, hcreate, ⟨rfl, -, -, hkernel, hmem⟩ | ⟨space, self, rfl, hnew⟩⟩ := hwf.vmmCreateAddressSpace_supply
  · exact ⟨s₁, none, hcreate, keepsUsed_of hkernel.pages hmem, fun _ hno => by cases hno⟩
  refine ⟨s₁, some space, hcreate, keepsUsed_of hnew.kernel.pages hnew.confined.mem, ?_⟩
  rintro _ ⟨⟩
  have hwf' := hnew.wf
  rw [insert_empty_eq] at hwf'
  have hempty : ∀ f, userRefs s₁.phys.mem {space.root} f = 0 := by
    intro f
    refine Nat.eq_zero_of_not_pos fun hpos => ?_
    obtain ⟨⟨r, v⟩, hk, hmap⟩ := refs_pos_iff.mp hpos
    obtain ⟨hr, hv⟩ := mem_userDom.mp hk
    rw [Finset.mem_singleton] at hr
    rw [hr, userFrame_of_pte, hnew.empty v hv] at hmap
    cases hmap
  exact ⟨⟨⟨_, _, hwf'⟩, fun f => by rw [hempty]; omega, .refl _ _ _, .refl _⟩, hnew.confined,
    fun v hv => userPage_eq_none.mpr (hnew.empty v hv), hnew.upper h.kernel⟩

theorem Loading.setupUserStack (h : Loading boot root p₀ s) (hroot : space.root = root)
    (env : LoadEnv) (args : ExecArgs) (info : StackInfo) :
    Loading boot root p₀ (setupUserStack env space args info s).1 ∧
      KeepsPages root s.phys.mem (setupUserStack env space args info s).1.phys.mem := by
  unfold Litenix.setupUserStack
  split
  · exact ⟨h, .refl _ _⟩
  split
  · exact ⟨h, .refl _ _⟩
  rename_i b rspOffset _
  obtain ⟨hload, -, hkeeps⟩ := h.mapStack hroot b.bytes (List.range userStackPages)
    fun i hi => List.mem_range.mp hi
  split
  · rename_i heq
    rw [heq] at hload hkeeps
    exact ⟨hload, hkeeps⟩
  · rename_i heq
    rw [heq] at hload hkeeps
    exact ⟨hload, hkeeps⟩

theorem freePage_mem (h : p.freePage phys = .ok p') : p'.mem = p.mem := by
  unfold Phys.freePage at h
  split at h
  · cases h
    rfl
  · cases h

theorem vmmDestroyAddressSpace_mem (h : vmmDestroyAddressSpace p space = .ok p') : p'.mem = p.mem := by
  unfold vmmDestroyAddressSpace at h
  generalize spacePages p.mem space = l at h
  induction l generalizing p with
  | nil =>
    cases h
    rfl
  | cons f rest ih =>
  rw [List.foldlM_cons] at h
  cases hfree : p.freePage (pageAddr f) with
  | error e =>
    rw [hfree] at h
    cases h
  | ok p₁ =>
    rw [hfree] at h
    exact (ih h).trans (freePage_mem hfree)

/-- A load that succeeds: `s₁` is the state with the new space, `s₂` that with the stack. -/
structure Loaded (env : LoadEnv) (s : Supply) (proc : Process) (d : ElfFile) (args : ExecArgs) (reply : LoadReply)
    (s₁ s₂ : Supply) (space : AddressSpace) (interpBase entry rsp : Nat) : Prop where
  header : d.headerOk = true
  create : s.vmmCreateAddressSpace = .ok (s₁, some space)
  image : (loadImage env space d s₁).2 = .ok (interpBase, entry)
  stack : setupUserStack env space args ⟨phdrAddr d, d.ePhnum, interpBase, add64 d.loadBase d.eEntry⟩
    (loadImage env space d s₁).1 = (s₂, reply.outside, rsp)
  rsp_ne : rsp ≠ 0
  mem : reply.supply.phys.mem = s₂.phys.mem
  proc : reply.proc = { proc with
    addressSpace := space, ownsAddressSpace := true, heapStart := maxVaddr d.loadBase d.phdrs
    heapEnd := maxVaddr d.loadBase d.phdrs }
  ret : reply.ret = .ok (entry, rsp)

/-- How a load ends. -/
inductive LoadOutcome (env : LoadEnv) (s : Supply) (proc : Process) (d : ElfFile) (args : ExecArgs)
    (reply : LoadReply) : Prop where
  | refused (e : Errno) : reply = ⟨s, proc, false, .error e⟩ → LoadOutcome env s proc d args reply
  | noSpace (s₁ : Supply) : s.vmmCreateAddressSpace = .ok (s₁, none) → reply = ⟨s₁, proc, false, .error .ENOMEM⟩ →
      LoadOutcome env s proc d args reply
  | noImage (s₁ : Supply) (space : AddressSpace) (e : Errno) :
      s.vmmCreateAddressSpace = .ok (s₁, some space) → (loadImage env space d s₁).2 = .error e →
      reply.supply.phys.mem = (loadImage env space d s₁).1.phys.mem → reply.proc = proc → reply.ret = .error e →
      LoadOutcome env s proc d args reply
  | noStack (s₁ : Supply) (space : AddressSpace) (interpBase entry : Nat) :
      s.vmmCreateAddressSpace = .ok (s₁, some space) → (loadImage env space d s₁).2 = .ok (interpBase, entry) →
      reply.supply.phys.mem = (setupUserStack env space args
        ⟨phdrAddr d, d.ePhnum, interpBase, add64 d.loadBase d.eEntry⟩ (loadImage env space d s₁).1).1.phys.mem →
      reply.proc = proc → reply.ret = .error .ENOMEM → LoadOutcome env s proc d args reply
  | done (s₁ s₂ : Supply) (space : AddressSpace) (interpBase entry rsp : Nat) :
      Loaded env s proc d args reply s₁ s₂ space interpBase entry rsp → LoadOutcome env s proc d args reply

theorem loadFailed_eq_ok {e : Errno} (h : loadFailed space s proc outside e = .ok reply) :
    reply.supply.phys.mem = s.phys.mem ∧ reply.proc = proc ∧ reply.ret = .error e := by
  unfold loadFailed at h
  split at h
  · cases h
  · rename_i p hdestroy
    cases h
    exact ⟨vmmDestroyAddressSpace_mem hdestroy, rfl, rfl⟩

theorem loadDone_eq_ok (h : loadDone space s proc outside heapStart entry rsp = .ok reply) :
    reply.supply.phys.mem = s.phys.mem ∧ reply.proc = { proc with
        addressSpace := space, ownsAddressSpace := true, heapStart := heapStart, heapEnd := heapStart } ∧
      reply.outside = outside ∧ reply.ret = .ok (entry, rsp) := by
  unfold loadDone at h
  split at h
  · split at h
    · cases h
    · rename_i p hdestroy
      cases h
      exact ⟨vmmDestroyAddressSpace_mem hdestroy, rfl, rfl, rfl⟩
  · cases h
    exact ⟨rfl, rfl, rfl, rfl⟩

theorem elfLoadIntoProcess_outcome
    (h : elfLoadIntoProcess env s proc d args = .ok reply) : LoadOutcome env s proc d args reply := by
  unfold elfLoadIntoProcess at h
  split at h
  · cases h
    exact .refused .ENOEXEC rfl
  rename_i hheader
  simp only [Bool.not_eq_true', Bool.not_eq_false] at hheader
  split at h
  · cases h
  · rename_i s₁ hcreate
    cases h
    exact .noSpace s₁ hcreate rfl
  rename_i s₁ space hcreate
  rcases himage : loadImage env space d s₁ with ⟨s₂, r⟩
  rw [himage] at h
  cases r with
  | error e =>
    obtain ⟨hmem, hproc, hret⟩ := loadFailed_eq_ok h
    exact .noImage s₁ space e hcreate (by rw [himage]) (by rw [himage, hmem]) hproc hret
  | ok x =>
  obtain ⟨interpBase, entry⟩ := x
  cases hstack : setupUserStack env space args
    ⟨phdrAddr d, d.ePhnum, interpBase, add64 d.loadBase d.eEntry⟩ s₂ with
  | mk s₃ y =>
  obtain ⟨outside, rsp⟩ := y
  dsimp only at h
  rw [hstack] at h
  split at h
  · obtain ⟨hmem, hproc, hret⟩ := loadFailed_eq_ok h
    exact .noStack s₁ space interpBase entry hcreate (by rw [himage]) (by rw [himage, hstack, hmem]) hproc hret
  rename_i hrsp
  obtain ⟨hmem, hproc, hout, hret⟩ := loadDone_eq_ok h
  exact .done s₁ s₃ space interpBase entry rsp ⟨hheader, hcreate, by rw [himage], by rw [himage, hstack, hout],
    hrsp, hmem, hproc, hret⟩

theorem elfLoadIntoProcess_loaded (h : elfLoadIntoProcess env s proc d args = .ok reply) (hret : reply.ret = .ok x) :
    ∃ s₁ s₂ space interpBase entry rsp, Loaded env s proc d args reply s₁ s₂ space interpBase entry rsp := by
  cases elfLoadIntoProcess_outcome h with
  | refused e hreply =>
    subst hreply
    cases hret
  | noSpace s₁ _ hreply =>
    subst hreply
    cases hret
  | noImage s₁ space e _ _ _ _ hfail =>
    rw [hfail] at hret
    cases hret
  | noStack s₁ space interpBase entry _ _ _ _ hfail =>
    rw [hfail] at hret
    cases hret
  | done s₁ s₂ space interpBase entry rsp hdone => exact ⟨s₁, s₂, space, interpBase, entry, rsp, hdone⟩

/-! ### Loads that succeed -/

theorem Pmm.exists_available {q : Pmm} (h : 0 < q.freeFrames) : ∃ i < q.totalPages, q.available i = true := by
  obtain ⟨i, hi⟩ := Finset.card_pos.mp h
  obtain ⟨hlt, havail⟩ := Finset.mem_filter.mp hi
  exact ⟨i, Finset.mem_range.mp hlt, havail⟩

/-- With enough pages the stack is set up. -/
theorem mapStack_of_freeFrames (space : AddressSpace) (buf : Bytes) (l : List Nat)
    (hzero : p.pmm.managedBitmap 0 = false) (hfree : 4 * l.length ≤ p.pmm.freeFrames) :
    (mapStack space buf (.full p) l).2 = true := by
  induction l generalizing p with
  | nil => rfl
  | cons i rest ih =>
  rw [List.length_cons] at hfree
  have halloc := Uses.allocPage p
  have hmanaged := (Supply.full p).later_allocPage.managed
  rw [Supply.allocPage_full] at hmanaged
  have hphys : p.allocPage.2 ≠ 0 := by
    intro hno
    obtain ⟨j, hj, havail⟩ := Pmm.exists_available (show 0 < p.pmm.freeFrames by omega)
    rcases Supply.dry_of_allocPage (s := .full p) hzero hno with hfails | hnone
    · cases hfails
    · have hnot := hnone j hj
      rw [show (Supply.full p).phys = p from rfl, havail] at hnot
      cases hnot
  unfold mapStack
  rw [Supply.allocPage_full]
  dsimp only
  rw [if_neg hphys, Supply.vmmMap_full]
  have hmap := Uses.vmmMap p.allocPage.1 space (userStackTop - (i + 1) * 4096) p.allocPage.2 stackFlags
  have hmanaged' := Supply.later_steps.vmmMap (.full p.allocPage.1) space (userStackTop - (i + 1) * 4096)
    p.allocPage.2 stackFlags
  rw [Supply.vmmMap_full] at hmanaged'
  refine ih ?_ ?_
  · exact (congrFun (hmanaged'.managed.trans hmanaged) 0).trans hzero
  have huses := halloc.trans hmap
  change 4 * rest.length ≤ (Litenix.vmmMap p.allocPage.1 space (userStackTop - (i + 1) * 4096)
    p.allocPage.2 stackFlags).1.pmm.freeFrames
  unfold Uses at huses
  omega

/-- A test that a load succeeds. It leaves out the loop over the pages of the stack, for which there are enough
pages; the allocations from the `n`-th on do not fail. -/
def loadSucceeds (n : Nat) (env : LoadEnv) (s : Supply) (d : ElfFile) (args : ExecArgs) : Bool :=
  match s.vmmCreateAddressSpace with
  | .ok (s₁, some space) =>
    match loadImage env space d s₁ with
    | (s₂, .ok (interpBase, _)) =>
      match (fillStack args ⟨phdrAddr d, d.ePhnum, interpBase, add64 d.loadBase d.eEntry⟩).2 with
      | some rspOffset => d.headerOk && env.stackBuf && decide (stackAddr rspOffset ≠ 0) &&
          ((List.range n).all fun i => !s₂.fails i) && decide (4 * userStackPages ≤ s₂.phys.pmm.freeFrames)
      | none => false
    | _ => false
  | _ => false

theorem Supply.later_vmmCreateAddressSpace (h : s.vmmCreateAddressSpace = .ok (s₁, some space)) : s.Later s₁ := by
  unfold Supply.vmmCreateAddressSpace at h
  have halloc := s.later_allocPage
  dsimp only at h
  split at h
  · cases h
  generalize hsup : ({ s.allocPage.1 with phys := _ } : Supply) = s₂ at h
  have hset : s.allocPage.1.Later s₂ := by
    rw [← hsup]
    exact .of_eq rfl rfl
  split at h
  · split at h
    · cases h
    · cases h
  · cases h
    exact (halloc.trans hset).trans s₂.later_allocPage

theorem loadSucceeds_sound (n : Nat) (proc : Process)
    (hready : LoadReady s.phys) (huser : LoadsUserHalf env d) (howns : proc.ownsAddressSpace = false)
    (hn : ∀ i, n ≤ i → s.fails i = false) (h : loadSucceeds n env s d args = true) :
    ∃ reply x, elfLoadIntoProcess env s proc d args = .ok reply ∧ reply.ret = .ok x := by
  unfold loadSucceeds at h
  obtain ⟨s₁, o, hcreate, -, hnew⟩ := hready.create
  rw [hcreate] at h
  cases o with
  | none => cases h
  | some space =>
  obtain ⟨hloading, -⟩ := hnew space rfl
  have hloads := Loads.loadImage hloading rfl huser
  have hlater := (Supply.later_vmmCreateAddressSpace hcreate).trans hloads.later
  have hzero := hloads.loading.zero
  dsimp only at h hlater hzero
  rcases himage : loadImage env space d s₁ with ⟨s₂, r⟩
  rw [himage] at h hlater hzero
  cases r with
  | error e => cases h
  | ok x =>
  obtain ⟨interpBase, entry⟩ := x
  dsimp only at h hlater hzero
  rcases hfill : fillStack args ⟨phdrAddr d, d.ePhnum, interpBase, add64 d.loadBase d.eEntry⟩ with ⟨b, _ | rspOffset⟩ <;> rw [hfill] at h
  · cases h
  simp only [Bool.and_eq_true, decide_eq_true_eq, List.all_eq_true, Bool.not_eq_true', List.mem_range] at h
  obtain ⟨⟨⟨⟨hheader, hbuf⟩, hrsp⟩, hfails⟩, hfree⟩ := h
  have hfull : s₂ = .full s₂.phys := by
    have hnone : s₂.fails = fun _ => false := by
      funext i
      rcases Nat.lt_or_ge i n with hi | hi
      · exact hfails i hi
      · obtain ⟨k, hk⟩ := hlater.fails
        rw [hk, hn _ (by omega)]
    rw [Supply.full, ← hnone]
  have hstack := mapStack_of_freeFrames space b.bytes (List.range userStackPages) hzero (by simpa using hfree)
  rw [← hfull] at hstack
  unfold elfLoadIntoProcess
  simp only [hheader, Bool.not_true, Bool.false_eq_true, if_false, hcreate, himage]
  unfold setupUserStack
  simp only [hbuf, Bool.not_true, Bool.false_eq_true, if_false, hfill]
  rcases hmap : mapStack space b.bytes s₂ (List.range userStackPages) with ⟨s₃, ok⟩
  rw [hmap] at hstack
  subst hstack
  rw [if_neg hrsp]
  simp only [loadDone, howns, Bool.false_eq_true, if_false]
  exact ⟨_, _, rfl, rfl⟩

end Litenix
