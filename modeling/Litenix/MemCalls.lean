import Litenix.SpaceSteps
import Litenix.Kernel
import Litenix.FreeFrames

/-! The loops and the calls that work on the pages of one address space keep what `Held` collects, as long
as every page they visit lies in the user half. -/

namespace Litenix

open Lib Radix Function

variable {boot : Nat → Prop} {live : Finset Nat} {extra : Nat → Int} {strict : Prop}
  {pos : Nat → Option (Nat × List Nat)} {p p' p₀ : Phys} {space : AddressSpace}
variable {addr length page r start stop virt v flags e last : Nat} {mem : Nat → Nat → Nat}

/-- The pages of a range lie in the user half. -/
def UserRange (start stop : Nat) : Prop := ∀ v ∈ pageAddrs start stop, vpn v < userPages

theorem pageAligned_of_mem (haligned : pageAligned start = true)
    (hv : v ∈ pageAddrs start stop) : pageAligned v = true := by
  obtain ⟨i, rfl, -⟩ := mem_pageAddrs hv
  rw [pageAligned_iff] at haligned ⊢
  omega

theorem pageAligned_alignUp (v : Nat) : pageAligned (pageAlignUp v) = true := by
  rw [pageAligned_iff, pageAlignUp_eq]
  omega

theorem pageAligned_alignDown (v : Nat) : pageAligned (pageAlignDown v) = true := by
  rw [pageAligned_iff, pageAlignDown_eq]
  omega

theorem mem_pageAddrs_iff (haligned : pageAligned start = true) :
    v ∈ pageAddrs start stop ↔ pageAligned v = true ∧ start ≤ v ∧ v < stop := by
  refine ⟨fun h => ?_, fun ⟨hv, hle, hlt⟩ => ?_⟩
  · have := pageAligned_of_mem haligned h
    obtain ⟨i, rfl, hlt⟩ := mem_pageAddrs h
    exact ⟨this, by omega, hlt⟩
  rw [pageAligned_iff] at haligned hv
  obtain ⟨i, hi⟩ : ∃ i, v = start + i * 4096 := ⟨(v - start) / 4096, by omega⟩
  subst hi
  exact mem_pageAddrs_of_lt hlt

namespace Held

theorem dropPages (h : Held strict boot live extra p₀ p) (hextra : ∀ f, 0 ≤ extra f) (hr : space.root ∈ live)
    (haligned : pageAligned start = true) (hrange : UserRange start stop) :
    ∃ p', Litenix.dropPages p space start stop = .ok p' ∧ Held strict boot live extra p₀ p' :=
  foldlM_ok _ h fun _ v hv hq => hq.dropPage hextra hr (hrange v hv) (pageAligned_of_mem haligned hv)

theorem growHeap (hr : space.root ∈ live) : ∀ {pages : List Nat} {p : Phys}, Held strict boot live extra p₀ p →
    (∀ v ∈ pages, vpn v < userPages) →
    ∃ p' o, Litenix.growHeap space p pages = .ok (p', o) ∧ Held strict boot live extra p₀ p' := by
  intro pages
  induction pages with
  | nil => exact fun h _ => ⟨_, none, rfl, h⟩
  | cons v rest ih =>
    intro p h hpages
    obtain ⟨p₁, mapped, hmap, h₁, -, -⟩ := h.mapFreshPage hr (hpages v List.mem_cons_self) heapFlags fun _ => 0
    rw [Litenix.growHeap, hmap]
    cases mapped with
    | false => exact ⟨p₁, some v, rfl, h₁⟩
    | true => exact ih h₁ fun v hv => hpages v (List.mem_cons_of_mem _ hv)

theorem protectPages (h : Held strict boot live extra p₀ p) (hr : space.root ∈ live) (hrange : UserRange start stop)
    (hsafe : strict → flags.testBit 1 = true → ∀ v ∈ pageAddrs start stop, ∀ e,
      pte p.mem space.root (vpn v) = some e → userRefs p.mem live (entryIndex e) = 1) :
    Held strict boot live extra p₀ (Litenix.protectPages p space start stop flags) := by
  refine (foldl_inv (fun q => Held strict boot live extra p₀ q ∧ SameFrames live p.mem q.mem)
    ⟨h, fun _ _ _ _ => rfl⟩ fun q v hv ⟨hq, hframes⟩ => ?_).1
  split
  · obtain ⟨hheld, hsame, -⟩ := hq.vmmProtect hr flags (hrange v hv) (by
      intro hs hw e he
      have hframe := (pte_eq_some he).2.1
      rw [hframes _ hr _ (hrange v hv)] at hframe
      obtain ⟨e', he', hindex⟩ := userFrame_eq_some hframe
      rw [hframes.userRefs, ← hindex]
      exact hsafe hs hw v hv e' he')
    exact ⟨hheld, fun r hr v hv => (hsame r hr v hv).trans (hframes r hr v hv)⟩
  · exact ⟨hq, hframes⟩

/-! ### Stores -/

theorem writePage (h : Held strict boot live extra p₀ p) {f : Nat} (hf : 0 < userRefs p.mem live f)
    (page : Nat → Nat) :
    Held strict boot live extra p₀ { p with mem := update p.mem f page } ∧
      SameView live p.mem (update p.mem f page) := by
  obtain ⟨pos, hwf⟩ := h.wf
  have hpos : pos f = none := by
    by_contra hne
    obtain ⟨x, hx⟩ := Option.ne_none_iff_exists'.mp hne
    have := hwf.userRefs_table hx
    omega
  obtain ⟨hwf', hview⟩ := hwf.setPage hpos page
  exact ⟨h.step hwf' (h.ok.same hview)
    (hwf.kernelSame_setPage hpos (hwf.not_boot (.inl hf)) page) (.inl rfl), hview⟩

end Held

theorem Phys.writeByte_eq (p : Phys) (phys : Nat) (byte : UInt8) :
    ∃ page, p.writeByte phys byte = { p with mem := update p.mem (pageIndex phys) page } :=
  ⟨_, rfl⟩

/-- Bytes that lie in one page change that page only. -/
theorem Phys.writeBytes_eq (p : Phys) (phys f : Nat) (bytes : List UInt8)
    (hpage : ∀ i < bytes.length, pageIndex (phys + i) = f) :
    ∃ page, p.writeBytes phys bytes = { p with mem := update p.mem f page } := by
  refine foldl_inv (fun q => ∃ page, q = { p with mem := update p.mem f page })
    ⟨p.mem f, by rw [update_eq_self]⟩ ?_
  rintro _ ⟨byte, i⟩ hi ⟨page, rfl⟩
  obtain ⟨-, hlt, -⟩ := List.mem_zipIdx hi
  obtain ⟨page', hpage'⟩ := Phys.writeByte_eq { p with mem := update p.mem f page } (phys + i) byte
  refine ⟨page', hpage'.trans ?_⟩
  rw [hpage i (by omega)]
  simp only [update_idem]

/-- The word that a walk finds is the entry of the page, when it is present. -/
theorem pte_of_pteWord (h : (pteWord mem r page).testBit 0 = true) :
    pte mem r (vpn page) = some (pteWord mem r page) := by
  unfold pteWord at h ⊢
  rw [walkToPte_eq] at h ⊢
  unfold pte leafEntry
  cases hwalk : tableAt entryPage mem r (pathOf pageEntries 3 (vpn page / pageEntries)) with
  | none =>
    rw [hwalk] at h
    simp at h
  | some t =>
    rw [hwalk] at h
    simp only [Option.map_some, Option.bind_some] at h ⊢
    simp [entryPage_eq_some_iff.mpr ⟨h, rfl⟩]

theorem pteWord_of_pte (h : pte mem r (vpn page) = some e) : pteWord mem r page = e := by
  obtain ⟨-, -, t, ht, hword⟩ := pte_eq_some h
  rw [pteWord, walkToPte_eq, ht]
  exact hword

theorem pteWord_present_iff :
    hasFlag (pteWord mem r page) vmmPresent = true ↔ ∃ e, pte mem r (vpn page) = some e := by
  rw [hasFlag_present]
  refine ⟨fun h => ⟨_, pte_of_pteWord h⟩, fun ⟨e, he⟩ => ?_⟩
  rw [pteWord_of_pte he]
  exact (pte_eq_some he).1

theorem vmmVirtToPhys_eq_some (h : vmmVirtToPhys p space virt = some phys) :
    ∃ e, pte p.mem space.root (vpn virt) = some e ∧ phys = pageAddr (entryIndex e) + virt % vmmPageSize := by
  unfold vmmVirtToPhys at h
  split at h
  · cases h
  rename_i pt i e hpte
  cases h
  have hsome := (presentPte_eq_some hpte).2.2.2.2
  rw [vpn_alignDown] at hsome
  exact ⟨e, hsome, by rw [entryPhys_eq_pageAddr, land_pageOffsetMask]; rfl⟩

theorem pageIndex_pageAddr_add (f : Nat) {i : Nat} (hi : i < vmmPageSize) : pageIndex (pageAddr f + i) = f := by
  unfold pageIndex pageAddr pmmPageSize
  unfold vmmPageSize at hi
  omega

/-- A store of a process changes nothing, or the frame of a writable page. -/
theorem userStore_cases (p : Phys) (space : AddressSpace) (virt : Nat) (byte : UInt8) :
    userStore p space virt byte = p ∨
      ∃ e page, pte p.mem space.root (vpn virt) = some e ∧ e.testBit 1 = true ∧
        userStore p space virt byte = { p with mem := update p.mem (entryIndex e) page } := by
  unfold userStore
  dsimp only
  split
  · rename_i hflags
    simp only [Bool.and_eq_true, hasFlag_present, hasFlag_writable] at hflags
    rw [entryPhys_eq_pageAddr]
    obtain ⟨page, hwrite⟩ := p.writeByte_eq
      (pageAddr (entryIndex (pteWord p.mem space.root virt)) + virt % vmmPageSize) byte
    rw [pageIndex_pageAddr_add _ (Nat.mod_lt _ (by norm_num [vmmPageSize]))] at hwrite
    exact .inr ⟨_, page, pte_of_pteWord hflags.1.1, hflags.2, hwrite⟩
  · exact .inl rfl

theorem vpn_user (h : virt ≤ vmmUserTop) : vpn virt < userPages := by
  unfold vpn vmmPageSize userPages
  unfold vmmUserTop at h
  omega

namespace Held

/-- The copying loop of `vmm_copy_to_user` stores into mapped pages. -/
theorem copyOut (hr : space.root ∈ live) : ∀ {fuel : Nat} {p : Phys} {dst : Nat} {bytes : List UInt8},
    Held strict boot live extra p₀ p → dst + bytes.length ≤ vmmUserTop + 1 →
    Held strict boot live extra p₀ (Litenix.copyOut space fuel p dst bytes).1 ∧
      SameView live p.mem (Litenix.copyOut space fuel p dst bytes).1.mem := by
  intro fuel
  induction fuel with
  | zero => exact fun h _ => ⟨h, SameView.refl live _⟩
  | succ fuel ih =>
  intro p dst bytes h hbound
  rw [Litenix.copyOut]
  split
  · exact ⟨h, SameView.refl live p.mem⟩
  rename_i hne
  have hlen : 0 < bytes.length := List.length_pos_iff.mpr hne
  split
  · exact ⟨h, SameView.refl live p.mem⟩
  rename_i phys hphys
  obtain ⟨e, he, rfl⟩ := vmmVirtToPhys_eq_some hphys
  have hv : vpn dst < userPages := vpn_user (by omega)
  generalize hchunk : min bytes.length (vmmPageSize - dst % vmmPageSize) = chunk
  have hle : chunk ≤ bytes.length := hchunk ▸ Nat.min_le_left ..
  have hpage : chunk ≤ vmmPageSize - dst % vmmPageSize := hchunk ▸ Nat.min_le_right ..
  obtain ⟨page, hwrite⟩ := p.writeBytes_eq (pageAddr (entryIndex e) + dst % vmmPageSize)
    (entryIndex e) (bytes.take chunk) (by
      intro i hi
      rw [List.length_take] at hi
      rw [add_assoc]
      exact pageIndex_pageAddr_add _ (by omega))
  dsimp only
  rw [hwrite]
  have hwrap : add64 dst chunk = dst + chunk := add64_of_lt (by unfold vmmUserTop at hbound; omega)
  obtain ⟨hheld, hview⟩ := h.writePage (userRefs_pos hr hv he) page
  have hrest : add64 dst chunk + (bytes.drop chunk).length ≤ vmmUserTop + 1 := by
    rw [hwrap, List.length_drop]
    omega
  obtain ⟨hheld', hview'⟩ := ih hheld hrest
  exact ⟨hheld', hview.trans hview'⟩

theorem userStore (h : Held strict boot live extra p₀ p) (hr : space.root ∈ live)
    (hv : vpn virt < userPages) (byte : UInt8) :
    Held strict boot live extra p₀ (Litenix.userStore p space virt byte) := by
  rcases userStore_cases p space virt byte with hsame | ⟨e, page, he, -, hwrite⟩
  · rw [hsame]
    exact h
  · rw [hwrite]
    exact (h.writePage (userRefs_pos hr hv he) page).1

end Held

/-! ### Validation of user pages -/

/-- A page that the fallback of `vmm_validate_user_ptr_ex` would make writable although other entries map
it too: it is present and not writable, and the area that covers it is. -/
def Risky (live : Finset Nat) (p : Phys) (space : AddressSpace) (vmas : Option VmaTable) (page : Nat) : Prop :=
  ∃ e vma, pte p.mem space.root (vpn page) = some e ∧ e.testBit 1 = false ∧
    userRefs p.mem live (entryIndex e) ≠ 1 ∧ coveringVma vmas page = some vma ∧
    hasFlag vma.protFlags protWrite = true ∧ vma.flags.testBit 1 = true

/-- A risky page is marked copy-on-write, and there is memory for its copy. -/
def CopySafe (live : Finset Nat) (p : Phys) (space : AddressSpace) (vmas : Option VmaTable)
    (pages : List Nat) : Prop :=
  ∀ page ∈ pages, Risky live p space vmas page →
    (∀ e, pte p.mem space.root (vpn page) = some e → e.testBit 9 = true) ∧
      5 * pages.length ≤ p.pmm.freeFrames

/-- One page has been handled; the others are as safe as before. -/
theorem CopySafe.tail (h : CopySafe live p space vmas (page :: rest))
    (htouched : Touched live p.mem p'.mem space.root (vpn page)) (huses : Uses 5 p p') (hr : space.root ∈ live)
    (hfirst : ∀ q ∈ rest, vpn page ≠ vpn q) (hpages : ∀ q ∈ rest, vpn q < userPages) :
    CopySafe live p' space vmas rest := by
  intro q hq hrisky
  obtain ⟨e, vma, he, hw, hshared, hrest⟩ := hrisky
  have hne : (space.root, vpn q) ≠ (space.root, vpn page) := fun heq => hfirst q hq (Prod.mk.inj heq).2.symm
  have hsame := htouched.others _ hr _ (hpages q hq) hne
  rw [hsame] at he
  have hcount := htouched.counts _ hr _ (hpages q hq) hne e he
  have hpos : 0 < userRefs p'.mem live (entryIndex e) := userRefs_pos hr (hpages q hq) (hsame.trans he)
  obtain ⟨hcow, hfree⟩ := h q (List.mem_cons_of_mem _ hq) ⟨e, vma, he, hw, by omega, hrest⟩
  rw [List.length_cons] at hfree
  unfold Uses at huses
  exact ⟨fun e' he' => hcow e' (hsame.symm.trans he'), by omega⟩

namespace Held

variable (vmas : Option VmaTable)

theorem lazyPage (h : Held strict boot live extra p₀ p) (hr : space.root ∈ live)
    (hv : vpn page < userPages) (requireWrite : Bool) :
    ∃ p' ok, Litenix.lazyPage p space vmas requireWrite page = .ok (p', ok) ∧
      Held strict boot live extra p₀ p' ∧ Touched live p.mem p'.mem space.root (vpn page) ∧ Uses 4 p p' ∧
      (p' = p ∨ (ok = true → ∀ e, pte p'.mem space.root (vpn page) = some e →
        userRefs p'.mem live (entryIndex e) = 1)) := by
  have hsame : Touched live p.mem p.mem space.root (vpn page) := .of_sameView (SameView.refl live p.mem) ..
  have huses : Uses 4 p p := .of_eq 4 rfl
  unfold Litenix.lazyPage
  split
  · exact ⟨p, true, rfl, h, hsame, huses, .inl rfl⟩
  split
  · exact ⟨p, false, rfl, h, hsame, huses, .inl rfl⟩
  split
  · exact ⟨p, false, rfl, h, hsame, huses, .inl rfl⟩
  split
  · exact ⟨p, false, rfl, h, hsame, huses, .inl rfl⟩
  · rename_i vma _ _ _
    obtain ⟨p', mapped, hmap, hheld, htouched, hone⟩ := h.mapFreshPage hr hv vma.flags fun _ => 0
    exact ⟨p', mapped, hmap, hheld, htouched, .mapFreshPage hmap, .inr hone⟩

section

variable (h : Held strict boot live extra p₀ p) (hextra : ∀ f, 0 ≤ extra f) (hr : space.root ∈ live) (hv : vpn page < userPages)

include h hextra hr hv

theorem writablePage (he : pte p.mem space.root (vpn page) = some e)
    (hsafe : strict → ∀ vma, coveringVma vmas page = some vma → hasFlag vma.protFlags protWrite = true →
      vma.flags.testBit 1 = true →
      userRefs p.mem live (entryIndex e) = 1 ∨ e.testBit 9 = true ∧ 0 < p.pmm.freeFrames) :
    ∃ p' ok, Litenix.writablePage p space vmas page = .ok (p', ok) ∧ Held strict boot live extra p₀ p' ∧
      Touched live p.mem p'.mem space.root (vpn page) ∧ Uses 1 p p' := by
  have hword := pteWord_of_pte he
  unfold Litenix.writablePage
  rw [hword, hasFlag_cow]
  -- the fallback on the flags of the area, when nothing was resolved
  have hstay : Held strict boot live extra p₀ p ∧ Touched live p.mem p.mem space.root (vpn page) ∧ Uses 1 p p :=
    ⟨h, .of_sameView (SameView.refl live p.mem) .., .of_eq 1 rfl⟩
  have hfallback : (e.testBit 9 = true → p.pmm.freeFrames = 0) → ∀ vma, coveringVma vmas page = some vma →
      ∀ q, q = (if hasFlag vma.protFlags protWrite = true then (Litenix.vmmProtect p space page vma.flags).1 else p) →
      Held strict boot live extra p₀ q ∧ Touched live p.mem q.mem space.root (vpn page) ∧ Uses 1 p q := by
    intro hfull vma hcover q hq
    split at hq
    · rename_i hprot
      obtain ⟨hheld, -, htouched⟩ := h.vmmProtect hr vma.flags hv (by
        intro hs hflag e' he'
        rw [he] at he'
        cases he'
        rcases hsafe hs vma hcover hprot hflag with hone | ⟨hcow, hpos⟩
        · exact hone
        · have := hfull hcow
          omega)
      exact hq ▸ ⟨hheld, htouched, (Uses.vmmProtect p space page vma.flags).mono (by omega)⟩
    · exact hq ▸ hstay
  by_cases hcow : e.testBit 9 = true
  · obtain ⟨p₁, res, hhandle, hheld, hcase, htouched⟩ := h.vmmHandleCow hextra hr hv
    have huses := Uses.vmmHandleCow hhandle
    rw [if_pos hcow, hhandle]
    simp only [Except.map]
    -- a resolved page is writable
    have hdone : ∀ {w}, pte p₁.mem space.root (vpn page) = some w → w.testBit 1 = true → _ := fun {w} hw hbit =>
      show hasFlag (pteWord p₁.mem space.root page) vmmWritable = true by
        rw [pteWord_of_pte hw, hasFlag_writable, hbit]
    cases hcase with
    | last _ w _ _ _ hres hset _ =>
      rw [if_pos (hdone hset.1 hres.writable)]
      exact ⟨p₁, _, rfl, hheld, htouched, huses⟩
    | copy _ _ w _ _ _ _ hres hset _ =>
      rw [if_pos (hdone hset.1 hres.writable)]
      exact ⟨p₁, _, rfl, hheld, htouched, huses⟩
    | full hnone heq =>
      subst heq
      split
      · exact ⟨_, _, rfl, hheld, htouched, huses⟩
      · split
        · exact ⟨_, _, rfl, hstay⟩
        · exact ⟨_, _, rfl, hfallback (fun _ => Pmm.freeFrames_eq_zero hnone) _ ‹_› _ rfl⟩
    | absent hno _ =>
      have := hno e he
      rw [hcow] at this
      cases this
  · rw [if_neg hcow]
    dsimp only
    split
    · exact ⟨_, _, rfl, hstay⟩
    · split
      · exact ⟨_, _, rfl, hstay⟩
      · exact ⟨_, _, rfl, hfallback (fun hyes => absurd hyes hcow) _ ‹_› _ rfl⟩

theorem validatePage (requireWrite : Bool) (hsafe : strict → requireWrite = true → Risky live p space vmas page →
      (∀ e, pte p.mem space.root (vpn page) = some e → e.testBit 9 = true) ∧ 0 < p.pmm.freeFrames) :
    ∃ p' ok, Litenix.validatePage p space vmas requireWrite page = .ok (p', ok) ∧
      Held strict boot live extra p₀ p' ∧ Touched live p.mem p'.mem space.root (vpn page) ∧ Uses 5 p p' := by
  obtain ⟨p₁, ok, hlazy, h₁, htouched, huses, hcase⟩ := h.lazyPage vmas hr hv requireWrite
  have hfive : Uses 5 p p₁ := huses.mono (by omega)
  unfold Litenix.validatePage
  rw [hlazy]
  cases ok with
  | false => exact ⟨p₁, false, rfl, h₁, htouched, hfive⟩
  | true =>
  dsimp only
  split
  · exact ⟨p₁, false, rfl, h₁, htouched, hfive⟩
  rename_i hpresent
  split
  · exact ⟨p₁, false, rfl, h₁, htouched, hfive⟩
  split
  · rename_i hwrite
    simp only [Bool.and_eq_true, Bool.not_eq_true', hasFlag_writable] at hwrite
    obtain ⟨e, he⟩ := pteWord_present_iff.mp (by simpa using hpresent)
    rw [pteWord_of_pte he] at hwrite
    obtain ⟨p₂, ok, hwritable, h₂, htouched₂, huses₂⟩ := h₁.writablePage vmas hextra hr hv he (by
      intro hs vma hcover hprot hflag
      rcases hcase with rfl | hone
      · by_cases hshared : userRefs p₁.mem live (entryIndex e) = 1
        · exact .inl hshared
        · obtain ⟨hcow, hfree⟩ := hsafe hs hwrite.1
            ⟨e, vma, he, hwrite.2, hshared, hcover, hprot, hflag⟩
          exact .inr ⟨hcow e he, hfree⟩
      · exact .inl (hone rfl e he))
    exact ⟨p₂, ok, hwritable, h₂, htouched.trans htouched₂, (huses.trans huses₂).mono (by omega)⟩
  · exact ⟨p₁, true, rfl, h₁, htouched, hfive⟩

end

theorem validatePages (hextra : ∀ f, 0 ≤ extra f) (hr : space.root ∈ live) (requireWrite : Bool) :
    ∀ {pages : List Nat} {p : Phys}, Held strict boot live extra p₀ p → (∀ page ∈ pages, vpn page < userPages) →
      pages.Pairwise (fun a b => vpn a ≠ vpn b) →
      (strict → requireWrite = true → CopySafe live p space vmas pages) →
      ∃ p' ok, Litenix.validatePages space vmas requireWrite p pages = .ok (p', ok) ∧
        Held strict boot live extra p₀ p' := by
  intro pages
  induction pages with
  | nil => exact fun h _ _ _ => ⟨_, true, rfl, h⟩
  | cons page rest ih =>
  intro p h hpages hdistinct hsafe
  obtain ⟨hfirst, hdistinct⟩ := List.pairwise_cons.mp hdistinct
  have hv := hpages page List.mem_cons_self
  obtain ⟨p₁, ok, hvalid, h₁, htouched, huses⟩ := h.validatePage vmas hextra hr hv
    requireWrite (by
      intro hs hw hrisky
      obtain ⟨hcow, hfree⟩ := hsafe hs hw page List.mem_cons_self hrisky
      rw [List.length_cons] at hfree
      exact ⟨hcow, by omega⟩)
  rw [Litenix.validatePages, hvalid]
  cases ok with
  | false => exact ⟨p₁, false, rfl, h₁⟩
  | true =>
    refine ih h₁ (fun q hq => hpages q (List.mem_cons_of_mem _ hq)) hdistinct fun hs hw => ?_
    exact (hsafe hs hw).tail htouched huses hr hfirst fun q hq => hpages q (List.mem_cons_of_mem _ hq)

end Held

theorem touchedPages_user (hlast : last ≤ vmmUserTop) : ∀ page ∈ touchedPages start last, vpn page < userPages := by
  intro page hpage
  obtain ⟨-, -, hlt⟩ := (mem_pageAddrs_iff (pageAligned_alignDown start)).mp hpage
  refine vpn_user ?_
  rw [pageAlignDown_eq] at hlt
  omega

theorem touchedPages_distinct (hlast : last ≤ vmmUserTop) :
    (touchedPages start last).Pairwise fun a b => vpn a ≠ vpn b := by
  have huser : ∀ page ∈ touchedPages start last, page < 2 ^ 48 := by
    intro page hpage
    obtain ⟨-, -, hlt⟩ := (mem_pageAddrs_iff (pageAligned_alignDown start)).mp hpage
    rw [pageAlignDown_eq] at hlt
    unfold vmmUserTop at hlast
    omega
  have hlt : (touchedPages start last).Pairwise fun a b => a + 4096 ≤ b := by
    unfold touchedPages pageAddrs
    rw [List.pairwise_map]
    refine List.pairwise_lt_range.imp fun {a b} hab => ?_
    unfold pmmPageSize
    omega
  refine List.Pairwise.imp_of_mem (fun {a b} ha hb hab => ?_) hlt
  have := huser b hb
  unfold vpn vmmPageSize
  omega

theorem last_eq (hptr : ptr < 2 ^ 64) (hlength : length < 2 ^ 64)
    (hlast : ptr ≤ sub64 (add64 ptr length) 1) (htop : sub64 (add64 ptr length) 1 ≤ vmmUserTop) :
    sub64 (add64 ptr length) 1 = ptr + length - 1 ∧ ptr + length ≤ vmmUserTop + 1 := by
  unfold sub64 add64 vmmUserTop at *
  omega

namespace Held

variable (vmas : Option VmaTable)

section

variable (h : Held strict boot live extra p₀ p) (hextra : ∀ f, 0 ≤ extra f)

include h hextra

theorem vmmValidateUserPtrEx (hr : space.root ∈ live) (ptr length : Nat) (requireWrite : Bool)
    (hsafe : strict → requireWrite = true →
      CopySafe live p space vmas (touchedPages ptr (sub64 (add64 ptr length) 1))) :
    ∃ p' ok, Litenix.vmmValidateUserPtrEx p space vmas ptr length requireWrite = .ok (p', ok) ∧
      Held strict boot live extra p₀ p' ∧
      (ok = true → length = 0 ∨ ptr ≤ sub64 (add64 ptr length) 1 ∧ sub64 (add64 ptr length) 1 ≤ vmmUserTop) := by
  unfold Litenix.vmmValidateUserPtrEx
  dsimp only
  split
  · rename_i hzero
    exact ⟨p, true, rfl, h, fun _ => .inl hzero⟩
  split
  · exact ⟨p, false, rfl, h, fun hno => by cases hno⟩
  split
  · exact ⟨p, false, rfl, h, fun hno => by cases hno⟩
  split
  · exact ⟨p, false, rfl, h, fun hno => by cases hno⟩
  split
  · exact ⟨p, false, rfl, h, fun hno => by cases hno⟩
  have htop : sub64 (add64 ptr length) 1 ≤ vmmUserTop := by omega
  obtain ⟨p', ok, hvalid, h'⟩ := validatePages vmas hextra hr requireWrite h
    (touchedPages_user htop) (touchedPages_distinct htop) hsafe
  exact ⟨p', ok, hvalid, h', fun _ => .inr ⟨by omega, htop⟩⟩

theorem vmmCopyToUser
    (hr : space.root ∈ live) {dst : Nat} {bytes : List UInt8} (hdst : dst < 2 ^ 64) (hlen : bytes.length < 2 ^ 64)
    (hsafe : strict → CopySafe live p space vmas (touchedPages dst (sub64 (add64 dst bytes.length) 1))) :
    ∃ p' ok, Litenix.vmmCopyToUser p space vmas dst bytes = .ok (p', ok) ∧ Held strict boot live extra p₀ p' := by
  obtain ⟨p₁, ok, hvalid, h₁, hrange⟩ := h.vmmValidateUserPtrEx vmas hextra hr dst bytes.length
    true fun hs _ => hsafe hs
  unfold Litenix.vmmCopyToUser
  rw [hvalid]
  cases ok with
  | false => exact ⟨p₁, false, rfl, h₁⟩
  | true =>
    refine ⟨_, _, rfl, ?_⟩
    rcases hrange rfl with hzero | ⟨hlo, hhi⟩
    · rw [hzero]
      exact h₁
    · exact (h₁.copyOut hr (last_eq hdst hlen hlo hhi).2).1

theorem vmmCopyFromUser (hr : space.root ∈ live) (src length : Nat) :
    ∃ p' bytes, Litenix.vmmCopyFromUser p space vmas src length = .ok (p', bytes) ∧
      Held strict boot live extra p₀ p' := by
  obtain ⟨p₁, ok, hvalid, h₁, -⟩ := h.vmmValidateUserPtrEx vmas hextra hr src length false
    fun _ hno => by cases hno
  unfold Litenix.vmmCopyFromUser
  rw [hvalid]
  cases ok with
  | false => exact ⟨p₁, none, rfl, h₁⟩
  | true => exact ⟨p₁, _, rfl, h₁⟩

theorem pageFault (hr : proc.addressSpace.root ∈ live) {cr2 : Nat} (hv : vpn cr2 < userPages) (code : FaultCode)
    (fill : Option (Nat → Nat)) :
    ∃ p', Litenix.pageFault p proc cr2 code fill = .ok p' ∧ Held strict boot live extra p₀ p' := by
  have hpage : vpn (pageAlignDown cr2) < userPages := by
    rw [show pageAlignDown cr2 = alignDown cr2 vmmPageSize from rfl, vpn_alignDown]
    exact hv
  unfold Litenix.pageFault
  split
  · split
    · exact ⟨p, rfl, h⟩
    dsimp only
    split
    · exact ⟨p, rfl, h⟩
    split
    · rename_i page _
      obtain ⟨p', mapped, hmap, h', -, -⟩ := h.mapFreshPage hr hpage (faultFlags (proc.vmas _)) page
      rw [hmap]
      exact ⟨p', rfl, h'⟩
    -- the file could not be read: the page is given back
    obtain ⟨pos, hwf⟩ := h.wf
    rcases hwf.allocPage with ⟨halloc, -⟩ | ⟨f, p₁, halloc, hf⟩
    · rw [halloc]
      exact ⟨p, rfl, h⟩
    rw [halloc]
    obtain ⟨p', hfree, hmem, hpml4, hcalls, hwf'⟩ := hf.wf.freePage (f := f) (by simp)
    rw [update_idem, update_self, sub_self, ← hf.noExtra,
      update_eq_self] at hwf'
    simp only [hf.addr, if_false, hfree]
    refine ⟨p', rfl, h.step hwf' ?_ ?_ (.inr ⟨f, hf.not_boot, ?_⟩)⟩
    · rw [hmem]
      exact h.ok.same hf.view
    · exact hf.kernel.of_mem hmem hpml4
    · rw [hcalls, hf.freeCalls]
  · split
    · obtain ⟨p', res, hcow, h', -⟩ := h.vmmHandleCow hextra hr hv
      rw [hcow]
      exact ⟨p', rfl, h'⟩
    · exact ⟨p, rfl, h⟩

end

end Held

/-! ### The calls -/

/-- A memory call returns, and it keeps what `Held` collects and the space of the process. -/
def Keeps (strict : Prop) (boot : Nat → Prop) (live : Finset Nat) (extra : Nat → Int) (m : Mm)
    (result : Except Panic Reply) : Prop :=
  ∃ reply, result = .ok reply ∧ Held strict boot live extra m.phys reply.mm.phys ∧
    reply.mm.proc.addressSpace = m.proc.addressSpace ∧
    reply.mm.proc.ownsAddressSpace = m.proc.ownsAddressSpace

theorem keeps_withVmas (h : Held strict boot live extra m.phys p') (vmas : VmaTable)
    (events : List FileEvent) (ret : Except Errno Nat) :
    Keeps strict boot live extra m (.ok ⟨{ m with phys := p' }.withVmas vmas, events, ret⟩) :=
  ⟨_, rfl, h, rfl, rfl⟩

section Calls

variable {m : Mm} (h : Wf boot live extra pos m.phys) (hok : MemOk strict live extra m.phys.mem)
  (hextra : ∀ f, 0 ≤ extra f) (hr : m.space.root ∈ live) {prot : Nat}

include h hok

theorem keeps_same (ret : Except Errno Nat) : Keeps strict boot live extra m (.ok ⟨m, [], ret⟩) :=
  ⟨_, rfl, Held.refl h hok, rfl, rfl⟩

include hextra hr

theorem keeps_sysBrk (hgrow : UserRange (pageAlignUp m.proc.heapEnd) (pageAlignUp newBrk))
    (hshrink : UserRange (pageAlignUp newBrk) (pageAlignUp m.proc.heapEnd)) :
    Keeps strict boot live extra m (sysBrk m newBrk) := by
  rcases sysBrk_cases m newBrk with ⟨ret, heq⟩ | ⟨-, heq⟩ | ⟨-, heq⟩ <;> rw [heq]
  · exact keeps_same h hok ret
  · obtain ⟨p', o, hgrown, h'⟩ := Held.growHeap hr (Held.refl h hok) hgrow
    rw [growBrk, hgrown]
    cases o with
    | none => exact ⟨_, rfl, h', rfl, rfl⟩
    | some vaddr => exact ⟨_, rfl, h', rfl, rfl⟩
  · obtain ⟨p', hdrop, h'⟩ := (Held.refl h hok).dropPages hextra hr (pageAligned_alignUp _) hshrink
    rw [shrinkBrk, hdrop]
    exact ⟨_, rfl, h', rfl, rfl⟩

theorem keeps_sysMunmap (addr length : Nat) (hrange : UserRange addr (add64 addr (pageAlignUp length))) :
    Keeps strict boot live extra m (sysMunmap m addr length) := by
  rcases sysMunmap_cases m addr length with ⟨e, heq⟩ | ⟨haligned, -, -, heq⟩ <;> rw [heq]
  · exact keeps_same h hok _
  · obtain ⟨p', hdrop, h'⟩ := (Held.refl h hok).dropPages hextra hr haligned hrange
    rw [munmapRange, hdrop]
    exact keeps_withVmas h' ..

omit hextra in
theorem keeps_sysMprotect (hrange : UserRange addr (add64 addr (pageAlignUp length)))
    (hsafe : strict → (protPageFlags prot).testBit 1 = true →
      ∀ v ∈ pageAddrs addr (add64 addr (pageAlignUp length)), ∀ e,
        pte m.phys.mem m.space.root (vpn v) = some e → userRefs m.phys.mem live (entryIndex e) = 1) :
    Keeps strict boot live extra m (sysMprotect m addr length prot) := by
  rcases sysMprotect_cases m addr length prot with ⟨ret, heq⟩ | ⟨-, -, -, -, heq⟩ <;> rw [heq]
  · exact keeps_same h hok ret
  · exact keeps_withVmas ((Held.refl h hok).protectPages hr hrange hsafe) ..

theorem keeps_sysMadvise (hrange : ∀ i, (m.proc.vmas i).valid = true →
      UserRange (pageAlignDown (max addr (m.proc.vmas i).start))
        (pageAlignUp (min (add64 addr (pageAlignUp length)) (m.proc.vmas i).stop))) :
    Keeps strict boot live extra m (sysMadvise m addr length advice) := by
  rcases sysMadvise_cases m addr length advice with ⟨ret, heq⟩ | heq <;> rw [heq]
  · exact keeps_same h hok ret
  obtain ⟨p', hdrop, h'⟩ := foldlM_ok (Held strict boot live extra m.phys)
    (f := dontneedSlot m.space m.proc.vmas addr (add64 addr (pageAlignUp length))) (l := List.finRange vmaMax)
    (Held.refl h hok) (by
      intro q i _ hq
      unfold dontneedSlot
      dsimp only
      split
      · rename_i hmeets
        exact hq.dropPages hextra hr (pageAligned_alignDown _) (hrange i hmeets.1)
      · exact ⟨q, rfl, hq⟩)
  rw [madviseDontneed, hdrop]
  exact ⟨_, rfl, h', rfl, rfl⟩

/-- Only a fixed mapping touches pages, and its range is checked. -/
theorem keeps_sysMmap (nodeType : FileId → Option VfsType) {fd : Int} {offset : Nat} :
    Keeps strict boot live extra m (sysMmap nodeType m addr length prot flags fd offset) ∨
      sysMmap nodeType m addr length prot flags fd offset = .error .endlessSearch := by
  rcases sysMmap_cases nodeType m addr length prot flags fd offset with
    ⟨e, heq⟩ | ⟨area, taken, -, hpos, hlong, hwrap, hfixed, heq⟩ <;> rw [heq]
  · exact .inl (keeps_same h hok _)
  unfold placeArea
  split
  · rename_i hflag
    obtain ⟨haligned, hbase, htop⟩ := hfixed hflag
    have hlen : pageAlignUp (pageAlignUp length) = pageAlignUp length := by
      rw [pageAlignUp_eq, pageAlignUp_eq]
      omega
    obtain ⟨reply, hmunmap, h', hspace, howns⟩ := keeps_sysMunmap h hok hextra hr addr
      (pageAlignUp length) (by
        rw [hlen]
        intro v hv
        obtain ⟨-, -, hlt⟩ := (mem_pageAddrs_iff haligned).mp hv
        exact vpn_user (by omega))
    rw [hmunmap]
    left
    refine ⟨_, rfl, ?_⟩
    unfold insertArea
    split
    · exact ⟨h', hspace, howns⟩
    · exact ⟨h', hspace, howns⟩
  split
  · exact .inr rfl
  left
  split
  · exact ⟨_, rfl, Held.refl h hok, rfl, rfl⟩
  refine ⟨_, rfl, ?_⟩
  unfold insertArea
  split
  · exact ⟨Held.refl h hok, rfl, rfl⟩
  · exact ⟨Held.refl h hok, rfl, rfl⟩

end Calls

end Litenix
