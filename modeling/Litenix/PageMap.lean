import Litenix.SpaceOps

/-! One four-level table as a partial map from pages to physical addresses and flags. Nothing is assumed
about the rest of memory: a table is well formed when no page is the table at two positions, so that a
write to an entry is seen at one position only, and when the allocator holds no table as a free page. The
pages that the leaves map may be any, tables included. The whole address range is covered, both halves;
the walk ignores the upper sixteen bits of an address, which the others determine when it is canonical. -/

namespace Litenix

open Lib Radix Function

/-- The upper seventeen bits are equal. -/
def CanonicalAddr (virt : Nat) : Prop := virt < 2 ^ 47 ∨ 2 ^ 64 - 2 ^ 47 ≤ virt ∧ virt < 2 ^ 64

/-- A canonical page-aligned address. -/
structure PageAt where
  virt : Nat
  canonical : CanonicalAddr virt
  aligned : pageAligned virt = true
  deriving DecidableEq

/-- Every word of every table belongs to the tree. -/
def fullWidth (_ : Nat) : Nat := pageEntries

structure TableTree (p : Phys) (root : Nat) : Prop where
  distinct : ∀ {path path' t}, path.length ≤ 3 → ValidPath fullWidth path → path'.length ≤ 3 →
    ValidPath fullWidth path' → tableAt entryPage p.mem root path = some t →
    tableAt entryPage p.mem root path' = some t → path = path'
  taken : ∀ {path t}, path.length ≤ 3 → ValidPath fullWidth path → tableAt entryPage p.mem root path = some t →
    t < p.pmm.totalPages → p.pmm.available t = false
  /-- The address `0` means that there is no page. -/
  zero : p.pmm.managedBitmap 0 = false
  /-- Physical addresses have 52 bits. -/
  total : p.pmm.totalPages ≤ 2 ^ 40

/-- What the tables say about a page: the address it is mapped to, and the flags. -/
def translation (p : Phys) (space : AddressSpace) (page : PageAt) : Option (Nat × Nat) :=
  (pte p.mem space.root (vpn page.virt)).map fun e => (entryPhys e, e &&& pageFlagsMask)

theorem PageAt.vpn_injective {page page' : PageAt} (h : vpn page.virt = vpn page'.virt) : page = page' := by
  obtain ⟨virt, hcanon, haligned⟩ := page
  obtain ⟨virt', hcanon', haligned'⟩ := page'
  rw [pageAligned_iff] at haligned haligned'
  simp only [vpn, vmmPageSize] at h
  unfold CanonicalAddr at hcanon hcanon'
  obtain rfl : virt = virt' := by omega
  rfl

theorem vpn_lt (virt : Nat) : vpn virt < 2 ^ 36 := Nat.mod_lt _ (by norm_num)

theorem translation_update
    (h : ∀ v < 2 ^ 36, pte p'.mem space.root v = if v = vpn page.virt then e else pte p.mem space.root v) :
    translation p' space = update (translation p space) page (e.map fun e => (entryPhys e, e &&& pageFlagsMask)) := by
  funext page'
  by_cases hpage : page' = page
  · subst hpage
    rw [update_self, translation, h _ (vpn_lt _), if_pos rfl]
  · rw [update_of_ne hpage, translation, h _ (vpn_lt _),
      if_neg fun hv => hpage (PageAt.vpn_injective hv), translation]

theorem entryPhys_makeEntry (phys flags : Nat) : entryPhys (makeEntry phys flags) = entryPhys phys := by
  apply Nat.eq_of_testBit_eq
  intro i
  rw [entryPhys, entryPhys, Nat.testBit_and, Nat.testBit_and, testBit_makeEntry, testBit_pageMask]
  by_cases hi : 12 ≤ i ∧ i < 52
  · simp [hi, show ¬i < 12 by omega, show ¬52 ≤ i by omega]
  · simp [hi]

theorem makeEntry_land_pageFlagsMask (phys flags : Nat) :
    makeEntry phys flags &&& pageFlagsMask = flags &&& pageFlagsMask := by
  apply Nat.eq_of_testBit_eq
  intro i
  rw [Nat.testBit_and, Nat.testBit_and, testBit_makeEntry, testBit_pageFlagsMask]
  by_cases hi : i < 12 ∨ 52 ≤ i ∧ i < 64
  · simp [hi, show ¬(12 ≤ i ∧ i < 52) by omega]
  · simp [hi]

theorem entryPhys_of_aligned (haligned : pageAligned phys = true) (hphys : phys < 2 ^ 52) :
    entryPhys phys = phys := by
  rw [pageAligned_iff] at haligned
  rw [entryPhys_eq]
  omega

/-! ### Positions -/

/-- A well-formed table with the positions made explicit. -/
structure Tabled (pos : Nat → Option (Nat × List Nat)) (root : Nat) (p : Phys) : Prop where
  tables : Tables entryPage fullWidth 3 pos {root} p.mem
  taken : ∀ {f x}, pos f = some x → f < p.pmm.totalPages → p.pmm.available f = false
  zero : p.pmm.managedBitmap 0 = false
  total : p.pmm.totalPages ≤ 2 ^ 40

section

variable {p p' : Phys} {root f t i v flags : Nat} {path : List Nat} {pos pos' : Nat → Option (Nat × List Nat)}

open Classical in
noncomputable def position (p : Phys) (root f : Nat) : Option (Nat × List Nat) :=
  if h : ∃ path, path.length ≤ 3 ∧ ValidPath fullWidth path ∧ tableAt entryPage p.mem root path = some f then
    some (root, h.choose)
  else none

theorem TableTree.position_eq_some (h : TableTree p root) {r : Nat} : position p root f = some (r, path) ↔
    r = root ∧ path.length ≤ 3 ∧ ValidPath fullWidth path ∧ tableAt entryPage p.mem root path = some f := by
  unfold position
  split
  · rename_i hexists
    obtain ⟨hlen, hvalid, hwalk⟩ := hexists.choose_spec
    rw [Option.some.injEq, Prod.mk.injEq]
    constructor
    · rintro ⟨rfl, rfl⟩
      exact ⟨rfl, hlen, hvalid, hwalk⟩
    · rintro ⟨rfl, hlen', hvalid', hwalk'⟩
      exact ⟨rfl, h.distinct hlen hvalid hlen' hvalid' hwalk hwalk'⟩
  · rename_i hnone
    exact ⟨nofun, fun ⟨_, hlen, hvalid, hwalk⟩ => absurd ⟨path, hlen, hvalid, hwalk⟩ hnone⟩

theorem TableTree.tabled (h : TableTree p root) : Tabled (position p root) root p where
  tables :=
    { root := fun r hr => by
        obtain rfl := Finset.mem_singleton.mp hr
        exact h.position_eq_some.mpr ⟨rfl, Nat.zero_le _, trivial, rfl⟩
      live := fun hf => by
        obtain ⟨rfl, hlen, -, hwalk⟩ := h.position_eq_some.mp hf
        refine ⟨Finset.mem_singleton_self _, hlen, ?_⟩
        rintro rfl
        exact (Option.some.inj hwalk).symm
      child := fun hf hlen hi hnext => by
        obtain ⟨rfl, -, hvalid, hwalk⟩ := h.position_eq_some.mp hf
        refine h.position_eq_some.mpr ⟨rfl, hlen, ⟨hi, hvalid⟩, ?_⟩
        rw [tableAt, hwalk]
        exact hnext
      parent := fun hf => by
        obtain ⟨rfl, hlen, hvalid, hwalk⟩ := h.position_eq_some.mp hf
        obtain ⟨g, hg, hnext⟩ := Option.bind_eq_some_iff.mp hwalk
        exact ⟨hvalid.1, g, h.position_eq_some.mpr ⟨rfl, Nat.le_of_succ_le hlen, hvalid.2, hg⟩, hnext⟩ }
  taken := fun {f x} hf => by
    obtain ⟨-, hlen, hvalid, hwalk⟩ := h.position_eq_some.mp (show position p root f = some (x.1, x.2) from hf)
    exact h.taken hlen hvalid hwalk
  zero := h.zero
  total := h.total

theorem Tabled.tableTree (h : Tabled pos root p) : TableTree p root where
  distinct := fun hlen hvalid hlen' hvalid' hwalk hwalk' => by
    have hx := h.tables.pos_of_tableAt (Finset.mem_singleton_self root) hlen hvalid hwalk
    have hy := h.tables.pos_of_tableAt (Finset.mem_singleton_self root) hlen' hvalid' hwalk'
    exact (Prod.mk.inj (Option.some.inj (hx.symm.trans hy))).2
  taken := fun hlen hvalid hwalk =>
    h.taken (h.tables.pos_of_tableAt (Finset.mem_singleton_self root) hlen hvalid hwalk)
  zero := h.zero
  total := h.total

theorem validPath_full (v : Nat) : ValidPath fullWidth (pathOf pageEntries 3 v) :=
  ⟨mod_pageEntries_lt _, mod_pageEntries_lt _, mod_pageEntries_lt _, trivial⟩

theorem validPath_full_vpn (virt : Nat) : ValidPath fullWidth [pdIndex virt, pdptIndex virt, pml4Index virt] := by
  rw [← pathOf_vpn]
  exact validPath_full _

/-! ### Steps of a walk -/

/-- A step that may make tables leaves all entries of pages as they are. -/
structure Grown (pos : Nat → Option (Nat × List Nat)) (root : Nat) (p : Phys)
    (pos' : Nat → Option (Nat × List Nat)) (p' : Phys) : Prop where
  tabled : Tabled pos' root p'
  same : ∀ v, pte p'.mem root v = pte p.mem root v

theorem Grown.refl (h : Tabled pos root p) : Grown pos root p pos p := ⟨h, fun _ => rfl⟩

theorem Grown.trans (h : Grown pos root p pos' p') (h' : Grown pos' root p' pos'' p'') : Grown pos root p pos'' p'' :=
  ⟨h'.tabled, fun v => (h'.same v).trans (h.same v)⟩

/-- No page is left. -/
def OutOfMemory (p : Phys) : Prop := ∀ f < p.pmm.totalPages, p.pmm.available f = false

theorem Tabled.allocPage (h : Tabled pos root p) :
    p.allocPage = (p, 0) ∧ OutOfMemory p ∨
      ∃ f, p.allocPage = ({ p with pmm := p.pmm.take f, mem := update p.mem f fun _ => 0 }, pageAddr f) ∧
        pageAddr f ≠ 0 ∧ f < 2 ^ 40 ∧ pos f = none := by
  rcases p.allocPage_cases h.zero with hnone | ⟨f, hf, havail, haddr, halloc⟩
  · exact .inl hnone
  refine .inr ⟨f, halloc, haddr, lt_of_lt_of_le hf h.total, ?_⟩
  cases hpos : pos f with
  | none => rfl
  | some x =>
    rw [h.taken hpos hf] at havail
    cases havail

theorem Pmm.available_take (q : Pmm) (f g : Nat) : (q.take f).available g = (q.available g && g != f) := by
  by_cases hgf : g = f
  · simp [Pmm.available, Pmm.take, hgf]
  · simp [Pmm.available, Pmm.take, hgf]

section

variable (h : Tabled pos root p)

include h

theorem Tabled.take (hf : pos f = none) :
    Grown pos root p pos { p with pmm := p.pmm.take f, mem := update p.mem f fun _ => 0 } := by
  have hmem : ∀ g x, pos g = some x → update p.mem f (fun _ => 0) g = p.mem g := fun g x hg =>
    update_of_ne (by rintro rfl; rw [hf] at hg; cases hg) _ _
  refine ⟨⟨h.tables.congr_tables hmem, fun {g x} hg hlt => ?_, h.zero, h.total⟩, fun v => ?_⟩
  · rw [Pmm.available_take, h.taken hg hlt]
    rfl
  · exact h.tables.leafEntry_congr hmem (Finset.mem_singleton_self root) (length_pathOf ..).le (validPath_full _) _

theorem Tabled.ensureNextTable (ht : pos t = some (root, path)) (hlen : path.length < 3)
    (hi : i < pageEntries) (flags : Nat) :
    ∃ pos', Grown pos root p pos' (ensureNextTable p t i flags).1 ∧
      (∀ g, (ensureNextTable p t i flags).2 = some g → pos' g = some (root, i :: path)) ∧
      ((ensureNextTable p t i flags).2 = none → OutOfMemory (ensureNextTable p t i flags).1) := by
  unfold Litenix.ensureNextTable
  cases hentry : entryPage (p.mem t i) with
  | some next =>
    refine ⟨pos, .refl h, ?_, nofun⟩
    rintro g ⟨⟩
    exact h.tables.child ht hlen hi hentry
  | none =>
  rcases h.allocPage with ⟨halloc, hnone⟩ | ⟨f, halloc, haddr, hbound, hf⟩
  · rw [halloc]
    exact ⟨pos, .refl h, nofun, fun _ => hnone⟩
  rw [halloc]
  simp only [haddr, if_false, pageIndex_pageAddr]
  have htake := h.take hf
  have htf : t ≠ f := by
    rintro rfl
    rw [hf] at ht
    cases ht
  have hold : entryPage (update p.mem f (fun _ => 0) t i) = none := by
    rw [update_of_ne htf, hentry]
  have hempty : ∀ j, entryPage (update p.mem f (fun _ => 0) f j) = none := fun j => by
    rw [update_self, entryPage_zero]
  have hw := entryPage_makeEntry hbound (tableFlagsFromLeaf_present flags)
  have htables := htake.tabled.tables.insertTable hf hempty ht hlen hi hold hw
  refine ⟨_, htake.trans ⟨⟨htables, ?_, h.zero, h.total⟩, fun v => ?_⟩, ?_, nofun⟩
  · intro g x hg hlt
    change (p.pmm.take f).available g = false
    by_cases hgf : g = f
    · rw [Pmm.available_take, hgf, bne_self_eq_false, Bool.and_false]
    · rw [update_of_ne hgf] at hg
      rw [Pmm.available_take, h.taken hg hlt, Bool.false_and]
  · exact htake.tabled.tables.leafEntry_insertTable hf hempty ht hlen hi hold hw
      (Finset.mem_singleton_self root) (length_pathOf ..) (validPath_full _) _
  · rintro g ⟨⟩
    exact update_self ..

/-- A walk that makes missing tables ends at the page table of the address, unless no page is left. -/
theorem Tabled.walkToPteCreate (virt flags : Nat) :
    ∃ pos', Grown pos root p pos' (walkToPteCreate p root virt flags).1 ∧
      (∀ pt i, (walkToPteCreate p root virt flags).2 = some (pt, i) →
        pos' pt = some (root, pathOf pageEntries 3 (vpn virt / pageEntries)) ∧ i = vpn virt % pageEntries) ∧
      ((walkToPteCreate p root virt flags).2 = none → OutOfMemory (walkToPteCreate p root virt flags).1) := by
  obtain ⟨hpd, hpdpt, hpml4, -⟩ := validPath_full_vpn virt
  rw [pathOf_vpn]
  unfold Litenix.walkToPteCreate
  obtain ⟨pos₁, hgrown₁, hpos₁, hnone₁⟩ :=
    h.ensureNextTable (h.tables.root root (Finset.mem_singleton_self root)) (by norm_num) hpml4 flags
  rcases hstep₁ : Litenix.ensureNextTable p root (pml4Index virt) flags with ⟨p₁, _ | pdpt⟩
  · rw [hstep₁] at hgrown₁ hnone₁
    exact ⟨pos₁, hgrown₁, nofun, fun _ => hnone₁ rfl⟩
  rw [hstep₁] at hgrown₁ hpos₁
  dsimp only
  obtain ⟨pos₂, hgrown₂, hpos₂, hnone₂⟩ :=
    hgrown₁.tabled.ensureNextTable (hpos₁ pdpt rfl) (by norm_num) hpdpt flags
  rcases hstep₂ : Litenix.ensureNextTable p₁ pdpt (pdptIndex virt) flags with ⟨p₂, _ | pd⟩
  · rw [hstep₂] at hgrown₂ hnone₂
    exact ⟨pos₂, hgrown₁.trans hgrown₂, nofun, fun _ => hnone₂ rfl⟩
  rw [hstep₂] at hgrown₂ hpos₂
  dsimp only
  obtain ⟨pos₃, hgrown₃, hpos₃, hnone₃⟩ := hgrown₂.tabled.ensureNextTable (hpos₂ pd rfl) (by norm_num) hpd flags
  rcases hstep₃ : Litenix.ensureNextTable p₂ pd (pdIndex virt) flags with ⟨p₃, _ | pt⟩
  · rw [hstep₃] at hgrown₃ hnone₃
    exact ⟨pos₃, (hgrown₁.trans hgrown₂).trans hgrown₃, nofun, fun _ => hnone₃ rfl⟩
  rw [hstep₃] at hgrown₃ hpos₃
  refine ⟨pos₃, (hgrown₁.trans hgrown₂).trans hgrown₃, ?_, nofun⟩
  rintro _ _ ⟨⟩
  exact ⟨hpos₃ pt rfl, (vpn_mod virt).symm⟩

theorem Tabled.setPte (ht : pos t = some (root, pathOf pageEntries 3 (vpn virt / pageEntries))) (w : Nat) :
    Tabled pos root (p.setWord t (vpn virt % pageEntries) w) ∧
      ∀ v < 2 ^ 36, pte (p.setWord t (vpn virt % pageEntries) w).mem root v =
        if v = vpn virt then (if (entryPage w).isSome then some w else none) else pte p.mem root v := by
  have hlen : (pathOf pageEntries 3 (vpn virt / pageEntries)).length = 3 := length_pathOf ..
  refine ⟨⟨h.tables.setLeaf w ht hlen, h.taken, h.zero, h.total⟩, fun v hv => ?_⟩
  refine (h.tables.leafEntry_setLeaf w ht hlen (Finset.mem_singleton_self root) (length_pathOf ..).le
    (validPath_full _) _).trans ?_
  have hvirt := vpn_lt virt
  by_cases hsame : v = vpn virt
  · rw [if_pos hsame, if_pos ⟨rfl, by rw [hsame], by rw [hsame]⟩]
  rw [if_neg hsame, if_neg]
  · rfl
  · rintro ⟨-, hpath, hindex⟩
    simp only [pathOf, pageEntries, List.cons.injEq, and_true] at hpath hindex
    omega

end

end

/-! ### The four calls -/

section Calls

variable {p : Phys} {space : AddressSpace} (page : PageAt) {e : Nat}

/-- The value that an entry made of an address and flags translates to. -/
def translationValue (phys flags : Nat) : Nat × Nat := (entryPhys phys, flags &&& pageFlagsMask)

theorem isSome_entryPage (he : e.testBit 0 = true) : (entryPage e).isSome = true := by
  rw [entryPage_eq_some_iff.mpr ⟨he, rfl⟩]
  rfl

theorem isSome_translation : (translation p space page).isSome = (presentPte p.mem space.root page.virt).isSome := by
  rw [translation, Option.isSome_map, ← presentPte_of_pte, Option.isSome_map]

theorem translation_of_presentPte (h : presentPte p.mem space.root page.virt = some x) :
    translation p space page = some (entryPhys x.2.2, x.2.2 &&& pageFlagsMask) := by
  rw [translation, ← presentPte_of_pte, h]
  rfl

theorem translation_eq_none (h : presentPte p.mem space.root page.virt = none) : translation p space page = none := by
  rw [translation, ← presentPte_of_pte, h]
  rfl

theorem Tabled.translation_setPte (h : Tabled pos space.root p)
    (ht : pos t = some (space.root, pathOf pageEntries 3 (vpn page.virt / pageEntries))) {phys : Nat}
    (hflags : hasFlag flags vmmPresent = true) :
    translation (p.setWord t (vpn page.virt % pageEntries) (makeEntry phys flags)) space =
      update (translation p space) page (some (translationValue phys flags)) := by
  rw [hasFlag_present] at hflags
  have hpresent : (makeEntry phys flags).testBit 0 = true := by
    rw [testBit_makeEntry_flag _ _ (by norm_num), hflags]
  have hset := (h.setPte ht (makeEntry phys flags)).2
  rw [isSome_entryPage hpresent, if_pos rfl] at hset
  rw [translation_update hset, Option.map_some, entryPhys_makeEntry, makeEntry_land_pageFlagsMask]
  rfl

section

variable (h : TableTree p space.root)

include h

theorem TableTree.vmmMap (phys flags : Nat) : TableTree (vmmMap p space page.virt phys flags).1 space.root ∧
      ((vmmMap p space page.virt phys flags).2 = true → translation p space page = none ∧
        translation (vmmMap p space page.virt phys flags).1 space =
          update (translation p space) page (some (translationValue phys flags))) ∧
      ((vmmMap p space page.virt phys flags).2 = false →
        translation (vmmMap p space page.virt phys flags).1 space = translation p space ∧
        (pageAligned phys = true → hasFlag flags vmmPresent = true →
          (translation p space page).isSome = true ∨ OutOfMemory (vmmMap p space page.virt phys flags).1)) := by
  obtain ⟨pos', hgrown, hfound, hnone⟩ := h.tabled.walkToPteCreate page.virt flags
  have hsame : ∀ {q}, (∀ v, pte q.mem space.root v = pte p.mem space.root v) →
      translation q space = translation p space := fun hq => funext fun _ => by rw [translation, hq, translation]
  unfold Litenix.vmmMap
  rw [page.aligned]
  split
  · rename_i hphys
    refine ⟨h, fun hno => (by cases hno), fun _ => ⟨rfl, fun haligned => ?_⟩⟩
    simp [haligned] at hphys
  split
  · rename_i hflags
    refine ⟨h, fun hno => (by cases hno), fun _ => ⟨rfl, fun _ hpresent => ?_⟩⟩
    simp [hpresent] at hflags
  rename_i hflags
  rw [Bool.not_eq_true', Bool.not_eq_false] at hflags
  rcases hwalk : walkToPteCreate p space.root page.virt flags with ⟨p', _ | ⟨pt, i⟩⟩
  · rw [hwalk] at hgrown hnone
    exact ⟨hgrown.tabled.tableTree, fun hno => (by cases hno), fun _ => ⟨hsame hgrown.same, fun _ _ => .inr (hnone rfl)⟩⟩
  rw [hwalk] at hgrown hfound
  obtain ⟨hpt, rfl⟩ := hfound pt i rfl
  dsimp only
  -- the entry that the walk ends at is that of the page
  have hentry : pte p'.mem space.root (vpn page.virt) =
      if (entryPage (p'.mem pt (vpn page.virt % pageEntries))).isSome
      then some (p'.mem pt (vpn page.virt % pageEntries)) else none := by
    rw [pte, leafEntry, (hgrown.tabled.tables.tableAt_of_pos hpt).1, Option.bind_some]
  rw [hgrown.same] at hentry
  split
  · rename_i hpresent
    refine ⟨hgrown.tabled.tableTree, fun hno => (by cases hno), fun _ => ⟨hsame hgrown.same, fun _ _ => .inl ?_⟩⟩
    rw [hasFlag_present] at hpresent
    rw [translation, hentry, isSome_entryPage hpresent]
    rfl
  · rename_i habsent
    refine ⟨(hgrown.tabled.setPte hpt _).1.tableTree, fun _ => ⟨?_, ?_⟩, fun hno => (by cases hno)⟩
    · rw [translation, hentry, entryPage, if_neg habsent]
      rfl
    · rw [hgrown.tabled.translation_setPte page hpt hflags, hsame hgrown.same]

theorem TableTree.pos_presentPte (hpte : presentPte p.mem space.root page.virt = some (t, i, e)) :
    position p space.root t = some (space.root, pathOf pageEntries 3 (vpn page.virt / pageEntries)) ∧
      i = vpn page.virt % pageEntries := by
  obtain ⟨hwalk, hi, -⟩ := presentPte_eq_some hpte
  exact ⟨h.tabled.tables.pos_of_tableAt (Finset.mem_singleton_self _) (length_pathOf ..).le (validPath_full _) hwalk, hi⟩

theorem TableTree.vmmUnmap : TableTree (vmmUnmap p space page.virt).1 space.root ∧
      (vmmUnmap p space page.virt).2 = (translation p space page).isSome ∧
      translation (vmmUnmap p space page.virt).1 space = update (translation p space) page none := by
  unfold Litenix.vmmUnmap
  rw [page.aligned, isSome_translation]
  cases hpte : presentPte p.mem space.root page.virt with
  | none =>
    refine ⟨h, rfl, ?_⟩
    rw [← translation_eq_none page hpte, update_eq_self]
    rfl
  | some x =>
    obtain ⟨t, i, e⟩ := x
    obtain ⟨ht, rfl⟩ := h.pos_presentPte page hpte
    obtain ⟨htabled, hset⟩ := h.tabled.setPte ht 0
    exact ⟨htabled.tableTree, rfl, translation_update hset⟩

theorem TableTree.vmmProtect (hflags : hasFlag flags vmmPresent = true) :
    TableTree (vmmProtect p space page.virt flags).1 space.root ∧
      (vmmProtect p space page.virt flags).2 = (translation p space page).isSome ∧
      translation (vmmProtect p space page.virt flags).1 space = update (translation p space) page
        ((translation p space page).map fun x => translationValue x.1 flags) := by
  unfold Litenix.vmmProtect
  rw [page.aligned, hflags, isSome_translation]
  cases hpte : presentPte p.mem space.root page.virt with
  | none =>
    have hnone := translation_eq_none page hpte
    refine ⟨h, rfl, ?_⟩
    rw [hnone, Option.map_none, ← hnone, update_eq_self]
    rfl
  | some x =>
    obtain ⟨t, i, e⟩ := x
    obtain ⟨ht, rfl⟩ := h.pos_presentPte page hpte
    refine ⟨(h.tabled.setPte ht _).1.tableTree, rfl, ?_⟩
    rw [translation_of_presentPte page hpte]
    exact h.tabled.translation_setPte page ht hflags

end

theorem vmmVirtToPhys_eq_translation (h : offset < vmmPageSize) :
    vmmVirtToPhys p space (page.virt + offset) = (translation p space page).map fun x => x.1 + offset := by
  have haligned := pageAligned_iff.mp page.aligned
  have hcanon := page.canonical
  unfold CanonicalAddr at hcanon
  have hpage : alignDown (page.virt + offset) vmmPageSize = page.virt := by
    rw [vmmPageSize] at h ⊢
    rw [alignDown_page_mod]
    omega
  have hoffset : page.virt + offset &&& pageOffsetMask = offset := by
    rw [vmmPageSize] at h
    rw [land_pageOffsetMask]
    omega
  rw [vmmVirtToPhys, hpage, hoffset]
  cases hpte : presentPte p.mem space.root page.virt with
  | none => rw [translation_eq_none page hpte, Option.map_none]
  | some x => rw [translation_of_presentPte page hpte, Option.map_some]

end Calls

/-- **A page table is a partial map.** `vmm_map` inserts at an absent page, `vmm_unmap` deletes and
`vmm_protect` replaces the flags of a present page; no other page is translated differently, and a
`vmm_map` that fails changes no translation. -/
theorem page_table_refines_map {p : Phys} {space : AddressSpace} (h : TableTree p space.root) (page : PageAt) :
    (∀ phys flags, TableTree (vmmMap p space page.virt phys flags).1 space.root ∧
      ((vmmMap p space page.virt phys flags).2 = true → translation p space page = none ∧
        translation (vmmMap p space page.virt phys flags).1 space =
          update (translation p space) page (some (translationValue phys flags))) ∧
      ((vmmMap p space page.virt phys flags).2 = false →
        translation (vmmMap p space page.virt phys flags).1 space = translation p space ∧
        (pageAligned phys = true → hasFlag flags vmmPresent = true →
          (translation p space page).isSome = true ∨ OutOfMemory (vmmMap p space page.virt phys flags).1))) ∧
    (TableTree (vmmUnmap p space page.virt).1 space.root ∧
      (vmmUnmap p space page.virt).2 = (translation p space page).isSome ∧
      translation (vmmUnmap p space page.virt).1 space = update (translation p space) page none) ∧
    (∀ flags, hasFlag flags vmmPresent = true →
      TableTree (vmmProtect p space page.virt flags).1 space.root ∧
      (vmmProtect p space page.virt flags).2 = (translation p space page).isSome ∧
      translation (vmmProtect p space page.virt flags).1 space = update (translation p space) page
        ((translation p space page).map fun x => translationValue x.1 flags)) ∧
    (∀ flags, hasFlag flags vmmPresent = false → vmmProtect p space page.virt flags = (p, false)) ∧
    (∀ offset < vmmPageSize, vmmVirtToPhys p space (page.virt + offset) =
      (translation p space page).map fun x => x.1 + offset) ∧
    ∀ phys flags, pageAligned phys = true → phys < 2 ^ 52 →
      translationValue phys flags = (phys, flags &&& pageFlagsMask) := by
  refine ⟨fun phys flags => h.vmmMap page phys flags, h.vmmUnmap page, fun flags hflags => h.vmmProtect page hflags,
    fun flags hflags => ?_, fun offset hoffset => vmmVirtToPhys_eq_translation page hoffset,
    fun phys flags haligned hphys => ?_⟩
  · rw [Litenix.vmmProtect, hflags, Bool.not_false, Bool.or_true, if_pos rfl]
  · rw [translationValue, entryPhys_of_aligned haligned hphys]

/-- Eight pages, all free but page 0, and no entry. -/
def emptyTables : Phys where
  pmm := { totalPages := 8, pageBitmap := fun f => f == 1, managedBitmap := fun f => f != 0,
           pageRefCounts := fun f => if f = 1 then 1 else 0, freePages := 6, bitmapPhys := 0,
           bitmapStorageBytes := 0, trampolinePool := [] }
  mem := fun _ _ => 0
  kernelPml4 := 0
  freeCalls := []

theorem emptyTables_tree : TableTree emptyTables 1 := by
  have hwalk : ∀ {path t}, tableAt entryPage emptyTables.mem 1 path = some t → path = [] ∧ t = 1 := by
    intro path t ht
    cases path with
    | nil => exact ⟨rfl, (Option.some.inj ht).symm⟩
    | cons i path =>
      obtain ⟨g, -, hg⟩ := Option.bind_eq_some_iff.mp ht
      exact absurd (hg.symm.trans entryPage_zero) nofun
  refine ⟨fun _ _ _ _ ht ht' => ?_, fun _ _ ht _ => ?_, rfl, by decide⟩
  · rw [(hwalk ht).1, (hwalk ht').1]
  · rw [(hwalk ht).2]
    rfl

theorem page_table_refines_map_fresh :
    let page : PageAt := ⟨0xffffffffa0000000, .inr (by decide), by decide⟩
    let space : AddressSpace := ⟨0x1000, 0x2000, 1⟩
    (vmmMap emptyTables space page.virt 0x5000 3).2 = true ∧
      translation (vmmMap emptyTables space page.virt 0x5000 3).1 space =
        update (translation emptyTables space) page (some (0x5000, 3)) := by
  refine ⟨by decide +kernel, ?_⟩
  have h := page_table_refines_map (show TableTree emptyTables (AddressSpace.root ⟨0x1000, 0x2000, 1⟩) from
    emptyTables_tree) ⟨0xffffffffa0000000, .inr (by decide), by decide⟩
  exact ((h.1 0x5000 3).2.1 (by decide +kernel)).2

end Litenix
