import Litenix.PageTable

/-! Address spaces as maps. `pte` is the present entry of a page in an address space, and `Wf` ties the
tables of all live spaces, the allocator and the reference counts together: every table and every record
of a space has a page of its own with count one, and the count of a page mapped by user entries is the
number of those entries, up to references in transit. Each function of `vmm.c` keeps `Wf`, and what it does to the spaces is said by
what it does to `pte`. Only the user half, the pages below `userPages`, is described. -/

namespace Litenix

open Lib Radix Function

variable {f r v virt e count i refs' : Nat} {mem : Nat → Nat → Nat} {p : Phys}
variable {m₁ m₂ m₃ mem' : Nat → Nat → Nat} {p₁ p₂ p₃ : Phys}

/-- The number of pages of the user half. -/
@[irreducible]
def userPages : Nat := 2 ^ 35

/-- The page number of an address; the walk ignores the upper sixteen bits. -/
def vpn (virt : Nat) : Nat := virt / vmmPageSize % 2 ^ 36

/-- The entries of a table that belong to the user half. -/
def userWidth (d : Nat) : Nat := if d = 0 then 256 else pageEntries

/-- The present entry of page `v` in the space with root `r`. -/
def pte (mem : Nat → Nat → Nat) (r v : Nat) : Option Nat :=
  leafEntry entryPage mem r (pathOf pageEntries 3 (v / pageEntries)) (v % pageEntries)

/-- The page that a user page is mapped to. -/
def userFrame (mem : Nat → Nat → Nat) (k : Nat × Nat) : Option Nat :=
  leafFrame entryPage pageEntries 3 mem k.1 k.2

/-- The user pages of the live spaces. -/
def userDom (live : Finset Nat) : Finset (Nat × Nat) := live ×ˢ Finset.range userPages

/-- The number of user entries that map page `f`. -/
def userRefs (mem : Nat → Nat → Nat) (live : Finset Nat) (f : Nat) : Nat :=
  refs (userDom live) (userFrame mem) f

theorem mem_userDom : (r, v) ∈ userDom live ↔ r ∈ live ∧ v < userPages := by
  rw [userDom, Finset.mem_product, Finset.mem_range]

theorem vpn_lt_userPages_iff : vpn virt < userPages ↔ pml4Index virt < 256 := by
  simp only [vpn, vmmPageSize, userPages, pml4Index, Nat.shiftRight_eq_div_pow,
    show (0x1ff : Nat) = 2 ^ 9 - 1 by norm_num, Nat.and_two_pow_sub_one_eq_mod]
  omega

theorem mod_pageEntries_lt (v : Nat) : v % pageEntries < pageEntries := Nat.mod_lt _ (by norm_num [pageEntries])

/-! ### Walks -/

theorem pathOf_vpn (virt : Nat) : pathOf pageEntries 3 (vpn virt / pageEntries) =
    [pdIndex virt, pdptIndex virt, pml4Index virt] := by
  simp only [pathOf, pdIndex, pdptIndex, pml4Index, Nat.shiftRight_eq_div_pow, vpn, vmmPageSize, pageEntries,
    show (0x1ff : Nat) = 2 ^ 9 - 1 by norm_num, Nat.and_two_pow_sub_one_eq_mod, List.cons.injEq, and_true]
  omega

theorem vpn_mod (virt : Nat) : vpn virt % pageEntries = ptIndex virt := by
  simp only [ptIndex, Nat.shiftRight_eq_div_pow, vpn, vmmPageSize, pageEntries,
    show (0x1ff : Nat) = 2 ^ 9 - 1 by norm_num, Nat.and_two_pow_sub_one_eq_mod]
  omega

theorem walkToPte_eq (mem : Nat → Nat → Nat) (r virt : Nat) : walkToPte mem r virt =
    (tableAt entryPage mem r (pathOf pageEntries 3 (vpn virt / pageEntries))).map fun pt =>
      (pt, vpn virt % pageEntries) := by
  rw [pathOf_vpn, vpn_mod]
  simp only [walkToPte, tableAt, Option.bind_some]
  cases entryPage (mem r (pml4Index virt)) with
  | none => rfl
  | some pdpt =>
    simp only [Option.bind_some]
    change ((entryPage (mem pdpt (pdptIndex virt))).bind fun pd => _) = _
    cases entryPage (mem pdpt (pdptIndex virt)) with
    | none => rfl
    | some pd =>
      simp only [Option.bind_some]
      cases entryPage (mem pd (pdIndex virt)) <;> rfl

theorem vpn_alignDown (virt : Nat) : vpn (alignDown virt vmmPageSize) = vpn virt := by
  rw [vmmPageSize, alignDown_page_mod, vpn, vpn, vmmPageSize]
  omega

theorem presentPte_congr (mem : Nat → Nat → Nat) (r : Nat) {virt' : Nat} (h : vpn virt = vpn virt') :
    presentPte mem r virt = presentPte mem r virt' := by
  rw [presentPte, presentPte, walkToPte_eq, walkToPte_eq, h]

theorem pageAligned_iff : pageAligned virt = true ↔ virt % 4096 = 0 := by
  rw [pageAligned, pageOffsetMask, show (0xfff : Nat) = 2 ^ 12 - 1 by norm_num,
    Nat.and_two_pow_sub_one_eq_mod, beq_iff_eq]

theorem land_pageOffsetMask (virt : Nat) : virt &&& pageOffsetMask = virt % 4096 := by
  rw [pageOffsetMask, show (0xfff : Nat) = 2 ^ 12 - 1 by norm_num, Nat.and_two_pow_sub_one_eq_mod]

theorem vmmVirtToPhys_aligned (p : Phys) (space : AddressSpace) (h : pageAligned virt = true) :
    vmmVirtToPhys p space virt = (presentPte p.mem space.root virt).map fun x => entryPhys x.2.2 := by
  rw [vmmVirtToPhys, presentPte_congr _ _ (vpn_alignDown virt), land_pageOffsetMask, pageAligned_iff.mp h]
  cases presentPte p.mem space.root virt <;> rfl

theorem presentPte_eq_some (h : presentPte mem r virt = some (pt, i, e)) :
    tableAt entryPage mem r (pathOf pageEntries 3 (vpn virt / pageEntries)) = some pt ∧
      i = vpn virt % pageEntries ∧ mem pt i = e ∧ e.testBit 0 = true ∧ pte mem r (vpn virt) = some e := by
  unfold presentPte at h
  rw [walkToPte_eq] at h
  cases hwalk : tableAt entryPage mem r (pathOf pageEntries 3 (vpn virt / pageEntries)) with
  | none =>
    rw [hwalk] at h
    cases h
  | some t =>
  rw [hwalk] at h
  simp only [Option.map_some] at h
  split at h
  · rename_i hpresent
    cases h
    rw [hasFlag_present] at hpresent
    refine ⟨rfl, rfl, rfl, hpresent, ?_⟩
    simp only [pte, leafEntry, hwalk, Option.bind_some]
    rw [entryPage_eq_some_iff.mpr ⟨hpresent, rfl⟩]
    rfl
  · cases h

theorem presentPte_eq_none (h : presentPte mem r virt = none) : pte mem r (vpn virt) = none := by
  unfold presentPte at h
  rw [walkToPte_eq] at h
  unfold pte leafEntry
  cases hwalk : tableAt entryPage mem r (pathOf pageEntries 3 (vpn virt / pageEntries)) with
  | none => rfl
  | some t =>
    rw [hwalk] at h
    simp only [Option.map_some] at h
    split at h
    · cases h
    · rename_i hpresent
      simp [entryPage, hpresent]

theorem presentPte_of_pte (mem : Nat → Nat → Nat) (r virt : Nat) :
    (presentPte mem r virt).map (fun x => x.2.2) = pte mem r (vpn virt) := by
  cases hpte : presentPte mem r virt with
  | none => exact (presentPte_eq_none hpte).symm
  | some x => exact (presentPte_eq_some (hpte : presentPte mem r virt = some (x.1, x.2.1, x.2.2))).2.2.2.2.symm

theorem pte_eq_some (h : pte mem r v = some e) :
    e.testBit 0 = true ∧ userFrame mem (r, v) = some (entryIndex e) ∧
      ∃ t, tableAt entryPage mem r (pathOf pageEntries 3 (v / pageEntries)) = some t ∧
        mem t (v % pageEntries) = e := by
  obtain ⟨t, ht, he⟩ := Option.bind_eq_some_iff.mp h
  split at he
  · rename_i hsome
    cases he
    obtain ⟨f, hf⟩ := Option.isSome_iff_exists.mp hsome
    obtain ⟨hpresent, hindex⟩ := entryPage_eq_some_iff.mp hf
    refine ⟨hpresent, ?_, t, ht, rfl⟩
    change (pte mem r v).bind entryPage = _
    rw [h, Option.bind_some, hf, hindex]
  · cases he

theorem userFrame_eq_some (h : userFrame mem (r, v) = some f) : ∃ e, pte mem r v = some e ∧ entryIndex e = f := by
  obtain ⟨e, he, hf⟩ := Option.bind_eq_some_iff.mp h
  exact ⟨e, he, (entryPage_eq_some_iff.mp hf).2⟩

theorem userFrame_of_pte (mem : Nat → Nat → Nat) (r v : Nat) :
    userFrame mem (r, v) = (pte mem r v).bind entryPage := rfl

theorem validPath_user (hv : v < userPages) : ValidPath userWidth (pathOf pageEntries 3 (v / pageEntries)) := by
  simp only [userPages, pathOf, pageEntries, ValidPath, userWidth, List.length_cons, List.length_nil] at *
  norm_num
  omega

/-- Every leaf position of the user half is that of a page number. -/
theorem exists_vpn (hlen : path.length = 3) (hvalid : ValidPath userWidth path) (hi : i < pageEntries) :
    ∃ v < userPages, path = pathOf pageEntries 3 (v / pageEntries) ∧ i = v % pageEntries := by
  obtain ⟨a, b, c, rfl⟩ := List.length_eq_three.mp hlen
  simp only [ValidPath, userWidth, List.length_cons, List.length_nil, pageEntries] at hvalid hi
  norm_num at hvalid
  refine ⟨((c * 512 + b) * 512 + a) * 512 + i, ?_, ?_, ?_⟩
  · simp only [userPages]
    omega
  · simp only [pathOf, pageEntries, List.cons.injEq, and_true]
    omega
  · simp only [pageEntries]
    omega

/-! ### Well-formed address spaces -/

def Pmm.InUse (p : Pmm) (f : Nat) : Prop :=
  f < p.totalPages ∧ p.managedBitmap f = true ∧ p.pageBitmap f = true

/-- `boot` are the pages that were in use before the first address space, `pos` says which table a page
is, and `extra` is the number of references to a page beyond those of the user entries: `1` for the record
of a space and for a page on its way into a table, `0` for a page that is only mapped. -/
structure Wf (boot : Nat → Prop) (live : Finset Nat) (extra : Nat → Int)
    (pos : Nat → Option (Nat × List Nat)) (p : Phys) : Prop where
  shape : Shape entryPage userWidth 3 pos live p.mem
  tables : ∀ f x, pos f = some x → p.pmm.InUse f ∧ p.pmm.pageRefCounts f = 1 ∧ extra f = 0
  counted : ∀ f, pos f = none → 0 < userRefs p.mem live f ∨ extra f ≠ 0 →
    p.pmm.InUse f ∧ 0 < p.pmm.pageRefCounts f ∧
      (p.pmm.pageRefCounts f : Int) = userRefs p.mem live f + extra f
  noLeak : ∀ f, p.pmm.InUse f → boot f ∨ pos f ≠ none ∨ extra f ≠ 0 ∨ 0 < userRefs p.mem live f
  booted : ∀ f, boot f → p.pmm.InUse f ∧ pos f = none ∧ extra f = 0 ∧ userRefs p.mem live f = 0
  zero : p.pmm.managedBitmap 0 = false
  total : p.pmm.totalPages ≤ 2 ^ 40

/-- What `Wf` says of one page: whether it was in use at boot, is a table, is in use, and the references to it. -/
structure PageOk (boot table used : Prop) (extra : Int) (refs count : Nat) : Prop where
  tables : table → used ∧ count = 1 ∧ extra = 0
  counted : ¬table → 0 < refs ∨ extra ≠ 0 → used ∧ 0 < count ∧ (count : Int) = refs + extra
  noLeak : used → boot ∨ table ∨ extra ≠ 0 ∨ 0 < refs
  booted : boot → used ∧ ¬table ∧ extra = 0 ∧ refs = 0

/-- An entry that mapped the page is written over (`old`), and the page is what it maps now (`new`). -/
theorem PageOk.move {boot table used old new : Prop} {extra : Int} {refs : Nat} [Decidable old] [Decidable new]
    (h : PageOk boot table used extra refs count) (hold : old → ¬table ∧ 0 < refs)
    (hnew : new → ¬table ∧ (0 < refs ∨ extra ≠ 0))
    (hrefs : (refs' : Int) = refs + (if new then 1 else 0) - (if old then 1 else 0)) :
    PageOk boot table used (extra + (if old then 1 else 0) - (if new then 1 else 0)) refs' count := by
  obtain ⟨htables, hcounted, hnoLeak, hbooted⟩ := h
  constructor <;> grind

/-- The page has one reference, which nothing maps, and becomes a table. -/
theorem PageOk.table (h : PageOk boot False used 1 0 count) : PageOk boot True used 0 0 count := by
  obtain ⟨-, hcounted, -, hbooted⟩ := h
  obtain ⟨hused, -, hcount⟩ := hcounted not_false (.inr one_ne_zero)
  exact ⟨fun _ => ⟨hused, by omega, rfl⟩, by simp, by simp, fun hb => absurd (hbooted hb).2.2.1 one_ne_zero⟩

/-- The page loses the references of a space, one of which is the table's own where it is one of its tables (`mine`). -/
theorem PageOk.drop {boot table mine used : Prop} {extra : Int} {refs own d : Nat} [Decidable mine]
    (h : PageOk boot table used extra refs count) (used' : Prop) (hextra : (d : Int) ≤ extra) (hsplit : refs = refs' + own)
    (hmine : mine → table) (htable : table → refs = 0) {gone : Nat} (hgone : gone = own + (if mine then 1 else 0) + d)
    (hused : used' ↔ used ∧ (0 < gone → gone < count)) :
    PageOk boot (table ∧ ¬mine) used' (extra - d) refs' (count - gone) ∧
      (0 < gone → used ∧ gone ≤ count ∧ ¬boot) := by
  obtain ⟨htables, hcounted, hnoLeak, hbooted⟩ := h
  constructor
  · constructor <;> grind
  · by_cases hcase : table <;> grind

def Wf.Page (boot : Nat → Prop) (live : Finset Nat) (extra : Nat → Int) (pos : Nat → Option (Nat × List Nat)) (p : Phys)
    (f : Nat) : Prop :=
  PageOk (boot f) (pos f ≠ none) (p.pmm.InUse f) (extra f) (userRefs p.mem live f) (p.pmm.pageRefCounts f)

theorem Wf.page (h : Wf boot live extra pos p) (f : Nat) : Wf.Page boot live extra pos p f where
  tables := fun hf => (Option.ne_none_iff_exists'.mp hf).elim (h.tables f)
  counted := fun hf => h.counted f (not_not.mp hf)
  noLeak := h.noLeak f
  booted := fun hf => by simpa using h.booted f hf

theorem Wf.of_pages (hshape : Shape entryPage userWidth 3 pos live p.mem) (hpages : ∀ f, Wf.Page boot live extra pos p f)
    (hzero : p.pmm.managedBitmap 0 = false) (htotal : p.pmm.totalPages ≤ 2 ^ 40) : Wf boot live extra pos p where
  shape := hshape
  tables := fun f x hx => (hpages f).tables (by simp [hx])
  counted := fun f hf => (hpages f).counted (not_not.mpr hf)
  noLeak := fun f => (hpages f).noLeak
  booted := fun f hf => by simpa using (hpages f).booted hf
  zero := hzero
  total := htotal

/-- What the functions on user pages leave alone: the pages in use since boot, the kernel tables among
them, and the upper half of every root. -/
structure KernelSame (boot : Nat → Prop) (live : Finset Nat) (p p' : Phys) : Prop where
  pages : ∀ f, boot f → p'.mem f = p.mem f
  upper : ∀ r ∈ live, ∀ i, 256 ≤ i → p'.mem r i = p.mem r i
  kernelPml4 : p'.kernelPml4 = p.kernelPml4

theorem KernelSame.refl (boot : Nat → Prop) (live : Finset Nat) (p : Phys) : KernelSame boot live p p :=
  ⟨fun _ _ => rfl, fun _ _ _ _ => rfl, rfl⟩

theorem KernelSame.trans {boot : Nat → Prop}
    (h : KernelSame boot live p₁ p₂) (h' : KernelSame boot live p₂ p₃) : KernelSame boot live p₁ p₃ :=
  ⟨fun f hf => (h'.pages f hf).trans (h.pages f hf),
    fun r hr i hi => (h'.upper r hr i hi).trans (h.upper r hr i hi), h'.kernelPml4.trans h.kernelPml4⟩

theorem KernelSame.of_mem {boot : Nat → Prop} (h : KernelSame boot live p₁ p₂) (hmem : p₃.mem = p₂.mem)
    (hpml4 : p₃.kernelPml4 = p₂.kernelPml4) : KernelSame boot live p₁ p₃ :=
  h.trans ⟨fun f _ => congrFun hmem f, fun r _ i _ => congrFun (congrFun hmem r) i, hpml4⟩

/-- The user pages of the live spaces have the same entries. -/
def SameView (live : Finset Nat) (mem mem' : Nat → Nat → Nat) : Prop :=
  ∀ r ∈ live, ∀ v < userPages, pte mem' r v = pte mem r v

theorem SameView.refl (live : Finset Nat) (mem : Nat → Nat → Nat) : SameView live mem mem :=
  fun _ _ _ _ => rfl

theorem SameView.trans (h : SameView live m₁ m₂) (h' : SameView live m₂ m₃) : SameView live m₁ m₃ :=
  fun r hr v hv => (h' r hr v hv).trans (h r hr v hv)

theorem SameView.userRefs (h : SameView live mem mem') (f : Nat) : userRefs mem' live f = userRefs mem live f := by
  refine refs_congr ?_ f
  rintro ⟨r, v⟩ hk
  obtain ⟨hr, hv⟩ := mem_userDom.mp hk
  rw [userFrame_of_pte, userFrame_of_pte, h r hr v hv]

/-- The entries agree except that page `v` of space `r` now has entry `e`. -/
def ViewSet (live : Finset Nat) (mem mem' : Nat → Nat → Nat) (r v : Nat) (e : Option Nat) : Prop :=
  pte mem' r v = e ∧ ∀ r' ∈ live, ∀ v' < userPages, (r', v') ≠ (r, v) → pte mem' r' v' = pte mem r' v'

variable {live : Finset Nat}

theorem userRefs_pos (hr : r ∈ live) (hv : v < userPages)
    (he : pte mem r v = some e) : 0 < userRefs mem live (entryIndex e) :=
  refs_pos_iff.mpr ⟨(r, v), mem_userDom.mpr ⟨hr, hv⟩, (pte_eq_some he).2.1⟩

theorem eq_of_userRefs_eq_one (hr : r ∈ live) (hv : v < userPages)
    (he : pte mem r v = some e) (hr' : r' ∈ live) (hv' : v' < userPages) (he' : pte mem r' v' = some e')
    (hone : userRefs mem live (entryIndex e) = 1) (hsame : entryIndex e' = entryIndex e) : (r', v') = (r, v) :=
  eq_of_refs_eq_one hone (mem_userDom.mpr ⟨hr', hv'⟩) (mem_userDom.mpr ⟨hr, hv⟩)
    (by rw [← hsame]; exact (pte_eq_some he').2.1) (pte_eq_some he).2.1

theorem ViewSet.userRefs {e : Option Nat}
    (h : ViewSet live mem mem' r v e) (hr : r ∈ live) (hv : v < userPages) (f : Nat) :
    userRefs mem' live f + (if (pte mem r v).bind entryPage = some f then 1 else 0) =
      userRefs mem live f + (if e.bind entryPage = some f then 1 else 0) := by
  have hrest : ∀ k ∈ userDom live, k ≠ (r, v) → userFrame mem' k = userFrame mem k := by
    intro k hk hne
    obtain ⟨hr', hv'⟩ := mem_userDom.mp hk
    exact congrArg (Option.bind · entryPage) (h.2 k.1 hr' k.2 hv' hne)
  have hchange := refs_change (mem_userDom.mpr ⟨hr, hv⟩) hrest f
  rwa [userFrame_of_pte, userFrame_of_pte, h.1] at hchange

/-- The pages that the allocator can hand out. -/
def Pmm.Manages (p : Pmm) (f : Nat) : Prop := f < p.totalPages ∧ p.managedBitmap f = true

/-- Only pages that the allocator manages change. -/
structure Confined (p p' : Phys) : Prop where
  manages : ∀ f, p'.pmm.Manages f ↔ p.pmm.Manages f
  mem : ∀ f, ¬p.pmm.Manages f → p'.mem f = p.mem f

theorem Confined.refl (p : Phys) : Confined p p := ⟨fun _ => .rfl, fun _ _ => rfl⟩

theorem Confined.trans (h : Confined p₁ p₂) (h' : Confined p₂ p₃) : Confined p₁ p₃ where
  manages := fun f => (h'.manages f).trans (h.manages f)
  mem := fun f hf => (h'.mem f (mt (h.manages f).mp hf)).trans (h.mem f hf)

theorem Confined.update (hf : p.pmm.Manages f) (page : Nat → Nat) :
    Confined p { p with mem := update p.mem f page } := by
  refine ⟨fun _ => .rfl, fun g hg => update_of_ne ?_ _ _⟩
  rintro rfl
  exact hg hf

theorem Confined.setWord (ht : p.pmm.Manages t) (i w : Nat) : Confined p (p.setWord t i w) :=
  .update ht _

theorem Pmm.InUse.manages {q : Pmm} (h : q.InUse f) : q.Manages f := ⟨h.1, h.2.1⟩

/-- A page that a user entry maps or that is referred to otherwise, so that its contents matter. -/
def Referenced (live : Finset Nat) (extra : Nat → Int) (mem : Nat → Nat → Nat) (f : Nat) : Prop :=
  0 < userRefs mem live f ∨ extra f ≠ 0

/-- The pages that are referred to have the same contents. -/
def SameData (live : Finset Nat) (extra : Nat → Int) (mem mem' : Nat → Nat → Nat) : Prop :=
  ∀ f, Referenced live extra mem f → mem' f = mem f

theorem SameData.trans (h : SameData live extra m₁ m₂)
    (hview : SameView live m₁ m₂) (h' : SameData live extra m₂ m₃) : SameData live extra m₁ m₃ := by
  intro f hf
  rw [h' f (by rwa [Referenced, hview.userRefs]), h f hf]

theorem userRefs_empty (mem : Nat → Nat → Nat) (f : Nat) : userRefs mem ∅ f = 0 := by simp [userRefs, refs, userDom]

theorem Wf.empty (hzero : p.pmm.managedBitmap 0 = false) (htotal : p.pmm.totalPages ≤ 2 ^ 40) :
    Wf p.pmm.InUse ∅ (fun _ => 0) (fun _ => none) p := by
  refine .of_pages ⟨fun r hr => (by cases hr), fun hx => (by cases hx), fun hx => (by cases hx),
    fun hx => (by cases hx), fun hx => (by cases hx)⟩ (fun f => ?_) hzero htotal
  rw [Wf.Page, userRefs_empty]
  constructor <;> simp

end Litenix
