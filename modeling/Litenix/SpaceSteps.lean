import Litenix.SpaceClone
import Litenix.UserCopy

/-! What the memory calls do to the user halves of the address spaces. `Held` collects what every one of
them keeps: well-formed spaces, records of spaces that no process maps, the kernel half, and, where it is
asked for by `strict`, that a page with a writable entry has no other entry. -/

namespace Litenix

open Lib Radix Function

variable {boot : Nat → Prop} {live live' : Finset Nat} {extra : Nat → Int} {strict : Prop}
  {pos : Nat → Option (Nat × List Nat)} {p p' p₀ : Phys}
variable {e r v virt w : Nat} {mem mem' : Nat → Nat → Nat}

theorem userFrame_of_viewSet (h : ViewSet live mem mem' r v (some w)) (he : pte mem r v = some e)
    (hw : entryPage w = some (entryIndex e)) {r' v' : Nat} (hr' : r' ∈ live) (hv' : v' < userPages) :
    userFrame mem' (r', v') = userFrame mem (r', v') := by
  by_cases hk : (r', v') = (r, v)
  · cases hk
    rw [userFrame_of_pte, h.1, Option.bind_some, hw, (pte_eq_some he).2.1]
  · rw [userFrame_of_pte, userFrame_of_pte, h.2 r' hr' v' hv' hk]

/-- A page with a writable entry is mapped by that entry only. -/
def Isolated (live : Finset Nat) (mem : Nat → Nat → Nat) : Prop :=
  ∀ r ∈ live, ∀ v < userPages, ∀ e, pte mem r v = some e → e.testBit 1 = true →
    userRefs mem live (entryIndex e) = 1

theorem Isolated.same (h : Isolated live mem) (hview : SameView live mem mem') : Isolated live mem' := by
  intro r hr v hv e he hw
  rw [hview r hr v hv] at he
  rw [hview.userRefs]
  exact h r hr v hv e he hw

theorem userRefs_mono (hsub : live' ⊆ live) (mem : Nat → Nat → Nat) (f : Nat) :
    userRefs mem live' f ≤ userRefs mem live f :=
  refs_mono (Finset.product_subset_product_left hsub) ..

theorem Isolated.mono (h : Isolated live mem) (hsub : live' ⊆ live) : Isolated live' mem := by
  intro r hr v hv e he hw
  have hpos := userRefs_pos hr hv he
  have hle := userRefs_mono hsub mem (entryIndex e)
  rw [h r (hsub hr) v hv e he hw] at hle
  omega

/-- A new entry of page `v` of space `r` that does no harm: it maps a page that nothing refers to, or the
page that was mapped before, and then it is writable only if no other entry maps that page. -/
inductive Harmless (strict : Prop) (live : Finset Nat) (extra : Nat → Int) (mem : Nat → Nat → Nat)
    (r v w : Nat) : Prop where
  | fresh : userRefs mem live (entryIndex w) = 0 → extra (entryIndex w) = 0 → Harmless strict live extra mem r v w
  | rewrite (e : Nat) : pte mem r v = some e → entryIndex e = entryIndex w →
      (strict → w.testBit 1 = true → userRefs mem live (entryIndex w) = 1) →
      Harmless strict live extra mem r v w

structure MemOk (strict : Prop) (live : Finset Nat) (extra : Nat → Int) (mem : Nat → Nat → Nat) : Prop where
  records : ∀ f, extra f ≠ 0 → userRefs mem live f = 0
  isolated : strict → Isolated live mem

theorem MemOk.same (h : MemOk strict live extra mem)
    (hview : SameView live mem mem') : MemOk strict live extra mem' where
  records := fun f hf => by rw [hview.userRefs, h.records f hf]
  isolated := fun hs => (h.isolated hs).same hview

/-- One entry goes away or is replaced by a harmless one. -/
theorem MemOk.viewSet (h : MemOk strict live extra mem) (hr : r ∈ live) (hv : v < userPages)
    (hset : ViewSet live mem mem' r v o) (hnew : ∀ w, o = some w → Harmless strict live extra mem r v w) :
    MemOk strict live extra mem' := by
  have hcount := hset.userRefs hr hv
  have hmaps : ∀ {f}, o.bind entryPage = some f → ∃ w, o = some w ∧ entryIndex w = f := by
    intro f hf
    obtain ⟨w, hw, hpage⟩ := Option.bind_eq_some_iff.mp hf
    exact ⟨w, hw, (entryPage_eq_some_iff.mp hpage).2⟩
  refine ⟨?_, ?_⟩
  · intro f hf
    have hzero := h.records f hf
    have hno : ¬o.bind entryPage = some f := by
      intro hmap
      obtain ⟨w, rfl, rfl⟩ := hmaps hmap
      cases hnew w rfl with
      | fresh _ hx => exact hf hx
      | rewrite e he hsame _ =>
        have := userRefs_pos hr hv he
        rw [hsame] at this
        omega
    have := hcount f
    rw [if_neg hno] at this
    omega
  intro hs r' hr' v' hv' e' he' hw'
  by_cases hk : (r', v') = (r, v)
  · -- the entry that was set
    cases hk
    have ho : o = some e' := by rw [← hset.1, he']
    have hpage : o.bind entryPage = some (entryIndex e') := by
      rw [ho, Option.bind_some, entryPage_eq_some_iff.mpr ⟨(pte_eq_some he').1, rfl⟩]
    have := hcount (entryIndex e')
    rw [if_pos hpage] at this
    cases hnew e' ho with
    | fresh hzero _ =>
      have := userRefs_pos hr hv he'
      omega
    | rewrite e he hsame hone =>
      rw [he, Option.bind_some, entryPage_eq_some_iff.mpr ⟨(pte_eq_some he).1, hsame⟩, if_pos rfl,
        hone hs hw'] at this
      omega
  -- another entry, which is the only one of its page
  rw [hset.2 r' hr' v' hv' hk] at he'
  have hone := h.isolated hs r' hr' v' hv' e' he' hw'
  have hno : ¬o.bind entryPage = some (entryIndex e') := by
    intro hmap
    obtain ⟨w, rfl, hsame⟩ := hmaps hmap
    cases hnew w rfl with
    | fresh hzero _ =>
      rw [hsame] at hzero
      omega
    | rewrite e he heq _ =>
      exact hk (eq_of_userRefs_eq_one hr' hv' he' hr hv he hone (heq.trans hsame)).symm
  have := hcount (entryIndex e')
  rw [if_neg hno, hone] at this
  have hpos : 0 < userRefs mem' live (entryIndex e') :=
    userRefs_pos hr' hv' (by rw [hset.2 r' hr' v' hv' hk]; exact he')
  omega

/-- What one page of a space does to the others: their entries stay, and the pages they map gain no
references. -/
structure Touched (live : Finset Nat) (mem mem' : Nat → Nat → Nat) (r v : Nat) : Prop where
  others : ∀ r' ∈ live, ∀ v' < userPages, (r', v') ≠ (r, v) → pte mem' r' v' = pte mem r' v'
  counts : ∀ r' ∈ live, ∀ v' < userPages, (r', v') ≠ (r, v) → ∀ e, pte mem r' v' = some e →
    userRefs mem' live (entryIndex e) ≤ userRefs mem live (entryIndex e)

theorem Touched.of_sameView (h : SameView live mem mem') (r v : Nat) :
    Touched live mem mem' r v where
  others := fun r' hr' v' hv' _ => h r' hr' v' hv'
  counts := fun _ _ _ _ _ _ _ => (h.userRefs _).le

theorem Touched.trans (h : Touched live mem mem' r v)
    (h' : Touched live mem' mem'' r v) : Touched live mem mem'' r v where
  others := fun r' hr' v' hv' hne => (h'.others r' hr' v' hv' hne).trans (h.others r' hr' v' hv' hne)
  counts := fun r' hr' v' hv' hne e he => (h'.counts r' hr' v' hv' hne e
    ((h.others r' hr' v' hv' hne).trans he)).trans (h.counts r' hr' v' hv' hne e he)

theorem Touched.of_viewSet (hr : r ∈ live) (hv : v < userPages)
    (hset : ViewSet live mem mem' r v (some w)) (hnew : Harmless strict live extra mem r v w) :
    Touched live mem mem' r v := by
  refine ⟨hset.2, ?_⟩
  intro r' hr' v' hv' _ e he
  have hcount := hset.userRefs hr hv (entryIndex e)
  have hpos := userRefs_pos hr' hv' he
  rw [Option.bind_some] at hcount
  by_cases hmap : entryPage w = some (entryIndex e)
  · have hindex := (entryPage_eq_some_iff.mp hmap).2
    cases hnew with
    | fresh hzero _ =>
      rw [hindex] at hzero
      omega
    | rewrite e' he' hsame _ =>
      rw [if_pos hmap, he', Option.bind_some,
        entryPage_eq_some_iff.mpr ⟨(pte_eq_some he').1, hsame.trans hindex⟩, if_pos rfl] at hcount
      omega
  · rw [if_neg hmap] at hcount
    omega

/-- The pages are mapped as before. -/
def SameFrames (live : Finset Nat) (mem mem' : Nat → Nat → Nat) : Prop :=
  ∀ r ∈ live, ∀ v < userPages, userFrame mem' (r, v) = userFrame mem (r, v)

theorem SameFrames.userRefs (h : SameFrames live mem mem') (f : Nat) :
    userRefs mem' live f = userRefs mem live f := by
  refine refs_congr ?_ f
  rintro ⟨r, v⟩ hk
  obtain ⟨hr, hv⟩ := mem_userDom.mp hk
  exact h r hr v hv

/-! ### One page -/

namespace Wf

/-- What the mapping of a fresh page does when it succeeds: the page had no entry, nothing referred to the
new page, and it holds what was put there. -/
structure Installs (boot : Nat → Prop) (live : Finset Nat) (extra : Nat → Int) (p p' : Phys) (r v f flags : Nat)
    (page : Nat → Nat) : Prop where
  wf : ∃ pos, Wf boot live extra pos p'
  before : pte p.mem r v = none
  bound : f < 2 ^ 40
  unmapped : userRefs p.mem live f = 0
  noExtra : extra f = 0
  view : ViewSet live p.mem p'.mem r v (some (makeEntry (pageAddr f) flags))
  content : p'.mem f = page
  data : SameData live extra p.mem p'.mem
  kernel : KernelSame boot live p p'
  freeCalls : p'.freeCalls = p.freeCalls

/-- What it does when it fails. -/
structure Declines (boot : Nat → Prop) (live : Finset Nat) (extra : Nat → Int) (p p' : Phys) : Prop where
  wf : ∃ pos, Wf boot live extra pos p'
  view : SameView live p.mem p'.mem
  data : SameData live extra p.mem p'.mem
  kernel : KernelSame boot live p p'
  freeCalls : p'.freeCalls = p.freeCalls ∨ ∃ f, ¬boot f ∧ p'.freeCalls = pageAddr f :: p.freeCalls

theorem mapFreshPage (h : Wf boot live extra pos p) (hr : space.root ∈ live)
    (hv : vpn virt < userPages) (flags : Nat) (page : Nat → Nat) :
    ∃ p' mapped, Litenix.mapFreshPage p space virt flags page = .ok (p', mapped) ∧
      ((mapped = false ∧ Declines boot live extra p p') ∨
        mapped = true ∧ ∃ f, Installs boot live extra p p' space.root (vpn virt) f flags page) := by
  unfold Litenix.mapFreshPage
  rcases h.allocPage with ⟨halloc, -⟩ | ⟨f, p₁, halloc, hf⟩
  · rw [halloc]
    exact ⟨p, false, rfl, .inl ⟨rfl, ⟨pos, h⟩, SameView.refl live p.mem, fun _ _ => rfl, KernelSame.refl ..,
      .inl rfl⟩⟩
  rw [halloc]
  simp only [hf.addr, if_false, pageIndex_pageAddr]
  obtain ⟨hwf₂, hview₂⟩ := hf.wf.setPage hf.noTable page
  have hkernel₂ := hf.kernel.trans (hf.wf.kernelSame_setPage hf.noTable hf.not_boot page)
  have hview := hf.view.trans hview₂
  generalize hp₂ : ({ p₁ with mem := update p₁.mem f page } : Phys) = p₂ at hwf₂ hkernel₂ ⊢
  have hmem₂ : p₂.mem = update p₁.mem f page := by rw [← hp₂]
  have hcalls₂ : p₂.freeCalls = p.freeCalls := by rw [← hp₂]; exact hf.freeCalls
  rw [← hmem₂] at hview
  have hback : update (update extra f 1) f (update extra f 1 f - 1) = extra := by
    rw [update_idem, update_self, sub_self, ← hf.noExtra, update_eq_self]
  -- the data pages differ from the fresh one
  have hdata : ∀ {q : Phys}, SameData live (update extra f 1) p₂.mem q.mem →
      SameData live extra p.mem q.mem := by
    intro q hq g hg
    have hgf : g ≠ f := by
      rintro rfl
      exact hf.not_referenced hg
    rw [hq g, hmem₂, update_of_ne hgf, hf.sameData g hg]
    rwa [Referenced, hview.userRefs, update_of_ne hgf]
  obtain ⟨pos', ⟨hno, hext⟩ | ⟨hyes, hmaps⟩⟩ :=
    hwf₂.vmmMap space virt f flags hr hv hf.bound (.inr (by simp))
  · generalize hmap : Litenix.vmmMap p₂ space virt (pageAddr f) flags = res at hno hext ⊢
    obtain ⟨p₃, mapped⟩ := res
    obtain rfl : mapped = false := hno
    obtain ⟨p', hfree, hmem', hpml4', hcalls', hwf'⟩ := hext.wf.freePage (f := f) (by simp)
    rw [hback] at hwf'
    dsimp only at hfree hext hmem' ⊢
    rw [hfree]
    refine ⟨p', false, rfl, .inl ⟨rfl, ⟨pos', hwf'⟩, ?_, ?_, ?_, .inr ⟨f, hf.not_boot, ?_⟩⟩⟩
    · rw [hmem']
      exact hview.trans hext.view
    · rw [hmem']
      exact hdata hext.data
    · exact (hkernel₂.trans hext.kernel).of_mem hmem' hpml4'
    · rw [hcalls', hext.freeCalls, hcalls₂]
  generalize hmap : Litenix.vmmMap p₂ space virt (pageAddr f) flags = res at hyes hmaps ⊢
  obtain ⟨p₃, mapped⟩ := res
  obtain rfl : mapped = true := hyes
  have hwf₃ := hmaps.wf
  rw [hback] at hwf₃
  refine ⟨p₃, true, rfl, .inr ⟨rfl, f, ⟨pos', hwf₃⟩, ?_, hf.bound, hf.unmapped, hf.noExtra,
    ⟨hmaps.view.1, fun r' hr' v' hv' hne => ?_⟩, ?_, hdata hmaps.data, hkernel₂.trans hmaps.kernel, ?_⟩⟩
  · rw [← hview _ hr _ hv, hmaps.before]
  · rw [hmaps.view.2 r' hr' v' hv' hne, hview r' hr' v' hv']
  · rw [hmaps.data f (.inr (by simp)), hmem₂, update_self]
  · rw [hmaps.freeCalls, hcalls₂]

end Wf

/-- The pages freed between two states are not in use since boot. -/
def Frees (boot : Nat → Prop) (p₀ p : Phys) : Prop :=
  ∃ freed, p.freeCalls = freed ++ p₀.freeCalls ∧ ∀ phys ∈ freed, ∃ f, phys = pageAddr f ∧ ¬boot f

theorem Frees.of_eq (h : p.freeCalls = p₀.freeCalls) : Frees boot p₀ p := ⟨[], h, nofun⟩

theorem Frees.trans (h : Frees boot p₀ p) (h' : Frees boot p p') : Frees boot p₀ p' := by
  obtain ⟨freed, heq, hfreed⟩ := h
  obtain ⟨freed', heq', hfreed'⟩ := h'
  refine ⟨freed' ++ freed, by rw [heq', heq, List.append_assoc], fun phys hphys => ?_⟩
  rcases List.mem_append.mp hphys with hmem | hmem
  · exact hfreed' phys hmem
  · exact hfreed phys hmem

/-- What a memory call keeps, from its start in `p₀` on. -/
structure Held (strict : Prop) (boot : Nat → Prop) (live : Finset Nat) (extra : Nat → Int) (p₀ p : Phys) : Prop where
  wf : ∃ pos, Wf boot live extra pos p
  ok : MemOk strict live extra p.mem
  kernel : KernelSame boot live p₀ p
  frees : Frees boot p₀ p

theorem vmmProtect_freeCalls (p : Phys) (space : AddressSpace) (virt flags : Nat) :
    (vmmProtect p space virt flags).1.freeCalls = p.freeCalls := by
  unfold vmmProtect
  split
  · rfl
  · split <;> rfl

namespace Held

theorem refl (h : Wf boot live extra pos p) (hok : MemOk strict live extra p.mem) : Held strict boot live extra p p :=
  ⟨⟨pos, h⟩, hok, KernelSame.refl boot live p, .of_eq rfl⟩

/-- One more step, which frees at most one page. -/
theorem step (h : Held strict boot live extra p₀ p) (hwf : Wf boot live extra pos p')
    (hok : MemOk strict live extra p'.mem) (hkernel : KernelSame boot live p p')
    (hfrees : p'.freeCalls = p.freeCalls ∨ ∃ f, ¬boot f ∧ p'.freeCalls = pageAddr f :: p.freeCalls) :
    Held strict boot live extra p₀ p' := by
  refine ⟨⟨pos, hwf⟩, hok, h.kernel.trans hkernel, h.frees.trans ?_⟩
  rcases hfrees with hsame | ⟨f, hf, hcons⟩
  · exact .of_eq hsame
  · exact ⟨[pageAddr f], hcons, fun phys hphys => ⟨f, List.mem_singleton.mp hphys, hf⟩⟩

variable {space : AddressSpace}

section

variable (h : Held strict boot live extra p₀ p)

include h

theorem dropPage (hextra : ∀ f, 0 ≤ extra f) (hr : space.root ∈ live)
    (hv : vpn virt < userPages) (haligned : pageAligned virt = true) :
    ∃ p', Litenix.dropPage space p virt = .ok p' ∧ Held strict boot live extra p₀ p' := by
  obtain ⟨pos, hwf⟩ := h.wf
  unfold Litenix.dropPage
  cases hphys : vmmVirtToPhys p space virt with
  | none => exact ⟨p, rfl, h⟩
  | some phys =>
    obtain ⟨e, p', he, rfl, hfree, hwf', hset, hkernel, hcalls⟩ := hwf.unmapFree hextra hr hv haligned hphys
    refine ⟨p', hfree, h.step hwf' (h.ok.viewSet hr hv hset fun w hw => by cases hw) hkernel ?_⟩
    exact .inr ⟨_, hwf.not_boot (.inl (userRefs_pos hr hv he)), hcalls⟩

theorem mapFreshPage (hr : space.root ∈ live) (hv : vpn virt < userPages) (flags : Nat) (page : Nat → Nat) :
    ∃ p' mapped, Litenix.mapFreshPage p space virt flags page = .ok (p', mapped) ∧
      Held strict boot live extra p₀ p' ∧ Touched live p.mem p'.mem space.root (vpn virt) ∧
      (mapped = true → ∀ e, pte p'.mem space.root (vpn virt) = some e → userRefs p'.mem live (entryIndex e) = 1) := by
  obtain ⟨pos, hwf⟩ := h.wf
  obtain ⟨p', mapped, hcall, hno | ⟨rfl, f, hnew⟩⟩ := hwf.mapFreshPage hr hv flags page
  · obtain ⟨rfl, ⟨pos', hwf'⟩, hview, -, hkernel, hfrees⟩ := hno
    exact ⟨p', false, hcall, h.step hwf' (h.ok.same hview) hkernel hfrees, .of_sameView hview ..,
      fun hno => by cases hno⟩
  obtain ⟨pos', hwf'⟩ := hnew.wf
  have hindex : entryIndex (makeEntry (pageAddr f) flags) = f := entryIndex_makeEntry hnew.bound flags
  have hharmless : Harmless strict live extra p.mem space.root (vpn virt) (makeEntry (pageAddr f) flags) :=
    .fresh (by rw [hindex, hnew.unmapped]) (by rw [hindex, hnew.noExtra])
  refine ⟨p', true, hcall, h.step hwf' ?_ hnew.kernel (.inl hnew.freeCalls),
    .of_viewSet hr hv hnew.view hharmless, fun _ e he => ?_⟩
  · exact h.ok.viewSet hr hv hnew.view fun w hw => by
      cases hw
      exact hharmless
  have hcount := hnew.view.userRefs hr hv (entryIndex e)
  have hpresent := (pte_eq_some he).1
  rw [hnew.view.1] at he
  cases he
  rw [hnew.before, Option.bind_none, Option.bind_some, entryPage_eq_some_iff.mpr ⟨hpresent, rfl⟩,
    if_pos rfl, if_neg (by simp), hindex, hnew.unmapped] at hcount
  rw [hindex]
  omega

theorem vmmHandleCow (hextra : ∀ f, 0 ≤ extra f) (hr : space.root ∈ live) (hv : vpn virt < userPages) :
    ∃ p' res, Litenix.vmmHandleCow p space virt = .ok (p', res) ∧ Held strict boot live extra p₀ p' ∧
      Wf.Cow live extra p p' space.root (vpn virt) res ∧ Touched live p.mem p'.mem space.root (vpn virt) := by
  obtain ⟨pos, hwf⟩ := h.wf
  obtain ⟨p', res, hcow, hwf', hkernel, hcase⟩ := hwf.vmmHandleCow hextra hr hv
  have hsame : p' = p → Held strict boot live extra p₀ p' ∧ Touched live p.mem p'.mem space.root (vpn virt) := by
    rintro rfl
    exact ⟨h, .of_sameView (SameView.refl live _) ..⟩
  have hchange : ∀ {w}, ViewSet live p.mem p'.mem space.root (vpn virt) (some w) →
      Harmless strict live extra p.mem space.root (vpn virt) w →
      (p'.freeCalls = p.freeCalls ∨ ∃ f, ¬boot f ∧ p'.freeCalls = pageAddr f :: p.freeCalls) →
      Held strict boot live extra p₀ p' ∧ Touched live p.mem p'.mem space.root (vpn virt) := by
    intro w hset hnew hcalls
    refine ⟨h.step hwf' (h.ok.viewSet hr hv hset fun w' hw' => ?_) hkernel hcalls, .of_viewSet hr hv hset hnew⟩
    cases hw'
    exact hnew
  suffices hgoal : _ ∧ _ from ⟨p', res, hcow, hgoal.1, hcase, hgoal.2⟩
  cases hcase with
  | last e w he _ hone hres hset hcalls =>
    have hindex := (entryPage_eq_some_iff.mp hres.page).2
    refine hchange hset (.rewrite e he hindex.symm fun _ _ => ?_) (.inl hcalls)
    have := userRefs_pos hr hv he
    have := hextra (entryIndex e)
    rw [hindex]
    omega
  | copy e g w he _ hzero hx hres hset hcalls =>
    have hindex := (entryPage_eq_some_iff.mp hres.page).2
    exact hchange hset (.fresh (by rw [hindex, hzero]) (by rw [hindex, hx]))
      (.inr ⟨_, hwf.not_boot (.inl (userRefs_pos hr hv he)), hcalls⟩)
  | full _ heq => exact hsame heq
  | absent _ heq => exact hsame heq

/-- The entry of a page gets new flags, which may make it writable only if the page has no other entry. -/
theorem vmmProtect (hr : space.root ∈ live) (flags : Nat) (hv : vpn virt < userPages)
    (hsafe : strict → flags.testBit 1 = true → ∀ e, pte p.mem space.root (vpn virt) = some e →
      userRefs p.mem live (entryIndex e) = 1) :
    Held strict boot live extra p₀ (Litenix.vmmProtect p space virt flags).1 ∧
      SameFrames live p.mem (Litenix.vmmProtect p space virt flags).1.mem ∧
      Touched live p.mem (Litenix.vmmProtect p space virt flags).1.mem space.root (vpn virt) := by
  obtain ⟨pos, hwf⟩ := h.wf
  obtain ⟨hwf', hkernel, hcase⟩ := hwf.vmmProtect flags hr hv
  have hcalls := vmmProtect_freeCalls p space virt flags
  generalize (Litenix.vmmProtect p space virt flags).1 = p' at hwf' hkernel hcase hcalls ⊢
  rcases hcase with rfl | ⟨e, he, hpresent, hset⟩
  · exact ⟨h, fun _ _ _ _ => rfl, .of_sameView (SameView.refl live _) ..⟩
  have hindex : entryIndex (makeEntry (entryPhys e) flags) = entryIndex e := by
    rw [entryPhys_eq_pageAddr, entryIndex_makeEntry (entryIndex_lt e)]
  have hbit : (makeEntry (entryPhys e) flags).testBit 1 = flags.testBit 1 :=
    testBit_makeEntry_flag _ _ (by norm_num)
  have hpage : entryPage (makeEntry (entryPhys e) flags) = some (entryIndex e) := by
    rw [entryPhys_eq_pageAddr, entryPage_makeEntry (entryIndex_lt e) hpresent]
  have hnew : Harmless strict live extra p.mem space.root (vpn virt) (makeEntry (entryPhys e) flags) := by
    refine .rewrite e he hindex.symm fun hs hw => ?_
    rw [hindex]
    exact hsafe hs (hbit ▸ hw) e he
  refine ⟨h.step hwf' (h.ok.viewSet hr hv hset fun w hw => ?_) hkernel (.inl hcalls), ?_,
    .of_viewSet hr hv hset hnew⟩
  · cases hw
    exact hnew
  · exact fun r' hr' v' hv' => userFrame_of_viewSet hset he hpage hr' hv'

end

end Held

end Litenix
