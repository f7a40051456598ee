import Litenix.SpaceLife

/-! `vmm_clone_address_space`, with any pattern of failing allocations. The loops go through the pages of the parent
in the order of their addresses, so the state between two pages is known exactly: the pages before are shared and
marked in both spaces, those after are untouched. -/

namespace Litenix

open Lib Radix Function

variable {boot : Nat → Prop} {live : Finset Nat} {extra : Nat → Int}
  {pos : Nat → Option (Nat × List Nat)} {p p' : Phys}
variable {parent : AddressSpace} {e n v : Nat} {s : Supply}

/-! ### The entries -/

/-- The entry that `vmm_clone_address_space` leaves in the parent for a writable page. -/
def cowEntry (e : Nat) : Nat :=
  (e &&& not64 pageFlagsMask) ||| ((e &&& pageFlagsMask) &&& not64 vmmWritable ||| vmmCow)

/-- The flags of the child's entry. -/
def childFlags (e : Nat) : Nat :=
  if hasFlag (e &&& pageFlagsMask) vmmWritable then (e &&& pageFlagsMask) &&& not64 vmmWritable ||| vmmCow
  else e &&& pageFlagsMask

theorem hasFlag_flagsMask_writable (e : Nat) : hasFlag (e &&& pageFlagsMask) vmmWritable = e.testBit 1 := by
  rw [hasFlag_writable, Nat.testBit_and, testBit_pageFlagsMask]
  simp

theorem testBit_cowFlagsOf (e i : Nat) (hi : i < 64) :
    ((e &&& pageFlagsMask) &&& not64 vmmWritable ||| vmmCow).testBit i =
      (e.testBit i && decide (i < 12 ∨ 52 ≤ i) && decide (i ≠ 1) || decide (i = 9)) := by
  have hwritable : (not64 vmmWritable).testBit i = decide (i ≠ 1) := by
    revert i
    decide
  have hcow : vmmCow.testBit i = decide (i = 9) := by
    revert i
    decide
  rw [Nat.testBit_or, Nat.testBit_and, Nat.testBit_and, testBit_pageFlagsMask, hwritable, hcow]
  simp [hi]

theorem cowEntry_spec (he : e.testBit 0 = true) :
    entryPage (cowEntry e) = some (entryIndex e) ∧ (cowEntry e).testBit 1 = false ∧
      (cowEntry e).testBit 63 = e.testBit 63 := by
  rw [cowEntry]
  refine ⟨entryPage_withFlags ?_ fun i h12 h52 => ?_, ?_, ?_⟩
  · rw [testBit_cowFlagsOf e 0 (by norm_num), he]
    rfl
  · rw [testBit_cowFlagsOf e i (by omega)]
    simp [show ¬i < 12 by omega, show ¬52 ≤ i by omega, show i ≠ 9 by omega]
  · rw [testBit_withFlags e _ (by norm_num), testBit_cowFlagsOf e 1 (by norm_num)]
    simp
  · rw [testBit_withFlags e _ (by norm_num), testBit_cowFlagsOf e 63 (by norm_num)]
    simp

theorem childFlags_spec (he : e.testBit 0 = true) :
    (childFlags e).testBit 0 = true ∧ (childFlags e).testBit 1 = false ∧
      (childFlags e).testBit 63 = e.testBit 63 := by
  unfold childFlags
  rw [hasFlag_flagsMask_writable]
  split
  · rw [testBit_cowFlagsOf e 0 (by norm_num), testBit_cowFlagsOf e 1 (by norm_num),
      testBit_cowFlagsOf e 63 (by norm_num), he]
    simp
  rename_i hw
  rw [Nat.testBit_and, Nat.testBit_and, Nat.testBit_and, testBit_pageFlagsMask, testBit_pageFlagsMask,
    testBit_pageFlagsMask, he]
  simpa using hw

/-- What a loop invariant about the entries has to survive while parent `r` is cloned to `c`. -/
structure CloneInv (live : Finset Nat) (r c : Nat) (Q : (Nat → Nat → Nat) → Prop) : Prop where
  same : ∀ {m m'}, SameView live m m' → Q m → Q m'
  protect : ∀ {m m' v e w}, v < userPages → pte m r v = some e → entryPage w = some (entryIndex e) →
    w.testBit 1 = false → w.testBit 63 = e.testBit 63 → ViewSet live m m' r v (some w) → Q m → Q m'
  share : ∀ {m m' v e w}, v < userPages → pte m r v = some e → e.testBit 1 = false → pte m c v = none →
    entryPage w = some (entryIndex e) → w.testBit 1 = false → w.testBit 63 = e.testBit 63 →
    ViewSet live m m' c v (some w) → Q m → Q m'

theorem spaceRefs_eq_card (mem : Nat → Nat → Nat) (r f : Nat) :
    spaceRefs mem r f = ((Finset.range userPages).filter fun v => userFrame mem (r, v) = some f).card := by
  rw [spaceRefs_eq_sum, Finset.card_filter]

/-- The entry of the parent after the call. -/
def parentEntry (e : Nat) : Nat := if e.testBit 1 then cowEntry e else e

/-- The entry of the child. -/
def childEntry (e : Nat) : Nat := makeEntry (entryPhys e) (childFlags e)

theorem parentEntry_spec (he : e.testBit 0 = true) :
    entryPage (parentEntry e) = some (entryIndex e) ∧ (parentEntry e).testBit 1 = false ∧
      (parentEntry e).testBit 63 = e.testBit 63 := by
  unfold parentEntry
  split
  · exact cowEntry_spec he
  · rename_i hro
    exact ⟨entryPage_eq_some_iff.mpr ⟨he, rfl⟩, by simpa using hro, rfl⟩

theorem childEntry_spec (he : e.testBit 0 = true) :
    entryPage (childEntry e) = some (entryIndex e) ∧ (childEntry e).testBit 1 = false ∧
      (childEntry e).testBit 63 = e.testBit 63 := by
  obtain ⟨hpresent, hro, hnx⟩ := childFlags_spec he
  rw [childEntry, entryPhys_eq_pageAddr]
  refine ⟨entryPage_makeEntry (entryIndex_lt e) hpresent, ?_, ?_⟩
  · rw [testBit_makeEntry_flag _ _ (by norm_num), hro]
  · rw [testBit_makeEntry_noExecute, hnx]

/-- New entries for the pages of a space map the same pages. -/
theorem bind_map_pte (hg : ∀ {e}, e.testBit 0 = true → entryPage (g e) = some (entryIndex e))
    (mem : Nat → Nat → Nat) (r v : Nat) : ((pte mem r v).map g).bind entryPage = userFrame mem (r, v) := by
  cases hpte : pte mem r v with
  | none => rw [userFrame_of_pte, hpte, Option.map_none]
  | some e =>
    obtain ⟨hpresent, hframe, -⟩ := pte_eq_some hpte
    rw [hframe, Option.map_some, Option.bind_some, hg hpresent]

/-! ### The loops -/

section Clone

variable {r c : Nat} {Q : (Nat → Nat → Nat) → Prop} {p₀ : Phys} {pos₀ : Nat → Option (Nat × List Nat)} {np nc pt : Nat}

/-- The state inside the loops of `vmm_clone_address_space`, compared with the state `p₀` before them: the pages of the
parent below `np` have been marked, and those below `nc` have been mapped in the child. -/
structure Cloning (boot : Nat → Prop) (live : Finset Nat) (extra : Nat → Int) (r c : Nat)
    (Q : (Nat → Nat → Nat) → Prop) (p₀ : Phys) (pos₀ : Nat → Option (Nat × List Nat)) (np nc : Nat)
    (pos : Nat → Option (Nat × List Nat)) (p : Phys) : Prop where
  wf : Wf boot live extra pos p
  parent : ∀ v < userPages, pte p.mem r v = if v < np then (pte p₀.mem r v).map parentEntry else pte p₀.mem r v
  child : ∀ v < userPages, pte p.mem c v = if v < nc then (pte p₀.mem r v).map childEntry else none
  others : ∀ r' ∈ live, r' ≠ r → r' ≠ c → ∀ v < userPages, pte p.mem r' v = pte p₀.mem r' v
  inv : Q p.mem
  kernel : KernelSame boot live p₀ p
  grows : ∀ f x, pos₀ f = some x → pos f = some x
  new : Wf.NewIn c pos₀ pos
  tally : Tally boot p₀.pmm p.pmm

namespace Cloning

theorem frames (h : Cloning boot live extra r c Q p₀ pos₀ np nc pos p) {r' : Nat} (hr' : r' ∈ live) (hne : r' ≠ c)
    (hv : v < userPages) : userFrame p.mem (r', v) = userFrame p₀.mem (r', v) := by
  by_cases hrr : r' = r
  · rw [hrr, userFrame_of_pte, h.parent v hv]
    split
    · exact bind_map_pte (fun he => (parentEntry_spec he).1) p₀.mem r v
    · rfl
  · rw [userFrame_of_pte, userFrame_of_pte, h.others r' hr' hrr hne v hv]

theorem frames_child (h : Cloning boot live extra r c Q p₀ pos₀ np nc pos p) (hv : v < userPages) :
    userFrame p.mem (c, v) = if v < nc then userFrame p₀.mem (r, v) else none := by
  rw [userFrame_of_pte, h.child v hv]
  split
  · exact bind_map_pte (fun he => (childEntry_spec he).1) p₀.mem r v
  · rfl

theorem ite_lt_succ {α : Type*} {x y : α} (h : v = np → y = x) :
    (if v < np then x else y) = if v < np + 1 then x else y := by
  rcases Nat.lt_trichotomy v np with hlt | heq | hgt
  · rw [if_pos hlt, if_pos (by omega)]
  · rw [if_neg (by omega), if_pos (by omega), h heq]
  · rw [if_neg (by omega), if_neg (by omega)]

theorem skip (h : Cloning boot live extra r c Q p₀ pos₀ np np pos p) (hnone : np < userPages → pte p.mem r np = none) :
    Cloning boot live extra r c Q p₀ pos₀ (np + 1) (np + 1) pos p := by
  have hbefore : ∀ v < userPages, v = np → pte p₀.mem r v = none := by
    rintro v hv rfl
    rw [← hnone hv, h.parent v hv, if_neg (Nat.lt_irrefl v)]
  refine { h with parent := fun v hv => ?_, child := fun v hv => ?_ }
  · rw [h.parent v hv]
    exact ite_lt_succ fun heq => by rw [hbefore v hv heq, Option.map_none]
  · rw [h.child v hv]
    exact ite_lt_succ fun heq => by rw [hbefore v hv heq, Option.map_none]

theorem skipRange (h : Cloning boot live extra r c Q p₀ pos₀ np np pos p) (k : Nat)
    (hnone : ∀ v < userPages, np ≤ v → v < np + k → pte p.mem r v = none) :
    Cloning boot live extra r c Q p₀ pos₀ (np + k) (np + k) pos p := by
  induction k with
  | zero => exact h
  | succ k ih =>
    refine (ih fun v hv hlo hhi => hnone v hv hlo (by omega)).skip fun hv => hnone _ hv (by omega) (by omega)

section

variable (h : Cloning boot live extra r c Q p₀ pos₀ np nc pos p)

include h

theorem mark (hQ : CloneInv live r c Q) (hr : r ∈ live) (hc : c ∈ live) (hrc : r ≠ c) (hv : np < userPages)
    (ht : pos pt = some (r, pathOf pageEntries 3 (np / pageEntries))) (he : pte p.mem r np = some e) :
    Cloning boot live extra r c Q p₀ pos₀ (np + 1) nc pos
      (if e.testBit 1 then p.setWord pt (np % pageEntries) (cowEntry e) else p) := by
  obtain ⟨hpresent, hframe, -⟩ := pte_eq_some he
  have hbefore : pte p₀.mem r np = some e := by
    have := h.parent np hv
    rwa [if_neg (Nat.lt_irrefl np), he, eq_comm] at this
  split
  · rename_i hw
    obtain ⟨hpage, hro, hnx⟩ := cowEntry_spec hpresent
    have hmapped := h.wf.mapped hr hv hframe
    obtain ⟨hwf, hset, hkernel⟩ := h.wf.setPte hr hv ht (w := cowEntry e) (by
      intro f hf
      rw [hpage] at hf
      cases hf
      exact ⟨hmapped.1, .inl hmapped.2⟩)
    rw [hframe, hpage] at hwf
    rw [hpage, Option.isSome_some, if_pos rfl] at hset
    refine ⟨?_, fun v hv' => ?_, fun v hv' => ?_, fun r' hr' hne hne' v hv' => ?_,
      hQ.protect hv he hpage hro hnx hset h.inv, h.kernel.trans hkernel, h.grows, h.new, h.tally⟩
    · convert hwf using 1
      funext f
      omega
    · by_cases hvv : v = np
      · rw [hvv, hset.1, if_pos (Nat.lt_succ_self np), hbefore, Option.map_some, parentEntry, if_pos hw]
      · rw [hset.2 r hr v hv' (fun heq => hvv (Prod.mk.inj heq).2), h.parent v hv', ite_lt_succ (absurd · hvv)]
    · rw [hset.2 c hc v hv' (fun heq => hrc (Prod.mk.inj heq).1.symm), h.child v hv']
    · rw [hset.2 r' hr' v hv' (fun heq => hne (Prod.mk.inj heq).1), h.others r' hr' hne hne' v hv']
  · rename_i hro
    refine { h with parent := fun v hv' => ?_ }
    by_cases hvv : v = np
    · rw [hvv, he, if_pos (Nat.lt_succ_self np), hbefore, Option.map_some, parentEntry, if_neg hro]
    · rw [h.parent v hv', ite_lt_succ (absurd · hvv)]

/-- While the child has no entry for a page of the parent, the count of the page is below the final one. -/
theorem ref_lt (hr : r ∈ live) (hc : c ∈ live)
    (hrc : r ≠ c) {f : Nat} (hv : v < userPages) (hf : userFrame p.mem (r, v) = some f) (hnc : nc ≤ v) :
    p.pmm.pageRefCounts f < userRefs p₀.mem (live.erase c) f + spaceRefs p₀.mem r f + extra f := by
  obtain ⟨hpos, hrefs⟩ := h.wf.mapped hr hv hf
  obtain ⟨-, -, href⟩ := h.wf.counted f hpos (.inl hrefs)
  have hbase : userRefs p.mem (live.erase c) f = userRefs p₀.mem (live.erase c) f := by
    refine refs_congr ?_ f
    rintro ⟨r', v'⟩ hk
    obtain ⟨hr', hv'⟩ := mem_userDom.mp hk
    obtain ⟨hne, hr'⟩ := Finset.mem_erase.mp hr'
    exact h.frames hr' hne hv'
  have hchild : spaceRefs p.mem c f < spaceRefs p₀.mem r f := by
    rw [spaceRefs_eq_card, spaceRefs_eq_card]
    refine Finset.card_lt_card (Finset.ssubset_iff.mpr ⟨v, ?_, ?_⟩)
    · rw [Finset.mem_filter, h.frames_child hv, if_neg (by omega)]
      exact fun hno => nomatch hno.2
    intro v' hv'
    rcases Finset.mem_insert.mp hv' with rfl | hv'
    · exact Finset.mem_filter.mpr ⟨Finset.mem_range.mpr hv, by rw [← h.frames hr hrc hv, hf]⟩
    obtain ⟨hlt, hmap⟩ := Finset.mem_filter.mp hv'
    rw [h.frames_child (Finset.mem_range.mp hlt)] at hmap
    split at hmap
    · exact Finset.mem_filter.mpr ⟨hlt, hmap⟩
    · cases hmap
  have hsplit := userRefs_erase hc p.mem f
  omega

theorem extended (hQ : CloneInv live r c Q) (hr : r ∈ live)
    (hc : c ∈ live) {pos' : Nat → Option (Nat × List Nat)} (hext : Wf.Extends boot live extra pos p pos' p')
    (hnew : Wf.NewIn c pos pos') (htally : Tally boot p.pmm p'.pmm) :
    Cloning boot live extra r c Q p₀ pos₀ np nc pos' p' where
  wf := hext.wf
  parent := fun v hv => (hext.view r hr v hv).trans (h.parent v hv)
  child := fun v hv => (hext.view c hc v hv).trans (h.child v hv)
  others := fun r' hr' hne hne' v hv => (hext.view r' hr' v hv).trans (h.others r' hr' hne hne' v hv)
  inv := hQ.same hext.view h.inv
  kernel := h.kernel.trans hext.kernel
  grows := fun f x hf => hext.grows f x (h.grows f x hf)
  new := h.new.trans hnew
  tally := h.tally.trans htally

end

end Cloning

/-- The state between two pages. -/
def Between (boot : Nat → Prop) (live : Finset Nat) (extra : Nat → Int) (r c : Nat) (Q : (Nat → Nat → Nat) → Prop)
    (p₀ : Phys) (pos₀ : Nat → Option (Nat × List Nat)) (n : Nat) (s : Supply) : Prop :=
  ∃ pos, Cloning boot live extra r c Q p₀ pos₀ n n pos s.phys

/-- The state in which `vmm_map` has failed. -/
def Stopped (boot : Nat → Prop) (live : Finset Nat) (extra : Nat → Int) (r c : Nat) (Q : (Nat → Nat → Nat) → Prop)
    (p₀ : Phys) (pos₀ : Nat → Option (Nat × List Nat)) (s : Supply) : Prop :=
  ∃ np nc pos, Cloning boot live extra r c Q p₀ pos₀ np nc pos s.phys

/-- Below an entry that is not present no page is mapped. -/
theorem Wf.pte_eq_none (h : Wf boot live extra pos p) {t d i level : Nat}
    (ht : pos t = some (r, pathOf pageEntries d n)) (hd : d + level = 3) (hi : i < userWidth d)
    (hnone : entryPage (p.mem t i) = none) (hlo : (n * 512 + i) * 512 ^ level ≤ v)
    (hhi : v < (n * 512 + i + 1) * 512 ^ level) : pte p.mem r v = none := by
  have hi' : i < 512 := lt_of_lt_of_le hi (by unfold userWidth pageEntries; split_ifs <;> omega)
  have hframe : userFrame p.mem (r, v) = none := by
    cases level with
    | zero =>
      obtain rfl : d = 3 := by omega
      obtain rfl : v = n * pageEntries + i := by
        rw [pageEntries]
        omega
      exact (h.shape.leafFrame_of_table ht hi').trans hnone
    | succ level =>
      refine h.shape.leafFrame_eq_none (by norm_num [pageEntries]) (fun d hd => if_neg (by omega)) ht hi hi' hnone
        (e := level) (by omega) ?_
      rw [Nat.div_div_eq_div_mul, ← pow_succ']
      exact Nat.div_eq_of_lt_le hlo hhi
  by_contra hne
  obtain ⟨e, he⟩ := Option.ne_none_iff_exists'.mp hne
  rw [(pte_eq_some he).2.1] at hframe
  cases hframe

theorem lor_shiftLeft (hi : i < 512) : n * 2 ^ (k + 9) ||| i <<< k = (n * 512 + i) * 2 ^ k := by
  rw [Nat.shiftLeft_eq, ← Nat.shiftLeft_eq n (k + 9), ← Nat.shiftLeft_add_eq_or_of_lt, Nat.shiftLeft_eq]
  · ring
  · rw [pow_add, mul_comm]
    exact Nat.mul_lt_mul_of_pos_left (by omega) (by positivity)

section

variable {child : AddressSpace} (hQ : CloneInv live r c Q) (hr : r ∈ live) (hrc : r ≠ c) (hchild : child.root = c)
  (hc : c ∈ live) (hmax : ∀ f, userRefs p₀.mem (live.erase c) f + spaceRefs p₀.mem r f + extra f ≤ 65535)

include hQ hr hrc hchild hc hmax

/-- A page of the parent is mapped in the child, and counted once more. -/
theorem Cloning.share (h : Cloning boot live extra r c Q p₀ pos₀ (n + 1) n pos s.phys) (hv : n < userPages)
    (he : pte p₀.mem r n = some e) :
    Outcome (Between boot live extra r c Q p₀ pos₀ (n + 1)) (Stopped boot live extra r c Q p₀ pos₀)
      (match s.vmmMap child (n * 4096) (entryPhys e) (childFlags e) with
      | (s, false) => .error s
      | (s, true) => .ok { s with phys := { s.phys with pmm := pmmRefPage s.phys.pmm (entryPhys e) } }) := by
  have hvpn : vpn (n * 4096) = n := by
    rw [userPages] at hv
    rw [vpn, vmmPageSize]
    omega
  have hparent : pte s.phys.mem r n = some (parentEntry e) := by
    rw [h.parent n hv, if_pos (Nat.lt_succ_self n), he]
    rfl
  have hpresent := (pte_eq_some he).1
  obtain ⟨hpage, hro, hnx⟩ := parentEntry_spec hpresent
  obtain ⟨hcpage, hcro, hcnx⟩ := childEntry_spec hpresent
  have hframe : userFrame s.phys.mem (r, n) = some (entryIndex e) := by
    rw [userFrame_of_pte, hparent, Option.bind_some, hpage]
  obtain ⟨hpos, hrefs⟩ := h.wf.mapped hr hv hframe
  have htally := (Tally.steps boot).vmmMap s child (n * 4096) (entryPhys e) (childFlags e)
  rw [entryPhys_eq_pageAddr] at htally ⊢
  obtain ⟨pos', hnew, hmap⟩ := h.wf.vmmMap_supply child (n * 4096) (entryIndex e) (childFlags e) (by rwa [hchild])
    (by rwa [hvpn]) (entryIndex_lt e) (.inl hrefs)
  rcases hcall : s.vmmMap child (n * 4096) (pageAddr (entryIndex e)) (childFlags e) with ⟨s₁, b⟩
  rw [hcall, hvpn, hchild] at hmap
  rw [hcall] at htally
  rw [hchild] at hnew
  dsimp only at hmap htally
  rcases hmap with ⟨rfl, hext⟩ | ⟨rfl, hmaps⟩
  · exact ⟨n + 1, n, pos', h.extended hQ hr hc hext hnew htally⟩
  have hview := hmaps.view
  rw [← entryPhys_eq_pageAddr] at hview
  change ViewSet live s.phys.mem s₁.phys.mem c n (some (childEntry e)) at hview
  have hlt := h.ref_lt hr hc hrc hv hframe le_rfl
  have hbound := hmax (entryIndex e)
  have hnewFrame : userFrame s₁.phys.mem (c, n) = some (entryIndex e) := by
    rw [userFrame_of_pte, hview.1, Option.bind_some, hcpage]
  obtain ⟨hpos₁, hrefs₁⟩ := hmaps.wf.mapped hc hv hnewFrame
  -- the page has one entry more, and no reference for it yet
  have hcount₁ := hmaps.wf.counted _ hpos₁ (.inl hrefs₁)
  have hcount := h.wf.counted _ hpos (.inl hrefs)
  have hstep := hview.userRefs hc hv (entryIndex e)
  rw [hmaps.before, Option.bind_some, hcpage, if_pos rfl, Option.bind_none, if_neg (by simp)] at hstep
  rw [update_self] at hcount₁
  have href := hmaps.wf.refPage hpos₁ (.inl hrefs₁) (by omega)
  rw [update_idem, update_self, sub_add_cancel, update_eq_self] at href
  refine ⟨pos', href, fun v hv' => ?_, fun v hv' => ?_, fun r' hr' hne hne' v hv' => ?_,
    hQ.share hv hparent hro hmaps.before (by rw [hcpage, (entryPage_eq_some_iff.mp hpage).2]) hcro ?_ hview h.inv, h.kernel.trans ?_,
    fun f x hf => hmaps.grows f x (h.grows f x hf), h.new.trans hnew,
    (h.tally.trans htally).trans (.refPage hcount₁.1 (h.wf.not_boot (.inl hrefs)))⟩
  · exact (hview.2 r hr v hv' fun heq => hrc (Prod.mk.inj heq).1).trans (h.parent v hv')
  · by_cases hvv : v = n
    · rw [hvv, hview.1, if_pos (Nat.lt_succ_self n), he]
      rfl
    rw [hview.2 c hc v hv' fun heq => hvv (Prod.mk.inj heq).2, h.child v hv', Cloning.ite_lt_succ (absurd · hvv)]
  · exact (hview.2 r' hr' v hv' fun heq => hne' (Prod.mk.inj heq).1).trans (h.others r' hr' hne hne' v hv')
  · rw [hcnx, hnx]
  · exact ⟨hmaps.kernel.pages, hmaps.kernel.upper, hmaps.kernel.kernelPml4⟩

/-- **One page.** -/
theorem Cloning.cloneLeaf (h : Cloning boot live extra r c Q p₀ pos₀ n n pos s.phys) (hv : n < userPages)
    (ht : pos pt = some (r, pathOf pageEntries 3 (n / pageEntries)))
    (hpresent : (s.phys.mem pt (n % pageEntries)).testBit 0 = true) :
    Outcome (Between boot live extra r c Q p₀ pos₀ (n + 1)) (Stopped boot live extra r c Q p₀ pos₀)
      (s.cloneLeaf child pt (n % pageEntries) (n * 4096)) := by
  have hpte := h.wf.pte_of_pos ht hpresent
  have hbefore := h.parent n hv
  rw [if_neg (Nat.lt_irrefl n), hpte] at hbefore
  have hmark := h.mark hQ hr hc hrc hv ht hpte
  unfold Supply.cloneLeaf
  generalize s.phys.mem pt (n % pageEntries) = e at hpte hbefore hmark ⊢
  dsimp only
  rw [hasFlag_flagsMask_writable]
  cases hw : e.testBit 1 with
  | true =>
    have hflags : childFlags e = (e &&& pageFlagsMask) &&& not64 vmmWritable ||| vmmCow := by
      rw [childFlags, hasFlag_flagsMask_writable, if_pos hw]
    rw [if_pos hw] at hmark
    have hshare := Cloning.share hQ hr hrc hchild hc hmax (s := s.setWord pt (n % pageEntries) (cowEntry e)) hmark hv
      hbefore.symm
    rw [hflags] at hshare
    rw [if_pos rfl]
    exact hshare
  | false =>
    have hflags : childFlags e = e &&& pageFlagsMask := by
      rw [childFlags, hasFlag_flagsMask_writable, hw, if_neg Bool.false_ne_true]
    rw [hw, if_neg Bool.false_ne_true] at hmark
    have hshare := hmark.share hQ hr hrc hchild hc hmax hv hbefore.symm
    rw [hflags] at hshare
    rw [if_neg Bool.false_ne_true]
    exact hshare

/-- **The nested loops.** For the table with number `n` at depth `d`, with `level` levels below it. -/
theorem Cloning.cloneTable :
    ∀ (level : Nat) {s : Supply} {t d n virt : Nat}, Between boot live extra r c Q p₀ pos₀ (n * 512 * 512 ^ level) s →
      pos₀ t = some (r, pathOf pageEntries d n) → d + level = 3 →
      (∀ i < userWidth d, (n * 512 + i + 1) * 512 ^ level ≤ userPages) →
      virt = n * 2 ^ (12 + 9 * (level + 1)) →
      Outcome (Between boot live extra r c Q p₀ pos₀ ((n * 512 + userWidth d) * 512 ^ level))
        (Stopped boot live extra r c Q p₀ pos₀) (Supply.cloneTable child level (userWidth d) s t virt) := by
  have hwidth : ∀ d, userWidth d ≤ 512 := by
    intro d
    unfold userWidth pageEntries
    split_ifs <;> omega
  intro level
  induction level with
  | zero =>
    intro s t d n virt h ht hd hbound hvirt
    obtain rfl : d = 3 := by omega
    have haddr : ∀ i < 512, virt ||| i <<< 12 = (n * 512 + i) * 4096 := fun i hi => by
      rw [hvirt]
      exact lor_shiftLeft hi
    rw [pow_zero, Nat.mul_one] at h ⊢
    have hw := hwidth 3
    generalize hw3 : userWidth 3 = width at hw hbound ⊢
    refine foldlM_range_outcome (fun i => Between boot live extra r c Q p₀ pos₀ (n * 512 + i)) _ (by rwa [Nat.add_zero]) ?_
    rintro q i hi ⟨pos, hcl⟩
    rw [← Nat.add_assoc]
    have hi' : i < 512 := lt_of_lt_of_le hi hw
    have hv : n * 512 + i < userPages := by
      have := hbound i hi
      omega
    have hdiv : (n * 512 + i) / pageEntries = n := by
      rw [pageEntries]
      omega
    have hmod : (n * 512 + i) % pageEntries = i := by
      rw [pageEntries]
      omega
    split
    · rename_i hpresent
      rw [hasFlag_present] at hpresent
      have htable : pos t = some (r, pathOf pageEntries 3 ((n * 512 + i) / pageEntries)) := by
        rw [hdiv]
        exact hcl.grows t _ ht
      have hbit : (q.phys.mem t ((n * 512 + i) % pageEntries)).testBit 0 = true := by rwa [hmod]
      have hleaf := hcl.cloneLeaf hQ hr hrc hchild hc hmax hv htable hbit
      rw [hmod, ← haddr i hi'] at hleaf
      exact hleaf
    · rename_i habsent
      refine ⟨pos, hcl.skip fun _ => hcl.wf.pte_eq_none (hcl.grows t _ ht) hd (by rwa [hw3]) ?_ ?_ ?_⟩
      · rw [entryPage, if_neg habsent]
      · rw [pow_zero, Nat.mul_one]
      · rw [pow_zero, Nat.mul_one]
        exact Nat.lt_succ_self _
  | succ level ih =>
  intro s t d n virt h ht hd hbound hvirt
  have haddr : ∀ i < 512, virt ||| i <<< (12 + 9 * (level + 1)) =
      (n * 512 + i) * 2 ^ (12 + 9 * (level + 1)) := fun i hi => by
    rw [hvirt, show 12 + 9 * (level + 1 + 1) = 12 + 9 * (level + 1) + 9 by ring]
    exact lor_shiftLeft hi
  refine foldlM_range_outcome (fun i => Between boot live extra r c Q p₀ pos₀ ((n * 512 + i) * 512 ^ (level + 1))) _
    (by rwa [Nat.add_zero]) ?_
  rintro q i hi ⟨pos, hcl⟩
  have hi' : i < 512 := lt_of_lt_of_le hi (hwidth d)
  cases hentry : entryPage (q.phys.mem t i) with
  | none =>
    have hrange := hcl.skipRange (512 ^ (level + 1)) fun v hv hlo hhi =>
      hcl.wf.pte_eq_none (hcl.grows t _ ht) hd hi hentry hlo (by rwa [Nat.add_mul _ 1, Nat.one_mul])
    refine ⟨pos, ?_⟩
    rwa [← Nat.add_assoc, Nat.add_mul _ 1, Nat.one_mul]
  | some g =>
  have hg := hcl.wf.shape.child (hcl.grows t _ ht) (by rw [length_pathOf]; omega)
    (by rwa [length_pathOf]) hentry
  rw [← pathOf_child (show i < pageEntries from hi')] at hg
  have hwide : userWidth (d + 1) = 512 := rfl
  have hinner := ih (s := q) (t := g) (d := d + 1) (n := n * 512 + i) ⟨pos, by rwa [Nat.mul_assoc, ← pow_succ']⟩
    (hcl.new g _ hg hrc) (by omega) (by
    intro j hj
    have hj' := lt_of_lt_of_le hj (hwidth (d + 1))
    refine le_trans ?_ (hbound i hi)
    rw [pow_succ, ← mul_assoc, mul_right_comm]
    refine Nat.mul_le_mul_right _ ?_
    omega) (haddr i hi')
  rw [hwide] at hinner
  have hend : ((n * 512 + i) * 512 + 512) * 512 ^ level = (n * 512 + (i + 1)) * 512 ^ (level + 1) := by ring
  rw [hend] at hinner
  exact hinner

end

theorem spaceRefs_le (hr : r ∈ live) (mem : Nat → Nat → Nat) (f : Nat) : spaceRefs mem r f ≤ userRefs mem live f := by
  have := userRefs_erase hr mem f
  omega

/-- What `vmm_clone_address_space` leaves: no page of an existing space is mapped elsewhere than before,
whether the clone succeeds or not. -/
structure Cloned (boot : Nat → Prop) (live : Finset Nat) (p p' : Phys) : Prop where
  frames : ∀ r ∈ live, ∀ v < userPages, userFrame p'.mem (r, v) = userFrame p.mem (r, v)
  kernel : KernelSame boot live p p'

/-- What a clone that succeeds gives; `record` is the page of the new space's record. -/
structure CloneDone (boot : Nat → Prop) (live : Finset Nat) (extra : Nat → Int) (Q : Nat → (Nat → Nat → Nat) → Prop)
    (parent : AddressSpace) (p p' : Phys) (child : AddressSpace) (record : Nat) : Prop where
  root : child.pml4Phys = pageAddr child.root
  self : child.selfPhys = pageAddr record
  fresh : child.root ∉ live
  noExtra : extra record = 0
  unmapped : userRefs p.mem live record = 0
  inv : Q child.root p'.mem
  parentEntries : ∀ v < userPages, pte p'.mem parent.root v = (pte p.mem parent.root v).map parentEntry
  childEntries : ∀ v < userPages, pte p'.mem child.root v = (pte p.mem parent.root v).map childEntry
  wf : ∃ pos', Wf boot (insert child.root live) (update extra record 1) pos' p'

theorem CloneDone.frames {Q : Nat → (Nat → Nat → Nat) → Prop} {record : Nat}
    (h : CloneDone boot live extra Q parent p p' child record) (hv : v < userPages) :
    userFrame p'.mem (child.root, v) = userFrame p.mem (parent.root, v) := by
  rw [userFrame_of_pte, h.childEntries v hv]
  exact bind_map_pte (fun he => (childEntry_spec he).1) ..

/-- What a clone that fails leaves: the tables that were there, with their pages. -/
structure CloneUndone (boot : Nat → Prop) (live : Finset Nat) (extra : Nat → Int)
    (pos : Nat → Option (Nat × List Nat)) (Q : Nat → (Nat → Nat → Nat) → Prop) (p p' : Phys) : Prop where
  wf : ∃ pos', Wf boot live extra pos' p' ∧ ∀ f, pos' f = none ↔ pos f = none
  inv : SameView live p.mem p'.mem ∨ ∃ c ∉ live, Q c p'.mem
  tally : Tally boot p.pmm p'.pmm

/-- **Cloning a space**, with any pattern of failing allocations and an invariant `Q` of the entries. -/
theorem Wf.vmmCloneAddressSpace_supply (h : Wf boot live extra pos s.phys) (hextra : ∀ f, 0 ≤ extra f)
    (hr : parent.root ∈ live)
    (hmax : ∀ f, userRefs s.phys.mem live f + spaceRefs s.phys.mem parent.root f + extra f ≤ 65535)
    (Q : Nat → (Nat → Nat → Nat) → Prop) (hQ : ∀ c ∉ live, CloneInv (insert c live) parent.root c (Q c))
    (hinit : ∀ c ∉ live, ∀ m, SameView live s.phys.mem m → (∀ v < userPages, pte m c v = none) → Q c m) :
    ∃ s' o, s.vmmCloneAddressSpace parent = .ok (s', o) ∧ Cloned boot live s.phys s'.phys ∧
      ((o = none ∧ CloneUndone boot live extra pos Q s.phys s'.phys) ∨
        ∃ child self, o = some child ∧ CloneDone boot live extra Q parent s.phys s'.phys child self) := by
  unfold Supply.vmmCloneAddressSpace
  obtain ⟨s₁, o, hcreate, hcase⟩ := h.vmmCreateAddressSpace_supply
  have htally := h.tally_vmmCreateAddressSpace hcreate
  rw [hcreate]
  rcases hcase with ⟨rfl, hwf, hview, hkernel, -⟩ | ⟨child, self, rfl, hnew⟩
  · refine ⟨s₁, none, rfl, ⟨?_, hkernel⟩, .inl ⟨rfl, ⟨pos, hwf, fun _ => .rfl⟩, .inl hview, htally⟩⟩
    intro r hr v hv
    rw [userFrame_of_pte, userFrame_of_pte, hview r hr v hv]
  have hne : ∀ {r}, r ∈ live → r ≠ child.root := fun hr heq => hnew.fresh (heq ▸ hr)
  have hr₂ : parent.root ∈ insert child.root live := Finset.mem_insert_of_mem hr
  have hc₂ : child.root ∈ insert child.root live := Finset.mem_insert_self ..
  have hsame : ∀ r ∈ live, ∀ v < userPages, userFrame s₁.phys.mem (r, v) = userFrame s.phys.mem (r, v) := by
    intro r hr v hv
    rw [userFrame_of_pte, userFrame_of_pte, hnew.view r hr v hv]
  have hstart : Cloning boot (insert child.root live) (update extra self 1) parent.root child.root
      (Q child.root) s₁.phys (update pos child.root (some (child.root, []))) 0 0
      (update pos child.root (some (child.root, []))) s₁.phys := by
    refine ⟨hnew.wf, fun _ _ => rfl, hnew.empty, fun _ _ _ _ _ _ => rfl,
      hinit _ hnew.fresh _ hnew.view hnew.empty, KernelSame.refl .., fun _ _ => id, .refl _ _, .refl _ _⟩
  have hmax₂ : ∀ f, userRefs s₁.phys.mem ((insert child.root live).erase child.root) f +
      spaceRefs s₁.phys.mem parent.root f + update extra self 1 f ≤ 65535 := by
    intro f
    have hspace : spaceRefs s₁.phys.mem parent.root f = spaceRefs s.phys.mem parent.root f := by
      rw [spaceRefs_eq_sum, spaceRefs_eq_sum]
      exact Finset.sum_congr rfl fun v hv => by rw [hsame _ hr v (Finset.mem_range.mp hv)]
    rw [Finset.erase_insert hnew.fresh, hnew.view.userRefs, hspace]
    refine update_ind f ?_ fun _ => hmax f
    have := spaceRefs_le hr s.phys.mem self
    have := hnew.unmapped
    omega
  have hloop := Cloning.cloneTable (hQ _ hnew.fresh) hr₂ (hne hr) rfl hc₂ hmax₂ 3 (d := 0) (n := 0)
    ⟨_, hstart⟩ (hstart.wf.shape.root _ hr₂) rfl (by
      intro i hi
      simp only [userWidth, if_true] at hi
      rw [userPages]
      omega) (show (0 : Nat) = 0 * 2 ^ (12 + 9 * (3 + 1)) by norm_num)
  have hframes : ∀ {np nc p₂ pos₂}, Cloning boot (insert child.root live) (update extra self 1) parent.root
      child.root (Q child.root) s₁.phys (update pos child.root (some (child.root, []))) np nc pos₂ p₂ →
      ∀ r ∈ live, ∀ v < userPages, userFrame p₂.mem (r, v) = userFrame s.phys.mem (r, v) := by
    intro np nc p₂ pos₂ hcl r hr v hv
    rw [hcl.frames (Finset.mem_insert_of_mem hr) (hne hr) hv, hsame r hr v hv]
  have hupper : ∀ {p₂}, KernelSame boot (insert child.root live) s₁.phys p₂ → KernelSame boot live s₁.phys p₂ :=
    fun hk => ⟨hk.pages, fun r hr => hk.upper r (Finset.mem_insert_of_mem hr), hk.kernelPml4⟩
  dsimp only
  change Outcome _ _ (Supply.cloneTable child 3 256 s₁ parent.root 0) at hloop
  cases hresult : Supply.cloneTable child 3 256 s₁ parent.root 0 with
  | ok s₂ =>
    rw [hresult] at hloop
    obtain ⟨pos₂, hcl⟩ := hloop
    have hall : ∀ {v}, v < userPages → v < (0 * 512 + userWidth 0) * 512 ^ 3 := fun hv => by
      rw [userPages] at hv
      simp only [userWidth, if_true]
      omega
    refine ⟨s₂, some child, rfl, ⟨hframes hcl, hnew.kernel.trans (hupper hcl.kernel)⟩,
      .inr ⟨child, self, rfl, hnew.root, hnew.self, hnew.fresh, hnew.noExtra, hnew.unmapped, hcl.inv,
        fun v hv => ?_, fun v hv => ?_, pos₂, hcl.wf⟩⟩
    · rw [hcl.parent v hv, if_pos (hall hv), hnew.view _ hr v hv]
    · rw [hcl.child v hv, if_pos (hall hv), hnew.view _ hr v hv]
  | error s₂ =>
  rw [hresult] at hloop
  obtain ⟨np, nc, pos₂, hcl⟩ := hloop
  have hnonneg : ∀ f, 0 ≤ update extra self 1 f := by
    exact fun f => update_ind f zero_le_one fun _ => hextra f
  obtain ⟨p₃, hdestroy, hwf₃, hmem, hpml4, htally₃⟩ :=
    hcl.wf.vmmDestroyAddressSpace hnonneg hc₂ hnew.self (by simp)
  rw [Finset.erase_insert hnew.fresh, update_idem, update_self, sub_self,
    ← hnew.noExtra, update_eq_self] at hwf₃
  dsimp only
  rw [hdestroy]
  refine ⟨{ s₂ with phys := p₃ }, none, rfl, ⟨?_, hnew.kernel.trans ?_⟩, .inl ⟨rfl, ⟨_, hwf₃, fun f => ?_⟩,
    .inr ⟨child.root, hnew.fresh, ?_⟩, (htally.trans hcl.tally).trans htally₃⟩⟩
  · rw [hmem]
    exact hframes hcl
  · exact (hupper hcl.kernel).of_mem hmem hpml4
  · -- the tables of the child are gone, and no others are new
    rw [← not_iff_not, ← ne_eq, ← ne_eq, Option.ne_none_iff_exists', Option.ne_none_iff_exists']
    refine exists_congr fun x => Shape.dropTree_eq_some.trans ⟨fun hdrop => ?_, fun hf => ?_⟩
    · obtain ⟨hf, hx⟩ := hdrop
      have hbefore := hcl.new f x hf hx
      rwa [update_of_ne] at hbefore
      rintro rfl
      rw [update_self] at hbefore
      cases hbefore
      exact hx rfl
    · refine ⟨hcl.grows f x ?_, hne (h.shape.live hf).1⟩
      rw [update_of_ne, hf]
      rintro rfl
      rw [hnew.noTable] at hf
      cases hf
  · rw [hmem]
    exact hcl.inv

theorem Wf.vmmCloneAddressSpace (h : Wf boot live extra pos p) (hextra : ∀ f, 0 ≤ extra f) (hr : parent.root ∈ live)
    (hmax : ∀ f, userRefs p.mem live f + spaceRefs p.mem parent.root f + extra f ≤ 65535)
    (Q : Nat → (Nat → Nat → Nat) → Prop) (hQ : ∀ c ∉ live, CloneInv (insert c live) parent.root c (Q c))
    (hinit : ∀ c ∉ live, ∀ m, SameView live p.mem m → (∀ v < userPages, pte m c v = none) → Q c m) :
    ∃ p' o, Litenix.vmmCloneAddressSpace p parent = .ok (p', o) ∧ Cloned boot live p p' ∧
      ((o = none ∧ CloneUndone boot live extra pos Q p p') ∨
        ∃ child self, o = some child ∧ CloneDone boot live extra Q parent p p' child self) := by
  obtain ⟨s', o, hcall, hcloned, hcase⟩ := Wf.vmmCloneAddressSpace_supply (s := .full p) h hextra hr hmax Q hQ hinit
  rw [Supply.vmmCloneAddressSpace_full] at hcall
  cases hplain : Litenix.vmmCloneAddressSpace p parent with
  | error e =>
    rw [hplain] at hcall
    cases hcall
  | ok r =>
    rw [hplain] at hcall
    cases hcall
    exact ⟨r.1, r.2, rfl, hcloned, hcase⟩

end Clone

end Litenix
