import Litenix.VmaRuns
import Mathlib.Algebra.BigOperators.Fin

/-! The table of areas as a partial function from addresses to mappings. `sys_munmap` removes the addresses
of its range from this function, and `sys_mprotect` replaces the protection there; both are proved for one
iteration of their loops over the table and for one merge, and put together for the calls. -/

namespace Litenix

open Lib Function

variable {x : Nat} {v vma : Vma} {m : Mm}

/-- What the table says about an address. An anonymous area has no file and no offset. -/
structure Mapping where
  prot : Nat
  isPrivate : Bool
  file : Option FileId
  fileOffset : Option Nat
  deriving DecidableEq

def Vma.mapping (vma : Vma) (x : Nat) : Mapping where
  prot := vma.protFlags
  isPrivate := vma.isPrivate
  file := vma.backing
  fileOffset := if vma.isAnonymous then none else some (vma.offsetAt x)

/-- The mapping of an address, as `vma_find` finds it. -/
def vmaView (t : VmaTable) (x : Nat) : Option Mapping := (vmaFind t x).map fun i => (t i).mapping x

/-- The areas do not end before they begin. -/
def AreasOrdered (t : VmaTable) : Prop := ∀ i, (t i).valid = true → (t i).start ≤ (t i).stop

def AreasDisjoint (t : VmaTable) : Prop := Apart fun i => (t i).covers

/-! ### The mapping of a part -/

theorem offsetAt_above (vma : Vma) (start x : Nat) :
    Vma.offsetAt { vma with start := start, fileOffset := vma.offsetAt start } x = vma.offsetAt x := by
  simp only [Vma.offsetAt]
  cases vma.isAnonymous
  · simp only [Bool.false_eq_true, if_false, add64, sub64]
    omega
  · rfl

theorem mapping_above (vma : Vma) (start x : Nat) :
    Vma.mapping { vma with start := start, fileOffset := vma.offsetAt start } x = vma.mapping x := by
  simp only [Vma.mapping, offsetAt_above]
  rfl

/-- The offset that `sys_mprotect` subtracts again for the lower part of an area. -/
theorem mapping_below (vma : Vma) (stop x : Nat) :
    Vma.mapping { vma with fileOffset := if vma.isAnonymous then vma.offsetAt stop
                             else sub64 (vma.offsetAt stop) (sub64 stop vma.start) } x = vma.mapping x := by
  simp only [Vma.mapping, Vma.backing, Vma.offsetAt]
  cases vma.isAnonymous
  · simp only [Bool.false_eq_true, if_false, Mapping.mk.injEq, true_and, Option.some.injEq, add64, sub64]
    omega
  · rfl

/-- An area that is joined to another one goes on with its mapping. -/
theorem mapping_of_mergeable {a b : Vma} (h : a.mergeable b = true) (x : Nat) : a.mapping x = b.mapping x := by
  simp only [Vma.mergeable, Bool.and_eq_true, Bool.or_eq_true, beq_iff_eq] at h
  obtain ⟨⟨⟨⟨⟨⟨⟨hstop, hprot⟩, -⟩, hanon⟩, hprivate⟩, hfile⟩, -⟩, hoffset⟩ := h
  simp only [Vma.mapping, Vma.backing, hprot, hprivate, hfile, ← hanon, Mapping.mk.injEq, true_and]
  cases hcase : a.isAnonymous with
  | true => rfl
  | false =>
    have heq : add64 a.fileOffset (sub64 a.stop a.start) = b.fileOffset := by simpa [hcase] using hoffset
    simp only [Vma.offsetAt, ← hanon, hcase, Bool.false_eq_true, if_false, Option.some.injEq, ← heq, ← hstop, add64,
      sub64]
    omega

/-! ### The view of a disjoint table -/

theorem vmaView_eq_some_iff (h : AreasDisjoint t) {μ : Mapping} :
    vmaView t x = some μ ↔ ∃ i, (t i).covers x ∧ (t i).mapping x = μ := by
  rw [vmaView, Option.map_eq_some_iff]
  constructor
  · rintro ⟨i, hi, rfl⟩
    have htest := firstSlot_some hi
    simp only [Bool.and_eq_true, decide_eq_true_eq] at htest
    exact ⟨i, ⟨htest.1.1, htest.1.2, htest.2⟩, rfl⟩
  rintro ⟨i, hcovers, rfl⟩
  cases hfind : vmaFind t x with
  | none =>
    have htest := firstSlot_none_iff.mp hfind i
    simp [hcovers.1, hcovers.2.1, hcovers.2.2] at htest
  | some j =>
    have htest := firstSlot_some hfind
    simp only [Bool.and_eq_true, decide_eq_true_eq] at htest
    obtain rfl := h j i x ⟨htest.1.1, htest.1.2, htest.2⟩ hcovers
    exact ⟨j, rfl, rfl⟩

theorem vmaView_eq_none (h : ∀ i, ¬(t i).covers x) : vmaView t x = none := by
  rw [vmaView, Option.map_eq_none_iff]
  refine firstSlot_none_iff.mpr fun i => ?_
  have := h i
  simp only [Vma.covers, not_and, not_lt] at this
  simp only [Bool.and_eq_false_iff, decide_eq_false_iff_not]
  by_cases hvalid : (t i).valid = true
  · by_cases hlo : (t i).start ≤ x
    · exact .inr (by have := this hvalid hlo; omega)
    · exact .inl (.inr hlo)
  · exact .inl (.inl (by simpa using hvalid))

/-! ### Reshaping -/

/-- The new table covers only addresses that the old one covers, with mappings that are related to the old
ones, and all of them but those that are `lost`. -/
structure Reshapes (lost : Nat → Prop) (R : Nat → Mapping → Mapping → Prop) (t t' : VmaTable) : Prop where
  sound : ∀ k x, (t' k).covers x → ∃ i, (t i).covers x ∧ R x ((t i).mapping x) ((t' k).mapping x)
  complete : ∀ i x, (t i).covers x → ¬lost x → ∃ k, (t' k).covers x
  disjoint : AreasDisjoint t → AreasDisjoint t'

namespace Reshapes

variable {lost : Nat → Prop} {R : Nat → Mapping → Mapping → Prop} {t t' t'' : VmaTable} {w : Vma}

theorem refl (hR : ∀ x μ, R x μ μ) (t : VmaTable) : Reshapes lost R t t where
  sound k x hx := ⟨k, hx, hR x _⟩
  complete i _ hx _ := ⟨i, hx⟩
  disjoint h := h

theorem trans (hR : ∀ x μ ν ρ, R x μ ν → R x ν ρ → R x μ ρ) (h : Reshapes lost R t t')
    (h' : Reshapes lost R t' t'') : Reshapes lost R t t'' where
  sound k x hx := by
    obtain ⟨j, hj, hjk⟩ := h'.sound k x hx
    obtain ⟨i, hi, hij⟩ := h.sound j x hj
    exact ⟨i, hi, hR x _ _ _ hij hjk⟩
  complete i x hx hkeep := by
    obtain ⟨j, hj⟩ := h.complete i x hx hkeep
    exact h'.complete j x hj hkeep
  disjoint hdisjoint := h'.disjoint (h.disjoint hdisjoint)

/-- Each area of the new table comes from an area of the old one, and those that come from the same one are
apart. -/
theorem of_origin (origin : Fin vmaMax → Fin vmaMax → Prop)
    (hsound : ∀ k x, (t' k).covers x → ∃ i, origin k i ∧ (t i).covers x ∧ R x ((t i).mapping x) ((t' k).mapping x))
    (hkeep : ∀ i x, (t i).covers x → ¬lost x → ∃ k, (t' k).covers x)
    (hapart : ∀ k l i x, origin k i → origin l i → (t' k).covers x → (t' l).covers x → k = l) : Reshapes lost R t t' where
  sound k x hx := by
    obtain ⟨i, -, hi⟩ := hsound k x hx
    exact ⟨i, hi⟩
  complete := hkeep
  disjoint hdisjoint k l x hk hl := by
    obtain ⟨i, hki, hi, -⟩ := hsound k x hk
    obtain ⟨j, hlj, hj, -⟩ := hsound l x hl
    obtain rfl := hdisjoint i j x hi hj
    exact hapart k l i x hki hlj hk hl

/-- The area of a slot is cut into parts, which go into this slot and into free ones. -/
theorem of_parts (slots : List (Fin vmaMax)) (hR : ∀ x μ, R x μ μ) (hmem : i ∈ slots)
    (hslots : ∀ k ∈ slots, k = i ∨ (t k).valid = false) (hothers : ∀ k, k ∉ slots → t' k = t k)
    (hpart : ∀ k ∈ slots, ∀ x, (t' k).covers x → (t i).covers x ∧ R x ((t i).mapping x) ((t' k).mapping x))
    (hapart : ∀ k ∈ slots, ∀ l ∈ slots, ∀ x, (t' k).covers x → (t' l).covers x → k = l)
    (hkeep : ∀ x, (t i).covers x → ¬lost x → ∃ k ∈ slots, (t' k).covers x) : Reshapes lost R t t' := by
  refine of_origin (fun k l => l = if k ∈ slots then i else k) (fun k x hx => ⟨_, rfl, ?_⟩)
    (fun k x hx hlost => ?_) fun k l m x hk hl hkx hlx => ?_
  · by_cases hk : k ∈ slots
    · rw [if_pos hk]
      exact hpart k hk x hx
    · rw [hothers k hk, if_neg hk] at *
      exact ⟨hx, hR x _⟩
  · by_cases hk : k ∈ slots
    · rcases hslots k hk with rfl | hfree
      · obtain ⟨l, -, hl⟩ := hkeep x hx hlost
        exact ⟨l, hl⟩
      · exact nomatch hx.1.symm.trans hfree
    · exact ⟨k, by rwa [hothers k hk]⟩
  · have hsame : k = l ∨ k ∈ slots ∧ l ∈ slots := by grind
    rcases hsame with hkl | ⟨hk, hl⟩
    · exact hkl
    · exact hapart k hk l hl x hkx hlx

theorem set (hR : ∀ x μ, R x μ μ) (hpart : ∀ x, v.covers x → (t i).covers x ∧ R x ((t i).mapping x) (v.mapping x))
    (hkeep : ∀ x, (t i).covers x → ¬lost x → v.covers x) : Reshapes lost R t (update t i v) := by
  refine of_parts (i := i) [i] hR (by simp) (by simp) (fun k hk => update_of_ne (by simpa using hk) _ _) ?_ (by simp) ?_
  · simpa using hpart
  · simpa using hkeep

/-- One part stays in the slot of the area, and the other one goes into a free slot. -/
theorem split (hR : ∀ x μ, R x μ μ) (hvalid : (t i).valid = true) (hfree : (t j).valid = false)
    (hv : ∀ x, v.covers x → (t i).covers x ∧ R x ((t i).mapping x) (v.mapping x))
    (hw : ∀ x, w.covers x → (t i).covers x ∧ R x ((t i).mapping x) (w.mapping x))
    (hcut : ∀ x, v.covers x → ¬w.covers x) (hkeep : ∀ x, (t i).covers x → ¬lost x → v.covers x ∨ w.covers x) :
    Reshapes lost R t (update (update t i v) j w) := by
  have hij : i ≠ j := by
    rintro rfl
    cases hvalid.symm.trans hfree
  refine of_parts (i := i) [i, j] hR (by simp) (by simp [hfree]) (fun k hk => ?_) ?_ ?_ ?_
  · rw [List.mem_cons, List.mem_singleton, not_or] at hk
    rw [update_of_ne hk.2, update_of_ne hk.1]
  · simpa [update_of_ne hij] using ⟨hv, hw⟩
  · simpa [update_of_ne hij] using ⟨fun x hx hx' => absurd hx' (hcut x hx), fun x hx hx' => absurd hx (hcut x hx')⟩
  · simpa [update_of_ne hij] using hkeep

/-- One part has the addresses with a property, and the other one the rest. -/
theorem cut (hR : ∀ x μ, R x μ μ) {P : Nat → Prop} (hvalid : (t i).valid = true) (hfree : (t j).valid = false)
    (hv : ∀ x, v.covers x ↔ (t i).covers x ∧ P x) (hw : ∀ x, w.covers x ↔ (t i).covers x ∧ ¬P x)
    (hRv : ∀ x, v.covers x → R x ((t i).mapping x) (v.mapping x))
    (hRw : ∀ x, w.covers x → R x ((t i).mapping x) (w.mapping x)) :
    Reshapes lost R t (update (update t i v) j w) := by
  refine .split hR hvalid hfree (fun x hx => ⟨((hv x).mp hx).1, hRv x hx⟩) (fun x hx => ⟨((hw x).mp hx).1, hRw x hx⟩)
    (fun x hx hx' => ((hw x).mp hx').2 ((hv x).mp hx).2) fun x hx _ => ?_
  rw [hv, hw, ← and_or_left]
  exact ⟨hx, Classical.em _⟩

theorem vmaView_eq (h : Reshapes lost R t t') (hdisjoint : AreasDisjoint t) (hx : ¬lost x) :
    vmaView t x = none ∧ vmaView t' x = none ∨ ∃ μ ν, vmaView t x = some μ ∧ vmaView t' x = some ν ∧ R x μ ν := by
  by_cases hcovered : ∃ i, (t i).covers x
  · obtain ⟨i, hi⟩ := hcovered
    obtain ⟨k, hk⟩ := h.complete i x hi hx
    obtain ⟨j, hj, hR⟩ := h.sound k x hk
    exact .inr ⟨_, _, (vmaView_eq_some_iff hdisjoint).mpr ⟨j, hj, rfl⟩,
      (vmaView_eq_some_iff (h.disjoint hdisjoint)).mpr ⟨k, hk, rfl⟩, hR⟩
  · refine .inl ⟨vmaView_eq_none fun i hi => hcovered ⟨i, hi⟩, vmaView_eq_none fun k hk => ?_⟩
    obtain ⟨j, hj, -⟩ := h.sound k x hk
    exact hcovered ⟨j, hj⟩

theorem vmaView_same (h : Reshapes lost (fun _ => Eq) t t') (hdisjoint : AreasDisjoint t) (hx : ¬lost x) :
    vmaView t' x = vmaView t x := by
  rcases h.vmaView_eq hdisjoint hx with ⟨h1, h2⟩ | ⟨μ, ν, h1, h2, rfl⟩
  · rw [h1, h2]
  · rw [h1, h2]

end Reshapes

/-! ### Merging -/

theorem AreasOrdered.update (h : AreasOrdered t)
    (hv : v.valid = true → v.start ≤ v.stop) : AreasOrdered (update t i v) := by
  exact fun k => update_ind k hv fun _ => h k

section

variable {t : VmaTable} {i j : Fin vmaMax}

section

variable (h : AreasOrdered t) (hi : (t i).valid = true) (hj : (t j).valid = true)

include h hi hj

theorem AreasOrdered.mergeAt (hmeet : (t i).stop = (t j).start) : AreasOrdered (mergeAt t i j) := by
  refine (h.update fun _ => ?_).update fun hno => nomatch hno
  have := h i hi
  have := h j hj
  change (t i).start ≤ (t j).stop
  omega

/-- A merge changes no mapping. Both areas have to be in order: the joined area begins where the first one
does, also if that one ends before it begins. -/
theorem reshapes_mergeAt (hne : j ≠ i)
    (hmerge : (t i).mergeable (t j) = true) : Reshapes (fun _ => False) (fun _ => Eq) t (mergeAt t i j) := by
  have hmeet : (t i).stop = (t j).start := by
    simp only [Vma.mergeable, Bool.and_eq_true, beq_iff_eq] at hmerge
    exact hmerge.1.1.1.1.1.1.1
  have hiord := h i hi
  have hjord := h j hj
  have hmap {k : Fin vmaMax} (hkj : k ≠ j) (x : Nat) : (mergeAt t i j k).mapping x = (t k).mapping x := by
    rw [mergeAt, update_of_ne hkj]
    exact update_ind k rfl fun _ => rfl
  refine .of_origin (fun k l => k = if l = j then i else l) (fun k x hx => ?_) (fun k x hx _ => ?_)
    fun k l m x hk hl _ _ => hk.trans hl.symm
  · obtain ⟨hkj, hcovers⟩ := covers_mergeAt hi hj hmeet hx
    rw [hmap hkj]
    rcases hcovers with hk | ⟨rfl, hj⟩
    · exact ⟨k, (if_neg hkj).symm, hk, rfl⟩
    · exact ⟨j, (if_pos rfl).symm, hj, (mapping_of_mergeable hmerge x).symm⟩
  by_cases hkij : k = i ∨ k = j
  · refine ⟨i, ?_⟩
    rw [mergeAt, update_of_ne hne.symm, update_self]
    refine ⟨hi, ?_⟩
    have := hx.2
    dsimp only
    rcases hkij with rfl | rfl <;> omega
  · rw [not_or] at hkij
    refine ⟨k, ?_⟩
    rw [mergeAt, update_of_ne hkij.2, update_of_ne hkij.1]
    exact hx

end

end

theorem reshapes_vmaMergeAdjacent (h : AreasOrdered t) :
    Reshapes (fun _ => False) (fun _ => Eq) t (vmaMergeAdjacent t).1 := by
  refine (mergeLoop_inv (P := fun t' => AreasOrdered t' ∧ Reshapes (fun _ => False) (fun _ => Eq) t t')
    (fun t' pair hfind h => ?_) _ ⟨h, .refl (fun _ _ => rfl) t⟩).2
  obtain ⟨hi, hj, hne, hmerge⟩ := findMerge_mergeable hfind
  exact ⟨h.1.mergeAt hi hj (findMerge_some hfind).2.2.2.1,
    h.2.trans (fun _ _ _ _ => Eq.trans) (reshapes_mergeAt h.1 hi hj hne hmerge)⟩

theorem vmaView_vmaMergeAdjacent (h : AreasOrdered t) (hdisjoint : AreasDisjoint t) :
    vmaView (vmaMergeAdjacent t).1 x = vmaView t x :=
  (reshapes_vmaMergeAdjacent h).vmaView_same hdisjoint id

/-! ### The loop of `sys_munmap` -/

def InRange (start stop x : Nat) : Prop := start ≤ x ∧ x < stop

/-- The test of `sys_munmap` before its loop: an area that has to be split finds a free slot. -/
def SplitReady (start stop : Nat) (t : VmaTable) : Prop :=
  ∀ k, (t k).valid = true → (t k).start < start → stop < (t k).stop → ∃ j, (t j).valid = false

theorem splitReady_of_check
    (h : needSplitSlot t start stop = true → freeSlot t ≠ none) : SplitReady start stop t := by
  intro k hvalid hlo hhi
  have hneed : needSplitSlot t start stop = true := by
    rw [needSplitSlot, Option.isSome_iff_ne_none]
    intro hnone
    have := firstSlot_none_iff.mp hnone k
    simp [hvalid, hlo, hhi] at this
  obtain ⟨j, hj⟩ := Option.ne_none_iff_exists'.mp (h hneed)
  exact ⟨j, freeSlot_some hj⟩

section

variable {start stop : Nat} {t t' : VmaTable} {closed closed' : List FileId} {i : Fin vmaMax}

theorem AreasOrdered.munmapCut (h : AreasOrdered t) (hcut : MunmapCut start stop t closed i t' closed') :
    AreasOrdered t' := by
  cases hcut with
  | skip _ => exact h
  | drop _ _ _ => exact h.update fun hno => nomatch hno
  | lower _ hlo _ _ | short _ _ hlo _ => exact h.update fun _ => hlo.le
  | upper _ _ _ hhi => exact h.update fun _ => hhi.le
  | split j _ _ hlo hhi => exact (h.update fun _ => hlo.le).update fun _ => hhi.le

/-- After an iteration the split that may be left still finds a free slot: a second area that contains the
range would meet the first one. -/
theorem SplitReady.munmapCut (h : SplitReady start stop t) (hdisjoint : AreasDisjoint t) (hle : start ≤ stop)
    (hcut : MunmapCut start stop t closed i t' closed') : SplitReady start stop t' := by
  -- a slot that still contains the range was not written
  have hsame : ∀ v : Vma, ¬(v.start < start ∧ stop < v.stop) → v.valid = (t i).valid →
      SplitReady start stop (update t i v) := by
    intro v hv hvalid k
    refine update_ind k (fun _ hlo hhi => absurd ⟨hlo, hhi⟩ hv) fun _ hk hlo hhi => ?_
    obtain ⟨j, hj⟩ := h k hk hlo hhi
    refine ⟨j, ?_⟩
    revert hj
    exact update_ind j hvalid.trans fun _ => id
  cases hcut with
  | skip _ => exact h
  | drop _ _ _ => exact fun _ _ _ _ => ⟨i, by rw [update_self]⟩
  | lower _ _ _ _ | short _ _ _ _ => exact hsame _ (fun hno => absurd hno.2 (Nat.not_lt_of_le hle)) rfl
  | upper _ _ _ _ => exact hsame _ (fun hno => absurd hno.1 (Nat.not_lt_of_le hle)) rfl
  | split j hvalid _ hlo hhi =>
  intro k
  refine update_ind k (fun _ hklo => absurd hklo (Nat.not_lt_of_le hle)) fun _ => ?_
  refine update_ind k (fun _ _ hkhi => absurd hkhi (Nat.not_lt_of_le hle)) fun hki hk hklo hkhi => ?_
  exact absurd (hdisjoint k i start ⟨hk, hklo.le, by omega⟩ ⟨hvalid, hlo.le, by omega⟩) hki

/-- An iteration takes the range out of the area of its slot, and changes no mapping outside. -/
theorem reshapes_munmapCut (hle : start ≤ stop) (hready : SplitReady start stop t)
    (hcut : MunmapCut start stop t closed i t' closed') : Reshapes (InRange start stop) (fun _ => Eq) t t' := by
  have hR : ∀ (x : Nat) (μ : Mapping), μ = μ := fun _ _ => rfl
  cases hcut with
  | skip _ => exact .refl hR t
  | drop hvalid hlo hhi =>
    refine .set hR (fun x hx => nomatch hx.1) fun x hx hlost => absurd ⟨?_, ?_⟩ hlost
    · exact hlo.trans hx.2.1
    · exact hx.2.2.trans_le hhi
  | lower hvalid hlo hhi hend =>
    refine .set hR (fun x hx => ⟨⟨hvalid, hx.2.1, hx.2.2.trans hhi⟩, rfl⟩) fun x hx hlost => ?_
    refine ⟨hvalid, hx.2.1, ?_⟩
    change x < start
    by_contra hge
    exact hlost ⟨by omega, hx.2.2.trans_le hend⟩
  | upper hvalid hbegin hlo hhi =>
    refine .set hR (fun x hx => ⟨⟨hvalid, hlo.le.trans hx.2.1, hx.2.2⟩, (mapping_above ..).symm⟩)
      fun x hx hlost => ?_
    refine ⟨hvalid, ?_, hx.2.2⟩
    change stop ≤ x
    by_contra hlt
    exact hlost ⟨hbegin.trans hx.2.1, by omega⟩
  | short hvalid hnone hlo hhi =>
    obtain ⟨j, hj⟩ := hready i hvalid hlo hhi
    have hused := firstSlot_none_iff.mp hnone j
    rw [hj] at hused
    cases hused
  | split j hvalid hfree hlo hhi =>
  refine .split hR hvalid hfree ?_ ?_ ?_ ?_
  · exact fun x hx => ⟨⟨hvalid, hx.2.1, hx.2.2.trans_le (hle.trans hhi.le)⟩, rfl⟩
  · exact fun x hx => ⟨⟨hvalid, (hlo.le.trans hle).trans hx.2.1, hx.2.2⟩, (mapping_above ..).symm⟩
  · exact fun x hx hx' => absurd (hx.2.2.trans_le hle) (Nat.not_lt_of_le hx'.2.1)
  intro x hx hlost
  by_cases hlt : x < start
  · exact .inl ⟨hvalid, hx.2.1, hlt⟩
  refine .inr ⟨hvalid, ?_, hx.2.2⟩
  change stop ≤ x
  by_contra hxs
  exact hlost ⟨by omega, by omega⟩

end

/-- **`sys_munmap` on the table.** The addresses of the range are no longer mapped, and the others are mapped
as before. -/
theorem vmaView_munmapVmas (hle : start ≤ stop) (hdisjoint : AreasDisjoint t)
    (hordered : AreasOrdered t) (hready : SplitReady start stop t) (x : Nat) :
    vmaView (munmapVmas t start stop).1 x = if start ≤ x ∧ x < stop then none else vmaView t x := by
  split
  · rename_i hx
    exact vmaView_eq_none fun i => uncovered_munmapVmas t _ _ i x hx.1 hx.2
  rename_i hx
  obtain ⟨hord, -, hdis, hre⟩ := foldl_inv
    (fun s : VmaTable × List FileId => AreasOrdered s.1 ∧ SplitReady start stop s.1 ∧ AreasDisjoint s.1 ∧
      Reshapes (InRange start stop) (fun _ => Eq) t s.1)
    ⟨hordered, hready, hdisjoint, .refl (fun _ _ => rfl) t⟩ (f := munmapSlot start stop) (l := List.finRange vmaMax)
    (s := (t, [])) fun s i _ hs => by
      obtain ⟨hord, hrdy, hdis, hre⟩ := hs
      have hcut := munmapSlot_cut start stop s i
      have hstep := reshapes_munmapCut hle hrdy hcut
      exact ⟨hord.munmapCut hcut, hrdy.munmapCut hdis hle hcut, hstep.disjoint hdis,
        hre.trans (fun _ _ _ _ => Eq.trans) hstep⟩
  rw [munmapVmas, vmaView_vmaMergeAdjacent hord hdis, hre.vmaView_same hdisjoint hx]

/-! ### The loop of `sys_mprotect` -/

/-- The free slots less the slots that the loop still needs. -/
def slotBalance (start stop : Nat) (t : VmaTable) : Int :=
  ∑ k, ((if (t k).valid then 0 else 1 : Int) - slotsFor start stop (t k))

theorem slotBalance_eq (start stop : Nat) (t : VmaTable) :
    slotBalance start stop t = slotsAvailable t - slotsNeeded t start stop := by
  have hfree : (slotsAvailable t : Int) = ∑ k, if (t k).valid then 0 else 1 := by
    rw [slotsAvailable, Fin.sum_univ_def]
    induction List.finRange vmaMax with
    | nil => rfl
    | cons k rest ih =>
      rw [List.countP_cons, List.map_cons, List.sum_cons, ← ih]
      cases (t k).valid <;> simp [add_comm]
  rw [slotBalance, Finset.sum_sub_distrib, hfree, slotsNeeded, ← Fin.sum_univ_def, Nat.cast_sum]

/-- The part of the balance that a slot in use has. -/
def Vma.charge (start stop : Nat) (vma : Vma) : Int := (if vma.valid then 0 else 1) - slotsFor start stop vma

theorem charge_free (h : vma.valid = false) : vma.charge start stop = 1 := by
  simp [Vma.charge, slotsFor, h]

theorem charge_used (hvalid : vma.valid = true)
    (hslots : slotsFor start stop vma = n) : vma.charge start stop = -n := by
  rw [Vma.charge, hslots, hvalid, if_pos rfl, zero_sub]

/-- A part inside the range, or outside of it, needs no slot. -/
theorem charge_part (hle : start ≤ stop) (hvalid : vma.valid = true)
    (h : start ≤ vma.start ∧ vma.stop ≤ stop ∨ vma.stop ≤ start ∨ stop ≤ vma.start) : vma.charge start stop = 0 := by
  refine charge_used (n := 0) hvalid ?_
  rw [slotsFor, hvalid, if_neg (by simp), if_neg (by omega), if_neg (by omega), if_neg (by omega)]

/-- The relation between the old and the new mapping of an address. -/
def Reprotected (start stop prot x : Nat) (μ ν : Mapping) : Prop :=
  ν = μ ∨ InRange start stop x ∧ ν = { μ with prot := prot }

theorem Reprotected.trans (h : Reprotected start stop prot x μ ν)
    (h' : Reprotected start stop prot x ν ρ) : Reprotected start stop prot x μ ρ := by
  rcases h with rfl | ⟨hx, rfl⟩
  · exact h'
  · rcases h' with rfl | ⟨-, rfl⟩ <;> exact .inr ⟨hx, rfl⟩

section

variable {start stop prot flags : Nat} {t t' : VmaTable} {i : Fin vmaMax}

theorem AreasOrdered.mprotectCut (h : AreasOrdered t) (hle : start ≤ stop)
    (hcut : MprotectCut start stop prot flags t i t') : AreasOrdered t' := by
  cases hcut with
  | skip _ | short _ => exact h
  | whole hvalid _ _ => exact h.update fun _ => h i hvalid
  | middle j k _ _ _ _ hlo hhi => exact ((h.update fun _ => hlo.le).update fun _ => hle).update fun _ => hhi.le
  | upper j _ _ hlo hhi _ => exact (h.update fun _ => hlo.le).update fun _ => hhi.le
  | lower j _ _ _ hlo hhi => exact (h.update fun _ => hhi.le).update fun _ => hlo.le

theorem ne_of_free (hvalid : (t i).valid = true) (hfree : (t j).valid = false) : j ≠ i := by
  rintro rfl
  cases hvalid.symm.trans hfree

theorem slotBalance_part (hv : v.charge start stop = 0) :
    slotBalance start stop (update t i v) = slotBalance start stop t - (t i).charge start stop := by
  have hcharge : (fun k => (update t i v k).charge start stop) =
      update (fun k => (t k).charge start stop) i 0 := by
    rw [← hv]
    exact comp_update (Vma.charge start stop) t i v
  change ∑ k, (update t i v k).charge start stop = ∑ k, (t k).charge start stop - _
  rw [hcharge, Finset.sum_update_of_mem (Finset.mem_univ i), zero_add, Finset.sum_sdiff_eq_sub (Finset.subset_univ _),
    Finset.sum_singleton]

/-- The parts that an iteration makes need no further slots, and it takes as many as the area needed. -/
theorem slotBalance_mprotectCut (hle : start ≤ stop) (hcut : MprotectCut start stop prot flags t i t') :
    slotBalance start stop t' = slotBalance start stop t := by
  cases hcut with
  | skip _ | short _ => rfl
  | whole hvalid hlo hhi =>
    have hold : (t i).charge start stop = 0 := charge_part hle hvalid (.inl ⟨hlo, hhi⟩)
    rw [slotBalance_part, hold, sub_zero]
    exact charge_part hle hvalid (.inl ⟨hlo, hhi⟩)
  | middle j k hvalid hj hk hjk hlo hhi =>
    have harea : (t i).charge start stop = -(2 : Nat) :=
      charge_used hvalid (by rw [slotsFor, hvalid, if_neg (by simp), if_pos ⟨hlo, hhi⟩])
    rw [slotBalance_part, slotBalance_part, slotBalance_part, update_of_ne hjk.symm, update_of_ne (ne_of_free hvalid hk),
      update_of_ne (ne_of_free hvalid hj), charge_free hj, charge_free hk, harea]
    · omega
    · exact charge_part hle hvalid (.inr (.inl le_rfl))
    · exact charge_part hle hvalid (.inl ⟨le_rfl, le_rfl⟩)
    · exact charge_part hle hvalid (.inr (.inr le_rfl))
  | upper j hvalid hj hlo hhi hend =>
    have harea : (t i).charge start stop = -(1 : Nat) := charge_used hvalid (by
      rw [slotsFor, hvalid, if_neg (by simp), if_neg (by omega), if_pos ⟨hlo, hhi, hend⟩])
    rw [slotBalance_part, slotBalance_part, update_of_ne (ne_of_free hvalid hj), charge_free hj, harea]
    · omega
    · exact charge_part hle hvalid (.inr (.inl le_rfl))
    · exact charge_part hle hvalid (.inl ⟨le_rfl, hend⟩)
  | lower j hvalid hj hbegin hlo hhi =>
    have harea : (t i).charge start stop = -(1 : Nat) := charge_used hvalid (by
      rw [slotsFor, hvalid, if_neg (by simp), if_neg (by omega), if_neg (by omega), if_pos ⟨hbegin, hlo, hhi⟩])
    rw [slotBalance_part, slotBalance_part, update_of_ne (ne_of_free hvalid hj), charge_free hj, harea]
    · omega
    · exact charge_part hle hvalid (.inr (.inr le_rfl))
    · exact charge_part hle hvalid (.inl ⟨hbegin, le_rfl⟩)

theorem slotsFor_le (hready : 0 ≤ slotBalance start stop t) (i : Fin vmaMax) :
    slotsFor start stop (t i) ≤ slotsAvailable t := by
  have hsum : slotsFor start stop (t i) ≤ slotsNeeded t start stop :=
    List.single_le_sum (by simp) _ (List.mem_map.mpr ⟨i, List.mem_finRange i, rfl⟩)
  rw [slotBalance_eq] at hready
  omega

/-- An iteration replaces the protection of addresses of the range, and changes nothing else. -/
theorem reshapes_mprotectCut (hle : start ≤ stop) (hcut : MprotectCut start stop prot flags t i t') :
    Reshapes (fun _ => False) (Reprotected start stop prot) t t' := by
  have hR : ∀ x μ, Reprotected start stop prot x μ μ := fun _ _ => .inl rfl
  cases hcut with
  | skip _ | short _ => exact .refl hR t
  | whole hvalid hlo hhi =>
    refine .set hR (fun x hx => ⟨⟨hvalid, hx.2⟩, .inr ⟨?_, rfl⟩⟩) fun x hx _ => ⟨hvalid, hx.2⟩
    exact ⟨hlo.trans hx.2.1, hx.2.2.trans_le hhi⟩
  | upper j hvalid hj hlo hhi hend =>
    refine .cut hR (P := (· < start)) hvalid hj (fun x => ?_) (fun x => ?_) (fun _ _ => .inl rfl) fun x hx =>
      .inr ⟨⟨hx.2.1, hx.2.2.trans_le hend⟩, ?_⟩
    · simp only [Vma.covers, hvalid, true_and]
      omega
    · simp only [Vma.covers, hvalid, true_and]
      omega
    · rw [← mapping_above (t i) start x]
      rfl
  | lower j hvalid hj hbegin hlo hhi =>
    refine .cut hR (P := (stop ≤ ·)) hvalid hj (fun x => ?_) (fun x => ?_) (fun _ _ => .inl (mapping_above ..)) fun x hx =>
      .inr ⟨⟨hbegin.trans hx.2.1, hx.2.2⟩, ?_⟩
    · simp only [Vma.covers, hvalid, true_and]
      omega
    · simp only [Vma.covers, hvalid, true_and]
      omega
    · rw [← mapping_below (t i) stop x]
      rfl
  | middle j k hvalid hj hk hjk hlo hhi =>
  have hji := ne_of_free hvalid hj
  have hki := ne_of_free hvalid hk
  refine .of_parts (i := i) [i, j, k] hR (by simp) (by simp [hj, hk]) (fun l hl => ?_) ?_ ?_ fun x hx _ => ?_
  · simp only [List.mem_cons, List.not_mem_nil, or_false, not_or] at hl
    rw [update_of_ne hl.2.2, update_of_ne hl.2.1, update_of_ne hl.1]
  all_goals simp only [List.mem_cons, List.not_mem_nil, or_false, forall_eq_or_imp, forall_eq, exists_eq_or_imp,
    exists_eq_left, update_self, update_of_ne hji.symm, update_of_ne hki.symm, update_of_ne hjk]
  · have hmiddle {x : Nat} : Vma.mapping { t i with
        start := start, stop := stop, protFlags := prot, flags := flags, fileOffset := (t i).offsetAt start } x =
        { (t i).mapping x with prot := prot } := by
      rw [← mapping_above (t i) start x]
      rfl
    refine ⟨fun x hx => ⟨?_, .inl rfl⟩, fun x hx => ⟨?_, .inr ⟨hx.2, hmiddle⟩⟩, fun x hx => ⟨?_, .inl (mapping_above ..)⟩⟩
    all_goals exact ⟨hvalid, by have := hx.2; dsimp only at this; omega⟩
  · refine ⟨?_, ?_, ?_⟩ <;> simp +contextual [Vma.covers] <;> omega
  · simp only [Vma.covers, hvalid, true_and] at hx ⊢
    omega

/-- The addresses of the range in the area have the new protection. -/
def Vma.Settled (start stop prot : Nat) (vma : Vma) : Prop :=
  ∀ x, vma.covers x → InRange start stop x → vma.protFlags = prot

theorem Vma.settled_of_apart (h : vma.stop ≤ start ∨ stop ≤ vma.start) : vma.Settled start stop prot := by
  intro x hx hrange
  have := hx.2
  have := hrange.1
  have := hrange.2
  omega

/-- An iteration settles its slot, and the slots that were settled before stay so. -/
theorem settled_mprotectCut (hready : 0 ≤ slotBalance start stop t)
    (hcut : MprotectCut start stop prot flags t i t') (k : Fin vmaMax)
    (hk : k = i ∨ (t k).Settled start stop prot) : (t' k).Settled start stop prot := by
  have hset : ∀ (t : VmaTable) (j : Fin vmaMax) (v : Vma), v.Settled start stop prot →
      (k = j ∨ (t k).Settled start stop prot) → (update t j v k).Settled start stop prot := by
    exact fun t j v hv hor => update_ind k hv fun hkj => hor.resolve_left hkj
  cases hcut with
  | skip hout =>
    rcases hk with rfl | hk
    · exact fun x hx => Vma.settled_of_apart (hout hx.1) x hx
    · exact hk
  | short hshort => exact absurd hshort (Nat.not_lt_of_le (slotsFor_le hready i))
  | whole _ _ _ => exact hset t i _ (fun _ _ _ => rfl) hk
  | middle j l _ _ _ _ _ _ =>
    refine hset _ l _ (Vma.settled_of_apart (.inr le_rfl)) (.inr ?_)
    refine hset _ j _ (fun _ _ _ => rfl) (.inr ?_)
    exact hset t i _ (Vma.settled_of_apart (.inl le_rfl)) hk
  | upper j _ _ _ _ _ =>
    refine hset _ j _ (fun _ _ _ => rfl) (.inr ?_)
    exact hset t i _ (Vma.settled_of_apart (.inl le_rfl)) hk
  | lower j _ _ _ _ _ =>
    refine hset _ j _ (fun _ _ _ => rfl) (.inr ?_)
    exact hset t i _ (Vma.settled_of_apart (.inr le_rfl)) hk

end

/-- **`sys_mprotect` on the table.** The addresses of the range that are mapped get the new protection, and
nothing else changes. -/
theorem vmaView_mprotectVmas (prot flags : Nat) (hle : start ≤ stop)
    (hdisjoint : AreasDisjoint t) (hordered : AreasOrdered t)
    (hslots : slotsNeeded t start stop ≤ slotsAvailable t) (x : Nat) :
    vmaView (mprotectVmas t start stop prot flags).1 x =
      if start ≤ x ∧ x < stop then (vmaView t x).map fun μ => { μ with prot := prot } else vmaView t x := by
  have hready : 0 ≤ slotBalance start stop t := by
    rw [slotBalance_eq]
    omega
  have hstep : ∀ t : VmaTable, 0 ≤ slotBalance start stop t → ∀ i,
      0 ≤ slotBalance start stop (mprotectSlot start stop prot flags t i) := by
    intro t ht i
    rw [slotBalance_mprotectCut hle (mprotectSlot_cut start stop prot flags t i)]
    exact ht
  have hsettled : ∀ k, ((List.finRange vmaMax).foldl (mprotectSlot start stop prot flags) t k).Settled
      start stop prot := by
    intro k
    exact foldl_establish_of_inv (fun t => 0 ≤ slotBalance start stop t) (fun t => (t k).Settled start stop prot)
      (List.mem_finRange k) hready (fun t i _ ht => hstep t ht i)
      (fun t ht => settled_mprotectCut ht (mprotectSlot_cut ..) k (.inl rfl))
      fun t i _ ht hk => settled_mprotectCut ht (mprotectSlot_cut ..) k (.inr hk)
  obtain ⟨hord, hre⟩ := foldl_inv
    (fun t' => AreasOrdered t' ∧ Reshapes (fun _ => False) (Reprotected start stop prot) t t')
    ⟨hordered, .refl (fun _ _ => .inl rfl) t⟩ (f := mprotectSlot start stop prot flags) (l := List.finRange vmaMax)
    (s := t) fun t' i _ h => by
      have hcut := mprotectSlot_cut start stop prot flags t' i
      exact ⟨h.1.mprotectCut hle hcut,
        h.2.trans (fun _ _ _ _ => Reprotected.trans) (reshapes_mprotectCut hle hcut)⟩
  rw [mprotectVmas]
  generalize (List.finRange vmaMax).foldl (mprotectSlot start stop prot flags) t = t' at hsettled hord hre ⊢
  have hdis := hre.disjoint hdisjoint
  rw [vmaView_vmaMergeAdjacent hord hdis]
  rcases hre.vmaView_eq hdisjoint (x := x) id with ⟨h1, h2⟩ | ⟨μ, ν, h1, h2, hrel⟩
  · rw [h1, h2, Option.map_none, ite_self]
  rw [h1, h2]
  split
  · rename_i hx
    obtain ⟨k, hk, rfl⟩ := (vmaView_eq_some_iff hdis).mp h2
    have hprot : ((t' k).mapping x).prot = prot := hsettled k x hk hx
    rcases hrel with hsame | ⟨-, hnew⟩
    · rw [Option.map_some, ← hsame, ← hprot]
    · rw [Option.map_some, hnew]
  · rename_i hx
    rcases hrel with hsame | ⟨hrange, -⟩
    · rw [hsame]
    · exact absurd hrange hx

/-! ### The calls -/

/-- A call that returns `0` changes the mapping of every address in the given way, and a call that returns an
error changes none. -/
def Pointwise (change : Nat → Option Mapping → Option Mapping) (m : Mm) (result : Except Panic Reply) : Prop :=
  ∀ reply, result = .ok reply → ∀ x, vmaView reply.mm.proc.vmas x =
    match reply.ret with
    | .ok _ => change x (vmaView m.proc.vmas x)
    | .error _ => vmaView m.proc.vmas x

def unmapped (addr length x : Nat) (μ : Option Mapping) : Option Mapping :=
  if addr ≤ x ∧ x < addr + pageAlignUp length then none else μ

def reprotected (addr length prot x : Nat) (μ : Option Mapping) : Option Mapping :=
  if addr ≤ x ∧ x < addr + pageAlignUp length then μ.map fun μ => { μ with prot := prot } else μ

theorem pointwise_fail (change : Nat → Option Mapping → Option Mapping) (m : Mm) (e : Errno) :
    Pointwise change m (m.fail e) := by
  rintro _ ⟨⟩ x
  rfl

theorem add64_of_le (ha : a < 2 ^ 64) (hb : b < 2 ^ 64) (h : a ≤ add64 a b) : add64 a b = a + b := by
  unfold add64 at h ⊢
  omega

section

variable (hdisjoint : AreasDisjoint m.proc.vmas) (hordered : AreasOrdered m.proc.vmas) (addr length : UInt64)

include hdisjoint hordered

theorem pointwise_sysMunmap :
    Pointwise (unmapped addr.toNat length.toNat) m (sysMunmap m addr.toNat length.toNat) := by
  rcases sysMunmap_cases m addr.toNat length.toNat with ⟨e, heq⟩ | ⟨-, hle, hslot, heq⟩
  · rw [heq]
    exact pointwise_fail _ m e
  rw [heq, munmapRange]
  intro reply hreply x
  cases hdrop : dropPages m.phys m.space addr.toNat (add64 addr.toNat (pageAlignUp length.toNat)) with
  | error e =>
    rw [hdrop] at hreply
    cases hreply
  | ok p =>
    rw [hdrop] at hreply
    cases hreply
    have hstop := add64_of_le addr.toNat_lt (pageAlignUp_lt _) hle
    dsimp only [Mm.withVmas]
    rw [vmaView_munmapVmas hle hdisjoint hordered (splitReady_of_check hslot), hstop, unmapped]

theorem pointwise_sysMprotect (prot : UInt32) : Pointwise (reprotected addr.toNat length.toNat prot.toNat) m
      (sysMprotect m addr.toNat length.toNat prot.toNat) := by
  unfold sysMprotect
  dsimp only
  split
  · exact pointwise_fail _ m _
  split
  · rename_i hzero
    rintro _ ⟨⟩ x
    rw [reprotected, hzero, if_neg (by rw [show pageAlignUp 0 = 0 by decide +kernel]; omega)]
  split
  · exact pointwise_fail _ m _
  split
  · exact pointwise_fail _ m _
  rename_i hwrap hslots
  rintro _ ⟨⟩ x
  have hstop := add64_of_le addr.toNat_lt (pageAlignUp_lt _) (not_lt.mp hwrap)
  dsimp only [mprotectRange, Mm.withVmas]
  rw [vmaView_mprotectVmas _ _ (not_lt.mp hwrap) hdisjoint hordered (not_lt.mp hslots), hstop, reprotected]

end

theorem areasDisjoint_of_single (i : Fin vmaMax)
    (h : ∀ k, k ≠ i → (t k).valid = true → (t k).stop ≤ (t k).start) : AreasDisjoint t := by
  have honly : ∀ k x, (t k).covers x → k = i := by
    intro k x hx
    by_contra hk
    have := h k hk hx.1
    have := hx.2
    omega
  exact fun k l x hk hl => (honly k x hk).trans (honly l x hl).symm

/-- Three pages of a file, from its second page on. -/
def threePages : Vma where
  start := 0x7f0000000000
  stop := 0x7f0000003000
  protFlags := 3
  mmapFlags := 2
  isAnonymous := false
  isPrivate := true
  file := some 7
  fileOffset := 0x1000
  flags := 5
  valid := true

def threePagesMm : Mm := freshMm.withVmas (update freshMm.proc.vmas ⟨0, vmaMax_pos⟩ threePages)

/-- Two mappings of a new process, the second of which is so long that it ends where the first one begins. -/
def wrappedCalls : List MemCall := [.mmap 0 0x1000 1 0x22 (-1) 0, .mmap 0 0xffffffffffffe000 3 0x22 (-1) 0]

end Litenix
