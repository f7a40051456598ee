import Litenix.MemCalls

/-! The layout of the areas of a process: they are made of pages of user space, no two of them meet, and
none of them meets a reserved part of the address space, which is the heap. The loops over the table
keep the layout. -/

namespace Litenix

open Lib Function

variable {vma part : Vma} {closed closed' : List FileId} {fuel addr start stop : Nat} {wrapped : Bool} {t t' : VmaTable}
variable {i : Fin vmaMax}

/-- The address lies in the area. -/
def Vma.covers (vma : Vma) (x : Nat) : Prop := vma.valid = true ∧ vma.start ≤ x ∧ x < vma.stop

/-- The area is made of pages of user space. -/
structure Vma.Formed (vma : Vma) : Prop where
  start : vma.start % 4096 = 0
  stop : vma.stop % 4096 = 0
  base : vmmUserBase ≤ vma.start
  nonempty : vma.start < vma.stop
  top : vma.stop ≤ vmmUserTop + 1

structure Layout (reserved : Nat → Prop) (t : VmaTable) : Prop where
  formed : ∀ i, (t i).valid = true → (t i).Formed
  apart : Apart fun i => (t i).covers
  reserved : ∀ i x, (t i).covers x → ¬reserved x

/-- No area meets `[start, stop)`. -/
def Uncovered (t : VmaTable) (start stop : Nat) : Prop :=
  ∀ i x, start ≤ x → x < stop → ¬(t i).covers x

/-- `part` is a piece of an area that is made of pages. -/
structure Vma.Piece (vma part : Vma) : Prop where
  start : part.start % 4096 = 0
  stop : part.stop % 4096 = 0
  lo : vma.start ≤ part.start
  nonempty : part.start < part.stop
  hi : part.stop ≤ vma.stop

theorem Vma.Piece.formed (h : vma.Piece part) (hvma : vma.Formed) : part.Formed :=
  ⟨h.start, h.stop, hvma.base.trans h.lo, h.nonempty, h.hi.trans hvma.top⟩

theorem Vma.Piece.subset (h : vma.Piece part) (hvalid : vma.valid = true) (x : Nat) (hx : part.covers x) :
    vma.covers x :=
  ⟨hvalid, h.lo.trans hx.2.1, hx.2.2.trans_le h.hi⟩

theorem covers_update (t : VmaTable) (i : Fin vmaMax) (v : Vma) :
    (fun k => (update t i v k).covers) = update (fun k => (t k).covers) i v.covers := by
  exact eq_update_iff.mpr ⟨by rw [update_self], fun k hk => by rw [update_of_ne hk]⟩

/-- The joined area covers what both areas cover, and the second slot becomes free. -/
theorem covers_mergeAt (hi : (t i).valid = true) (hj : (t j).valid = true)
    (hmeet : (t i).stop = (t j).start) (hx : (mergeAt t i j k).covers x) :
    k ≠ j ∧ ((t k).covers x ∨ k = i ∧ (t j).covers x) := by
  rw [mergeAt] at hx
  by_cases hkj : k = j
  · rw [hkj, update_self] at hx
    cases hx.1
  rw [update_of_ne hkj] at hx
  refine ⟨hkj, ?_⟩
  revert hx
  refine update_ind k ?_ fun _ => .inl
  rintro ⟨-, hlo, hhi⟩
  by_cases hlt : x < (t i).stop
  · exact .inl ⟨hi, hlo, hlt⟩
  · exact .inr ⟨rfl, hj, by omega, hhi⟩

/-- A property that each merge keeps is kept by the loop. -/
theorem mergeLoop_inv {P : VmaTable → Prop}
    (hmerge : ∀ t pair, findMerge t = some pair → P t → P (mergeAt t pair.1 pair.2)) (fuel : Nat)
    (h : P t) : P (mergeLoop fuel t).1 := by
  induction fuel generalizing t with
  | zero => exact h
  | succ fuel ih =>
    rw [mergeLoop]
    cases hfind : findMerge t with
    | none => exact h
    | some pair => exact ih (hmerge t pair hfind h)

namespace Layout

variable {reserved : Nat → Prop} {t : VmaTable} {i j : Fin vmaMax}

section

variable (h : Layout reserved t) {v : Vma}

include h

theorem set (hformed : v.valid = true → v.Formed)
    (hsub : ∀ x, v.covers x → (t i).covers x) : Layout reserved (update t i v) := by
  have hshrink : ∀ k x, (update t i v k).covers x → (t k).covers x :=
    (forall_update_iff t fun k v => ∀ x, v.covers x → (t k).covers x).mpr ⟨hsub, fun _ _ _ => id⟩
  refine ⟨?_, h.apart.shrink hshrink, fun k x hx => h.reserved k x (hshrink k x hx)⟩
  exact (forall_update_iff t fun _ v => v.valid = true → v.Formed).mpr ⟨hformed, fun k _ => h.formed k⟩

theorem drop (i : Fin vmaMax) : Layout reserved (update t i { t i with valid := false }) := by
  refine h.set (fun hvalid => ?_) fun x hx => ?_
  · cases hvalid
  · cases hx.1

theorem add (hformed : v.Formed)
    (hfree : ∀ k, k ≠ i → ∀ x, v.covers x → ¬(t k).covers x) (hreserved : ∀ x, v.covers x → ¬reserved x) :
    Layout reserved (update t i v) := by
  refine ⟨?_, ?_, ?_⟩
  · exact (forall_update_iff t fun _ v => v.valid = true → v.Formed).mpr
      ⟨fun _ => hformed, fun k _ => h.formed k⟩
  · rw [covers_update]
    exact h.apart.insert hfree
  · exact (forall_update_iff t fun _ v => ∀ x, v.covers x → ¬reserved x).mpr
      ⟨hreserved, fun k _ => h.reserved k⟩

theorem shrink (hvalid : (t i).valid = true) (hv : (t i).Piece v) : Layout reserved (update t i v) :=
  h.set (fun _ => hv.formed (h.formed i hvalid)) (hv.subset hvalid)

theorem split (hvalid : (t i).valid = true) {w : Vma} (hv : (t i).Piece v)
    (hw : (t i).Piece w) (hcut : v.stop ≤ w.start ∨ w.stop ≤ v.start) :
    Layout reserved (update (update t i v) j w) := by
  refine (h.shrink hvalid hv).add (hw.formed (h.formed i hvalid)) (fun k _ x hx => ?_) fun x hx =>
    h.reserved i x (hw.subset hvalid x hx)
  refine update_ind k (fun hk => ?_) fun hki hk => hki (h.apart k i x hk (hw.subset hvalid x hx))
  have := hx.2
  have := hk.2
  omega

end

/-! ### Merging -/

theorem mergeAt (h : Layout reserved t) (hi : (t i).valid = true) (hj : (t j).valid = true) (hne : j ≠ i)
    (hmeet : (t i).stop = (t j).start) : Layout reserved (mergeAt t i j) := by
  have hfi := h.formed i hi
  have hfj := h.formed j hj
  refine ⟨fun k hk => ?_, fun k l x hk hl => ?_, fun k x hx => ?_⟩
  · rw [Litenix.mergeAt] at hk ⊢
    revert hk
    refine update_ind k nofun fun _ => update_ind k (fun _ => ?_) fun _ => h.formed k
    exact ⟨hfi.start, hfj.stop, hfi.base, hfi.nonempty.trans (hmeet ▸ hfj.nonempty), hfj.top⟩
  · obtain ⟨hkj, hkx | ⟨rfl, hkx⟩⟩ := covers_mergeAt hi hj hmeet hk <;>
      obtain ⟨hlj, hlx | ⟨rfl, hlx⟩⟩ := covers_mergeAt hi hj hmeet hl
    · exact h.apart k l x hkx hlx
    · exact absurd (h.apart k j x hkx hlx) hkj
    · exact absurd (h.apart l j x hlx hkx) hlj
    · rfl
  · rcases (covers_mergeAt hi hj hmeet hx).2 with hx | ⟨-, hx⟩
    · exact h.reserved k x hx
    · exact h.reserved j x hx

theorem vmaMergeAdjacent (h : Layout reserved t) : Layout reserved (vmaMergeAdjacent t).1 := by
  refine mergeLoop_inv (fun t pair hfind h => ?_) _ h
  obtain ⟨hi, hj, hne, hmeet, -⟩ := findMerge_some hfind
  exact h.mergeAt hi hj hne hmeet

end Layout

theorem Uncovered.vmaMergeAdjacent (h : Uncovered t start stop) : Uncovered (vmaMergeAdjacent t).1 start stop := by
  refine mergeLoop_inv (P := (Uncovered · start stop)) (fun t pair hfind h k x hlo hhi hx => ?_) _ h
  obtain ⟨hi, hj, hne, hmeet, -⟩ := findMerge_some hfind
  rcases (covers_mergeAt hi hj hmeet hx).2 with hx | ⟨-, hx⟩
  · exact h k x hlo hhi hx
  · exact h pair.2 x hlo hhi hx

/-- The number of slots in use. -/
def slotsUsed (t : VmaTable) : Nat := (Finset.univ.filter fun i => (t i).valid = true).card

/-! ### The loop of `sys_munmap` -/

section

variable {reserved : Nat → Prop} {start stop : Nat}

theorem Layout.munmapCut
    (h : Layout reserved t) (hcut : MunmapCut start stop t closed i t' closed') (hle : start ≤ stop)
    (hstart : start % 4096 = 0) (hstop : stop % 4096 = 0) : Layout reserved t' := by
  cases hcut with
  | skip _ => exact h
  | drop _ _ _ => exact h.drop i
  | lower hvalid hlo hhi _ => exact h.shrink hvalid ⟨(h.formed i hvalid).start, hstart, le_rfl, hlo, hhi.le⟩
  | upper hvalid _ hlo hhi => exact h.shrink hvalid ⟨hstop, (h.formed i hvalid).stop, hlo.le, hhi, le_rfl⟩
  | split j hvalid _ hlo hhi =>
    have hformed := h.formed i hvalid
    exact h.split hvalid ⟨hformed.start, hstart, le_rfl, hlo, hle.trans hhi.le⟩
      ⟨hstop, hformed.stop, hlo.le.trans hle, hhi, le_rfl⟩ (.inl hle)
  | short hvalid _ hlo hhi =>
    exact h.shrink hvalid ⟨(h.formed i hvalid).start, hstart, le_rfl, hlo, hle.trans hhi.le⟩

/-- An iteration takes its slot out of the range, and puts no other slot into it. -/
theorem MunmapCut.uncovers (hcut : MunmapCut start stop t closed i t' closed') (k : Fin vmaMax)
    (hk : k = i ∨ ∀ x, start ≤ x → x < stop → ¬(t k).covers x) : ∀ x, start ≤ x → x < stop → ¬(t' k).covers x := by
  intro x hlo hhi
  replace hk : k = i ∨ ¬(t k).covers x := hk.imp id fun h => h x hlo hhi
  -- a slot that is written gets no address of the range
  have hset : ∀ {t : VmaTable} {j : Fin vmaMax} {v : Vma}, ¬v.covers x → (k = j ∨ ¬(t k).covers x) →
      ¬(update t j v k).covers x := fun hv hk => update_ind k hv fun hkj => hk.resolve_left hkj
  have hbelow : ¬Vma.covers { t i with stop := start } x := fun hx => absurd hx.2.2 (not_lt.mpr hlo)
  have habove : ¬Vma.covers { t i with start := stop, fileOffset := (t i).offsetAt stop } x := fun hx =>
    absurd hx.2.1 (not_le.mpr hhi)
  cases hcut with
  | skip hskip =>
    refine hk.elim (fun heq hx => ?_) id
    subst heq
    have := hskip hx.1
    have := hx.2
    omega
  | drop _ _ _ => exact hset (fun hx => nomatch hx.1) hk
  | lower _ _ _ _ | short _ _ _ _ => exact hset hbelow hk
  | upper _ _ _ _ => exact hset habove hk
  | split j _ _ _ _ => exact hset habove (.inr (hset hbelow hk))

theorem uncovered_munmapVmas (t : VmaTable) (start stop : Nat) : Uncovered (munmapVmas t start stop).1 start stop := by
  rw [munmapVmas]
  dsimp only
  apply Uncovered.vmaMergeAdjacent
  intro k
  apply foldl_establish (fun s : VmaTable × List FileId => ∀ x, start ≤ x → x < stop → ¬(s.1 k).covers x)
    (List.mem_finRange k)
  · exact fun s => (munmapSlot_cut start stop s k).uncovers k (.inl rfl)
  · exact fun s i _ hs => (munmapSlot_cut start stop s i).uncovers k (.inr hs)

theorem Layout.munmapVmas (hle : start ≤ stop) (hstart : start % 4096 = 0) (hstop : stop % 4096 = 0)
    (h : Layout reserved t) : Layout reserved (munmapVmas t start stop).1 := by
  rw [Litenix.munmapVmas]
  dsimp only
  apply Layout.vmaMergeAdjacent
  apply foldl_inv (fun s : VmaTable × List FileId => Layout reserved s.1) h
  exact fun s i _ hs => hs.munmapCut (munmapSlot_cut start stop s i) hle hstart hstop

end

/-! ### The loop of `sys_mprotect` -/

section

variable {reserved : Nat → Prop} {start stop : Nat}

/-- The range is empty only if no area has to be cut in three. -/
def CutsWell (t : VmaTable) (start stop : Nat) : Prop :=
  start < stop ∨ start = stop ∧ ∀ i, (t i).valid = true → (t i).stop ≤ start ∨ start ≤ (t i).start

variable {prot flags : Nat}

theorem Layout.mprotectCut (h : Layout reserved t)
    (hwell : CutsWell t start stop) (hcut : MprotectCut start stop prot flags t i t')
    (hstart : start % 4096 = 0) (hstop : stop % 4096 = 0) : Layout reserved t' := by
  have hformed := h.formed i
  cases hcut with
  | skip _ | short _ => exact h
  | whole hvalid _ _ =>
    exact h.shrink hvalid ⟨(hformed hvalid).start, (hformed hvalid).stop, le_rfl, (hformed hvalid).nonempty, le_rfl⟩
  | middle j k hvalid _ _ _ hlo hhi =>
    have hlt : start < stop := by
      rcases hwell with hlt | ⟨rfl, hout⟩
      · exact hlt
      · have := hout i hvalid
        omega
    -- the area is cut at the beginning of the range, then the upper part at its end
    have hfirst := h.split (j := j) (v := { t i with stop := start }) (w := { t i with start := start }) hvalid
      ⟨(hformed hvalid).start, hstart, le_rfl, hlo, (hlt.trans hhi).le⟩
      ⟨hstart, (hformed hvalid).stop, hlo.le, hlt.trans hhi, le_rfl⟩ (.inl le_rfl)
    rw [← update_idem { t i with start := start } _ (update t i { t i with stop := start })]
    refine hfirst.split ?_ ?_ ?_ ?_
    · rwa [update_self]
    · rw [update_self]
      exact ⟨hstart, hstop, le_rfl, hlt, hhi.le⟩
    · rw [update_self]
      exact ⟨hstop, (hformed hvalid).stop, hlt.le, hhi, le_rfl⟩
    · exact .inl le_rfl
  | upper j hvalid _ hlo hhi _ =>
    exact h.split hvalid ⟨(hformed hvalid).start, hstart, le_rfl, hlo, hhi.le⟩
      ⟨hstart, (hformed hvalid).stop, hlo.le, hhi, le_rfl⟩ (.inl le_rfl)
  | lower j hvalid _ _ hlo hhi =>
    exact h.split hvalid ⟨hstop, (hformed hvalid).stop, hlo.le, hhi, le_rfl⟩
      ⟨(hformed hvalid).start, hstop, le_rfl, hlo, hhi.le⟩ (.inr le_rfl)

/-- Cutting a range of pages out of the areas does not put a boundary strictly inside one of them. -/
theorem CutsWell.mprotectCut (hwell : CutsWell t start stop)
    (hcut : MprotectCut start stop prot flags t i t') : CutsWell t' start stop := by
  rcases hwell with hlt | ⟨rfl, hout⟩
  · exact .inl hlt
  refine .inr ⟨rfl, ?_⟩
  cases hcut with
  | skip _ | short _ => exact hout
  | whole hvalid _ _ =>
    exact (forall_update_iff t fun _ v => v.valid = true → v.stop ≤ start ∨ start ≤ v.start).mpr
      ⟨fun _ => hout i hvalid, fun k _ => hout k⟩
  -- an empty range has no point strictly inside an area
  | middle j k hvalid _ _ _ hlo hhi | upper j hvalid _ hlo hhi _ | lower j hvalid _ _ hlo hhi =>
    have := hout i hvalid
    omega

theorem Layout.mprotectVmas (h : Layout reserved t) (hcut : CutsWell t start stop)
    (hstart : start % 4096 = 0) (hstop : stop % 4096 = 0) (prot flags : Nat) :
    Layout reserved (mprotectVmas t start stop prot flags).1 := by
  rw [Litenix.mprotectVmas]
  apply Layout.vmaMergeAdjacent
  have hloop := foldl_inv (fun t : VmaTable => Layout reserved t ∧ CutsWell t start stop) ⟨h, hcut⟩
    (f := mprotectSlot start stop prot flags) (l := List.finRange vmaMax) ?_
  · exact hloop.1
  · rintro t i - ⟨ht, hcut⟩
    have hslot := mprotectSlot_cut start stop prot flags t i
    exact ⟨ht.mprotectCut hcut hslot hstart hstop, hcut.mprotectCut hslot⟩

end

/-! ### The search for a free region -/

theorem uncovered_of_firstOverlap (h : firstOverlap t start stop = none) : Uncovered t start stop := by
  rintro i x hlo hhi ⟨hvalid, hx1, hx2⟩
  have htest := firstSlot_none_iff.mp h i
  simp only [hvalid, Bool.true_and, Bool.and_eq_false_iff, decide_eq_false_iff_not, not_lt] at htest
  omega

theorem firstOverlap_some (h : firstOverlap t start stop = some i) :
    (t i).valid = true ∧ start < (t i).stop ∧ (t i).start < stop := by
  have htest := firstSlot_some h
  simp only [Bool.and_eq_true, decide_eq_true_eq] at htest
  exact ⟨htest.1.1, htest.1.2, htest.2⟩

theorem pageAlignUp_of_aligned (hx : x % 4096 = 0) (hlt : x < 2 ^ 64 - 4096) : pageAlignUp x = x := by
  rw [pageAlignUp_eq, Nat.mod_eq_of_lt (by omega)]
  omega

section

variable {reserved : Nat → Prop} {t : VmaTable} {alignedLen startAddr : Nat}

theorem Layout.next (h : Layout reserved t) (hvalid : (t i).valid = true) : pageAlignUp (t i).stop = (t i).stop := by
  have hformed := h.formed i hvalid
  refine pageAlignUp_of_aligned hformed.stop ?_
  have := hformed.top
  unfold vmmUserTop at this
  omega

/-- A place in the arena where no area is in the way. -/
def FreePlace (t : VmaTable) (len b : Nat) : Prop := mmapBase ≤ b ∧ b + len ≤ mmapTop ∧ Uncovered t b (b + len)

/-- A search passes no free place: before it wraps around the places below its start are left, and then only these. -/
theorem Layout.regionLoop_spec (h : Layout reserved t) (hlen : alignedLen + 2 ^ 47 < 2 ^ 64) (hpos : 0 < alignedLen)
    {P : Prop} {result : Option Nat} (hmod : P → addr % 4096 = 0) (hbase : mmapBase ≤ addr)
    (hlt : addr + alignedLen < 2 ^ 64) (hleft : ∀ b, FreePlace t alignedLen b →
      (b < startAddr ∨ addr ≤ b) ∧ (wrapped = true → addr ≤ b ∧ b < startAddr))
    (hloop : regionLoop t alignedLen startAddr fuel addr wrapped = some result) :
    (∀ found ∈ result, FreePlace t alignedLen found ∧ (P → found % 4096 = 0)) ∧
      (result = none → ∀ b, ¬FreePlace t alignedLen b) := by
  induction fuel generalizing addr wrapped with
  | zero => cases hloop
  | succ fuel ih =>
  rw [regionLoop, add64_of_lt hlt] at hloop
  split at hloop
  · rename_i hfull
    have hbelow : ∀ b, FreePlace t alignedLen b → ¬addr ≤ b := fun b hb hle => by
      have := hb.2.1
      omega
    cases wrapped with
    | true =>
      cases hloop
      exact ⟨fun _ hno => (by cases hno), fun _ b hb => hbelow b hb ((hleft b hb).2 rfl).1⟩
    | false =>
      have hstart b (hb : FreePlace t alignedLen b) := (hleft b hb).1.resolve_right (hbelow b hb)
      exact ih (fun _ => by decide) le_rfl (by unfold mmapBase; omega)
        (fun b hb => ⟨.inl (hstart b hb), fun _ => ⟨hb.1, hstart b hb⟩⟩) hloop
  split at hloop
  · rename_i hnone
    cases hloop
    refine ⟨fun found hf => ?_, fun hno => by cases hno⟩
    cases hf
    exact ⟨⟨hbase, by omega, uncovered_of_firstOverlap hnone⟩, hmod⟩
  rename_i i hi
  obtain ⟨hvalid, hover, hbegin⟩ := firstOverlap_some hi
  have hformed := h.formed i hvalid
  have htop := hformed.top
  unfold vmmUserTop at htop
  -- the places from the address on to the end of the area meet the area
  have hpast : ∀ b, FreePlace t alignedLen b → addr ≤ b → (t i).stop ≤ b := fun b hb hle => by
    by_contra hmeets
    have := hformed.nonempty
    exact hb.2.2 i (max b (t i).start) (le_max_left ..) (by omega) ⟨hvalid, le_max_right .., by omega⟩
  rw [h.next hvalid] at hloop
  dsimp only at hloop
  split at hloop
  · rename_i hend
    rw [Bool.and_eq_true, decide_eq_true_eq] at hend
    cases hloop
    refine ⟨fun _ hno => (by cases hno), fun _ b hb => ?_⟩
    obtain ⟨hle, hlow⟩ := (hleft b hb).2 hend.1
    have := hpast b hb hle
    omega
  · exact ih (fun _ => hformed.stop) (by omega) (by omega) (fun b hb => ⟨(hleft b hb).1.imp_right (hpast b hb),
      fun hw => ⟨hpast b hb ((hleft b hb).2 hw).1, ((hleft b hb).2 hw).2⟩⟩) hloop

/-- The areas that end above an address. -/
def slotsAbove (t : VmaTable) (addr : Nat) : Nat :=
  (Finset.univ.filter fun i => (t i).valid = true ∧ addr < (t i).stop).card

theorem slotsAbove_le (t : VmaTable) (addr : Nat) : slotsAbove t addr ≤ vmaMax := by
  have := Finset.card_le_univ (Finset.univ.filter fun i => (t i).valid = true ∧ addr < (t i).stop)
  rwa [Fintype.card_fin] at this

theorem slotsAbove_stop (hvalid : (t i).valid = true) (hlt : addr < (t i).stop) :
    slotsAbove t (t i).stop < slotsAbove t addr := by
  refine Finset.card_lt_card ((Finset.ssubset_iff_of_subset ?_).mpr ⟨i, ?_, ?_⟩)
  · intro k hk
    rw [Finset.mem_filter_univ] at hk ⊢
    exact ⟨hk.1, by omega⟩
  · exact (Finset.mem_filter_univ i).mpr ⟨hvalid, hlt⟩
  · rw [Finset.mem_filter_univ]
    omega

/-- The search ends: an area is passed once before the address wraps around, and once after. -/
theorem Layout.regionLoop_ends (h : Layout reserved t)
    (hfuel : slotsAbove t addr + (if wrapped then 0 else vmaMax + 1) < fuel) :
    regionLoop t alignedLen startAddr fuel addr wrapped ≠ none := by
  induction fuel generalizing addr wrapped with
  | zero => exact absurd hfuel (Nat.not_lt_zero _)
  | succ fuel ih =>
  rw [regionLoop]
  split
  · cases wrapped with
    | true => exact Option.some_ne_none _
    | false =>
      apply ih
      have := slotsAbove_le t mmapBase
      simp only [Bool.false_eq_true, if_false] at hfuel
      rw [if_pos rfl]
      omega
  split
  · exact Option.some_ne_none _
  rename_i i hi
  obtain ⟨hvalid, hlt, -⟩ := firstOverlap_some hi
  have := slotsAbove_stop hvalid hlt
  rw [h.next hvalid]
  dsimp only
  split
  · exact Option.some_ne_none _
  · exact ih (by omega)

/-- The first address of a search. -/
def firstAddr (mmapHint hint : Nat) : Nat := if hint ≠ 0 then pageAlignDown hint else mmapHint

def HintOk (mmapHint : Nat) : Prop := mmapHint % 4096 = 0 ∧ mmapHint < mmapTop

/-- What `vma_find_free_region` returns, for a length that does not make its sums wrap around. -/
theorem Layout.vmaFindFreeRegion (h : Layout reserved t) {mmapHint hint length : Nat}
    (hlen : pageAlignUp length + 2 ^ 47 < 2 ^ 64) (hpos : 0 < pageAlignUp length)
    (hfirst : firstAddr mmapHint hint + pageAlignUp length < 2 ^ 64) :
    ∃ addr mmapHint', Litenix.vmaFindFreeRegion t mmapHint hint length = some (addr, mmapHint') ∧
      (HintOk mmapHint → HintOk mmapHint') ∧
      (addr ≠ 0 → FreePlace t (pageAlignUp length) addr ∧ (HintOk mmapHint → addr % 4096 = 0)) ∧
      (addr = 0 → ∀ b, ¬FreePlace t (pageAlignUp length) b) := by
  unfold Litenix.vmaFindFreeRegion
  dsimp only
  rw [show (if hint ≠ 0 then pageAlignDown hint else mmapHint) = firstAddr mmapHint hint from rfl]
  generalize hlen' : pageAlignUp length = alignedLen at *
  have hmod : HintOk mmapHint → firstAddr mmapHint hint % 4096 = 0 := by
    intro hok
    unfold firstAddr
    split
    · exact pageAligned_iff.mp (pageAligned_alignDown hint)
    · exact hok.1
  generalize haddr : (if firstAddr mmapHint hint < mmapBase ∨ mmapTop < add64 (firstAddr mmapHint hint) alignedLen
    then mmapBase else firstAddr mmapHint hint) = addr
  have hstart : (HintOk mmapHint → addr % 4096 = 0) ∧ mmapBase ≤ addr ∧ addr + alignedLen < 2 ^ 64 := by
    rw [← haddr]
    split
    · exact ⟨fun _ => by decide, le_rfl, by unfold mmapBase; omega⟩
    · exact ⟨hmod, by omega, hfirst⟩
  have hends : regionLoop t alignedLen addr regionFuel addr false ≠ none := by
    apply h.regionLoop_ends
    have := slotsAbove_le t addr
    unfold regionFuel
    simp only [Bool.false_eq_true, if_false]
    omega
  cases hloop : regionLoop t alignedLen addr regionFuel addr false with
  | none => exact absurd hloop hends
  | some result =>
  obtain ⟨hfound, hnone⟩ := h.regionLoop_spec hlen hpos hstart.1 hstart.2.1 hstart.2.2
    (fun b _ => ⟨lt_or_ge b addr, fun hno => by cases hno⟩) hloop
  cases result with
  | none => exact ⟨0, mmapHint, rfl, id, fun hne => absurd rfl hne, fun _ => hnone rfl⟩
  | some found =>
  have hplace := hfound found rfl
  refine ⟨found, _, rfl, fun _ => ?_, fun _ => hplace, fun hzero => ?_⟩
  · split
    · exact ⟨by decide, by decide⟩
    · exact ⟨pageAligned_iff.mp (pageAligned_alignUp _), by omega⟩
  · have := hplace.1.1
    rw [hzero] at this
    exact absurd this (by decide)

end

end Litenix
