import Litenix.UserCopy

/-! How many pages a function can take from the allocator. -/

namespace Litenix

open Lib Function

/-- The number of pages that the allocator can hand out. -/
def Pmm.freeFrames (q : Pmm) : Nat := ((Finset.range q.totalPages).filter fun i => q.available i = true).card

theorem Pmm.freeFrames_take (q : Pmm) (i : Nat) : q.freeFrames ≤ (q.take i).freeFrames + 1 := by
  have hsub : ((Finset.range q.totalPages).filter fun j => q.available j = true).erase i ⊆
      (Finset.range (q.take i).totalPages).filter fun j => (q.take i).available j = true := by
    intro j hj
    obtain ⟨hne, hj⟩ := Finset.mem_erase.mp hj
    obtain ⟨hlt, havail⟩ := Finset.mem_filter.mp hj
    refine Finset.mem_filter.mpr ⟨hlt, ?_⟩
    rw [Pmm.available_iff] at havail ⊢
    exact ⟨havail.1, (update_of_ne hne ..).trans havail.2⟩
  have hcard := Finset.card_le_card hsub
  have := Finset.pred_card_le_card_erase (s := (Finset.range q.totalPages).filter fun j => q.available j = true)
    (a := i)
  unfold Pmm.freeFrames
  omega

theorem Pmm.freeFrames_dropRef (q : Pmm) (i : Nat) : q.freeFrames ≤ (q.dropRef i).freeFrames := by
  refine Finset.card_le_card fun j hj => ?_
  obtain ⟨hlt, havail⟩ := Finset.mem_filter.mp hj
  rw [Pmm.available_iff] at havail
  refine Finset.mem_filter.mpr ⟨?_, ?_⟩
  · unfold Pmm.dropRef
    dsimp only
    split <;> exact hlt
  rw [Pmm.available_iff]
  unfold Pmm.dropRef
  dsimp only
  split
  · refine ⟨havail.1, ?_⟩
    change update q.pageBitmap i false j = false
    exact update_ind j rfl fun _ => havail.2
  · exact havail

/-- `p'` has at most `n` free pages less than `p`. -/
def Uses (n : Nat) (p p' : Phys) : Prop := p.pmm.freeFrames ≤ p'.pmm.freeFrames + n

namespace Uses

variable {n m virt : Nat} {p p' p'' : Phys} {space : AddressSpace}

theorem of_eq (n : Nat) (h : p'.pmm = p.pmm) : Uses n p p' := by
  unfold Uses
  rw [h]
  omega

theorem trans (h : Uses n p p') (h' : Uses m p' p'') : Uses (n + m) p p'' := by
  unfold Uses at *
  omega

theorem mono (h : Uses n p p') (hle : n ≤ m) : Uses m p p' := by
  unfold Uses at *
  omega

theorem allocPage (p : Phys) : Uses 1 p p.allocPage.1 := by
  unfold Uses
  rcases p.allocPage_pmm with hsame | ⟨i, -, -, htake⟩
  · rw [hsame]
    exact Nat.le_succ _
  · rw [htake]
    exact p.pmm.freeFrames_take i

theorem freePage (h : p.freePage phys = .ok p') : Uses 0 p p' := by
  unfold Phys.freePage at h
  split at h
  · rename_i q hfree
    cases h
    obtain ⟨-, -, -, -, rfl⟩ := pmmFreePage_ok_iff.mp hfree
    exact p.pmm.freeFrames_dropRef _
  · cases h

theorem ensureNextTable (p : Phys) (table index flags : Nat) :
    Uses 1 p (Litenix.ensureNextTable p table index flags).1 := by
  unfold Litenix.ensureNextTable
  split
  · exact of_eq 1 rfl
  have halloc := allocPage p
  dsimp only
  split
  · exact halloc
  · exact halloc

theorem walkToPteCreate (p : Phys) (root virt flags : Nat) :
    Uses 3 p (Litenix.walkToPteCreate p root virt flags).1 := by
  unfold Litenix.walkToPteCreate
  have h₁ := ensureNextTable p root (pml4Index virt) flags
  split
  · rename_i p₁ heq
    rw [heq] at h₁
    exact h₁.mono (by omega)
  rename_i p₁ pdpt heq
  rw [heq] at h₁
  have h₂ := ensureNextTable p₁ pdpt (pdptIndex virt) flags
  split
  · rename_i p₂ heq₂
    rw [heq₂] at h₂
    exact (h₁.trans h₂).mono (by omega)
  rename_i p₂ pd heq₂
  rw [heq₂] at h₂
  have h₃ := ensureNextTable p₂ pd (pdIndex virt) flags
  split
  · rename_i p₃ heq₃
    rw [heq₃] at h₃
    exact (h₁.trans h₂).trans h₃
  · rename_i p₃ pt heq₃
    rw [heq₃] at h₃
    exact (h₁.trans h₂).trans h₃

theorem vmmMap (p : Phys) (space : AddressSpace) (virt phys flags : Nat) :
    Uses 3 p (Litenix.vmmMap p space virt phys flags).1 := by
  unfold Litenix.vmmMap
  have hwalk := walkToPteCreate p space.root virt flags
  split
  · exact of_eq 3 rfl
  split
  · exact of_eq 3 rfl
  split
  · rename_i p₁ heq
    rw [heq] at hwalk
    exact hwalk
  rename_i p₁ pt i heq
  rw [heq] at hwalk
  split
  · exact hwalk
  · exact hwalk

theorem mapFreshPage (h : Litenix.mapFreshPage p space virt flags page = .ok (p', mapped)) : Uses 4 p p' := by
  unfold Litenix.mapFreshPage at h
  have halloc := allocPage p
  generalize p.allocPage = res at h halloc
  obtain ⟨p₁, phys⟩ := res
  dsimp only at h halloc
  split at h
  · cases h
    exact halloc.mono (by omega)
  have hmap := vmmMap { p₁ with mem := update p₁.mem (pageIndex phys) page } space virt phys flags
  have hall := (halloc.trans (of_eq 0 rfl)).trans hmap
  split at h
  · rename_i p₂ heq
    cases h
    rw [heq] at hall
    exact hall
  rename_i p₂ heq
  rw [heq] at hall
  split at h
  · rename_i p₃ hfree
    cases h
    exact hall.trans (freePage hfree)
  · cases h

theorem vmmHandleCow (h : Litenix.vmmHandleCow p space virt = .ok (p', res)) : Uses 1 p p' := by
  unfold Litenix.vmmHandleCow at h
  split at h
  · cases h
    exact of_eq 1 rfl
  dsimp only at h
  split at h
  · cases h
    exact of_eq 1 rfl
  split at h
  · cases h
    exact of_eq 1 rfl
  split at h
  · have halloc := allocPage p
    generalize p.allocPage = alloc at h halloc
    obtain ⟨p₁, phys⟩ := alloc
    dsimp only at h halloc
    split at h
    · cases h
      exact halloc
    split at h
    · rename_i p₂ hfree
      cases h
      have hlast := freePage hfree
      exact halloc.trans (show Uses 0 p₁ p' from hlast)
    · cases h
  · cases h
    exact of_eq 1 rfl

theorem vmmProtect (p : Phys) (space : AddressSpace) (virt flags : Nat) :
    Uses 0 p (Litenix.vmmProtect p space virt flags).1 := by
  unfold Litenix.vmmProtect
  split
  · exact of_eq 0 rfl
  · split <;> exact of_eq 0 rfl

end Uses

theorem Pmm.freeFrames_eq_zero {q : Pmm} (h : ∀ i < q.totalPages, q.available i = false) : q.freeFrames = 0 := by
  rw [Pmm.freeFrames, Finset.card_eq_zero, Finset.filter_eq_empty_iff]
  intro i hi
  rw [h i (Finset.mem_range.mp hi)]
  exact Bool.false_ne_true

end Litenix
