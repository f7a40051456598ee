import Litenix.VmaLayout

/-! `vma_find_free_region` as a search for a free place. The sum of an address and the length is not checked: for
lengths near `2^64` it wraps around, and the place seems to end below the top of the arena. -/

namespace Litenix

open Lib

/-- The search ends; it finds a free place, or there is none on a page boundary. -/
def RegionRight (t : VmaTable) (length mmapHint hint : Nat) : Prop :=
  ∃ addr mmapHint', vmaFindFreeRegion t mmapHint hint length = some (addr, mmapHint') ∧
    (addr ≠ 0 → FreePlace t (pageAlignUp length) addr) ∧
    (addr = 0 → ∀ b, b % 4096 = 0 → ¬FreePlace t (pageAlignUp length) b)

/-- `sys_mmap` lets the length and the hint through. -/
def MmapAdmits (length hint : Nat) : Prop :=
  0 < length ∧ length ≤ 2 ^ 64 - 4096 ∧ hint < 2 ^ 64 ∧ ¬add64 hint (pageAlignUp length) < hint

variable {t : VmaTable} {length mmapHint hint : Nat}

/-- A length above the top of the arena whose sums do not wrap around has no place, and the search says so. -/
theorem regionRight_of_long (hlong : mmapTop < pageAlignUp length) (hwrap : pageAlignUp length + mmapTop ≤ 2 ^ 64)
    (hfirst : mmapTop < add64 (firstAddr mmapHint hint) (pageAlignUp length)) : RegionRight t length mmapHint hint := by
  have hbase : mmapTop < add64 mmapBase (pageAlignUp length) := by
    unfold mmapTop add64 mmapBase at *
    omega
  refine ⟨0, mmapHint, ?_, fun hno => absurd rfl hno, fun _ b _ hb => ?_⟩
  · unfold vmaFindFreeRegion
    dsimp only
    rw [if_pos (.inr hfirst), show regionFuel = 2 * vmaMax + 3 + 1 + 1 from rfl, regionLoop, if_pos hbase, regionLoop,
      if_pos hbase]
    rfl
  · have := hb.2.1
    omega

theorem layout_emptyVma : Layout (fun _ => False) fun _ => emptyVma :=
  ⟨fun _ hno => (by cases hno), fun _ _ _ _ hno => (by cases hno.1), fun _ _ hno => by cases hno.1⟩

/-- With no areas and a hint at the end of the arena, a length that wraps around is placed there. -/
theorem regionRight_wraps (hmax : length ≤ 2 ^ 64 - 4096) (hwrap : 2 ^ 64 < pageAlignUp length + mmapTop) :
    ¬RegionRight (fun _ => emptyVma) length (mmapTop - 1) 0 := by
  have halign := pageAlignUp_eq length
  have hsum : ¬mmapTop < add64 (mmapTop - 1) (pageAlignUp length) := by
    unfold add64 mmapTop at *
    omega
  obtain ⟨next, hfind⟩ : ∃ next, vmaFindFreeRegion (fun _ => emptyVma) (mmapTop - 1) 0 length =
      some (mmapTop - 1, next) := by
    unfold vmaFindFreeRegion
    dsimp only
    rw [if_neg (not_not.mpr rfl), if_neg (not_or.mpr ⟨by decide, hsum⟩), show regionFuel = 2 * vmaMax + 4 + 1 from rfl,
      regionLoop, if_neg hsum, show firstOverlap (fun _ => emptyVma) _ _ = none from firstSlot_none_iff.mpr fun _ => rfl]
    exact ⟨_, rfl⟩
  rintro ⟨addr, mmapHint', heq, hfound, -⟩
  rw [hfind] at heq
  cases heq
  have := (hfound (by decide)).2.1
  unfold mmapTop at *
  omega

end Litenix
