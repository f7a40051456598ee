import Litenix.Ext2

/-! Allocation of blocks. -/

namespace Litenix.Ext2

open Lib Function

variable {s s' : State} {b : Nat}

/-- The state after a block has been allocated. -/
def State.taken (s : State) (b : Nat) : State :=
  { s with
    blockBitmap := update s.blockBitmap (b - 1) true
    freeBlocks := (s.freeBlocks + 65535) % 65536
    disk := update s.disk b Bytes.zero }

/-- A block can be allocated. -/
def Free (s : State) (b : Nat) : Prop := b ≠ 0 ∧ b - 1 < 8192 ∧ isFreeBit s (b - 1) = true

theorem findFrom_some (h : findFrom p fuel i = some k) : i ≤ k ∧ k < i + fuel ∧ p k = true := by
  induction fuel generalizing i with
  | zero => cases h
  | succ fuel ih =>
    rw [findFrom] at h
    split at h
    · cases h
      rename_i hp
      exact ⟨Nat.le_refl _, by omega, hp⟩
    · obtain ⟨hle, hlt, hp⟩ := ih h
      exact ⟨by omega, by omega, hp⟩

theorem allocBlock_some (h : allocBlock s = some (b, s')) : Free s b ∧ s' = s.taken b := by
  unfold allocBlock at h
  split at h
  · cases h
  rename_i i hfind
  cases h
  obtain ⟨-, hlt, hp⟩ := findFrom_some hfind
  exact ⟨⟨Nat.succ_ne_zero i, by simpa using hlt, hp⟩, rfl⟩

end Litenix.Ext2
