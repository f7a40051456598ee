import Mathlib.Logic.Function.Basic

/-! Tables: a change of one entry, the scan for the first slot that meets a test, and families of
regions that do not meet each other. A region is given by the points it covers. -/

namespace Litenix.Lib

open Function

variable {n : Nat} {ι : Type}
variable {test : Fin n → Bool} {covers : ι → Nat → Prop}

/-- What holds of the new entry in its place and of the old ones elsewhere holds after an update. -/
@[elab_as_elim]
theorem update_ind {α β : Type*} [DecidableEq α] {motive : α → β → Prop} {f : α → β} {i : α} {v : β} (j : α)
    (hself : motive i v) (hother : j ≠ i → motive j (f j)) : motive j (update f i v j) := by
  by_cases hj : j = i
  · rwa [hj, update_self]
  · rw [update_of_ne hj]
    exact hother hj

/-- The first slot that meets a test. -/
def firstSlot (test : Fin n → Bool) : Option (Fin n) := (List.finRange n).find? test

theorem firstSlot_some {i : Fin n} (h : firstSlot test = some i) : test i = true :=
  List.find?_some h

theorem firstSlot_none_iff : firstSlot test = none ↔ ∀ i, test i = false := by
  simp [firstSlot, List.find?_eq_none]

theorem firstSlot_min {i j : Fin n} (h : firstSlot test = some i) (hj : j < i) : test j = false := by
  obtain ⟨-, k, hk, rfl, hbefore⟩ := List.find?_eq_some_iff_getElem.mp h
  have hlt : j.val < k := by simpa [Fin.lt_def] using hj
  simpa using hbefore j.val hlt

/-- No point is covered by two regions. -/
def Apart (covers : ι → Nat → Prop) : Prop := ∀ i j x, covers i x → covers j x → i = j

theorem Apart.shrink {covers' : ι → Nat → Prop} (h : Apart covers)
    (hsub : ∀ i x, covers' i x → covers i x) : Apart covers' :=
  fun i j x hi hj => h i j x (hsub i x hi) (hsub j x hj)

theorem Apart.insert [DecidableEq ι] (h : Apart covers) {i : ι} {region : Nat → Prop}
    (hnew : ∀ j, j ≠ i → ∀ x, region x → ¬covers j x) : Apart (update covers i region) := by
  intro j k x hj hk
  by_cases hji : j = i
  · by_cases hki : k = i
    · rw [hji, hki]
    subst hji
    rw [update_self] at hj
    rw [update_of_ne hki] at hk
    exact absurd hk (hnew k hki x hj)
  · rw [update_of_ne hji] at hj
    by_cases hki : k = i
    · subst hki
      rw [update_self] at hk
      exact absurd hj (hnew j hji x hk)
    · rw [update_of_ne hki] at hk
      exact h j k x hj hk

end Litenix.Lib
