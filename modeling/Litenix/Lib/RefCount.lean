import Mathlib.Algebra.BigOperators.Intervals

/-! Counting references. The holders of references are the keys of a finite set, and `view` says which
object a holder refers to, if any. A reference count is right when it equals `refs`, and the lemmas say
how `refs` moves when one holder changes, and when holders come and go. -/

namespace Litenix.Lib

variable {κ α : Type} [DecidableEq α]
variable {dom : Finset κ} {a : α} {k l : κ} {view view' : κ → Option α}

/-- The number of holders that refer to `a`. -/
def refs (dom : Finset κ) (view : κ → Option α) (a : α) : Nat :=
  (dom.filter fun k => view k = some a).card

theorem refs_congr (h : ∀ k ∈ dom, view' k = view k) (a : α) : refs dom view' a = refs dom view a := by
  unfold refs
  congr 1
  exact Finset.filter_congr fun k hk => by rw [h k hk]

theorem refs_pos_iff : 0 < refs dom view a ↔ ∃ k ∈ dom, view k = some a := by
  rw [refs, Finset.card_pos]
  exact Finset.filter_nonempty_iff

theorem refs_eq_zero_iff : refs dom view a = 0 ↔ ∀ k ∈ dom, view k ≠ some a := by
  rw [refs, Finset.card_eq_zero, Finset.filter_eq_empty_iff]

theorem refs_mono {dom' : Finset κ} (h : dom ⊆ dom') (view : κ → Option α) (a : α) :
    refs dom view a ≤ refs dom' view a :=
  Finset.card_le_card (Finset.filter_subset_filter _ h)

theorem eq_of_refs_eq_one (h : refs dom view a = 1)
    (hk : k ∈ dom) (hl : l ∈ dom) (hka : view k = some a) (hla : view l = some a) : k = l := by
  obtain ⟨m, hm⟩ := Finset.card_eq_one.mp h
  have hkm : k ∈ ({m} : Finset κ) := hm ▸ Finset.mem_filter.mpr ⟨hk, hka⟩
  have hlm : l ∈ ({m} : Finset κ) := hm ▸ Finset.mem_filter.mpr ⟨hl, hla⟩
  rw [Finset.mem_singleton.mp hkm, Finset.mem_singleton.mp hlm]

theorem two_le_refs (hk : k ∈ dom) (hl : l ∈ dom)
    (hka : view k = some a) (hla : view l = some a) (hne : k ≠ l) : 2 ≤ refs dom view a :=
  Finset.one_lt_card.mpr ⟨k, Finset.mem_filter.mpr ⟨hk, hka⟩, l, Finset.mem_filter.mpr ⟨hl, hla⟩, hne⟩

theorem refs_eq_sum (dom : Finset κ) (view : κ → Option α) (a : α) :
    refs dom view a = ∑ k ∈ dom, if view k = some a then 1 else 0 := by
  rw [refs, Finset.card_filter]

theorem refs_change [DecidableEq κ] (hk : k ∈ dom) (h : ∀ l ∈ dom, l ≠ k → view' l = view l) (a : α) :
    refs dom view' a + (if view k = some a then 1 else 0) =
      refs dom view a + (if view' k = some a then 1 else 0) := by
  have herase : ∑ l ∈ dom.erase k, (if view' l = some a then 1 else 0) =
      ∑ l ∈ dom.erase k, if view l = some a then 1 else 0 := by
    refine Finset.sum_congr rfl fun l hl => ?_
    obtain ⟨hne, hl⟩ := Finset.mem_erase.mp hl
    rw [h l hl hne]
  rw [refs_eq_sum, refs_eq_sum, ← Finset.add_sum_erase dom _ hk, ← Finset.add_sum_erase dom _ hk, herase]
  omega

theorem refs_union [DecidableEq κ] {new : Finset κ} (h : Disjoint dom new) (view : κ → Option α) (a : α) :
    refs (dom ∪ new) view a = refs dom view a + refs new view a := by
  rw [refs_eq_sum, refs_eq_sum, refs_eq_sum, Finset.sum_union h]

/-- The references of the slots of a table, counted in the list of what they refer to. -/
theorem count_filterMap_finRange {n : Nat} (view : Fin n → Option α) (a : α) :
    ((List.finRange n).filterMap view).count a = refs Finset.univ view a := by
  have hslots : Finset.univ.filter (fun i => view i = some a) =
      ((List.finRange n).filter fun i => view i = some a).toFinset := by
    ext i
    simp
  rw [refs, hslots, List.toFinset_card_of_nodup ((List.nodup_finRange n).filter _), ← List.countP_eq_length_filter,
    List.count, List.countP_filterMap]
  refine List.countP_congr fun i _ => ?_
  cases view i <;> simp

theorem sum_range_mul (g : Nat → Nat) (a b : Nat) :
    ∑ v ∈ Finset.range (a * b), g v = ∑ i ∈ Finset.range a, ∑ j ∈ Finset.range b, g (i * b + j) := by
  induction a with
  | zero => simp
  | succ a ih => rw [Nat.succ_mul, Finset.sum_range_add, ih, Finset.sum_range_succ]

end Litenix.Lib
