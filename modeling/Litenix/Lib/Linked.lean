import Mathlib.Data.List.Nodup

/-! Singly linked lists threaded through a pointer function. A segment lists the elements met on the
way from one pointer to another. Appending, unlinking and inserting each change the pointer of one
element, the last one before the place of the change. -/

namespace Litenix.Lib

open Function

variable {α : Type} {next next' : α → Option α} {a b c : Option α} {l l₁ l₂ : List α} {t x : α}

/-- Following `next` from `a` meets the elements of the list and arrives at `b`. -/
def Seg (next : α → Option α) : Option α → List α → Option α → Prop
  | a, [], b => a = b
  | a, x :: l, b => a = some x ∧ Seg next (next x) l b

theorem seg_singleton : Seg next a [t] b ↔ a = some t ∧ next t = b := Iff.rfl

theorem seg_append : Seg next a (l₁ ++ l₂) c ↔ ∃ b, Seg next a l₁ b ∧ Seg next b l₂ c := by
  induction l₁ generalizing a with
  | nil => simp [Seg]
  | cons x l ih => simp [Seg, ih, and_assoc]

theorem Seg.congr (h : Seg next a l b) (hkeep : ∀ x ∈ l, next' x = next x) : Seg next' a l b := by
  induction l generalizing a with
  | nil => exact h
  | cons x l ih =>
    refine ⟨h.1, ?_⟩
    rw [hkeep x List.mem_cons_self]
    exact ih h.2 fun y hy => hkeep y (List.mem_cons_of_mem _ hy)

/-- What is met up to the end is determined by the first pointer. -/
theorem Seg.unique {l' : List α} (h : Seg next a l none) (h' : Seg next a l' none) : l = l' := by
  induction l generalizing a l' with
  | nil =>
    cases l' with
    | nil => rfl
    | cons y l' => exact absurd (h.symm.trans h'.1) (by simp)
  | cons x l ih =>
    cases l' with
    | nil => exact absurd (h'.symm.trans h.1) (by simp)
    | cons y l' =>
      obtain rfl : x = y := Option.some.inj (h.1.symm.trans h'.1)
      rw [ih h.2 h'.2]

theorem Seg.head_eq (h : Seg next a l none) : a = l.head? := by
  cases l with
  | nil => exact h
  | cons x l => exact h.1

theorem Seg.next_mem (h : Seg next a l none) (hx : x ∈ l) : next x = none ∨ ∃ y ∈ l, next x = some y := by
  obtain ⟨l₁, l₂, rfl⟩ := List.append_of_mem hx
  obtain ⟨b, -, -, hback⟩ := seg_append.mp h
  rw [hback.head_eq]
  cases l₂ with
  | nil => exact .inl rfl
  | cons y l₂ => exact .inr ⟨y, List.mem_append_right _ (List.mem_cons_of_mem _ List.mem_cons_self), rfl⟩

section Edits

variable [DecidableEq α] {p : α}

/-- The last pointer of the front part is set. -/
theorem Seg.setLast (h : Seg next a l₁ b) (hnodup : l₁.Nodup) (hlast : l₁.getLast? = some p) (c : Option α) :
    Seg (update next p c) a l₁ c := by
  obtain ⟨init, rfl⟩ := List.getLast?_eq_some_iff.mp hlast
  obtain ⟨m, hinit, hm⟩ := seg_append.mp h
  refine seg_append.mpr ⟨m, hinit.congr fun x hx => update_of_ne ?_ _ _, hm.1, update_self ..⟩
  exact (List.nodup_append.mp hnodup).2.2 x hx p (by simp)

/-- The pointers once `t`, which stands after `prev`, is unlinked. -/
def unlinked (next : α → Option α) (prev : Option α) (t : α) : α → Option α :=
  match prev with
  | none => next
  | some p => update next p (next t)

/-- The first pointer then. -/
def unlinkedHead (next : α → Option α) (a prev : Option α) (t : α) : Option α := if prev = none then next t else a

theorem unlinked_of_ne {prev : Option α} (h : prev ≠ some x) : unlinked next prev t x = next x := by
  cases prev with
  | none => rfl
  | some p => exact update_of_ne (fun heq : x = p => h (heq ▸ rfl)) _ _

theorem Seg.unlink (h : Seg next a (l₁ ++ t :: l₂) none) (hnodup : (l₁ ++ t :: l₂).Nodup) :
    Seg (unlinked next l₁.getLast? t) (unlinkedHead next a l₁.getLast? t) (l₁ ++ l₂) none := by
  cases hlast : l₁.getLast? with
  | none =>
    obtain rfl := List.getLast?_eq_none_iff.mp hlast
    exact h.2
  | some p =>
    obtain ⟨b, hfront, -, hback⟩ := seg_append.mp h
    have hparts := List.nodup_append.mp hnodup
    refine seg_append.mpr ⟨next t, hfront.setLast hparts.1 hlast _, hback.congr fun x hx => update_of_ne ?_ _ _⟩
    exact (hparts.2.2 p (List.mem_of_getLast? hlast) x (List.mem_cons_of_mem _ hx)).symm

theorem Seg.insert_head (h : Seg next a (l₁ ++ l₂) none) (ht : t ∉ l₁ ++ l₂) (hlast : l₁.getLast? = none) :
    Seg (update next t l₂.head?) (some t) (l₁ ++ t :: l₂) none := by
  obtain rfl := List.getLast?_eq_none_iff.mp hlast
  have hhead : a = l₂.head? := h.head_eq
  refine ⟨rfl, ?_⟩
  rw [update_self, ← hhead]
  exact h.congr fun x hx => update_of_ne (ne_of_mem_of_not_mem hx ht) _ _

theorem Seg.insert (h : Seg next a (l₁ ++ l₂) none) (hnodup : (l₁ ++ l₂).Nodup) (ht : t ∉ l₁ ++ l₂)
    (hlast : l₁.getLast? = some p) : Seg (update (update next t l₂.head?) p (some t)) a (l₁ ++ t :: l₂) none := by
  obtain ⟨b, hfront, hback⟩ := seg_append.mp h
  have hparts := List.nodup_append.mp hnodup
  have hp := List.mem_of_getLast? hlast
  have hkeep (x : α) (hx : x ∈ l₁ ++ l₂) : update next t l₂.head? x = next x :=
    update_of_ne (ne_of_mem_of_not_mem hx ht) _ _
  refine seg_append.mpr ⟨some t, Seg.setLast (hfront.congr fun x hx => hkeep x (List.mem_append_left _ hx)) hparts.1
    hlast _, rfl, ?_⟩
  rw [update_of_ne (ne_of_mem_of_not_mem (List.mem_append_left _ hp) ht).symm, update_self]
  refine (hback.head_eq ▸ hback).congr fun x hx => ?_
  rw [update_of_ne (hparts.2.2 p hp x hx).symm, hkeep x (List.mem_append_right _ hx)]

end Edits

theorem erase_middle [DecidableEq α] (hnodup : (l₁ ++ t :: l₂).Nodup) : (l₁ ++ t :: l₂).erase t = l₁ ++ l₂ := by
  have hnot := (List.nodup_cons.mp (List.nodup_middle.mp hnodup)).1
  rw [List.erase_append_right _ fun hl => hnot (List.mem_append_left _ hl), List.erase_cons_head]

/-! ### Queues -/

/-- A list with a pointer to its last element. -/
structure Linked (next : α → Option α) (head tail : Option α) (l : List α) : Prop where
  seg : Seg next head l none
  nodup : l.Nodup
  tail : tail = l.getLast?

namespace Linked

variable {head tail : Option α}

theorem congr (h : Linked next head tail l) (hkeep : ∀ x ∈ l, next' x = next x) : Linked next' head tail l :=
  { h with seg := h.seg.congr hkeep }

variable [DecidableEq α]

theorem unlink (h : Linked next head tail (l₁ ++ t :: l₂)) : Linked (unlinked next l₁.getLast? t)
    (unlinkedHead next head l₁.getLast? t) (if tail = some t then l₁.getLast? else tail) (l₁ ++ l₂) := by
  refine ⟨h.seg.unlink h.nodup, (List.nodup_cons.mp (List.nodup_middle.mp h.nodup)).2, ?_⟩
  rw [h.tail]
  cases hl₂ : l₂.getLast? with
  | none =>
    obtain rfl := List.getLast?_eq_none_iff.mp hl₂
    simp
  | some y =>
  have hy := List.mem_of_getLast? hl₂
  have hne : y ≠ t := by
    rintro rfl
    exact (List.nodup_cons.mp (List.nodup_append.mp h.nodup).2.1).1 hy
  have hcons : (t :: l₂).getLast? = some y := by
    cases l₂ with
    | nil => cases hl₂
    | cons z rest => rwa [List.getLast?_cons_cons]
  simp [List.getLast?_append, hl₂, hcons, hne]

theorem append (h : Linked next head tail l) (ht : t ∉ l) :
    Linked (tail.elim (update next t none) fun p => update (update next t none) p (some t))
      (if tail = none then some t else head) (some t) (l ++ [t]) := by
  have hnodup : (l ++ [t]).Nodup := by
    refine h.nodup.append (List.nodup_singleton t) ?_
    simpa using ht
  rw [← List.append_nil l] at ht
  have hseg := h.seg
  rw [← List.append_nil l] at hseg
  refine ⟨?_, hnodup, by simp⟩
  rw [h.tail]
  cases hlast : l.getLast? with
  | none => exact hseg.insert_head ht hlast
  | some p => exact hseg.insert (by rw [List.append_nil]; exact h.nodup) ht hlast

end Linked

/-! ### Loops over a list -/

section Loops

variable [DecidableEq α] {fuel : Nat}

/-- The search for the element before `t`: the cursor runs from `a`, with `prev` behind it. -/
def findPrev (next : α → Option α) (t : α) : Nat → Option α → Option α → Option (Option α)
  | 0, _, _ => none
  | _ + 1, _, none => none
  | fuel + 1, prev, some x => if x = t then some prev else findPrev next t fuel (some x) (next x)

theorem findPrev_of_mem (h : Seg next a (l₁ ++ t :: l₂) none) (ht : t ∉ l₁)
    (hfuel : l₁.length < fuel) (prev : Option α) : findPrev next t fuel prev a = some (l₁.getLast?.or prev) := by
  induction l₁ generalizing a fuel prev with
  | nil =>
    obtain ⟨rfl, -⟩ := h
    cases fuel with
    | zero => simp at hfuel
    | succ fuel => simp [findPrev]
  | cons x l ih =>
  obtain ⟨rfl, h⟩ := h
  have hne : x ≠ t := fun heq => ht (heq ▸ List.mem_cons_self)
  cases fuel with
  | zero => simp at hfuel
  | succ fuel =>
    rw [List.length_cons] at hfuel
    rw [findPrev, if_neg hne, ih h (fun hmem => ht (List.mem_cons_of_mem _ hmem)) (by omega)]
    cases l with
    | nil => rfl
    | cons y rest => rw [List.getLast?_cons_cons]; simp [Option.or, List.getLast?_cons]

theorem Seg.findPrev_eq (h : Seg next a (l₁ ++ t :: l₂) none) (hnodup : (l₁ ++ t :: l₂).Nodup)
    (hfuel : (l₁ ++ t :: l₂).length < fuel) : findPrev next t fuel none a = some l₁.getLast? := by
  have hnot : t ∉ l₁ := fun hmem => (List.nodup_append.mp hnodup).2.2 t hmem t List.mem_cons_self rfl
  rw [List.length_append] at hfuel
  rw [findPrev_of_mem h hnot (by omega), Option.or_none]

theorem findPrev_of_not_mem (h : Seg next a l none) (ht : t ∉ l) (fuel : Nat) (prev : Option α) :
    findPrev next t fuel prev a = none := by
  induction l generalizing a fuel prev with
  | nil =>
    obtain rfl : a = none := h
    cases fuel <;> rfl
  | cons x l ih =>
  obtain ⟨rfl, h⟩ := h
  cases fuel with
  | zero => rfl
  | succ fuel =>
    rw [List.mem_cons, not_or] at ht
    rw [findPrev, if_neg (Ne.symm ht.1), ih h ht.2]

/-- The place of a key in a sorted list: the element before it and the one after it. -/
def insertPos (next : α → Option α) (key : α → Nat) (k : Nat) : Nat → Option α → Option α → Option α × Option α
  | 0, prev, cursor => (prev, cursor)
  | _ + 1, prev, none => (prev, none)
  | fuel + 1, prev, some x => if key x ≤ k then insertPos next key k fuel (some x) (next x) else (prev, some x)

omit [DecidableEq α] in
theorem insertPos_eq (key : α → Nat) (k : Nat) (h : Seg next a l none) (hfuel : l.length < fuel)
    (prev : Option α) : insertPos next key k fuel prev a =
      ((l.takeWhile fun x => key x ≤ k).getLast?.or prev, (l.dropWhile fun x => key x ≤ k).head?) := by
  induction l generalizing a fuel prev with
  | nil =>
    obtain rfl : a = none := h
    cases fuel <;> simp [insertPos]
  | cons x l ih =>
  obtain ⟨rfl, h⟩ := h
  cases fuel with
  | zero => simp at hfuel
  | succ fuel =>
  rw [List.length_cons] at hfuel
  rw [insertPos]
  by_cases hx : key x ≤ k
  · rw [if_pos hx, ih h (by omega)]
    simp only [hx, List.takeWhile_cons, List.dropWhile_cons, decide_true, if_true, Prod.mk.injEq, and_true]
    cases l.takeWhile fun x => key x ≤ k with
    | nil => rfl
    | cons y rest => simp [List.getLast?_cons]
  · rw [if_neg hx]
    simp [hx]

end Loops

theorem pairwise_insert {key : α → Nat} {k : Nat} (h : l.Pairwise fun x y => key x ≤ key y) (ht : key t = k) :
    (l.takeWhile (fun x => key x ≤ k) ++ t :: l.dropWhile fun x => key x ≤ k).Pairwise fun x y => key x ≤ key y := by
  have hsplit := List.takeWhile_append_dropWhile (p := fun x => decide (key x ≤ k)) (l := l)
  rw [← hsplit, List.pairwise_append] at h
  obtain ⟨hfront, hback, hcross⟩ := h
  have hbelow : ∀ x ∈ l.takeWhile fun x => key x ≤ k, key x ≤ k := fun x hx => by
    simpa using List.all_eq_true.mp List.all_takeWhile x hx
  have habove : ∀ y ∈ l.dropWhile fun x => key x ≤ k, k ≤ key y := by
    intro y hy
    cases hdrop : l.dropWhile fun x => key x ≤ k with
    | nil => simp [hdrop] at hy
    | cons z rest =>
    have hz : ¬ key z ≤ k := by
      have := List.head?_dropWhile_not (fun x => decide (key x ≤ k)) l
      simpa [hdrop] using this
    rw [hdrop] at hy hback
    rcases List.mem_cons.mp hy with rfl | hy
    · omega
    · have := (List.pairwise_cons.mp hback).1 y hy
      omega
  refine List.pairwise_append.mpr ⟨hfront, List.pairwise_cons.mpr ⟨fun y hy => ?_, hback⟩, fun x hx y hy => ?_⟩
  · rw [ht]
    exact habove y hy
  rcases List.mem_cons.mp hy with rfl | hy
  · rw [ht]
    exact hbelow x hx
  · exact hcross x hx y hy

end Litenix.Lib
