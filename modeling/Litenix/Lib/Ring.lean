import Mathlib.Data.Int.ModEq
import Mathlib.Tactic.Ring

/-! Ring buffers with a read and a write position. One slot always stays empty, so equal positions
mean that nothing is stored. What is stored is a list; pushing appends to it and popping takes from
its front. -/

namespace Litenix.Lib

open Function

variable {α : Type}

structure RingBuf (α : Type) where
  buf : Nat → α
  size : Nat
  readPtr : Nat
  writePtr : Nat

namespace RingBuf

variable {r : RingBuf α}

/-- Both positions lie in the buffer. -/
structure Ok (r : RingBuf α) : Prop where
  read : r.readPtr < r.size
  write : r.writePtr < r.size

theorem Ok.size_pos (h : r.Ok) : 0 < r.size := Nat.lt_of_le_of_lt (Nat.zero_le _) h.read

/-- Number of slots that are not in use, the one that stays empty included. -/
def free (r : RingBuf α) : Nat :=
  if r.readPtr ≤ r.writePtr then r.size - (r.writePtr - r.readPtr) else r.readPtr - r.writePtr

def used (r : RingBuf α) : Nat :=
  if r.readPtr ≤ r.writePtr then r.writePtr - r.readPtr else r.size - (r.readPtr - r.writePtr)

/-- What is stored, oldest first. -/
def contents (r : RingBuf α) : List α :=
  (List.range r.used).map fun k => r.buf ((r.readPtr + k) % r.size)

def push (r : RingBuf α) (a : α) : RingBuf α :=
  { r with
    buf := update r.buf r.writePtr a
    writePtr := (r.writePtr + 1) % r.size }

def pushAll (r : RingBuf α) (l : List α) : RingBuf α := l.foldl push r

/-- Take at most `count` elements, stopping when the buffer is empty. -/
def popUpTo : Nat → RingBuf α → List α × RingBuf α
  | 0, r => ([], r)
  | count + 1, r =>
    if r.readPtr = r.writePtr then ([], r)
    else
      let rest := popUpTo count { r with readPtr := (r.readPtr + 1) % r.size }
      (r.buf r.readPtr :: rest.1, rest.2)

/-! ### Positions -/

theorem succ_mod {i n : Nat} (hi : i < n) : (i + 1) % n = if i + 1 = n then 0 else i + 1 := by
  split
  · rename_i heq
    rw [heq, Nat.mod_self]
  · exact Nat.mod_eq_of_lt (by omega)

theorem contents_length : r.contents.length = r.used := by simp [contents]

section

variable (h : r.Ok)

include h

theorem free_add_used : r.free + r.used = r.size := by
  have := h.read
  have := h.write
  unfold free used
  split <;> omega

theorem used_eq_zero_iff : r.used = 0 ↔ r.readPtr = r.writePtr := by
  have := h.read
  have := h.write
  unfold used
  split <;> omega

theorem writePtr_eq : (r.readPtr + r.used) % r.size = r.writePtr := by
  have := h.read
  have := h.write
  unfold used
  split
  · rw [Nat.add_sub_cancel' (by omega), Nat.mod_eq_of_lt h.write]
  · have hsum : r.readPtr + (r.size - (r.readPtr - r.writePtr)) = r.writePtr + r.size := by omega
    rw [hsum, Nat.add_mod_right, Nat.mod_eq_of_lt h.write]

theorem contents_eq_nil_iff : r.contents = [] ↔ r.readPtr = r.writePtr := by
  rw [← List.length_eq_zero_iff, contents_length, used_eq_zero_iff h]

/-! ### Pushing -/

theorem Ok.push (a : α) : (r.push a).Ok := ⟨h.read, Nat.mod_lt _ h.size_pos⟩

theorem used_push (hroom : r.used + 1 < r.size) (a : α) : (r.push a).used = r.used + 1 := by
  have := h.read
  have := h.write
  have hnext : (r.push a).writePtr = if r.writePtr + 1 = r.size then 0 else r.writePtr + 1 := succ_mod h.write
  have hread : (r.push a).readPtr = r.readPtr := rfl
  have hsize : (r.push a).size = r.size := rfl
  unfold used at hroom ⊢
  rw [hsize, hread]
  split_ifs at hroom hnext ⊢ <;> omega

theorem contents_push (hroom : r.used + 1 < r.size) (a : α) : (r.push a).contents = r.contents ++ [a] := by
  unfold contents
  rw [used_push h hroom, List.range_succ, List.map_append]
  congr 1
  · apply List.map_congr_left
    intro k hk
    have hk := List.mem_range.mp hk
    -- an older slot is not the one that is written
    apply update_of_ne
    intro heq
    have hmod : (r.readPtr + k) % r.size = (r.readPtr + r.used) % r.size := by
      rw [writePtr_eq h]
      exact heq
    have hdvd := (Nat.modEq_iff_dvd' (by omega)).mp hmod
    have := Nat.le_of_dvd (by omega) hdvd
    omega
  · have hslot : (r.readPtr + r.used) % r.size = r.writePtr := writePtr_eq h
    simp only [RingBuf.push, List.map_cons, List.map_nil, hslot, update_self]

theorem pushAll_ok (l : List α) : (r.pushAll l).Ok := by
  induction l generalizing r with
  | nil => exact h
  | cons a rest ih => exact ih (h.push a)

theorem contents_pushAll {l : List α} (hroom : r.used + l.length < r.size) :
    (r.pushAll l).contents = r.contents ++ l := by
  induction l generalizing r with
  | nil => simp [pushAll]
  | cons a rest ih =>
  rw [List.length_cons] at hroom
  have hone : r.used + 1 < r.size := by omega
  have hrest : (r.push a).used + rest.length < (r.push a).size := by
    rw [used_push h hone]
    change r.used + 1 + rest.length < r.size
    omega
  calc (r.pushAll (a :: rest)).contents
      = ((r.push a).pushAll rest).contents := rfl
    _ = r.contents ++ [a] ++ rest := by rw [ih (h.push a) hrest, contents_push h hone]
    _ = r.contents ++ a :: rest := by simp

/-! ### Popping -/

theorem contents_cons (hne : r.readPtr ≠ r.writePtr) :
    r.contents = r.buf r.readPtr :: contents { r with readPtr := (r.readPtr + 1) % r.size } := by
  have hread := h.read
  have := h.write
  have hused : r.used = used { r with readPtr := (r.readPtr + 1) % r.size } + 1 := by
    simp only [used]
    rw [succ_mod hread]
    split_ifs <;> omega
  unfold contents
  rw [hused, List.range_succ_eq_map, List.map_cons, List.map_map]
  congr 1
  · rw [Nat.add_zero, Nat.mod_eq_of_lt hread]
  apply List.map_congr_left
  intro k _
  have hslot : (r.readPtr + (k + 1)) % r.size = ((r.readPtr + 1) % r.size + k) % r.size := by
    rw [Nat.mod_add_mod]
    congr 1
    ring
  exact congrArg r.buf hslot

end

theorem popUpTo_ok (count : Nat) (h : r.Ok) : (popUpTo count r).2.Ok := by
  induction count generalizing r with
  | zero => exact h
  | succ count ih =>
    rw [popUpTo]
    split
    · exact h
    · exact ih ⟨Nat.mod_lt _ h.size_pos, h.write⟩

theorem popUpTo_append (count : Nat) (h : r.Ok) :
    (popUpTo count r).1 ++ (popUpTo count r).2.contents = r.contents := by
  induction count generalizing r with
  | zero => rfl
  | succ count ih =>
    rw [popUpTo]
    split
    · rfl
    · rename_i hne
      rw [contents_cons h hne]
      exact congrArg (r.buf r.readPtr :: ·) (ih ⟨Nat.mod_lt _ h.size_pos, h.write⟩)

end RingBuf

end Litenix.Lib
