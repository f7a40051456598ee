import Litenix.Lib.Bytes
import Litenix.Lib.Run
import Mathlib.Data.List.Basic

/-! Files in memory (`fs/vfs.c`): `default_file_read`, `default_file_write` and `vfs_truncate`, next to the array of
bytes that such a file is. A truncated file keeps its buffer, and `krealloc` clears nothing. -/

namespace Litenix.MemFile

open Lib

/-- A block of the heap: its usable size and what it holds. -/
structure Block where
  usable : Nat
  bytes : Bytes

structure File where
  data : Option Block
  size : Nat

/-- `krealloc`, where `fresh` is the block that `kmalloc` finds. -/
def krealloc (data : Option Block) (newSize : Nat) (fresh : Option Block) : Option Block :=
  match data with
  | none => fresh.filter fun b => newSize ≤ b.usable
  | some old =>
    if newSize ≤ old.usable then some old
    else (fresh.filter fun b => newSize ≤ b.usable).map fun b =>
      { b with bytes := fun i => if i < old.usable then old.bytes i else b.bytes i }

/-- A byte of the buffer. -/
def File.byte (f : File) (i : Nat) : UInt8 :=
  match f.data with
  | none => 0
  | some b => b.bytes i

/-- `default_file_read`. -/
def read (f : File) (offset count : Nat) : List UInt8 :=
  if offset ≥ f.size then [] else (List.range (min count (f.size - offset))).map fun i => f.byte (offset + i)

/-- The file after the buffer has been made large enough; `none` if there is no memory. -/
def grow (f : File) (newSize : Nat) (fresh : Option Block) : Option File :=
  if newSize > f.size then (krealloc f.data newSize fresh).map fun b => ⟨some b, newSize⟩ else some f

/-- The `memcpy` of `default_file_write`. -/
def File.put (f : File) (offset : Nat) (buf : List UInt8) : File :=
  { f with data := f.data.map fun b => { b with bytes := b.bytes.put offset buf } }

/-- A write to an array; a gap is filled with zeros. -/
def writeArray (a : List UInt8) (offset : Nat) (buf : List UInt8) : List UInt8 :=
  a.take offset ++ List.replicate (offset - a.length) 0 ++ buf ++ a.drop (offset + buf.length)

inductive Op
  | write (offset : Nat) (buf : List UInt8) (fresh : Option Block)
  | truncate

/-- A file beside the array that it is meant to be. Offsets of `lseek` are below `2 ^ 63` and `sys_write` passes one
to 4096 bytes. A write without memory returns `-1`; `vfs_truncate` keeps the buffer of a file that can be written. -/
def step : File × List UInt8 → Op → Except Unit (File × List UInt8)
  | (f, a), .write offset buf fresh =>
    if 2 ^ 63 ≤ offset ∨ buf = [] ∨ 4096 < buf.length then .error ()
    else
      match grow f (offset + buf.length) fresh with
      | none => .ok (f, a)
      | some g => .ok (g.put offset buf, writeArray a offset buf)
  | (f, _), .truncate => .ok ({ f with size := 0 }, [])

/-- The buffer is large enough. -/
def Wf (f : File) : Prop :=
  match f.data with
  | none => f.size = 0
  | some b => f.size ≤ b.usable

/-- Every read returns the bytes of the array. -/
structure Refines (s : File × List UInt8) : Prop where
  wf : Wf s.1
  reads : ∀ offset count, read s.1 offset count = (s.2.drop offset).take count

/-- The buffer holds zeros between the end of the file and the start of a write behind it. -/
def GapClear (s : File × List UInt8) : Op → Prop
  | .write offset buf fresh => 2 ^ 63 ≤ offset ∨ buf = [] ∨ 4096 < buf.length ∨
      ∀ g, grow s.1 (offset + buf.length) fresh = some g → ∀ i, s.1.size ≤ i → i < offset → g.byte i = 0
  | .truncate => True

/-! ### Bytes -/

variable {f g : File} {a buf : List UInt8} {offset n : Nat} {fresh : Option Block}

def File.get? (f : File) (i : Nat) : Option UInt8 := if i < f.size then some (f.byte i) else none

theorem getElem?_read (f : File) (offset count k : Nat) :
    (read f offset count)[k]? = if k < count then f.get? (offset + k) else none := by
  unfold read File.get?
  split
  · rw [if_neg (show ¬offset + k < f.size by omega), ite_self, List.getElem?_nil]
  rw [List.getElem?_map]
  by_cases hk : k < min count (f.size - offset)
  · rw [List.getElem?_range hk, if_pos (by omega), if_pos (by omega)]
    rfl
  rw [List.getElem?_eq_none (by rw [List.length_range]; omega)]
  split
  · rw [if_neg (by omega)]
    rfl
  · rfl

theorem reads_iff (f : File) (a : List UInt8) :
    (∀ offset count, read f offset count = (a.drop offset).take count) ↔ ∀ i, a[i]? = f.get? i := by
  constructor
  · intro h i
    have hread := congrArg (·[0]?) (h i 1)
    simpa [getElem?_read, List.getElem?_take, List.getElem?_drop] using hread.symm
  · intro h offset count
    ext1 k
    rw [getElem?_read, List.getElem?_take, List.getElem?_drop, h]

theorem getElem?_writeArray (a buf : List UInt8) (offset i : Nat) : (writeArray a offset buf)[i]? =
    if i < offset then if i < a.length then a[i]? else some 0
    else if i < offset + buf.length then buf[i - offset]? else a[i]? := by
  unfold writeArray
  simp only [List.getElem?_append, List.getElem?_take, List.getElem?_replicate, List.getElem?_drop, List.length_append,
    List.length_take, List.length_replicate]
  split_ifs <;> first | omega | rfl | (congr 1; omega)

theorem krealloc_some (h : krealloc data n fresh = some b) :
    n ≤ b.usable ∧ ∀ old, data = some old → ∀ i < old.usable, b.bytes i = old.bytes i := by
  cases data with
  | none => exact ⟨by simpa using (Option.filter_eq_some_iff.mp h).2, fun old hold => (by cases hold)⟩
  | some old =>
  rw [krealloc] at h
  split at h
  · rename_i hfits
    cases h
    refine ⟨hfits, ?_⟩
    rintro _ ⟨⟩ i _
    rfl
  · obtain ⟨new, hnew, rfl⟩ := Option.map_eq_some_iff.mp h
    refine ⟨by simpa using (Option.filter_eq_some_iff.mp hnew).2, ?_⟩
    rintro _ ⟨⟩ i hi
    exact if_pos hi

theorem grow_some (hwf : Wf f) (hn : 0 < n) (h : grow f n fresh = some g) :
    g.size = max f.size n ∧ (∃ b, g.data = some b ∧ g.size ≤ b.usable) ∧ ∀ i < f.size, g.byte i = f.byte i := by
  unfold grow at h
  split at h
  · obtain ⟨b, hb, rfl⟩ := Option.map_eq_some_iff.mp h
    obtain ⟨hfits, hkeep⟩ := krealloc_some hb
    refine ⟨by dsimp only; omega, ⟨b, rfl, hfits⟩, fun i hi => ?_⟩
    unfold Wf at hwf
    unfold File.byte
    split at hwf
    · omega
    · rename_i old hold
      exact hkeep old hold i (by omega)
  · cases h
    refine ⟨by omega, ?_, fun _ _ => rfl⟩
    unfold Wf at hwf
    split at hwf
    · omega
    · rename_i b hb
      exact ⟨b, hb, hwf⟩

theorem length_of_get? (h : ∀ i, a[i]? = f.get? i) : a.length = f.size := by
  apply Nat.le_antisymm
  · rw [← List.getElem?_eq_none_iff, h, File.get?, if_neg (Nat.lt_irrefl _)]
  by_contra hlt
  have hend := h a.length
  rw [List.getElem?_eq_none le_rfl, File.get?, if_pos (not_le.mp hlt)] at hend
  cases hend

/-- A write has its effect on the array exactly if the gap is clear. -/
theorem put_refines_iff (h : Refines (f, a)) (hbuf : buf ≠ []) (hg : grow f (offset + buf.length) fresh = some g) :
    Refines (g.put offset buf, writeArray a offset buf) ↔ ∀ i, f.size ≤ i → i < offset → g.byte i = 0 := by
  have hpos := List.length_pos_iff.mpr hbuf
  obtain ⟨hsize, ⟨b, hb, husable⟩, hkeep⟩ := grow_some (f := f) h.wf (by omega) hg
  have hold := (reads_iff f a).mp h.reads
  have hlength := length_of_get? hold
  have hbyte (i : Nat) : (g.put offset buf).byte i =
      if offset ≤ i ∧ i < offset + buf.length then buf.getD (i - offset) 0 else g.byte i := by
    simp only [File.put, File.byte, hb, Option.map_some]
    rfl
  have hwf : Wf (g.put offset buf) := by
    simp only [Wf, File.put, hb, Option.map_some]
    exact husable
  -- only the bytes of the gap can differ
  have hget (i : Nat) : (writeArray a offset buf)[i]? = (g.put offset buf).get? i ↔
      (f.size ≤ i → i < offset → g.byte i = 0) := by
    rw [getElem?_writeArray, File.get?, hbyte, show (g.put offset buf).size = g.size from rfl, hlength]
    rcases lt_or_ge i offset with hlo | hlo
    · rw [if_pos hlo, if_pos (show i < g.size by omega),
        if_neg (show ¬(offset ≤ i ∧ i < offset + buf.length) by omega)]
      rcases lt_or_ge i f.size with hi | hi
      · rw [if_pos hi, hold, File.get?, if_pos hi, hkeep i hi]
        exact iff_of_true rfl fun hge => absurd hi (not_lt.mpr hge)
      · rw [if_neg (not_lt.mpr hi), Option.some.injEq, eq_comm]
        exact ⟨fun hzero _ _ => hzero, fun hzero => hzero hi hlo⟩
    rw [if_neg (not_lt.mpr hlo)]
    refine iff_of_true ?_ fun _ hlt => absurd hlt (not_lt.mpr hlo)
    rcases lt_or_ge i (offset + buf.length) with hhi | hhi
    · rw [if_pos hhi, if_pos (by omega), if_pos ⟨hlo, hhi⟩, List.getD_eq_getElem?_getD,
        List.getElem?_eq_getElem (by omega)]
      rfl
    rw [if_neg (not_lt.mpr hhi), if_neg (show ¬(offset ≤ i ∧ i < offset + buf.length) by omega), hold, File.get?]
    by_cases hi : i < f.size
    · rw [if_pos hi, if_pos (by omega), hkeep i hi]
    · rw [if_neg hi, if_neg (by omega)]
  constructor
  · intro hnew i
    exact (hget i).mp ((reads_iff _ _).mp hnew.reads i)
  · intro hgap
    exact ⟨hwf, (reads_iff _ _).mpr fun i => (hget i).mpr (hgap i)⟩

/-- **One step.** -/
theorem Refines.step_iff (h : Refines s) (op : Op) : (∀ s', step s op = .ok s' → Refines s') ↔ GapClear s op := by
  obtain ⟨f, a⟩ := s
  cases op with
  | write offset buf fresh =>
    rw [step, GapClear]
    split
    · exact iff_of_true (fun s' hs' => (by cases hs')) (by tauto)
    rename_i hgood
    simp only [not_or] at hgood
    simp only [hgood, false_or]
    cases hg : grow f (offset + buf.length) fresh with
    | none => exact iff_of_true (by rintro _ ⟨⟩; exact h) fun g hg => (by cases hg)
    | some g =>
      simp only [Except.ok.injEq, forall_eq', Option.some.injEq]
      exact put_refines_iff h hgood.2.1 hg
  | truncate =>
  refine iff_of_true ?_ trivial
  rintro _ ⟨⟩
  refine ⟨?_, fun offset count => ?_⟩
  · unfold Wf
    split
    · rfl
    · exact Nat.zero_le _
  · rw [read, if_pos (Nat.zero_le _), List.drop_nil, List.take_nil]

/-- A file of `vfs_create_file`: its contents are copied to a new block. -/
def created (init : List UInt8) (spare : Nat) (fresh : Bytes) : File × List UInt8 :=
  (⟨if init = [] then none else some ⟨init.length + spare, fresh.put 0 init⟩, init.length⟩, init)

theorem created_refines (init : List UInt8) (spare : Nat) (fresh : Bytes) : Refines (created init spare fresh) := by
  unfold created
  split
  · rename_i hnil
    rw [hnil]
    exact ⟨rfl, fun offset count => by simp [read]⟩
  refine ⟨Nat.le_add_right .., (reads_iff _ _).mpr fun i => ?_⟩
  simp only [File.get?, File.byte]
  split
  · rename_i hi
    have hput := Bytes.put_add fresh 0 hi
    rw [Nat.zero_add] at hput
    rw [hput, List.getD_eq_getElem?_getD, List.getElem?_eq_getElem hi]
    rfl
  · rename_i hi
    exact List.getElem?_eq_none (not_lt.mp hi)

end Litenix.MemFile
