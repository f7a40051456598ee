import Mathlib.Data.List.GetD
import Mathlib.Tactic.Ring

/-! Blocks of bytes, with the little-endian words in them. -/

namespace Litenix.Lib

abbrev Bytes := Nat → UInt8

namespace Bytes

variable (c : Bytes) (off : Nat)
variable {bytes : List UInt8} {k : Nat}

def zero : Bytes := fun _ => 0

def u16 : Nat := (c off).toNat + 256 * (c (off + 1)).toNat

def u32 : Nat := u16 c off + 65536 * u16 c (off + 2)

def u64 : UInt64 := UInt64.ofNat (u32 c off + 2 ^ 32 * u32 c (off + 4))

/-- Overwrite the bytes from an offset on. -/
def put (bytes : List UInt8) : Bytes := fun k =>
  if off ≤ k ∧ k < off + bytes.length then bytes.getD (k - off) 0 else c k

def le16 (v : Nat) : List UInt8 := [UInt8.ofNat v, UInt8.ofNat (v / 256)]

def le32 (v : Nat) : List UInt8 := le16 v ++ le16 (v / 65536)

def le64 (v : UInt64) : List UInt8 := le32 v.toNat ++ le32 (v.toNat / 2 ^ 32)

/-- The pointers of a block are its 32-bit words. -/
def ptr (i : Nat) : Nat := u32 c (4 * i)

def setPtr (i v : Nat) : Bytes := put c (4 * i) (le32 v)

theorem put_of_lt (h : k < off) : put c off bytes k = c k :=
  if_neg fun hk => absurd hk.1 (Nat.not_le_of_lt h)

theorem put_of_ge (h : off + bytes.length ≤ k) : put c off bytes k = c k :=
  if_neg fun hk => absurd hk.2 (Nat.not_lt_of_le h)

theorem put_add (h : k < bytes.length) : put c off bytes (off + k) = bytes.getD k 0 := by
  unfold put
  rw [if_pos ⟨Nat.le_add_right _ _, Nat.add_lt_add_left h off⟩, Nat.add_sub_cancel_left]

@[simp]
theorem length_le32 (v : Nat) : (le32 v).length = 4 := rfl

section Congr

variable {c off} {c' : Bytes}

theorem u16_congr (h : ∀ k, off ≤ k → k < off + 2 → c' k = c k) : u16 c' off = u16 c off := by
  rw [u16, u16, h off (by omega) (by omega), h (off + 1) (by omega) (by omega)]

theorem u32_congr (h : ∀ k, off ≤ k → k < off + 4 → c' k = c k) : u32 c' off = u32 c off := by
  rw [u32, u32, u16_congr fun k hlo hhi => h k hlo (by omega), u16_congr fun k hlo hhi => h k (by omega) (by omega)]

theorem u64_congr (h : ∀ k, off ≤ k → k < off + 8 → c' k = c k) : u64 c' off = u64 c off := by
  rw [u64, u64, u32_congr fun k hlo hhi => h k hlo (by omega), u32_congr fun k hlo hhi => h k (by omega) (by omega)]

end Congr

theorem u64_of_le64 {c : Bytes} {off : Nat} {w : UInt64} (h : ∀ k < 8, c (off + k) = (le64 w).getD k 0) :
    u64 c off = w := by
  have h0 := h 0 (by omega)
  have h1 := h 1 (by omega)
  have h2 := h 2 (by omega)
  have h3 := h 3 (by omega)
  have h4 := h 4 (by omega)
  have h5 := h 5 (by omega)
  have h6 := h 6 (by omega)
  have h7 := h 7 (by omega)
  have hlt := w.toNat_lt
  rw [Nat.add_zero] at h0
  apply UInt64.toNat_inj.mp
  rw [u64, UInt64.toNat_ofNat']
  simp only [u32, u16, Nat.add_assoc, Nat.reduceAdd, h0, h1, h2, h3, h4, h5, h6, h7]
  simp only [le64, le32, le16, List.cons_append, List.nil_append, List.getD_cons_zero, List.getD_cons_succ,
    UInt8.toNat_ofNat']
  omega

theorem u64_of_words {words : List UInt64} : ∀ {c : Bytes} {off k : Nat},
    (∀ i < 8 * words.length, c (off + i) = (words.flatMap le64).getD i 0) → k < words.length →
    u64 c (off + 8 * k) = words.getD k 0 := by
  induction words with
  | nil => exact fun _ hk => absurd hk (Nat.not_lt_zero _)
  | cons w rest ih =>
  intro c off k h hk
  rw [List.length_cons] at h hk
  cases k with
  | zero =>
    show u64 c off = w
    refine u64_of_le64 fun i hi => ?_
    rw [h i (by omega), List.flatMap_cons]
    exact List.getD_append _ _ _ _ hi
  | succ k =>
    have hlength : (le64 w).length = 8 := rfl
    have hrest : u64 c (off + 8 + 8 * k) = rest.getD k 0 := by
      refine ih (fun i hi => ?_) (by omega)
      rw [Nat.add_assoc, h (8 + i) (by omega), List.flatMap_cons, List.getD_append_right _ _ _ _ (by omega), hlength,
        Nat.add_sub_cancel_left]
    rwa [Nat.add_assoc, Nat.add_comm 8] at hrest

end Bytes

end Litenix.Lib
