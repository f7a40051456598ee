import Mathlib.Data.Nat.Bitwise
import Mathlib.Tactic.Positivity
import Mathlib.Tactic.NormNum

/-! Unsigned 64-bit words as natural numbers: addition and subtraction wrap explicitly, and the
alignment helpers that C programs write with masks are rewritten as quotients. -/

namespace Litenix.Lib

variable {k v : Nat}

/-- Addition of two 64-bit words. -/
def add64 (a b : Nat) : Nat := (a + b) % 2 ^ 64

/-- Subtraction of two 64-bit words. -/
def sub64 (a b : Nat) : Nat := (a + (2 ^ 64 - b % 2 ^ 64)) % 2 ^ 64

/-- Complement of a 64-bit word. -/
def not64 (a : Nat) : Nat := 2 ^ 64 - 1 - a

/-- `value & ~(alignment - 1)`. -/
@[irreducible]
def alignDown (value alignment : Nat) : Nat := value &&& not64 (alignment - 1)

/-- `(value + alignment - 1) & ~(alignment - 1)`. -/
@[irreducible]
def alignUp (value alignment : Nat) : Nat := add64 value (alignment - 1) &&& not64 (alignment - 1)

theorem add64_lt (a b : Nat) : add64 a b < 2 ^ 64 := Nat.mod_lt _ (by norm_num)

theorem add64_of_lt {a b : Nat} (h : a + b < 2 ^ 64) : add64 a b = a + b := Nat.mod_eq_of_lt h

theorem sub64_of_le {a b : Nat} (h : b ≤ a) (ha : a < 2 ^ 64) : sub64 a b = a - b := by
  rw [sub64, Nat.mod_eq_of_lt (h.trans_lt ha)]
  omega

theorem land_not64 (hk : k ≤ 64) (hv : v < 2 ^ 64) : v &&& not64 (2 ^ k - 1) = v / 2 ^ k * 2 ^ k := by
  apply Nat.eq_of_testBit_eq
  intro i
  have hmask : not64 (2 ^ k - 1) = 2 ^ k * (2 ^ (64 - k) - 1) := by
    have h : 2 ^ k * 2 ^ (64 - k) = 2 ^ 64 := by
      rw [← pow_add]
      congr 1
      omega
    have hpos : 0 < 2 ^ k := by positivity
    rw [not64, Nat.mul_sub, h]
    omega
  rw [hmask, Nat.testBit_and, mul_comm, Nat.testBit_mul_two_pow, Nat.testBit_mul_two_pow]
  by_cases hi : k ≤ i
  · simp only [hi, decide_true, Bool.true_and, Nat.testBit_two_pow_sub_one, Nat.testBit_div_two_pow]
    rw [Nat.sub_add_cancel hi]
    by_cases h64 : i < 64
    · simp
      omega
    · have hzero : v.testBit i = false := Nat.testBit_lt_two_pow
        (lt_of_lt_of_le hv (Nat.pow_le_pow_right (by norm_num) (by omega)))
      simp [hzero]
  · simp [hi]

theorem land_not64_mod (v k : Nat) : v &&& not64 k = (v % 2 ^ 64) &&& not64 k := by
  have hlt : not64 k < 2 ^ 64 := by
    unfold not64
    omega
  apply Nat.eq_of_testBit_eq
  intro i
  rw [Nat.testBit_and, Nat.testBit_and, Nat.testBit_mod_two_pow]
  by_cases hi : i < 64
  · simp [hi]
  · rw [Nat.testBit_lt_two_pow (lt_of_lt_of_le hlt (Nat.pow_le_pow_right (by norm_num) (by omega)))]
    simp

theorem alignDown_two_pow (hk : k ≤ 64) (hv : v < 2 ^ 64) : alignDown v (2 ^ k) = v / 2 ^ k * 2 ^ k := by
  rw [alignDown, land_not64 hk hv]

theorem alignUp_two_pow (hk : k ≤ 64) : alignUp v (2 ^ k) = (v + (2 ^ k - 1)) % 2 ^ 64 / 2 ^ k * 2 ^ k := by
  rw [alignUp, land_not64 hk (add64_lt _ _), add64]

theorem alignDown_page (hv : v < 2 ^ 64) : alignDown v 4096 = v / 4096 * 4096 :=
  alignDown_two_pow (k := 12) (by norm_num) hv

theorem alignDown_page_mod (v : Nat) : alignDown v 4096 = v % 2 ^ 64 / 4096 * 4096 := by
  rw [alignDown, land_not64_mod]
  exact land_not64 (k := 12) (by norm_num) (Nat.mod_lt _ (by norm_num))

theorem alignUp_page (v : Nat) : alignUp v 4096 = (v + 4095) % 2 ^ 64 / 4096 * 4096 :=
  alignUp_two_pow (k := 12) (by norm_num)

/-! ### Masks -/

theorem uint64_or_and (a b c : UInt64) : (a ||| b) &&& c = (a &&& c) ||| (b &&& c) := by
  apply UInt64.toNat_inj.mp
  rw [UInt64.toNat_and, UInt64.toNat_or, UInt64.toNat_or, UInt64.toNat_and, UInt64.toNat_and,
    Nat.and_or_distrib_right]

theorem uint64_not_and {a b : UInt64} (h : a &&& b = 0) : ~~~ a &&& b = b := by
  have hall : (a ||| ~~~ a) &&& b = b := by rw [UInt64.or_not_self, UInt64.neg_one_and]
  rwa [uint64_or_and, h, UInt64.zero_or] at hall

end Litenix.Lib
