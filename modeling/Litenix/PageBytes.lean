import Litenix.UserCopy
import Litenix.Lib.Bytes
import Mathlib.Tactic.IntervalCases

/-! The bytes of a page of words. -/

namespace Litenix

open Lib

/-- The words of a page of bytes. -/
def pageWords (bytes : Bytes) (i : Nat) : Nat := (bytes.u64 (8 * i)).toNat

/-- The bytes of a page of words. -/
def pageBytes (page : Nat → Nat) : Bytes := fun i => wordByte (page (i / 8)) (i % 8)

/-- A `memcpy` of `len` bytes into a page. -/
def pagePut (page : Nat → Nat) (off len : Nat) (src : Bytes) (i : Nat) : Nat :=
  if off < 8 * i + 8 ∧ 8 * i < off + len then
    pageWords (fun k => if off ≤ k ∧ k < off + len then src (k - off) else pageBytes page k) i
  else page i

theorem wordByte_u64 (bytes : Bytes) (off : Nat) {j : Nat} (hj : j < 8) :
    wordByte (bytes.u64 off).toNat j = bytes (off + j) := by
  have hbyte (j : Nat) := (bytes (off + j)).toNat_lt
  have h0 := hbyte 0
  have h1 := hbyte 1
  have h2 := hbyte 2
  have h3 := hbyte 3
  have h4 := hbyte 4
  have h5 := hbyte 5
  have h6 := hbyte 6
  have h7 := hbyte 7
  apply UInt8.toNat_inj.mp
  rw [wordByte, UInt8.toNat_ofNat', Bytes.u64, UInt64.toNat_ofNat']
  simp only [Bytes.u32, Bytes.u16, Nat.add_assoc, Nat.reduceAdd]
  rw [Nat.add_zero] at h0
  interval_cases j <;> norm_num <;> omega

theorem pageBytes_pageWords (bytes : Bytes) (i : Nat) : pageBytes (pageWords bytes) i = bytes i := by
  rw [pageBytes, pageWords, wordByte_u64 bytes _ (Nat.mod_lt _ (by norm_num)), Nat.div_add_mod]

theorem pageBytes_zero (i : Nat) : pageBytes (fun _ => 0) i = 0 := by simp [pageBytes, wordByte]

theorem pageBytes_pagePut (page : Nat → Nat) (off len : Nat) (src : Bytes) (i : Nat) :
    pageBytes (pagePut page off len src) i = if off ≤ i ∧ i < off + len then src (i - off) else pageBytes page i := by
  have hword : pagePut page off len src (i / 8) =
      if off < 8 * (i / 8) + 8 ∧ 8 * (i / 8) < off + len then
        pageWords (fun k => if off ≤ k ∧ k < off + len then src (k - off) else pageBytes page k) (i / 8)
      else page (i / 8) := rfl
  rw [pageBytes, hword]
  split
  · exact pageBytes_pageWords _ i
  · rw [if_neg (by omega)]
    rfl

end Litenix
