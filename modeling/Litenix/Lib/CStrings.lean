import Litenix.Lib.Bytes

/-! Bytes, words and C strings in a memory that is mapped in part, with the arrays of them that a program gets:
pointers to strings that end in a null pointer, and pairs of words that end in a zero key. -/

namespace Litenix.Lib

variable {strs : List (List UInt8)} {bytes : List UInt8}

/-- A memory: an address that is not mapped has no byte. -/
abbrev Mapped := Nat → Option UInt8

namespace Mapped

variable {m m' : Mapped} {addr : Nat}

/-! ### Bytes -/

/-- The bytes lie in memory, from an address on. -/
def BytesAt (m : Mapped) : Nat → List UInt8 → Prop
  | _, [] => True
  | addr, c :: rest => m addr = some c ∧ BytesAt m (addr + 1) rest

instance decidableBytesAt (m : Mapped) : ∀ addr bytes, Decidable (m.BytesAt addr bytes)
  | _, [] => inferInstanceAs (Decidable True)
  | addr, _ :: rest =>
    let _ := decidableBytesAt m (addr + 1) rest
    inferInstanceAs (Decidable (_ ∧ _))

theorem bytesAt_iff : m.BytesAt addr bytes ↔ ∀ k, ∀ h : k < bytes.length, m (addr + k) = some bytes[k] := by
  induction bytes generalizing addr with
  | nil => simp [BytesAt]
  | cons c rest ih =>
  rw [BytesAt, ih]
  constructor
  · rintro ⟨hhead, htail⟩ k hk
    cases k with
    | zero => exact hhead
    | succ k =>
      have := htail k (by simpa using hk)
      rwa [Nat.add_assoc, Nat.add_comm 1 k] at this
  · intro h
    refine ⟨h 0 (by simp), fun k hk => ?_⟩
    rw [Nat.add_assoc, Nat.add_comm 1 k]
    exact h (k + 1) (Nat.succ_lt_succ hk)

theorem bytesAt_append {l₁ l₂ : List UInt8} :
    m.BytesAt addr (l₁ ++ l₂) ↔ m.BytesAt addr l₁ ∧ m.BytesAt (addr + l₁.length) l₂ := by
  induction l₁ generalizing addr with
  | nil => simp [BytesAt]
  | cons c rest ih =>
    rw [List.cons_append, BytesAt, BytesAt, ih, and_assoc, List.length_cons, Nat.add_assoc, Nat.add_comm 1]

theorem BytesAt.keep (h : m.BytesAt addr bytes)
    (hkeep : ∀ x c, addr ≤ x → x < addr + bytes.length → m x = some c → m' x = some c) : m'.BytesAt addr bytes := by
  rw [bytesAt_iff] at h ⊢
  exact fun k hk => hkeep _ _ (Nat.le_add_right ..) (Nat.add_lt_add_left hk _) (h k hk)

/-! ### Words -/

/-- The word at an address, if all of it is mapped. -/
def word (m : Mapped) (addr : Nat) : Option UInt64 :=
  if ∀ k ∈ List.range 8, (m (addr + k)).isSome = true then some (Bytes.u64 (fun x => (m x).getD 0) addr) else none

/-- Words one after the other. -/
def WordsAt (m : Mapped) : Nat → List UInt64 → Prop
  | _, [] => True
  | addr, w :: rest => m.word addr = some w ∧ WordsAt m (addr + 8) rest

theorem word_of_bytesAt {w : UInt64} (h : m.BytesAt addr (Bytes.le64 w)) : m.word addr = some w := by
  rw [bytesAt_iff] at h
  have hbyte (k : Nat) (hk : k < 8) : m (addr + k) = some ((Bytes.le64 w).getD k 0) := by
    rw [h k hk, List.getD_eq_getElem?_getD, List.getElem?_eq_getElem hk, Option.getD_some]
  have hmapped : ∀ k ∈ List.range 8, (m (addr + k)).isSome = true := by
    intro k hk
    rw [hbyte k (List.mem_range.mp hk)]
    rfl
  rw [word, if_pos hmapped]
  refine congrArg some (Bytes.u64_of_le64 fun k hk => ?_)
  rw [hbyte k hk, Option.getD_some]

theorem wordsAt_append {l₁ l₂ : List UInt64} :
    m.WordsAt addr (l₁ ++ l₂) ↔ m.WordsAt addr l₁ ∧ m.WordsAt (addr + 8 * l₁.length) l₂ := by
  induction l₁ generalizing addr with
  | nil => simp [WordsAt]
  | cons w rest ih =>
    rw [List.cons_append, WordsAt, WordsAt, ih, and_assoc, List.length_cons, Nat.add_assoc, Nat.mul_succ,
      Nat.add_comm 8]

theorem wordsAt_of_bytesAt {words : List UInt64} (h : m.BytesAt addr (words.flatMap Bytes.le64)) :
    m.WordsAt addr words := by
  induction words generalizing addr with
  | nil => trivial
  | cons w rest ih =>
    rw [List.flatMap_cons, bytesAt_append] at h
    exact ⟨word_of_bytesAt h.1, ih h.2⟩

/-! ### Strings -/

/-- A string with its end. -/
def StringAt (m : Mapped) (addr : Nat) (str : List UInt8) : Prop := 0 ∉ str ∧ m.BytesAt addr (str ++ [0])

instance (m : Mapped) (addr : Nat) (str : List UInt8) : Decidable (m.StringAt addr str) :=
  inferInstanceAs (Decidable (_ ∧ _))

/-- An array of pointers to strings, with the null pointer at its end. -/
def StringsAt (m : Mapped) : Nat → List (List UInt8) → Prop
  | addr, [] => m.word addr = some 0
  | addr, str :: rest => (∃ p ∈ m.word addr, p ≠ 0 ∧ m.StringAt p.toNat str) ∧ StringsAt m (addr + 8) rest

instance decidableStringsAt (m : Mapped) : ∀ addr strs, Decidable (m.StringsAt addr strs)
  | addr, [] => inferInstanceAs (Decidable (m.word addr = some 0))
  | addr, _ :: rest =>
    let _ := decidableStringsAt m (addr + 8) rest
    inferInstanceAs (Decidable (_ ∧ _))

theorem StringsAt.zero_not_mem (h : m.StringsAt addr strs) : ∀ str ∈ strs, 0 ∉ str := by
  induction strs generalizing addr with
  | nil => exact fun _ hno => absurd hno List.not_mem_nil
  | cons str rest ih =>
    obtain ⟨⟨p, -, -, hstr⟩, hrest⟩ := h
    intro s hs
    rcases List.mem_cons.mp hs with rfl | hs
    · exact hstr.1
    · exact ih hrest s hs

theorem stringsAt_of_wordsAt {ptrs : List UInt64}
    (hstrs : List.Forall₂ (fun p str => p ≠ 0 ∧ m.StringAt p.toNat str) ptrs strs)
    (hwords : m.WordsAt addr (ptrs ++ [0])) : m.StringsAt addr strs := by
  induction hstrs generalizing addr with
  | nil => exact hwords.1
  | cons hstr _ ih => exact ⟨⟨_, hwords.1, hstr⟩, ih hwords.2⟩

/-! ### Pairs -/

/-- Pairs of a key and a value, up to the key `0`. -/
def PairsAt (m : Mapped) : Nat → List (UInt64 × UInt64) → Prop
  | addr, [] => m.word addr = some 0
  | addr, (key, value) :: rest =>
    key ≠ 0 ∧ m.word addr = some key ∧ m.word (addr + 8) = some value ∧ PairsAt m (addr + 16) rest

theorem pairsAt_of_wordsAt {pairs : List (UInt64 × UInt64)} (hkeys : ∀ pair ∈ pairs, pair.1 ≠ 0)
    (hwords : m.WordsAt addr ((pairs.flatMap fun pair => [pair.1, pair.2]) ++ [0])) : m.PairsAt addr pairs := by
  induction pairs generalizing addr with
  | nil => exact hwords.1
  | cons pair rest ih =>
    obtain ⟨hkey, hvalue, hrest⟩ := hwords
    exact ⟨hkeys pair List.mem_cons_self, hkey, hvalue, ih (fun p hp => hkeys p (List.mem_cons_of_mem _ hp)) hrest⟩

end Mapped

end Litenix.Lib
