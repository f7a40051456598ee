import Mathlib.Data.List.TakeWhile

/-! Texts as lists of characters: their lines, and the fields of a line. A mark ends each line, and another
mark separates the fields; nothing is said about either beyond that it can be recognised. -/

namespace Litenix.Lib

variable {α : Type*} [DecidableEq α] {mark : α}
variable {line : List α}

/-- The lines of a text. A last line without its mark counts, an empty one does not. -/
def lines (mark : α) : List α → List (List α)
  | [] => []
  | c :: rest =>
    if c = mark then [] :: lines mark rest
    else match lines mark rest with
      | [] => [[c]]
      | line :: others => (c :: line) :: others

/-- The text of some lines, each with its mark. -/
def unlines (mark : α) (ls : List (List α)) : List α := ls.flatMap fun line => line ++ [mark]

/-- The first field of a line. -/
def field (mark : α) (line : List α) : List α := line.takeWhile fun c => !decide (c = mark)

/-- What follows the first field of a line and its mark, if there is a mark. -/
def afterField (mark : α) (line : List α) : Option (List α) :=
  if mark ∈ line then some (line.dropWhile fun c => !decide (c = mark)).tail else none

theorem lines_append_mark (hline : mark ∉ line) (rest : List α) :
    lines mark (line ++ mark :: rest) = line :: lines mark rest := by
  induction line with
  | nil => simp [lines]
  | cons c line ih =>
    rw [List.mem_cons, not_or] at hline
    rw [List.cons_append, lines, if_neg (Ne.symm hline.1), ih hline.2]

/-- **Reading back.** The lines of a text made of lines are these lines. -/
theorem lines_unlines {ls : List (List α)} (hls : ∀ line ∈ ls, mark ∉ line) : lines mark (unlines mark ls) = ls := by
  induction ls with
  | nil => rfl
  | cons line ls ih =>
    rw [unlines, List.flatMap_cons, List.append_assoc, List.singleton_append,
      lines_append_mark (hls line List.mem_cons_self)]
    exact congrArg (line :: ·) (ih fun l hl => hls l (List.mem_cons_of_mem line hl))

/-- A line holds characters of the text, and not the mark. -/
theorem lines_chars {text : List α} : ∀ {line : List α}, line ∈ lines mark text → ∀ c ∈ line, c ∈ text ∧ c ≠ mark := by
  induction text with
  | nil => exact fun hline => absurd hline (by simp [lines])
  | cons d rest ih =>
  have hlift {line : List α} (hline : line ∈ lines mark rest) (c : α) (hc : c ∈ line) :
      c ∈ d :: rest ∧ c ≠ mark :=
    ⟨List.mem_cons_of_mem d (ih hline c hc).1, (ih hline c hc).2⟩
  intro line hline c hc
  rw [lines] at hline
  split at hline
  · rcases List.mem_cons.mp hline with rfl | hline
    · simp at hc
    · exact hlift hline c hc
  rename_i hmark
  have hd : d ∈ d :: rest ∧ d ≠ mark := ⟨List.mem_cons_self, hmark⟩
  split at hline
  · rw [List.mem_singleton] at hline
    subst hline
    rw [List.mem_singleton] at hc
    exact hc ▸ hd
  rename_i first others hrest
  rcases List.mem_cons.mp hline with rfl | hline
  · rcases List.mem_cons.mp hc with rfl | hc
    · exact hd
    · exact hlift (hrest ▸ List.mem_cons_self) c hc
  · exact hlift (hrest ▸ List.mem_cons_of_mem first hline) c hc

theorem afterField_subset {rest : List α} (h : afterField mark line = some rest) : rest ⊆ line := by
  rw [afterField] at h
  split at h
  · cases h
    exact fun c hc => (List.dropWhile_sublist _).subset (List.mem_of_mem_tail hc)
  · cases h

theorem field_append (hline : mark ∉ line) (rest : List α) : field mark (line ++ mark :: rest) = line := by
  rw [field, List.takeWhile_append_of_pos fun c hc => by simpa using fun h : c = mark => hline (h ▸ hc)]
  simp

/-- A first field shorter than the cut is not changed by it. -/
theorem field_take {n : Nat} (h : (field mark (line.take n)).length < n) :
    field mark (line.take n) = field mark line := by
  induction line generalizing n with
  | nil => simp
  | cons c line ih =>
  cases n with
  | zero => exact absurd h (Nat.not_lt_zero _)
  | succ n =>
    by_cases hc : c = mark
    · simp [field, hc]
    · simp only [field, List.take_succ_cons, List.takeWhile_cons, hc, decide_false, Bool.not_false, if_true,
        List.length_cons, Nat.add_lt_add_iff_right] at h ⊢
      exact congrArg (c :: ·) (ih h)

end Litenix.Lib
