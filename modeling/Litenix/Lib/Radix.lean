import Litenix.Lib.RefCount
import Litenix.Lib.Table
import Mathlib.Tactic.Ring
import Mathlib.Tactic.Positivity

/-! Radix trees laid out in a flat memory of tables, several trees side by side. A table is a frame
of words; `next` decodes a word to the frame it points at, if any. The word at index `i` of a table at
position `path` points at the table at position `i :: path`, and the words of the tables at depth `depth`
are the leaves. `width` is the number of words of a table that belong to the tree, by depth: a table may
carry words at higher indices that are not part of it.

`Tables` records which frame is which table, as a map `pos` from frames to a root and a position. It is
what makes the tables of all trees disjoint, and with it a walk from a root is determined by `pos`. In a
`Shape` moreover no leaf points at a table. -/

namespace Litenix.Lib.Radix

open Function

variable {W : Type}
variable {base d f n : Nat} {mem' : Nat → Nat → W}
variable {x : Nat × List Nat} {path' q : List Nat}

/-- One word of one frame replaced. -/
def setWord (mem : Nat → Nat → W) (frame index : Nat) (w : W) : Nat → Nat → W :=
  update mem frame (update (mem frame) index w)

theorem setWord_same (mem : Nat → Nat → W) (frame index : Nat) (w : W) :
    setWord mem frame index w frame index = w := by
  simp [setWord]

theorem setWord_of_ne (mem : Nat → Nat → W) {frame index : Nat} (w : W)
    (h : f ≠ frame ∨ i ≠ index) : setWord mem frame index w f i = mem f i := by
  by_cases hf : f = frame
  · subst hf
    have hi : i ≠ index := h.resolve_left fun h => h rfl
    simp [setWord, hi]
  · simp [setWord, hf]

section Walk

variable (next : W → Option Nat) (mem : Nat → Nat → W) (root : Nat)

/-- The table at a position; the head of the list is the last index. -/
def tableAt : List Nat → Option Nat
  | [] => some root
  | i :: path => (tableAt path).bind fun t => next (mem t i)

/-- The word at a leaf position, when it points somewhere. -/
def leafEntry (path : List Nat) (i : Nat) : Option W :=
  (tableAt next mem root path).bind fun t => if (next (mem t i)).isSome then some (mem t i) else none

end Walk

/-- The indices of a position are within the widths. -/
def ValidPath (width : Nat → Nat) : List Nat → Prop
  | [] => True
  | i :: path => i < width path.length ∧ ValidPath width path

/-- Which frame is which table: the positions of the tables of all trees, each frame at one of them. -/
structure Tables (next : W → Option Nat) (width : Nat → Nat) (depth : Nat)
    (pos : Nat → Option (Nat × List Nat)) (live : Finset Nat) (mem : Nat → Nat → W) : Prop where
  root : ∀ r ∈ live, pos r = some (r, [])
  live : ∀ {f r path}, pos f = some (r, path) → r ∈ live ∧ path.length ≤ depth ∧ (path = [] → f = r)
  child : ∀ {f r path i g}, pos f = some (r, path) → path.length < depth → i < width path.length →
    next (mem f i) = some g → pos g = some (r, i :: path)
  parent : ∀ {f r path i}, pos f = some (r, i :: path) →
    i < width path.length ∧ ∃ g, pos g = some (r, path) ∧ next (mem g i) = some f

structure Shape (next : W → Option Nat) (width : Nat → Nat) (depth : Nat)
    (pos : Nat → Option (Nat × List Nat)) (live : Finset Nat) (mem : Nat → Nat → W) : Prop where
  root : ∀ r ∈ live, pos r = some (r, [])
  live : ∀ {f r path}, pos f = some (r, path) → r ∈ live ∧ path.length ≤ depth ∧ (path = [] → f = r)
  child : ∀ {f r path i g}, pos f = some (r, path) → path.length < depth → i < width path.length →
    next (mem f i) = some g → pos g = some (r, i :: path)
  parent : ∀ {f r path i}, pos f = some (r, i :: path) →
    i < width path.length ∧ ∃ g, pos g = some (r, path) ∧ next (mem g i) = some f
  leaf : ∀ {f r path i g}, pos f = some (r, path) → path.length = depth → i < width depth →
    next (mem f i) = some g → pos g = none

variable {next : W → Option Nat} {width : Nat → Nat} {depth : Nat}
  {pos : Nat → Option (Nat × List Nat)} {live : Finset Nat} {mem : Nat → Nat → W}

/-- Where the tables are when a frame becomes one. -/
theorem update_eq_some_iff {g : Nat} {y : Nat × List Nat} (hg : pos g = none) :
    update pos g (some x) f = some y ↔ f = g ∧ y = x ∨ pos f = some y := by
  refine update_ind f ?_ fun hne => ?_
  · simp [hg, eq_comm]
  · simp [hne]

namespace Tables

section

variable (h : Tables next width depth pos live mem)

include h

theorem tableAt_of_pos :
    ∀ {f : Nat}, pos f = some (r, path) → tableAt next mem r path = some f ∧ ValidPath width path := by
  induction path with
  | nil =>
    intro f hf
    exact ⟨congrArg some ((h.live hf).2.2 rfl).symm, trivial⟩
  | cons i path ih =>
    intro f hf
    obtain ⟨hi, g, hg, hnext⟩ := h.parent hf
    obtain ⟨hwalk, hvalid⟩ := ih hg
    refine ⟨?_, hi, hvalid⟩
    rw [tableAt, hwalk]
    exact hnext

theorem pos_of_tableAt (hr : r ∈ live) :
    ∀ {f : Nat}, path.length ≤ depth → ValidPath width path →
      tableAt next mem r path = some f → pos f = some (r, path) := by
  induction path with
  | nil =>
    intro f _ _ hf
    cases hf
    exact h.root r hr
  | cons i path ih =>
    intro f hlen hvalid hf
    rw [List.length_cons] at hlen
    obtain ⟨t, ht, hnext⟩ := Option.bind_eq_some_iff.mp hf
    exact h.child (ih (by omega) hvalid.2 ht) (by omega) hvalid.1 hnext

/-- A walk from a live root along a valid position is read off `pos`. -/
theorem tableAt_eq_some_iff (hr : r ∈ live) (hlen : path.length ≤ depth) (hvalid : ValidPath width path) :
    tableAt next mem r path = some f ↔ pos f = some (r, path) :=
  ⟨h.pos_of_tableAt hr hlen hvalid, fun hf => (h.tableAt_of_pos hf).1⟩

theorem pos_injective (hf : pos f = some x) (hg : pos g = some x) : f = g := by
  obtain ⟨r, path⟩ := x
  exact Option.some.inj ((h.tableAt_of_pos hf).1.symm.trans (h.tableAt_of_pos hg).1)

/-- Walks agree in two memories with the same positions. -/
theorem tableAt_congr (h' : Tables next width depth pos live mem') (hr : r ∈ live)
    (hlen : path.length ≤ depth) (hvalid : ValidPath width path) :
    tableAt next mem' r path = tableAt next mem r path := by
  ext f
  rw [h.tableAt_eq_some_iff hr hlen hvalid, h'.tableAt_eq_some_iff hr hlen hvalid]

theorem congr_tables (hmem : ∀ f x, pos f = some x → mem' f = mem f) : Tables next width depth pos live mem' where
  root := h.root
  live := h.live
  child := fun hf hlen hi hnext => h.child hf hlen hi (by rwa [hmem _ _ hf] at hnext)
  parent := fun hf => by
    obtain ⟨hi, g, hg, hnext⟩ := h.parent hf
    exact ⟨hi, g, hg, by rwa [hmem _ _ hg]⟩

theorem leafEntry_congr (hmem : ∀ f x, pos f = some x → mem' f = mem f) (hr : r ∈ live)
    (hlen : path.length ≤ depth) (hvalid : ValidPath width path) (i : Nat) :
    leafEntry next mem' r path i = leafEntry next mem r path i := by
  unfold leafEntry
  rw [h.tableAt_congr (h.congr_tables hmem) hr hlen hvalid]
  cases ht : tableAt next mem r path with
  | none => rfl
  | some t => simp only [Option.bind_some, hmem _ _ (h.pos_of_tableAt hr hlen hvalid ht)]

theorem setLeaf (w : W) (ht : pos t = some (r, path)) (hpath : path.length = depth) :
    Tables next width depth pos live (setWord mem t i w) where
  root := h.root
  live := h.live
  child := by
    intro f r' path' j g hf hlen hj hnext
    have hne : f ≠ t := by
      rintro rfl
      rw [ht] at hf
      cases hf
      omega
    rw [setWord_of_ne _ _ (.inl hne)] at hnext
    exact h.child hf hlen hj hnext
  parent := by
    intro f r' path' j hf
    obtain ⟨hj, g, hg, hnext⟩ := h.parent hf
    have hne : g ≠ t := by
      rintro rfl
      rw [ht] at hg
      cases hg
      have := (h.live hf).2.1
      rw [List.length_cons] at this
      omega
    exact ⟨hj, g, hg, by rwa [setWord_of_ne _ _ (.inl hne)]⟩

theorem leafEntry_setLeaf (w : W)
    (ht : pos t = some (r, path)) (hpath : path.length = depth) {r' : Nat} (hr : r' ∈ live)
    (hlen : path'.length ≤ depth) (hvalid : ValidPath width path') (i' : Nat) :
    leafEntry next (setWord mem t i w) r' path' i' =
      if r' = r ∧ path' = path ∧ i' = i then (if (next w).isSome then some w else none)
      else leafEntry next mem r' path' i' := by
  unfold leafEntry
  rw [h.tableAt_congr (h.setLeaf w ht hpath) hr hlen hvalid]
  cases hwalk : tableAt next mem r' path' with
  | none =>
    rw [if_neg]
    · rfl
    · rintro ⟨rfl, rfl, -⟩
      rw [(h.tableAt_of_pos ht).1] at hwalk
      cases hwalk
  | some f =>
  have hf := h.pos_of_tableAt hr hlen hvalid hwalk
  simp only [Option.bind_some]
  by_cases hsame : r' = r ∧ path' = path ∧ i' = i
  · obtain ⟨rfl, rfl, rfl⟩ := hsame
    obtain rfl := h.pos_injective hf ht
    simp only [setWord_same, and_self, if_true]
  rw [if_neg hsame, setWord_of_ne]
  by_contra hboth
  rw [not_or, not_not, not_not] at hboth
  obtain ⟨rfl, rfl⟩ := hboth
  rw [hf] at ht
  cases ht
  exact hsame ⟨rfl, rfl, rfl⟩

end

section NewTable

variable {g t r i : Nat} {path : List Nat} {w : W}

section

variable (h : Tables next width depth pos live mem) (hg : pos g = none) (hempty : ∀ j, next (mem g j) = none)
  (ht : pos t = some (r, path)) (hlen : path.length < depth) (hi : i < width path.length)
  (hnone : next (mem t i) = none) (hw : next w = some g)

include h hg hempty ht hlen hi hnone hw

theorem insertTable : Tables next width depth (update pos g (some (r, i :: path))) live (setWord mem t i w) := by
  have htg : t ≠ g := by
    rintro rfl
    rw [hg] at ht
    cases ht
  have hpos {f y} : update pos g (some (r, i :: path)) f = some y ↔ _ := update_eq_some_iff hg
  have hgword : ∀ j, setWord mem t i w g j = mem g j := fun j => setWord_of_ne _ _ (.inl htg.symm)
  refine ⟨fun q hq => hpos.mpr (.inr (h.root q hq)), ?_, ?_, ?_⟩
  · intro f q path' hf
    rcases hpos.mp hf with ⟨rfl, hx⟩ | hf
    · cases hx
      refine ⟨(h.live ht).1, ?_, fun hnil => by cases hnil⟩
      rw [List.length_cons]
      omega
    · exact h.live hf
  · intro f q path' j g' hf hlen' hj hnext
    rcases hpos.mp hf with ⟨rfl, -⟩ | hold
    · rw [hgword, hempty] at hnext
      cases hnext
    by_cases hsame : f = t ∧ j = i
    · obtain ⟨rfl, rfl⟩ := hsame
      rw [setWord_same, hw] at hnext
      cases hnext
      rw [ht] at hold
      cases hold
      exact update_self ..
    · rw [setWord_of_ne _ _ (by tauto)] at hnext
      exact hpos.mpr (.inr (h.child hold hlen' hj hnext))
  intro f q path' j hf
  rcases hpos.mp hf with ⟨rfl, hx⟩ | hf
  · cases hx
    exact ⟨hi, t, hpos.mpr (.inr ht), by rw [setWord_same, hw]⟩
  obtain ⟨hj, g', hg', hnext⟩ := h.parent hf
  refine ⟨hj, g', hpos.mpr (.inr hg'), ?_⟩
  have hsame : ¬(g' = t ∧ j = i) := by
    rintro ⟨rfl, rfl⟩
    rw [hnone] at hnext
    cases hnext
  rwa [setWord_of_ne _ _ (by tauto)]

theorem leafEntry_insertTable {r' : Nat} (hr : r' ∈ live) (hlen' : path'.length = depth)
    (hvalid : ValidPath width path') (i' : Nat) :
    leafEntry next (setWord mem t i w) r' path' i' = leafEntry next mem r' path' i' := by
  have h' := h.insertTable hg hempty ht hlen hi hnone hw
  have htg : t ≠ g := by
    rintro rfl
    rw [hg] at ht
    cases ht
  have hiff : ∀ f, tableAt next (setWord mem t i w) r' path' = some f ↔
      update pos g (some (r, i :: path)) f = some (r', path') :=
    fun f => h'.tableAt_eq_some_iff hr hlen'.le hvalid
  by_cases hsame : r' = r ∧ path' = i :: path
  · -- the position had no table, and now has one without entries
    obtain ⟨rfl, rfl⟩ := hsame
    have hnew := (hiff g).mpr (update_self ..)
    have hold : tableAt next mem r' (i :: path) = none := by
      rw [tableAt, (h.tableAt_of_pos ht).1]
      exact hnone
    unfold leafEntry
    rw [hnew, hold, Option.bind_some, setWord_of_ne _ _ (.inl htg.symm), hempty]
    rfl
  have hwalk : tableAt next (setWord mem t i w) r' path' = tableAt next mem r' path' := by
    ext f
    rw [hiff, h.tableAt_eq_some_iff hr hlen'.le hvalid]
    rw [update_eq_some_iff hg]
    refine or_iff_right ?_
    rintro ⟨-, hx⟩
    cases hx
    exact hsame ⟨rfl, rfl⟩
  unfold leafEntry
  rw [hwalk]
  cases hold : tableAt next mem r' path' with
  | none => rfl
  | some f =>
    have hft : f ≠ t := by
      rintro rfl
      have hf := h.pos_of_tableAt hr hlen'.le hvalid hold
      rw [ht] at hf
      cases hf
      omega
    rw [Option.bind_some, Option.bind_some, setWord_of_ne _ _ (.inl hft)]

end

end NewTable

end Tables

namespace Shape

theorem tables (h : Shape next width depth pos live mem) : Tables next width depth pos live mem :=
  ⟨h.root, h.live, h.child, h.parent⟩

theorem of_tables (h : Tables next width depth pos live mem)
    (hleaf : ∀ {f r path i g}, pos f = some (r, path) → path.length = depth → i < width depth →
      next (mem f i) = some g → pos g = none) : Shape next width depth pos live mem :=
  ⟨h.root, h.live, h.child, h.parent, hleaf⟩

/-! ### Writes that create or remove no table -/

theorem congr_tables (h : Shape next width depth pos live mem)
    (hmem : ∀ f x, pos f = some x → mem' f = mem f) : Shape next width depth pos live mem' :=
  .of_tables (h.tables.congr_tables hmem)
    fun hf hlen hi hnext => h.leaf hf hlen hi (by rwa [hmem _ _ hf] at hnext)

theorem setLeaf (h : Shape next width depth pos live mem) (ht : pos t = some (r, path)) (hpath : path.length = depth)
    (hw : ∀ g, next w = some g → pos g = none) : Shape next width depth pos live (setWord mem t i w) := by
  refine .of_tables (h.tables.setLeaf w ht hpath) ?_
  intro f r' path' j g hf hlen hj hnext
  by_cases hsame : f = t ∧ j = i
  · obtain ⟨rfl, rfl⟩ := hsame
    rw [setWord_same] at hnext
    exact hw g hnext
  · rw [setWord_of_ne _ _ (by tauto)] at hnext
    exact h.leaf hf hlen hj hnext

/-! ### New tables and new trees -/

/-- No word of a table points at a frame that is to become one. -/
def Unreferenced (next : W → Option Nat) (pos : Nat → Option (Nat × List Nat)) (mem : Nat → Nat → W)
    (width : Nat → Nat) (g : Nat) : Prop :=
  ∀ f r path i, pos f = some (r, path) → i < width path.length → next (mem f i) ≠ some g

section NewTable

variable {g t r i : Nat} {path : List Nat} {w : W}

theorem insertTable (h : Shape next width depth pos live mem) (hg : pos g = none)
    (hfresh : Unreferenced next pos mem width g) (hempty : ∀ j, next (mem g j) = none)
    (ht : pos t = some (r, path)) (hlen : path.length < depth) (hi : i < width path.length)
    (hnone : next (mem t i) = none) (hw : next w = some g) :
    Shape next width depth (update pos g (some (r, i :: path))) live (setWord mem t i w) := by
  refine .of_tables (h.tables.insertTable hg hempty ht hlen hi hnone hw) ?_
  intro f q path' j g' hf hlen' hj hnext
  have htg : t ≠ g := by
    rintro rfl
    rw [hg] at ht
    cases ht
  by_cases hfg : f = g
  · rw [hfg, setWord_of_ne _ _ (.inl htg.symm), hempty] at hnext
    cases hnext
  rw [update_of_ne hfg] at hf
  have hft : f ≠ t := by
    rintro rfl
    rw [ht] at hf
    cases hf
    omega
  rw [setWord_of_ne _ _ (.inl hft)] at hnext
  have hne : g' ≠ g := by
    rintro rfl
    exact hfresh f q path' j hf (by rwa [hlen']) hnext
  rw [update_of_ne hne]
  exact h.leaf hf hlen' hj hnext

end NewTable

section Trees

variable {g r : Nat}

theorem insertRoot (h : Shape next width depth pos live mem) (hg : pos g = none)
    (hfresh : Unreferenced next pos mem width g) (hempty : ∀ j < width 0, next (mem g j) = none)
    (hdepth : 0 < depth) : Shape next width depth (update pos g (some (g, []))) (insert g live) mem := by
  have hpos {f y} : update pos g (some (g, [])) f = some y ↔ _ := update_eq_some_iff hg
  refine ⟨?_, ?_, ?_, ?_, ?_⟩
  · intro q hq
    rcases Finset.mem_insert.mp hq with rfl | hq
    · exact update_self ..
    · exact hpos.mpr (.inr (h.root q hq))
  · intro f q path hf
    rcases hpos.mp hf with ⟨rfl, hx⟩ | hf
    · cases hx
      exact ⟨Finset.mem_insert_self .., Nat.zero_le _, fun _ => rfl⟩
    · obtain ⟨hq, hrest⟩ := h.live hf
      exact ⟨Finset.mem_insert_of_mem hq, hrest⟩
  · intro f q path i g' hf hlen hi hnext
    rcases hpos.mp hf with ⟨rfl, hx⟩ | hf
    · cases hx
      rw [hempty i hi] at hnext
      cases hnext
    · exact hpos.mpr (.inr (h.child hf hlen hi hnext))
  · intro f q path i hf
    rcases hpos.mp hf with ⟨-, hx⟩ | hf
    · cases hx
    · obtain ⟨hi, g', hg', hnext⟩ := h.parent hf
      exact ⟨hi, g', hpos.mpr (.inr hg'), hnext⟩
  intro f q path i g' hf hlen hi hnext
  rcases hpos.mp hf with ⟨rfl, hx⟩ | hold
  · cases hx
    rw [List.length_nil] at hlen
    omega
  have hne : g' ≠ g := by
    rintro rfl
    exact hfresh f q path i hold (by rwa [hlen]) hnext
  rw [update_of_ne hne]
  exact h.leaf hold hlen hi hnext

/-- The positions without those of one tree. -/
def dropTree (pos : Nat → Option (Nat × List Nat)) (r : Nat) : Nat → Option (Nat × List Nat) :=
  fun f => (pos f).filter fun x => x.1 ≠ r

theorem dropTree_eq_some : dropTree pos r f = some x ↔ pos f = some x ∧ x.1 ≠ r := by
  simp [dropTree, Option.filter_eq_some_iff]

theorem eraseRoot (h : Shape next width depth pos live mem) :
    Shape next width depth (dropTree pos r) (live.erase r) mem where
  root := by
    intro q hq
    obtain ⟨hne, hq⟩ := Finset.mem_erase.mp hq
    exact dropTree_eq_some.mpr ⟨h.root q hq, hne⟩
  live := by
    intro f q path hf
    obtain ⟨hf, hne⟩ := dropTree_eq_some.mp hf
    obtain ⟨hq, hrest⟩ := h.live hf
    exact ⟨Finset.mem_erase.mpr ⟨hne, hq⟩, hrest⟩
  child := by
    intro f q path i g' hf hlen hi hnext
    obtain ⟨hf, hne⟩ := dropTree_eq_some.mp hf
    exact dropTree_eq_some.mpr ⟨h.child hf hlen hi hnext, hne⟩
  parent := by
    intro f q path i hf
    obtain ⟨hf, hne⟩ := dropTree_eq_some.mp hf
    obtain ⟨hi, g', hg', hnext⟩ := h.parent hf
    exact ⟨hi, g', dropTree_eq_some.mpr ⟨hg', hne⟩, hnext⟩
  leaf := by
    intro f q path i g' hf hlen hi hnext
    obtain ⟨hf, -⟩ := dropTree_eq_some.mp hf
    rw [dropTree, h.leaf hf hlen hi hnext]
    rfl

end Trees

end Shape

/-! ### Positions as numbers

With tables of `base` words, a leaf is named by the number `v` whose digits are the indices on the way to
it, and a table at depth `d` by the number of its own digits. -/

/-- The position of the table with number `n` at depth `d`. -/
def pathOf (base : Nat) : (d n : Nat) → List Nat
  | 0, _ => []
  | d + 1, n => n % base :: pathOf base d (n / base)

theorem length_pathOf (base d n : Nat) : (pathOf base d n).length = d := by
  induction d generalizing n with
  | zero => rfl
  | succ d ih => rw [pathOf, List.length_cons, ih]

theorem pathOf_child (hi : i < base) : pathOf base (d + 1) (n * base + i) = i :: pathOf base d n := by
  rw [pathOf, mul_comm n base, Nat.mul_add_mod, Nat.mod_eq_of_lt hi, Nat.mul_add_div (by omega),
    Nat.div_eq_of_lt hi, add_zero]

theorem pathOf_suffix (base d e n : Nat) : pathOf base d (n / base ^ e) <:+ pathOf base (d + e) n := by
  induction e generalizing n with
  | zero => rw [pow_zero, Nat.div_one, add_zero]
  | succ e ih =>
    rw [pow_succ', ← Nat.div_div_eq_div_mul, ← add_assoc, pathOf]
    exact (ih (n / base)).trans (List.suffix_cons _ _)

theorem validPath_pathOf (hbase : 0 < base) (hwidth : ∀ d, 0 < d → width d = base)
    (hd : 0 < d) (e : Nat) (h : ValidPath width (pathOf base d (n / base ^ e))) :
    ValidPath width (pathOf base (d + e) n) := by
  induction e generalizing n with
  | zero => rwa [pow_zero, Nat.div_one] at h
  | succ e ih =>
    rw [← add_assoc, pathOf]
    refine ⟨?_, ih ?_⟩
    · rw [length_pathOf, hwidth _ (by omega)]
      exact Nat.mod_lt _ hbase
    · rwa [Nat.div_div_eq_div_mul, ← pow_succ']

/-- The frame that leaf number `v` points at. -/
def leafFrame (next : W → Option Nat) (base depth : Nat) (mem : Nat → Nat → W) (r v : Nat) : Option Nat :=
  (leafEntry next mem r (pathOf base depth (v / base)) (v % base)).bind next

/-- The frames below one table: for each entry its subtree, a table after what is below it. At level `0`
the entry points at a leaf frame. -/
def subtree (next : W → Option Nat) (base : Nat) (mem : Nat → Nat → W) : (level frame : Nat) → List Nat
  | 0, frame => [frame]
  | level + 1, frame =>
    ((List.range base).flatMap fun i =>
      match next (mem frame i) with
      | some g => subtree next base mem level g
      | none => []) ++ [frame]

/-- The frames below the first `entries` words of a table. -/
def below (next : W → Option Nat) (base : Nat) (mem : Nat → Nat → W) (entries level frame : Nat) : List Nat :=
  (List.range entries).flatMap fun i =>
    match next (mem frame i) with
    | some g => subtree next base mem level g
    | none => []

theorem count_flatMap_range {α : Type} [DecidableEq α] (g : Nat → List α) (n : Nat) (a : α) :
    ((List.range n).flatMap g).count a = ∑ i ∈ Finset.range n, (g i).count a := by
  induction n with
  | zero => rfl
  | succ n ih => simp [List.range_succ, List.flatMap_append, Finset.sum_range_succ, ih]

namespace Shape

theorem exists_pos_of_suffix (h : Shape next width depth pos live mem)
    (hsuffix : path <:+ q) : ∀ {f : Nat}, pos f = some (r, q) → ∃ g, pos g = some (r, path) := by
  induction q with
  | nil =>
    intro f hf
    rw [List.suffix_nil.mp hsuffix]
    exact ⟨f, hf⟩
  | cons i q ih =>
    intro f hf
    rcases List.suffix_cons_iff.mp hsuffix with rfl | hsuffix
    · exact ⟨f, hf⟩
    · obtain ⟨-, g, hg, -⟩ := h.parent hf
      exact ih hsuffix hg

theorem not_below_empty (h : Shape next width depth pos live mem)
    (ht : pos t = some (r, path)) (hnone : next (mem t i) = none) (hf : pos f = some (r, q)) : ¬i :: path <:+ q := by
  intro hsuffix
  obtain ⟨g, hg⟩ := h.exists_pos_of_suffix hsuffix hf
  obtain ⟨-, t', ht', hnext⟩ := h.parent hg
  rw [h.tables.pos_injective ht' ht, hnone] at hnext
  cases hnext

/-- The frame is a table of the tree, at `path` or below it. -/
def Under (pos : Nat → Option (Nat × List Nat)) (r : Nat) (path : List Nat) (f : Nat) : Prop :=
  ∃ q, pos f = some (r, q) ∧ path <:+ q

open Classical in
/-- A table is counted once among the tables below its ancestors' entries. -/
theorem sum_under (h : Shape next width depth pos live mem) (ht : pos t = some (r, path)) :
    (∑ i ∈ Finset.range (width path.length), if Under pos r (i :: path) f then 1 else 0) =
      if Under pos r path f ∧ f ≠ t then 1 else 0 := by
  by_cases hunder : Under pos r path f ∧ f ≠ t
  · obtain ⟨⟨q, hq, hsuffix⟩, hne⟩ := hunder
    have hstrict : ∃ i, i :: path <:+ q := by
      obtain ⟨front, rfl⟩ := hsuffix
      rcases List.eq_nil_or_concat front with rfl | ⟨front, i, rfl⟩
      · exact absurd (h.tables.pos_injective hq (by simpa using ht)) hne
      · exact ⟨i, front, by simp⟩
    obtain ⟨i, hi⟩ := hstrict
    have hlt : i < width path.length := by
      obtain ⟨g, hg⟩ := h.exists_pos_of_suffix hi hq
      exact (h.parent hg).1
    rw [if_pos ⟨⟨q, hq, hsuffix⟩, hne⟩, Finset.sum_eq_single i]
    · exact if_pos ⟨q, hq, hi⟩
    · rintro j - hj
      refine if_neg ?_
      rintro ⟨q', hq', hj'⟩
      rw [hq] at hq'
      cases hq'
      have heq := (List.suffix_of_suffix_length_le hj' hi le_rfl).eq_of_length rfl
      exact hj (List.cons.inj heq).1
    · exact fun hmem => absurd (Finset.mem_range.mpr hlt) hmem
  rw [if_neg hunder]
  refine Finset.sum_eq_zero fun i _ => if_neg ?_
  rintro ⟨q, hq, hi⟩
  refine hunder ⟨⟨q, hq, (List.suffix_cons i path).trans hi⟩, ?_⟩
  rintro rfl
  rw [ht] at hq
  cases hq
  have := hi.length_le
  rw [List.length_cons] at this
  omega

/-- Under an empty entry no leaf points anywhere. -/
theorem leafFrame_eq_none (h : Shape next width depth pos live mem) (hbase : 0 < base)
    (hwidth : ∀ d, 0 < d → width d = base) (ht : pos t = some (r, pathOf base d n))
    (hi : i < width d) (hib : i < base) (hnone : next (mem t i) = none) {e v : Nat} (he : d + 1 + e = depth)
    (hv : v / base / base ^ e = n * base + i) : leafFrame next base depth mem r v = none := by
  have hr := (h.live ht).1
  have hvalid : ValidPath width (pathOf base depth (v / base)) := by
    rw [← he]
    refine validPath_pathOf hbase hwidth (by omega) e ?_
    rw [hv, pathOf_child hib]
    exact ⟨by rwa [length_pathOf], (h.tables.tableAt_of_pos ht).2⟩
  unfold leafFrame leafEntry
  cases hwalk : tableAt next mem r (pathOf base depth (v / base)) with
  | none => rfl
  | some f =>
    exfalso
    have hf := h.tables.pos_of_tableAt hr (length_pathOf ..).le hvalid hwalk
    refine h.not_below_empty ht hnone hf ?_
    rw [← pathOf_child hib, ← hv, ← he]
    exact pathOf_suffix base (d + 1) e _

theorem leafFrame_of_table (h : Shape next width depth pos live mem) {j : Nat}
    (ht : pos t = some (r, pathOf base depth n)) (hj : j < base) :
    leafFrame next base depth mem r (n * base + j) = next (mem t j) := by
  have hmod : (n * base + j) % base = j := by
    rw [mul_comm, Nat.mul_add_mod, Nat.mod_eq_of_lt hj]
  have hdiv : (n * base + j) / base = n := by
    rw [mul_comm, Nat.mul_add_div (by omega), Nat.div_eq_of_lt hj, add_zero]
  unfold leafFrame leafEntry
  rw [hmod, hdiv, (h.tables.tableAt_of_pos ht).1, Option.bind_some]
  cases hnext : next (mem t j) with
  | none => rfl
  | some g => exact hnext

open Classical in
/-- The frames below a table: one occurrence for each leaf that points at the frame, and one when it is
itself a table there. -/
theorem count_below (h : Shape next width depth pos live mem) (base : Nat) (hbase : 0 < base)
    (hwidth : ∀ d, 0 < d → width d = base) (hzero : width 0 ≤ base) (f : Nat) :
    ∀ level {t r d n : Nat}, pos t = some (r, pathOf base d n) → d + level = depth →
      (below next base mem (width d) level t).count f =
        (∑ j ∈ Finset.range (width d * base ^ level),
          if leafFrame next base depth mem r (n * base ^ (level + 1) + j) = some f then 1 else 0) +
        if Under pos r (pathOf base d n) f ∧ f ≠ t then 1 else 0 := by
  have hle : ∀ d, width d ≤ base := by
    intro d
    rcases Nat.eq_zero_or_pos d with rfl | hd
    · exact hzero
    · exact (hwidth d hd).le
  intro level
  induction level with
  | zero =>
    intro t r d n ht hd
    obtain rfl : d = depth := by omega
    have hleaves : ¬(Under pos r (pathOf base d n) f ∧ f ≠ t) := by
      rintro ⟨⟨q, hq, hsuffix⟩, hne⟩
      have hlen := hsuffix.length_le
      rw [length_pathOf] at hlen
      have heq := hsuffix.eq_of_length (by rw [length_pathOf]; have := (h.live hq).2.1; omega)
      rw [← heq] at hq
      exact hne (h.tables.pos_injective hq ht)
    rw [below, count_flatMap_range, if_neg hleaves, add_zero, pow_zero, mul_one, zero_add, pow_one]
    refine Finset.sum_congr rfl fun j hj => ?_
    have hj := lt_of_lt_of_le (Finset.mem_range.mp hj) (hle d)
    rw [h.leafFrame_of_table ht hj]
    cases hnext : next (mem t j) with
    | none => simp
    | some g => simp [subtree, List.count_singleton]
  | succ level ih =>
  intro t r d n ht hd
  -- one entry: the leaves under it and the tables at or under its position
  have hentry : ∀ i < width d, (match next (mem t i) with
        | some g => subtree next base mem (level + 1) g
        | none => []).count f =
      (∑ j ∈ Finset.range (base ^ (level + 1)), if leafFrame next base depth mem r
        (n * base ^ (level + 2) + (i * base ^ (level + 1) + j)) = some f then 1 else 0) +
      if Under pos r (i :: pathOf base d n) f then 1 else 0 := by
    intro i hi
    have hib := lt_of_lt_of_le hi (hle d)
    have hnum : ∀ j, n * base ^ (level + 2) + (i * base ^ (level + 1) + j) =
        (n * base + i) * base ^ (level + 1) + j := by
      intro j
      ring
    cases hnext : next (mem t i) with
    | none =>
      have hunder : ¬Under pos r (i :: pathOf base d n) f := by
        rintro ⟨q, hq, hsuffix⟩
        exact h.not_below_empty ht hnext hq hsuffix
      rw [if_neg hunder, add_zero, Finset.sum_eq_zero]
      · rfl
      intro j hj
      rw [if_neg]
      rw [hnum, h.leafFrame_eq_none hbase hwidth ht hi hib hnext (e := level) (by omega)]
      · exact fun hno => by cases hno
      · rw [Nat.div_div_eq_div_mul, ← pow_succ', mul_comm _ (base ^ (level + 1)),
          Nat.mul_add_div (by positivity), Nat.div_eq_of_lt (Finset.mem_range.mp hj), add_zero]
    | some g =>
    have hg := h.child ht (by rw [length_pathOf]; omega) (by rwa [length_pathOf]) hnext
    have hg' : pos g = some (r, pathOf base (d + 1) (n * base + i)) := by rwa [pathOf_child hib]
    have hsub := ih hg' (by omega)
    rw [hwidth (d + 1) (by omega), ← pow_succ', pathOf_child hib] at hsub
    have hself : (if Under pos r (i :: pathOf base d n) f ∧ f ≠ g then 1 else 0) +
        [g].count f = if Under pos r (i :: pathOf base d n) f then 1 else 0 := by
      by_cases hfg : f = g
      · subst hfg
        have hunder : Under pos r (i :: pathOf base d n) f := ⟨_, hg, List.suffix_refl _⟩
        simp [hunder]
      · simp [hfg, Ne.symm hfg]
    simp only [subtree, List.count_append]
    rw [← hself, ← add_assoc]
    congr 1
    rw [show (List.flatMap (fun i => match next (mem g i) with
      | some g => subtree next base mem level g
      | none => []) (List.range base)) = below next base mem base level g from rfl, hsub]
    simp only [hnum]
  rw [below, count_flatMap_range, Finset.sum_congr rfl fun i hi => hentry i (Finset.mem_range.mp hi),
    Finset.sum_add_distrib, sum_range_mul]
  congr 1
  have hsum := h.sum_under ht (f := f)
  rwa [length_pathOf] at hsum

end Shape

end Litenix.Lib.Radix
