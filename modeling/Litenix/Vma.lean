import Litenix.Process

/-! The table of virtual memory areas: the helper functions of `sys_mem.c` and the loops of the system
calls over the table. A loop that calls `file_close` returns the files of these calls, in order. -/

namespace Litenix

open Lib Function

variable {i j : Fin vmaMax} {t : VmaTable}

def protRead : Nat := 1
def protWrite : Nat := 2
def protExec : Nat := 4

def mmapBase : Nat := 0x00007f0000000000
def mmapTop : Nat := 0x00007fff00000000

def pageAlignUp (addr : Nat) : Nat := alignUp addr 4096
def pageAlignDown (addr : Nat) : Nat := alignDown addr 4096

theorem pageAlignUp_eq (addr : Nat) : pageAlignUp addr = (addr + 4095) % 2 ^ 64 / 4096 * 4096 := alignUp_page addr

theorem pageAlignDown_eq (addr : Nat) : pageAlignDown addr = addr % 2 ^ 64 / 4096 * 4096 := alignDown_page_mod addr

/-- The scan for a slot that is not in use, which several functions repeat. -/
def freeSlot (t : VmaTable) : Option (Fin vmaMax) := firstSlot fun i => !(t i).valid

/-- The scan of `sys_mprotect` for two slots that are not in use. -/
def twoFreeSlots (t : VmaTable) : Option (Fin vmaMax × Fin vmaMax) := do
  let slot1 ← freeSlot t
  let slot2 ← firstSlot fun j => !(t j).valid && decide (slot1 < j)
  return (slot1, slot2)

def vmaFindExactSlot (t : VmaTable) (start stop : Nat) : Option (Fin vmaMax) :=
  firstSlot fun i => (t i).valid && decide ((t i).start ≤ start) && decide (stop ≤ (t i).stop)

def vmaFind (t : VmaTable) (addr : Nat) : Option (Fin vmaMax) :=
  firstSlot fun i => (t i).valid && decide ((t i).start ≤ addr) && decide (addr < (t i).stop)

/-- The first area that meets `[start, stop)`. -/
def firstOverlap (t : VmaTable) (start stop : Nat) : Option (Fin vmaMax) :=
  firstSlot fun i => (t i).valid && decide (start < (t i).stop) && decide ((t i).start < stop)

def vmaOverlaps (t : VmaTable) (start stop : Nat) : Bool := (firstOverlap t start stop).isSome

/-! ### Merging -/

/-- The conditions under which `vma_merge_adjacent` joins the second area to the first. -/
def Vma.mergeable (a b : Vma) : Bool :=
  a.stop == b.start && a.protFlags == b.protFlags && a.mmapFlags == b.mmapFlags &&
    a.isAnonymous == b.isAnonymous && a.isPrivate == b.isPrivate && a.file == b.file && a.flags == b.flags &&
    (a.isAnonymous || add64 a.fileOffset (sub64 a.stop a.start) == b.fileOffset)

/-- The first pair of slots that the two nested loops join. -/
def findMerge (t : VmaTable) : Option (Fin vmaMax × Fin vmaMax) :=
  (List.finRange vmaMax).findSome? fun i =>
    if (t i).valid then
      (firstSlot fun j => decide (j ≠ i) && (t j).valid && (t i).mergeable (t j)).map fun j => (i, j)
    else none

def mergeAt (t : VmaTable) (i j : Fin vmaMax) : VmaTable :=
  update (update t i { t i with stop := (t j).stop }) j { t j with valid := false }

theorem findMerge_mergeable (h : findMerge t = some (i, j)) :
    (t i).valid = true ∧ (t j).valid = true ∧ j ≠ i ∧ (t i).mergeable (t j) = true := by
  obtain ⟨k, -, hk⟩ := List.exists_of_findSome?_eq_some h
  split at hk
  · rename_i hvalid
    obtain ⟨l, hl, heq⟩ := Option.map_eq_some_iff.mp hk
    cases heq
    have htest := firstSlot_some hl
    simp only [Bool.and_eq_true, decide_eq_true_eq] at htest
    exact ⟨hvalid, htest.1.2, htest.1.1, htest.2⟩
  · cases hk

theorem findMerge_some (h : findMerge t = some (i, j)) :
    (t i).valid = true ∧ (t j).valid = true ∧ j ≠ i ∧ (t i).stop = (t j).start ∧ (t i).backing = (t j).backing := by
  obtain ⟨hi, hj, hne, htest⟩ := findMerge_mergeable h
  simp only [Vma.mergeable, Bool.and_eq_true, beq_iff_eq] at htest
  obtain ⟨⟨⟨⟨⟨⟨⟨hstop, -⟩, -⟩, hanon⟩, -⟩, hfile⟩, -⟩, -⟩ := htest
  exact ⟨hi, hj, hne, hstop, by rw [Vma.backing, Vma.backing, hanon, hfile]⟩

/-- The `do ... while (merged)` loop. -/
def mergeLoop : (fuel : Nat) → VmaTable → VmaTable × List FileId
  | 0, t => (t, [])
  | fuel + 1, t =>
    match findMerge t with
    | none => (t, [])
    | some (i, j) =>
      let rest := mergeLoop fuel (mergeAt t i j)
      (rest.1, (t j).backing.toList ++ rest.2)

/-- Every round but the last frees a slot, so there are at most `vmaMax + 1` of them. -/
def vmaMergeAdjacent (t : VmaTable) : VmaTable × List FileId := mergeLoop (vmaMax + 1) t

/-! ### Searching for a free region -/

/-- The loop of `vma_find_free_region`. The result is `none` when the fuel is used up and `some none` when
the function returns `0`. -/
def regionLoop (t : VmaTable) (alignedLen startAddr : Nat) :
    (fuel : Nat) → (addr : Nat) → (wrapped : Bool) → Option (Option Nat)
  | 0, _, _ => none
  | fuel + 1, addr, wrapped =>
    if mmapTop < add64 addr alignedLen then
      if wrapped then some none else regionLoop t alignedLen startAddr fuel mmapBase true
    else
      match firstOverlap t addr (add64 addr alignedLen) with
      | none => some (some addr)
      | some i =>
        let next := pageAlignUp (t i).stop
        if wrapped && decide (startAddr ≤ next) then some none
        else regionLoop t alignedLen startAddr fuel next wrapped

/-- The address is one of `vmaMax + 2` values, so a longer search has been in the same state twice and
never ends. -/
def regionFuel : Nat := 2 * (vmaMax + 2) + 1

/-- The result is the address, `0` for none, and the new value of `mmap_hint`; it is `none` when the search
never ends. -/
def vmaFindFreeRegion (t : VmaTable) (mmapHint hint length : Nat) : Option (Nat × Nat) :=
  let alignedLen := pageAlignUp length
  let addr := if hint ≠ 0 then pageAlignDown hint else mmapHint
  let addr := if addr < mmapBase ∨ mmapTop < add64 addr alignedLen then mmapBase else addr
  match regionLoop t alignedLen addr regionFuel addr false with
  | none => none
  | some none => some (0, mmapHint)
  | some (some found) =>
    let next := pageAlignUp (add64 (add64 found alignedLen) vmmPageSize)
    some (found, if mmapTop ≤ next then mmapBase else next)

/-! ### The loops of `sys_munmap` and `sys_mprotect` -/

/-- The file offset of the part of an area that begins at `start`. -/
def Vma.offsetAt (vma : Vma) (start : Nat) : Nat :=
  if vma.isAnonymous then vma.fileOffset else add64 vma.fileOffset (sub64 start vma.start)

/-- The test of `sys_munmap` for an area that has to be split. -/
def needSplitSlot (t : VmaTable) (start stop : Nat) : Bool :=
  (firstSlot fun i => (t i).valid && decide ((t i).start < start) && decide (stop < (t i).stop)).isSome

/-- The body of the loop of `sys_munmap` over the areas. -/
def munmapSlot (start stop : Nat) (s : VmaTable × List FileId) (i : Fin vmaMax) : VmaTable × List FileId :=
  let (t, closed) := s
  let vma := t i
  if !vma.valid then (t, closed)
  else if start ≤ vma.start ∧ vma.stop ≤ stop then
    (update t i { vma with valid := false }, closed ++ vma.backing.toList)
  else if vma.start < start ∧ stop < vma.stop then
    let t := update t i { vma with stop := start }
    match freeSlot t with
    | some j => (update t j { vma with start := stop, fileOffset := vma.offsetAt stop }, closed)
    | none => (t, closed)
  else if vma.start < start ∧ start < vma.stop ∧ vma.stop ≤ stop then
    (update t i { vma with stop := start }, closed)
  else if start ≤ vma.start ∧ vma.start < stop ∧ stop < vma.stop then
    (update t i { vma with start := stop, fileOffset := vma.offsetAt stop }, closed)
  else (t, closed)

/-- What one iteration of the loop of `sys_munmap` does to the table and to the list of closed files, in
the words of its branches. In the case `short` the upper part of an area is lost. -/
inductive MunmapCut (start stop : Nat) (t : VmaTable) (closed : List FileId) (i : Fin vmaMax) :
    VmaTable → List FileId → Prop where
  | skip : ((t i).valid = true → (t i).stop ≤ start ∨ stop ≤ (t i).start) →
      MunmapCut start stop t closed i t closed
  | drop : (t i).valid = true → start ≤ (t i).start → (t i).stop ≤ stop →
      MunmapCut start stop t closed i (update t i { t i with valid := false })
        (closed ++ (t i).backing.toList)
  | lower : (t i).valid = true → (t i).start < start → start < (t i).stop → (t i).stop ≤ stop →
      MunmapCut start stop t closed i (update t i { t i with stop := start }) closed
  | upper : (t i).valid = true → start ≤ (t i).start → (t i).start < stop → stop < (t i).stop →
      MunmapCut start stop t closed i
        (update t i { t i with start := stop, fileOffset := (t i).offsetAt stop }) closed
  | split (j : Fin vmaMax) : (t i).valid = true → (t j).valid = false → (t i).start < start → stop < (t i).stop →
      MunmapCut start stop t closed i
        (update (update t i { t i with stop := start }) j
          { t i with start := stop, fileOffset := (t i).offsetAt stop }) closed
  | short : (t i).valid = true → freeSlot t = none → (t i).start < start → stop < (t i).stop →
      MunmapCut start stop t closed i (update t i { t i with stop := start }) closed

theorem freeSlot_some (h : freeSlot t = some j) : (t j).valid = false := by
  simpa using firstSlot_some h

theorem freeSlot_update (h : v.valid = (t i).valid) : freeSlot (update t i v) = freeSlot t := by
  unfold freeSlot
  congr 1
  funext k
  exact update_ind k (by rw [h]) fun _ => rfl

theorem munmapSlot_cut (start stop : Nat) (s : VmaTable × List FileId) (i : Fin vmaMax) :
    MunmapCut start stop s.1 s.2 i (munmapSlot start stop s i).1 (munmapSlot start stop s i).2 := by
  obtain ⟨t, closed⟩ := s
  unfold munmapSlot
  dsimp only
  split
  · rename_i hinvalid
    exact .skip fun hvalid => by simp [hvalid] at hinvalid
  rename_i hnot
  have hvalid : (t i).valid = true := by simpa using hnot
  split
  · rename_i hinside
    exact .drop hvalid hinside.1 hinside.2
  split
  · rename_i hmiddle
    have hsame : freeSlot (update t i { t i with stop := start }) = freeSlot t := freeSlot_update rfl
    rw [hsame]
    split
    · rename_i j hj
      exact .split j hvalid (freeSlot_some hj) hmiddle.1 hmiddle.2
    · rename_i hnone
      exact .short hvalid hnone hmiddle.1 hmiddle.2
  split
  · rename_i hlower
    exact .lower hvalid hlower.1 hlower.2.1 hlower.2.2
  split
  · rename_i hupper
    exact .upper hvalid hupper.1 hupper.2.1 hupper.2.2
  · exact .skip fun _ => by omega

def munmapVmas (t : VmaTable) (start stop : Nat) : VmaTable × List FileId :=
  let cut := (List.finRange vmaMax).foldl (munmapSlot start stop) (t, [])
  let merged := vmaMergeAdjacent cut.1
  (merged.1, cut.2 ++ merged.2)

/-- The number of slots that `sys_mprotect` counts for one area. -/
def slotsFor (start stop : Nat) (vma : Vma) : Nat :=
  if !vma.valid then 0
  else if vma.start < start ∧ stop < vma.stop then 2
  else if vma.start < start ∧ start < vma.stop ∧ vma.stop ≤ stop then 1
  else if start ≤ vma.start ∧ vma.start < stop ∧ stop < vma.stop then 1
  else 0

def slotsNeeded (t : VmaTable) (start stop : Nat) : Nat :=
  ((List.finRange vmaMax).map fun i => slotsFor start stop (t i)).sum

def slotsAvailable (t : VmaTable) : Nat := (List.finRange vmaMax).countP fun i => !(t i).valid

/-- The body of the loop of `sys_mprotect` over the areas. -/
def mprotectSlot (start stop prot flags : Nat) (t : VmaTable) (i : Fin vmaMax) : VmaTable :=
  let vma := t i
  if !vma.valid then t
  else if start ≤ vma.start ∧ vma.stop ≤ stop then
    update t i { vma with protFlags := prot, flags := flags }
  else if vma.start < start ∧ stop < vma.stop then
    match twoFreeSlots t with
    | some (slot1, slot2) =>
      let t := update t i { vma with stop := start }
      let t := update t slot1 { vma with
        start := start, stop := stop, protFlags := prot, flags := flags, fileOffset := vma.offsetAt start }
      update t slot2 { vma with start := stop, fileOffset := vma.offsetAt stop }
    | none => t
  else if vma.start < start ∧ start < vma.stop ∧ vma.stop ≤ stop then
    match freeSlot t with
    | some slot =>
      let t := update t i { vma with stop := start }
      update t slot { vma with
        start := start, protFlags := prot, flags := flags, fileOffset := vma.offsetAt start }
    | none => t
  else if start ≤ vma.start ∧ vma.start < stop ∧ stop < vma.stop then
    match freeSlot t with
    | some slot =>
      let right := { vma with start := stop, fileOffset := vma.offsetAt stop }
      let t := update t i right
      update t slot { right with
        start := vma.start, stop := stop, protFlags := prot, flags := flags,
        fileOffset := if vma.isAnonymous then right.fileOffset
          else sub64 right.fileOffset (sub64 stop vma.start) }
    | none => t
  else t

theorem twoFreeSlots_some (h : twoFreeSlots t = some (j, k)) : (t j).valid = false ∧ (t k).valid = false ∧ j ≠ k := by
  obtain ⟨j', hj, h⟩ := Option.bind_eq_some_iff.mp h
  obtain ⟨k', hk, h⟩ := Option.bind_eq_some_iff.mp h
  cases h
  have htest := firstSlot_some hk
  simp only [Bool.and_eq_true, Bool.not_eq_true', decide_eq_true_eq] at htest
  exact ⟨freeSlot_some hj, htest.1, ne_of_lt htest.2⟩

theorem slotsAvailable_of_freeSlot (h : freeSlot t = none) : slotsAvailable t = 0 := by
  have hused := firstSlot_none_iff.mp h
  rw [slotsAvailable, List.countP_eq_zero]
  intro k _
  rw [hused k]
  exact Bool.false_ne_true

theorem slotsAvailable_of_twoFreeSlots (h : twoFreeSlots t = none) : slotsAvailable t ≤ 1 := by
  cases hslot : freeSlot t with
  | none => rw [slotsAvailable_of_freeSlot hslot]; exact Nat.zero_le 1
  | some j =>
  -- the scan finds the first free slot, and there is no free slot after it
  have hafter : ∀ k, (!(t k).valid && decide (j < k)) = false := by
    refine firstSlot_none_iff.mp ?_
    rw [twoFreeSlots, hslot, Option.bind_eq_bind, Option.bind_some, Option.bind_eq_none_iff] at h
    exact Option.eq_none_iff_forall_ne_some.mpr fun k hk => nomatch h k hk
  have honly : ∀ k ∈ (List.finRange vmaMax).filter fun i => !(t i).valid, k ∈ [j] := by
    intro k hk
    have hfree := (List.mem_filter.mp hk).2
    have hge : ¬k < j := fun hlt => by
      have := firstSlot_min hslot hlt
      rw [hfree] at this
      cases this
    have hle : ¬j < k := fun hlt => by simpa [hfree, hlt] using hafter k
    rw [List.mem_singleton]
    omega
  rw [slotsAvailable, List.countP_eq_length_filter]
  exact (((List.nodup_finRange vmaMax).filter _).subperm honly).length_le

/-- What one iteration of the loop of `sys_mprotect` does to the table, in the words of its branches. In the
case `short` there are not enough free slots, and the area is left as it is. -/
inductive MprotectCut (start stop prot flags : Nat) (t : VmaTable) (i : Fin vmaMax) : VmaTable → Prop where
  | skip : ((t i).valid = true → (t i).stop ≤ start ∨ stop ≤ (t i).start) →
      MprotectCut start stop prot flags t i t
  | whole : (t i).valid = true → start ≤ (t i).start → (t i).stop ≤ stop →
      MprotectCut start stop prot flags t i (update t i { t i with protFlags := prot, flags := flags })
  | middle (j k : Fin vmaMax) : (t i).valid = true → (t j).valid = false → (t k).valid = false → j ≠ k →
      (t i).start < start → stop < (t i).stop →
      MprotectCut start stop prot flags t i
        (update (update (update t i { t i with stop := start }) j
          { t i with start := start, stop := stop, protFlags := prot, flags := flags
                     fileOffset := (t i).offsetAt start }) k
          { t i with start := stop, fileOffset := (t i).offsetAt stop })
  | upper (j : Fin vmaMax) : (t i).valid = true → (t j).valid = false → (t i).start < start → start < (t i).stop →
      (t i).stop ≤ stop →
      MprotectCut start stop prot flags t i
        (update (update t i { t i with stop := start }) j
          { t i with start := start, protFlags := prot, flags := flags, fileOffset := (t i).offsetAt start })
  | lower (j : Fin vmaMax) : (t i).valid = true → (t j).valid = false → start ≤ (t i).start → (t i).start < stop →
      stop < (t i).stop →
      MprotectCut start stop prot flags t i
        (update (update t i { t i with start := stop, fileOffset := (t i).offsetAt stop }) j
          { t i with stop := stop, protFlags := prot, flags := flags
                     fileOffset := if (t i).isAnonymous then (t i).offsetAt stop
                       else sub64 ((t i).offsetAt stop) (sub64 stop (t i).start) })
  | short : slotsAvailable t < slotsFor start stop (t i) → MprotectCut start stop prot flags t i t

theorem mprotectSlot_cut (start stop prot flags : Nat) (t : VmaTable) (i : Fin vmaMax) :
    MprotectCut start stop prot flags t i (mprotectSlot start stop prot flags t i) := by
  unfold mprotectSlot
  dsimp only
  split
  · rename_i hinvalid
    exact .skip fun hvalid => by simp [hvalid] at hinvalid
  rename_i hnot
  have hvalid : (t i).valid = true := by simpa using hnot
  split
  · rename_i hinside
    exact .whole hvalid hinside.1 hinside.2
  split
  · rename_i hmiddle
    split
    · rename_i j k hslots
      obtain ⟨hj, hk, hjk⟩ := twoFreeSlots_some hslots
      exact .middle j k hvalid hj hk hjk hmiddle.1 hmiddle.2
    rename_i hnone
    have := slotsAvailable_of_twoFreeSlots hnone
    refine .short ?_
    rw [slotsFor, hvalid, if_neg (by simp), if_pos hmiddle]
    omega
  rename_i hmiddle
  split
  · rename_i hupper
    split
    · rename_i j hj
      exact .upper j hvalid (freeSlot_some hj) hupper.1 hupper.2.1 hupper.2.2
    rename_i hnone
    refine .short ?_
    rw [slotsAvailable_of_freeSlot hnone, slotsFor, hvalid, if_neg (by simp), if_neg hmiddle, if_pos hupper]
    exact Nat.one_pos
  rename_i hupper
  split
  · rename_i hlower
    split
    · rename_i j hj
      exact .lower j hvalid (freeSlot_some hj) hlower.1 hlower.2.1 hlower.2.2
    rename_i hnone
    refine .short ?_
    rw [slotsAvailable_of_freeSlot hnone, slotsFor, hvalid, if_neg (by simp), if_neg hmiddle, if_neg hupper,
      if_pos hlower]
    exact Nat.one_pos
  · exact .skip fun _ => by omega

def mprotectVmas (t : VmaTable) (start stop prot flags : Nat) : VmaTable × List FileId :=
  vmaMergeAdjacent ((List.finRange vmaMax).foldl (mprotectSlot start stop prot flags) t)

end Litenix
