import Litenix.PageTable

/-! The functions of `vmm.c` that allocate pages, where an allocation may also fail because other tasks hold all
pages at that moment. Which of the calls of `pmm_alloc_page` fail is an input; when none does, the functions
are those of `PageTable`. -/

namespace Litenix

/-- Physical memory, and whether the next allocations fail, in order. -/
structure Supply where
  phys : Phys
  fails : Nat → Bool

namespace Supply

variable (p : Phys)

/-- A state in which only an empty allocator fails. -/
def full : Supply := ⟨p, fun _ => false⟩

def allocPage (s : Supply) : Supply × Nat :=
  let fails := fun n => s.fails (n + 1)
  if s.fails 0 then (⟨s.phys, fails⟩, 0)
  else (⟨s.phys.allocPage.1, fails⟩, s.phys.allocPage.2)

def setWord (s : Supply) (page index value : Nat) : Supply := { s with phys := s.phys.setWord page index value }

def ensureNextTable (s : Supply) (table index leafFlags : Nat) : Supply × Option Nat :=
  match entryPage (s.phys.mem table index) with
  | some next => (s, some next)
  | none =>
    let (s, newTable) := s.allocPage
    if newTable = 0 then (s, none)
    else
      (s.setWord table index (makeEntry newTable (tableFlagsFromLeaf leafFlags)), some (pageIndex newTable))

def walkToPteCreate (s : Supply) (root virt flags : Nat) : Supply × Option (Nat × Nat) :=
  match s.ensureNextTable root (pml4Index virt) flags with
  | (s, none) => (s, none)
  | (s, some pdpt) =>
    match s.ensureNextTable pdpt (pdptIndex virt) flags with
    | (s, none) => (s, none)
    | (s, some pd) =>
      match s.ensureNextTable pd (pdIndex virt) flags with
      | (s, none) => (s, none)
      | (s, some pt) => (s, some (pt, ptIndex virt))

def vmmMap (s : Supply) (space : AddressSpace) (virt phys flags : Nat) : Supply × Bool :=
  if !pageAligned virt || !pageAligned phys then (s, false)
  else if !hasFlag flags vmmPresent then (s, false)
  else
    match s.walkToPteCreate space.root virt flags with
    | (s, none) => (s, false)
    | (s, some (pt, i)) =>
      if hasFlag (s.phys.mem pt i) vmmPresent then (s, false)
      else (s.setWord pt i (makeEntry phys flags), true)

def vmmCreateAddressSpace (s : Supply) : Except Panic (Supply × Option AddressSpace) :=
  let (s, pml4Phys) := s.allocPage
  if pml4Phys = 0 then .ok (s, none)
  else
    let kernelPml4 := s.phys.mem (pageIndex s.phys.kernelPml4)
    let newPml4 := fun i => if 256 ≤ i ∧ i < pageEntries then kernelPml4 i else 0
    let s := { s with phys := { s.phys with mem := Function.update s.phys.mem (pageIndex pml4Phys) newPml4 } }
    let (s, structPhys) := s.allocPage
    if structPhys = 0 then
      match s.phys.freePage pml4Phys with
      | .ok p => .ok ({ s with phys := p }, none)
      | .error e => .error e
    else .ok (s, some { pml4Phys := pml4Phys, selfPhys := structPhys, refCount := 1 })

def cloneLeaf (child : AddressSpace) (s : Supply) (pt i virt : Nat) : Except Supply Supply :=
  let entry := s.phys.mem pt i
  let flags := entry &&& pageFlagsMask
  let (s, flags) :=
    if hasFlag flags vmmWritable then
      let flags := (flags &&& Lib.not64 vmmWritable) ||| vmmCow
      (s.setWord pt i ((entry &&& Lib.not64 pageFlagsMask) ||| flags), flags)
    else (s, flags)
  match s.vmmMap child virt (entryPhys entry) flags with
  | (s, false) => .error s
  | (s, true) => .ok { s with phys := { s.phys with pmm := pmmRefPage s.phys.pmm (entryPhys entry) } }

def cloneTable (child : AddressSpace) : (level : Nat) → (entries : Nat) → Supply → (table virt : Nat) →
    Except Supply Supply
  | 0, entries, s, pt, virt =>
    (List.range entries).foldlM (fun s i =>
      if hasFlag (s.phys.mem pt i) vmmPresent then s.cloneLeaf child pt i (virt ||| i <<< 12) else .ok s) s
  | level + 1, entries, s, table, virt =>
    (List.range entries).foldlM (fun s i =>
      match entryPage (s.phys.mem table i) with
      | some next => cloneTable child level pageEntries s next (virt ||| i <<< (12 + 9 * (level + 1)))
      | none => .ok s) s

def vmmCloneAddressSpace (s : Supply) (parent : AddressSpace) : Except Panic (Supply × Option AddressSpace) :=
  match s.vmmCreateAddressSpace with
  | .error e => .error e
  | .ok (s, none) => .ok (s, none)
  | .ok (s, some child) =>
    match cloneTable child 3 256 s parent.root 0 with
    | .ok s => .ok (s, some child)
    | .error s =>
      match vmmDestroyAddressSpace s.phys child with
      | .ok p => .ok ({ s with phys := p }, none)
      | .error e => .error e

theorem walkToPteCreate_of_walkToPte {s : Supply} {root virt : Nat} {x : Nat × Nat}
    (h : walkToPte s.phys.mem root virt = some x) (flags : Nat) : s.walkToPteCreate root virt flags = (s, some x) := by
  simp only [walkToPte, Option.bind_eq_bind, Option.bind_eq_some_iff, Option.pure_def, Option.some.injEq] at h
  obtain ⟨pdpt, hpdpt, pd, hpd, pt, hpt, rfl⟩ := h
  simp [walkToPteCreate, ensureNextTable, hpdpt, hpd, hpt]

/-! ### Without failures -/

theorem full_phys : (full p).phys = p := rfl

theorem setWord_full (page index value : Nat) :
    (full p).setWord page index value = full (p.setWord page index value) := rfl

theorem allocPage_full : (full p).allocPage = (full p.allocPage.1, p.allocPage.2) := rfl

theorem ensureNextTable_full (table index leafFlags : Nat) : (full p).ensureNextTable table index leafFlags =
      (full (Litenix.ensureNextTable p table index leafFlags).1,
        (Litenix.ensureNextTable p table index leafFlags).2) := by
  unfold ensureNextTable Litenix.ensureNextTable
  simp only [full]
  cases entryPage (p.mem table index) with
  | some next => rfl
  | none =>
    simp only [allocPage, Bool.false_eq_true, if_false]
    split
    · rfl
    · rfl

theorem walkToPteCreate_full (root virt flags : Nat) : (full p).walkToPteCreate root virt flags =
      (full (Litenix.walkToPteCreate p root virt flags).1, (Litenix.walkToPteCreate p root virt flags).2) := by
  unfold walkToPteCreate Litenix.walkToPteCreate
  rw [ensureNextTable_full]
  rcases Litenix.ensureNextTable p root (pml4Index virt) flags with ⟨p₁, _ | pdpt⟩
  · rfl
  dsimp only
  rw [ensureNextTable_full]
  rcases Litenix.ensureNextTable p₁ pdpt (pdptIndex virt) flags with ⟨p₂, _ | pd⟩
  · rfl
  dsimp only
  rw [ensureNextTable_full]
  rcases Litenix.ensureNextTable p₂ pd (pdIndex virt) flags with ⟨p₃, _ | pt⟩
  · rfl
  · rfl

theorem vmmMap_full (space : AddressSpace) (virt phys flags : Nat) : (full p).vmmMap space virt phys flags =
      (full (Litenix.vmmMap p space virt phys flags).1, (Litenix.vmmMap p space virt phys flags).2) := by
  unfold vmmMap Litenix.vmmMap
  split
  · rfl
  split
  · rfl
  rw [walkToPteCreate_full]
  rcases Litenix.walkToPteCreate p space.root virt flags with ⟨p₁, _ | ⟨pt, i⟩⟩
  · rfl
  dsimp only [full]
  split
  · rfl
  · rfl

theorem vmmCreateAddressSpace_full :
    (full p).vmmCreateAddressSpace = (Litenix.vmmCreateAddressSpace p).map fun r => (full r.1, r.2) := by
  unfold vmmCreateAddressSpace Litenix.vmmCreateAddressSpace
  rw [allocPage_full]
  rcases p.allocPage with ⟨p₁, pml4Phys⟩
  dsimp only
  split
  · rfl
  simp only [full, allocPage, Bool.false_eq_true, if_false]
  generalize Phys.allocPage _ = r
  split
  · cases r.1.freePage pml4Phys with
    | ok p => rfl
    | error e => rfl
  · rfl

/-- The outcome of a loop, with no failure to come. -/
def outcome : Except Phys Phys → Except Supply Supply
  | .ok p => .ok (full p)
  | .error p => .error (full p)

theorem foldlM_full {α : Type} {f : Supply → α → Except Supply Supply} {g : Phys → α → Except Phys Phys} {l : List α}
    (hstep : ∀ p, ∀ a ∈ l, f (full p) a = outcome (g p a)) (p : Phys) :
    l.foldlM f (full p) = outcome (l.foldlM g p) := by
  induction l generalizing p with
  | nil => rfl
  | cons a l ih =>
    rw [List.foldlM_cons, List.foldlM_cons, hstep p a List.mem_cons_self]
    cases g p a with
    | error p' => rfl
    | ok p' => exact ih (fun p b hb => hstep p b (List.mem_cons_of_mem _ hb)) p'

theorem cloneLeaf_full (child : AddressSpace) (p : Phys) (pt i virt : Nat) :
    (full p).cloneLeaf child pt i virt = outcome (Litenix.cloneLeaf child p pt i virt) := by
  unfold cloneLeaf Litenix.cloneLeaf
  cases hw : hasFlag (p.mem pt i &&& pageFlagsMask) vmmWritable with
  | true =>
    simp only [full_phys, setWord_full, hw, if_true, vmmMap_full]
    rcases Litenix.vmmMap _ child virt _ _ with ⟨p', _ | _⟩ <;> rfl
  | false =>
    simp only [full_phys, hw, Bool.false_eq_true, if_false, vmmMap_full]
    rcases Litenix.vmmMap _ child virt _ _ with ⟨p', _ | _⟩ <;> rfl

theorem cloneTable_full (child : AddressSpace) (level entries : Nat) (p : Phys) (table virt : Nat) :
    cloneTable child level entries (full p) table virt = outcome (Litenix.cloneTable child level entries p table virt) := by
  induction level generalizing entries p table virt with
  | zero =>
    refine foldlM_full (fun p i _ => ?_) p
    dsimp only [full]
    split
    · exact cloneLeaf_full child p table i _
    · rfl
  | succ level ih =>
    refine foldlM_full (fun p i _ => ?_) p
    dsimp only [full]
    cases entryPage (p.mem table i) with
    | none => rfl
    | some next => exact ih pageEntries p next _

theorem vmmCloneAddressSpace_full (parent : AddressSpace) : (full p).vmmCloneAddressSpace parent =
      (Litenix.vmmCloneAddressSpace p parent).map fun r => (full r.1, r.2) := by
  unfold vmmCloneAddressSpace Litenix.vmmCloneAddressSpace
  rw [vmmCreateAddressSpace_full]
  rcases Litenix.vmmCreateAddressSpace p with e | ⟨p₁, _ | child⟩
  · rfl
  · rfl
  simp only [Except.map]
  rw [cloneTable_full]
  cases Litenix.cloneTable child 3 256 p₁ parent.root 0 with
  | ok p₂ => rfl
  | error p₂ =>
    simp only [outcome, full]
    cases vmmDestroyAddressSpace p₂ child <;> rfl

/-! ### What allocations and writes keep -/

/-- A relation between a state and a later one that holds across allocations and writes of words. -/
structure Steps (R : Supply → Supply → Prop) : Prop where
  refl : ∀ s, R s s
  trans : ∀ {s s' s''}, R s s' → R s' s'' → R s s''
  allocPage : ∀ s, R s s.allocPage.1
  setWord : ∀ s page index value, R s (s.setWord page index value)

namespace Steps

variable {R : Supply → Supply → Prop}

theorem ensureNextTable (h : Steps R) (s : Supply) (table index flags : Nat) :
    R s (s.ensureNextTable table index flags).1 := by
  unfold Supply.ensureNextTable
  split
  · exact h.refl s
  dsimp only
  split
  · exact h.allocPage s
  · exact h.trans (h.allocPage s) (h.setWord _ _ _ _)

theorem walkToPteCreate (h : Steps R) (s : Supply) (root virt flags : Nat) :
    R s (s.walkToPteCreate root virt flags).1 := by
  unfold Supply.walkToPteCreate
  have h₁ := h.ensureNextTable s root (pml4Index virt) flags
  split
  · rename_i heq
    rwa [heq] at h₁
  rename_i s₁ pdpt heq
  rw [heq] at h₁
  have h₂ := h.ensureNextTable s₁ pdpt (pdptIndex virt) flags
  split
  · rename_i heq₂
    rw [heq₂] at h₂
    exact h.trans h₁ h₂
  rename_i s₂ pd heq₂
  rw [heq₂] at h₂
  have h₃ := h.ensureNextTable s₂ pd (pdIndex virt) flags
  split
  all_goals
    rename_i heq₃
    rw [heq₃] at h₃
    exact h.trans (h.trans h₁ h₂) h₃

theorem vmmMap (h : Steps R) (s : Supply) (space : AddressSpace) (virt phys flags : Nat) :
    R s (s.vmmMap space virt phys flags).1 := by
  unfold Supply.vmmMap
  have hwalk := h.walkToPteCreate s space.root virt flags
  split
  · exact h.refl s
  split
  · exact h.refl s
  split
  · rename_i heq
    rwa [heq] at hwalk
  rename_i heq
  rw [heq] at hwalk
  split
  · exact hwalk
  · exact h.trans hwalk (h.setWord _ _ _ _)

end Steps

/-! ### Running dry -/

/-- The allocations that come after `s`, when no page is given back. -/
structure Later (s s' : Supply) : Prop where
  fails : ∃ k, ∀ n, s'.fails n = s.fails (n + k)
  total : s'.phys.pmm.totalPages = s.phys.pmm.totalPages
  managed : s'.phys.pmm.managedBitmap = s.phys.pmm.managedBitmap
  available : ∀ i, s'.phys.pmm.available i = true → s.phys.pmm.available i = true

/-- No page is left for the next allocation. -/
def Dry (s : Supply) : Prop :=
  s.fails 0 = true ∨ ∀ i < s.phys.pmm.totalPages, s.phys.pmm.available i = false

/-- An allocation after one that has failed fails too. -/
def Persistent (s : Supply) : Prop := ∀ n, s.fails n = true → s.fails (n + 1) = true

variable {s s' s'' : Supply}

theorem Later.of_eq (hfails : s'.fails = s.fails) (hpmm : s'.phys.pmm = s.phys.pmm) : Later s s' :=
  ⟨⟨0, fun n => by rw [hfails, Nat.add_zero]⟩, by rw [hpmm], by rw [hpmm], fun i => by rw [hpmm]; exact id⟩

theorem Later.refl (s : Supply) : Later s s := .of_eq rfl rfl

theorem Later.trans (h : Later s s') (h' : Later s' s'') : Later s s'' := by
  obtain ⟨k, hk⟩ := h.fails
  obtain ⟨k', hk'⟩ := h'.fails
  refine ⟨⟨k' + k, fun n => ?_⟩, h'.total.trans h.total, h'.managed.trans h.managed,
    fun i hi => h.available i (h'.available i hi)⟩
  rw [hk', hk, Nat.add_assoc]

theorem Persistent.le (h : s.Persistent) {n : Nat} (hn : s.fails n = true) (k : Nat) : s.fails (n + k) = true := by
  induction k with
  | zero => exact hn
  | succ k ih => exact h _ ih

theorem Later.persistent (h : Later s s') (hs : s.Persistent) : s'.Persistent := by
  obtain ⟨k, hk⟩ := h.fails
  intro n hn
  rw [hk] at hn ⊢
  rw [Nat.add_right_comm]
  exact hs _ hn

theorem Later.dry (h : Later s s') (hs : s.Persistent) (hdry : s.Dry) : s'.Dry := by
  rcases hdry with hfails | hnone
  · obtain ⟨k, hk⟩ := h.fails
    left
    rw [hk, Nat.zero_add]
    simpa using hs.le hfails k
  right
  intro i hi
  rw [h.total] at hi
  have hnot := hnone i hi
  by_contra havail
  rw [h.available i (by simpa using havail)] at hnot
  cases hnot

theorem later_allocPage (s : Supply) : Later s s.allocPage.1 := by
  unfold allocPage
  split
  · exact ⟨⟨1, fun _ => rfl⟩, rfl, rfl, fun _ => id⟩
  rcases s.phys.allocPage_pmm with hsame | ⟨i, -, -, htaken⟩
  · exact ⟨⟨1, fun _ => rfl⟩, congrArg _ hsame, congrArg _ hsame, fun i => by rw [hsame]; exact id⟩
  refine ⟨⟨1, fun _ => rfl⟩, by rw [htaken]; rfl, by rw [htaken]; rfl, fun j hj => ?_⟩
  rw [htaken, Pmm.available_iff] at hj
  rw [Pmm.available_iff]
  refine ⟨hj.1, ?_⟩
  by_cases hji : j = i
  · subst hji
    simp [Pmm.take] at hj
  · simpa [Pmm.take, hji] using hj.2

theorem later_steps : Steps Later :=
  ⟨Later.refl, Later.trans, later_allocPage, fun _ _ _ _ => .of_eq rfl rfl⟩

theorem dry_of_allocPage (hzero : s.phys.pmm.managedBitmap 0 = false) (h : s.allocPage.2 = 0) : s.Dry := by
  unfold allocPage at h
  split at h
  · exact .inl (by assumption)
  rcases s.phys.allocPage_cases hzero with ⟨-, hnone⟩ | ⟨f, -, -, haddr, halloc⟩
  · exact .inr hnone
  · rw [halloc] at h
    exact absurd h haddr

section

variable (hs : s.Persistent) (hzero : s.phys.pmm.managedBitmap 0 = false)

include hs hzero

theorem dry_of_ensureNextTable (table index flags : Nat) (h : (s.ensureNextTable table index flags).2 = none) :
    (s.ensureNextTable table index flags).1.Dry := by
  unfold ensureNextTable at h ⊢
  split at h
  · cases h
  dsimp only at h ⊢
  split at h
  · rename_i halloc
    rw [if_pos halloc]
    exact s.later_allocPage.dry hs (dry_of_allocPage hzero halloc)
  · cases h

theorem dry_of_walkToPteCreate (root virt flags : Nat) (h : (s.walkToPteCreate root virt flags).2 = none) :
    (s.walkToPteCreate root virt flags).1.Dry := by
  unfold walkToPteCreate at h ⊢
  have h₁ := later_steps.ensureNextTable s root (pml4Index virt) flags
  have hdry₁ := dry_of_ensureNextTable hs hzero root (pml4Index virt) flags
  rcases hstep₁ : s.ensureNextTable root (pml4Index virt) flags with ⟨s₁, _ | pdpt⟩ <;> rw [hstep₁] at h h₁ hdry₁
  · exact hdry₁ rfl
  have hs₁ := h₁.persistent hs
  have hzero₁ : s₁.phys.pmm.managedBitmap 0 = false := by rw [h₁.managed, hzero]
  have h₂ := later_steps.ensureNextTable s₁ pdpt (pdptIndex virt) flags
  have hdry₂ := dry_of_ensureNextTable hs₁ hzero₁ pdpt (pdptIndex virt) flags
  dsimp only at h ⊢
  rcases hstep₂ : s₁.ensureNextTable pdpt (pdptIndex virt) flags with ⟨s₂, _ | pd⟩ <;> rw [hstep₂] at h h₂ hdry₂
  · exact hdry₂ rfl
  have hdry₃ := dry_of_ensureNextTable (h₂.persistent hs₁) (by rw [h₂.managed, hzero₁]) pd (pdIndex virt) flags
  dsimp only at h ⊢
  rcases hstep₃ : s₂.ensureNextTable pd (pdIndex virt) flags with ⟨s₃, o₃⟩
  rw [hstep₃] at h hdry₃
  cases o₃ with
  | none => exact hdry₃ rfl
  | some pt => cases h

end

end Supply

end Litenix
