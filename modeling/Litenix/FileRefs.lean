import Litenix.FrameCounts

/-! The reference counts of open files: in every state that a run reaches, the count of a file is the number
of descriptors and of areas, over all processes, that refer to it, and a file without references is freed. -/

namespace Litenix

open Lib Function

variable {f : FileId} {proc : Process} {fd : Fin maxFilesPerProcess} {v : Vma} {s s' : Fds} {closed : List FileId}
variable {i : Fin vmaMax} {t : VmaTable}

/-- The references of a process to a file: its descriptors and its areas. -/
def Process.fileRefs (proc : Process) (f : FileId) : Nat :=
  refs Finset.univ proc.files f + refs Finset.univ (vmaFile proc.vmas) f

def Kernel.fileRefs (k : Kernel) (f : FileId) : Nat :=
  ∑ pid ∈ Finset.range k.nextPid, (k.procs pid).elim 0 fun proc => proc.fileRefs f

structure FileCounts (k : Kernel) : Prop where
  counted : ∀ f file, k.files.get f = some file → file.refCount = k.fileRefs f
  freed : ∀ f, k.files.get f = none ↔ k.fileRefs f = 0

/-! ### Counted files -/

def FileTable.counts (files : FileTable) (f : FileId) : Option Int := (files.get f).map File.refCount

/-- The count of a file with `n` references; without references it is freed. -/
def countOf (n : Nat) : Option Int := if n = 0 then none else some n

/-- `n` is the number of references to each file; the ids from `next` on are not in use yet. -/
structure Counted (files : FileTable) (n : FileId → Nat) : Prop where
  counts : ∀ f, files.counts f = countOf (n f)
  fresh : ∀ f, files.next ≤ f → n f = 0

section

variable (files : FileTable) (f g : FileId)

theorem FileTable.counts_set (file : Option File) :
    (files.set f file).counts g = if g = f then file.map File.refCount else files.counts g := by
  unfold counts set
  dsimp only
  exact update_ind g (if_pos rfl).symm fun hg => (if_neg hg).symm

theorem FileTable.counts_take :
    (files.take f).counts g = if g = f then (files.counts f).map (· + 1) else files.counts g := by
  rw [take, counts_set, counts, counts]
  cases files.get f <;> rfl

theorem FileTable.counts_close : (fileClose files f).counts g =
      if g = f then (files.counts f).bind fun c => if c - 1 = 0 then none else some (c - 1) else files.counts g := by
  unfold fileClose
  cases hf : files.get f with
  | none =>
    dsimp only
    split
    · rename_i hg
      rw [hg, counts, hf]
      rfl
    · rfl
  | some file =>
    dsimp only
    rw [show files.counts f = some file.refCount by rw [counts, hf]; rfl, Option.bind_some]
    split <;> rw [counts_set] <;> rfl

end

theorem FileTable.next_close (files : FileTable) (f : FileId) : (fileClose files f).next = files.next := by
  unfold fileClose
  split
  · rfl
  · split <;> rfl

namespace Counted

variable {files : FileTable} {n n' : FileId → Nat}

section

variable (h : Counted files n)

include h

theorem congr (heq : ∀ f, n f = n' f) : Counted files n' := funext heq ▸ h

theorem lt_next (hf : 0 < n f) : f < files.next := by
  by_contra hle
  have := h.fresh f (not_lt.mp hle)
  omega

theorem take (hf : 0 < n f) : Counted (files.take f) fun g => n g + if g = f then 1 else 0 := by
  have hlt := h.lt_next hf
  refine ⟨fun g => ?_, fun g hg => ?_⟩
  · rw [FileTable.counts_take]
    by_cases hg : g = f
    · rw [if_pos hg, if_pos hg, hg, h.counts f, countOf, countOf, if_neg (by omega), if_neg (by omega)]
      simp
    · rw [if_neg hg, if_neg hg]
      exact h.counts g
  · rw [h.fresh g hg, if_neg (ne_of_gt (lt_of_lt_of_le hlt hg))]

theorem close (hf : 0 < n f) : Counted (fileClose files f) fun g => n g - if g = f then 1 else 0 := by
  refine ⟨fun g => ?_, fun g hg => ?_⟩
  · rw [FileTable.counts_close]
    by_cases hg : g = f
    · rw [if_pos hg, if_pos hg, hg, h.counts f, countOf, countOf, if_neg (by omega), Option.bind_some]
      by_cases hlast : n f = 1
      · rw [if_pos (by omega), if_pos (by omega)]
      · rw [if_neg (by omega), if_neg (by omega)]
        congr 1
        omega
    · rw [if_neg hg, if_neg hg]
      exact h.counts g
  · rw [FileTable.next_close] at hg
    rw [h.fresh g hg, Nat.zero_sub]

theorem create (file : File) (hfile : file.refCount = 1) :
    Counted (files.create file).1 fun g => n g + if g = files.next then 1 else 0 := by
  refine ⟨fun g => ?_, fun g hg => ?_⟩
  · change (files.set files.next (some file)).counts g = _
    rw [FileTable.counts_set]
    by_cases hg : g = files.next
    · rw [if_pos hg, if_pos hg, hg, h.fresh files.next le_rfl, Option.map_some, hfile]
      rfl
    · rw [if_neg hg, if_neg hg]
      exact h.counts g
  · rw [h.fresh g (Nat.le_of_succ_le hg), if_neg (Nat.ne_of_gt hg)]

theorem takeAll {taken : List FileId} (htaken : ∀ f ∈ taken, 0 < n f) :
    Counted (files.applyAll (taken.map .take)) fun f => n f + taken.count f := by
  induction taken generalizing files n with
  | nil => exact h
  | cons f rest ih =>
    have hfirst := h.take (htaken f List.mem_cons_self)
    refine (ih hfirst fun g hg => ?_).congr fun g => ?_
    · have := htaken g (List.mem_cons_of_mem _ hg)
      omega
    · rw [List.count_cons]
      simp only [beq_iff_eq, eq_comm (a := f) (b := g)]
      omega

theorem closeAll (hclosed : ∀ f, closed.count f ≤ n f) :
    Counted (files.applyAll (closed.map .close)) fun f => n f - closed.count f := by
  induction closed generalizing files n with
  | nil => exact h
  | cons f rest ih =>
  have hcount : ∀ g, (f :: rest).count g = rest.count g + if g = f then 1 else 0 := by
    intro g
    rw [List.count_cons]
    simp only [beq_iff_eq, eq_comm (a := f) (b := g)]
  have hpos : 0 < n f := by
    have := hclosed f
    rw [hcount, if_pos rfl] at this
    omega
  refine (ih (h.close hpos) fun g => ?_).congr fun g => ?_
  · have := hclosed g
    rw [hcount] at this
    omega
  · rw [hcount]
    omega

end

end Counted

theorem FileTable.applyAll_append (files : FileTable) (events events' : List FileEvent) :
    files.applyAll (events ++ events') = (files.applyAll events).applyAll events' := List.foldl_append ..

/-! ### References of the areas -/

def vmaRefs (t : VmaTable) (f : FileId) : Nat := refs Finset.univ (vmaFile t) f

/-- The file that an area refers to. -/
def Vma.held (vma : Vma) : Option FileId := if vma.valid then vma.backing else none

theorem Vma.held_of_invalid {vma : Vma} (h : vma.valid = false) : vma.held = none := by
  rw [held, h, if_neg Bool.false_ne_true]

theorem vmaRefs_update (t : VmaTable) (i : Fin vmaMax) (v : Vma) (f : FileId) :
    vmaRefs (update t i v) f + (if (t i).held = some f then 1 else 0) =
      vmaRefs t f + if v.held = some f then 1 else 0 := by
  have hothers : ∀ j ∈ Finset.univ, j ≠ i → vmaFile (update t i v) j = vmaFile t j := by
    intro j _ hj
    rw [vmaFile, vmaFile, update_of_ne hj]
  have hchange := refs_change (Finset.mem_univ i) hothers f
  rw [show vmaFile (update t i v) i = v.held by rw [vmaFile, update_self]; rfl] at hchange
  exact hchange

theorem vmaRefs_same (h : v.held = (t i).held) (f : FileId) : vmaRefs (update t i v) f = vmaRefs t f := by
  have := vmaRefs_update t i v f
  rw [h] at this
  omega

theorem count_toList (o : Option FileId) (f : FileId) : o.toList.count f = if o = some f then 1 else 0 := by
  cases o with
  | none => rfl
  | some g => simp only [Option.toList_some, List.count_singleton, beq_iff_eq, Option.some.injEq]

theorem vmaRefs_drop (hvalid : (t i).valid = true) (f : FileId) :
    vmaRefs (update t i { t i with valid := false }) f + (t i).backing.toList.count f = vmaRefs t f := by
  have hnone : Vma.held { t i with valid := false } = none := rfl
  have := vmaRefs_update t i { t i with valid := false } f
  rw [hnone, Vma.held, hvalid, if_pos rfl] at this
  rw [count_toList]
  simpa using this

theorem vmaRefs_mergeLoop (fuel : Nat) (t : VmaTable) (f : FileId) :
    vmaRefs (mergeLoop fuel t).1 f + (mergeLoop fuel t).2.count f = vmaRefs t f := by
  induction fuel generalizing t with
  | zero => rfl
  | succ fuel ih =>
  rw [mergeLoop]
  cases hfind : findMerge t with
  | none => rfl
  | some pair =>
  obtain ⟨hi, hj, hne, -⟩ := findMerge_some hfind
  dsimp only
  rw [List.count_append]
  have hrest := ih (mergeAt t pair.1 pair.2)
  have hgrown := vmaRefs_same (t := t) (i := pair.1) (v := { t pair.1 with stop := (t pair.2).stop }) rfl f
  have hdrop := vmaRefs_drop (t := update t pair.1 { t pair.1 with stop := (t pair.2).stop })
    (i := pair.2) (by rw [update_of_ne hne]; exact hj) f
  rw [update_of_ne hne] at hdrop
  change vmaRefs (mergeAt t pair.1 pair.2) f + _ = _ at hdrop
  omega

/-- No area of a file has to be split to unmap the range. -/
def NoSplit (t : VmaTable) (start stop : Nat) : Prop :=
  ∀ i, (t i).valid = true → (t i).start < start → stop < (t i).stop → (t i).backing = none

section

variable {t t' : VmaTable} {start stop prot flags : Nat} {closed closed' : List FileId} {i : Fin vmaMax}

theorem MunmapCut.refs (hcut : MunmapCut start stop t closed i t' closed') (hno : NoSplit t start stop)
    (f : FileId) : vmaRefs t' f + closed'.count f = vmaRefs t f + closed.count f := by
  cases hcut with
  | skip _ => rfl
  | drop hvalid _ _ =>
    have := vmaRefs_drop hvalid f
    rw [List.count_append]
    omega
  | lower _ _ _ _ | upper _ _ _ _ | short _ _ _ _ => rw [vmaRefs_same (by rfl)]
  | split j hvalid hj hlo hhi =>
  -- an anonymous area is split
  have hji : j ≠ i := by
    rintro rfl
    rw [hvalid] at hj
    cases hj
  have hnone : (t i).held = none := by rw [Vma.held, if_pos hvalid, hno i hvalid hlo hhi]
  rw [vmaRefs_same (by rw [update_of_ne hji, Vma.held_of_invalid hj]; exact hnone), vmaRefs_same (by rfl)]

theorem NoSplit.update (hno : NoSplit t start stop)
    (hv : v.valid = true → v.start < start → stop < v.stop → v.backing = none) (i : Fin vmaMax) :
    NoSplit (update t i v) start stop := by
  exact (forall_update_iff t fun _ v => v.valid = true → v.start < start → stop < v.stop → v.backing = none).mpr
    ⟨hv, fun k _ => hno k⟩

theorem NoSplit.munmapCut (hno : NoSplit t start stop) (hcut : MunmapCut start stop t closed i t' closed')
    (hle : start ≤ stop) : NoSplit t' start stop := by
  have hnot := not_lt.mpr hle
  cases hcut with
  | skip _ => exact hno
  | drop _ _ _ => exact hno.update (fun hvalid => by cases hvalid) i
  | lower _ _ _ _ | short _ _ _ _ => exact hno.update (fun _ _ hhi => absurd hhi hnot) i
  | upper _ _ _ _ => exact hno.update (fun _ hlo _ => absurd hlo hnot) i
  | split j _ _ _ _ =>
    exact (hno.update (fun _ _ hhi => absurd hhi hnot) i).update (fun _ hlo _ => absurd hlo hnot) j

theorem munmapVmas_refs (hle : start ≤ stop) (hno : NoSplit t start stop) (f : FileId) :
    vmaRefs (munmapVmas t start stop).1 f + (munmapVmas t start stop).2.count f = vmaRefs t f := by
  rw [munmapVmas]
  dsimp only
  rw [List.count_append]
  have hmerge := vmaRefs_mergeLoop (vmaMax + 1)
    ((List.finRange vmaMax).foldl (munmapSlot start stop) (t, [])).1 f
  have hloop := foldl_inv
    (fun s : VmaTable × List FileId => NoSplit s.1 start stop ∧ vmaRefs s.1 f + s.2.count f = vmaRefs t f)
    (f := munmapSlot start stop) (l := List.finRange vmaMax) (s := (t, [])) ⟨hno, rfl⟩ ?_
  · rw [vmaMergeAdjacent]
    omega
  · rintro s i - ⟨hs, hcount⟩
    have hcut := munmapSlot_cut start stop s i
    exact ⟨hs.munmapCut hcut hle, (hcut.refs hs f).trans hcount⟩

/-- No area of a file has to be cut to change the protection of the range. -/
def NoCut (t : VmaTable) (start stop : Nat) : Prop :=
  ∀ i, (t i).valid = true → (t i).backing ≠ none →
    start ≤ (t i).start ∧ (t i).stop ≤ stop ∨ (t i).stop ≤ start ∨ stop ≤ (t i).start

theorem MprotectCut.refs (hcut : MprotectCut start stop prot flags t i t') (hle : start ≤ stop) (hno : NoCut t start stop)
    (f : FileId) : vmaRefs t' f = vmaRefs t f := by
  -- an area that is cut belongs to no file
  have hnone : (t i).valid = true → (t i).start < start ∧ start < (t i).stop ∨
      (t i).start < stop ∧ stop < (t i).stop → (t i).held = none := by
    intro hvalid hcut
    rw [Vma.held, if_pos hvalid]
    by_contra hne
    have := hno i hvalid hne
    omega
  have hother : ∀ {j}, (t i).valid = true → (t j).valid = false → j ≠ i := by
    rintro j hi hj rfl
    rw [hi] at hj
    cases hj
  cases hcut with
  | skip _ | short _ => rfl
  | whole _ _ _ => rw [vmaRefs_same (by rfl)]
  | middle j k hvalid hj hk hjk hlo hhi =>
    have hheld := hnone hvalid (.inl ⟨hlo, by omega⟩)
    rw [vmaRefs_same (by
        rw [update_of_ne hjk.symm, update_of_ne (hother hvalid hk), Vma.held_of_invalid hk]
        exact hheld),
      vmaRefs_same (by rw [update_of_ne (hother hvalid hj), Vma.held_of_invalid hj]; exact hheld),
      vmaRefs_same (by rfl)]
  | upper j hvalid hj hlo hhi _ =>
    have hheld := hnone hvalid (.inl ⟨hlo, hhi⟩)
    rw [vmaRefs_same (by rw [update_of_ne (hother hvalid hj), Vma.held_of_invalid hj]; exact hheld),
      vmaRefs_same (by rfl)]
  | lower j hvalid hj _ hlo hhi =>
    have hheld := hnone hvalid (.inr ⟨hlo, hhi⟩)
    rw [vmaRefs_same (by rw [update_of_ne (hother hvalid hj), Vma.held_of_invalid hj]; exact hheld),
      vmaRefs_same (by rfl)]

theorem NoCut.update (hno : NoCut t start stop) (hv : v.valid = true → v.backing ≠ none →
      start ≤ v.start ∧ v.stop ≤ stop ∨ v.stop ≤ start ∨ stop ≤ v.start) (i : Fin vmaMax) :
    NoCut (update t i v) start stop := by
  intro k
  exact update_ind k hv fun _ => hno k

theorem NoCut.mprotectCut (hno : NoCut t start stop)
    (hcut : MprotectCut start stop prot flags t i t') : NoCut t' start stop := by
  cases hcut with
  | skip _ | short _ => exact hno
  | whole hvalid _ _ =>
    refine hno.update ?_ i
    exact fun _ => hno i hvalid
  | middle j k _ _ _ _ _ _ =>
    refine ((hno.update (fun _ _ => ?_) i).update (fun _ _ => ?_) j).update (fun _ _ => ?_) k
    · exact .inr (.inl le_rfl)
    · exact .inl ⟨le_rfl, le_rfl⟩
    · exact .inr (.inr le_rfl)
  | upper j _ _ _ _ hstop =>
    refine (hno.update (fun _ _ => ?_) i).update (fun _ _ => ?_) j
    · exact .inr (.inl le_rfl)
    · exact .inl ⟨le_rfl, hstop⟩
  | lower j _ _ hstart _ _ =>
    refine (hno.update (fun _ _ => ?_) i).update (fun _ _ => ?_) j
    · exact .inr (.inr le_rfl)
    · exact .inl ⟨hstart, le_rfl⟩

theorem mprotectVmas_refs (hle : start ≤ stop) (hno : NoCut t start stop) (prot flags : Nat) (f : FileId) :
    vmaRefs (mprotectVmas t start stop prot flags).1 f + (mprotectVmas t start stop prot flags).2.count f =
      vmaRefs t f := by
  rw [mprotectVmas, vmaMergeAdjacent, vmaRefs_mergeLoop]
  have hloop := foldl_inv (fun t' : VmaTable => NoCut t' start stop ∧ vmaRefs t' f = vmaRefs t f)
    (f := mprotectSlot start stop prot flags) (l := List.finRange vmaMax) ⟨hno, rfl⟩ ?_
  · exact hloop.2
  · rintro t' i - ⟨hno, hcount⟩
    have hcut := mprotectSlot_cut start stop prot flags t' i
    exact ⟨hno.mprotectCut hcut, (hcut.refs hle hno f).trans hcount⟩

end

/-! ### Balanced calls -/

/-- The counts move by what the process takes and drops. -/
def Balanced (s s' : Fds) : Prop :=
  ∀ n, Counted s.files n → (∀ f, s.proc.fileRefs f ≤ n f) →
    Counted s'.files fun f => n f - s.proc.fileRefs f + s'.proc.fileRefs f

namespace Balanced

theorem of_same (hcounts : s'.files.counts = s.files.counts) (hnext : s'.files.next = s.files.next)
    (hrefs : ∀ f, s'.proc.fileRefs f = s.proc.fileRefs f) : Balanced s s' := by
  intro n hn hle
  have hsame : Counted s'.files n := ⟨fun f => by rw [hcounts, hn.counts f], hnext ▸ hn.fresh⟩
  refine hsame.congr fun f => ?_
  rw [hrefs, Nat.sub_add_cancel (hle f)]

theorem refl (s : Fds) : Balanced s s := of_same rfl rfl fun _ => rfl

theorem trans (h : Balanced s s') (h' : Balanced s' s'') : Balanced s s'' := by
  intro n hn hle
  refine (h' _ (h n hn hle) fun f => Nat.le_add_left ..).congr fun f => ?_
  omega

theorem closeAll (h : ∀ f, proc.fileRefs f + closed.count f = s.proc.fileRefs f) :
    Balanced s ⟨s.files.applyAll (closed.map .close), proc⟩ := by
  intro n hn hle
  have hall : ∀ f, closed.count f ≤ n f := fun f => by
    have := h f
    have := hle f
    omega
  refine (hn.closeAll hall).congr fun f => ?_
  have := h f
  have := hle f
  change _ = n f - s.proc.fileRefs f + proc.fileRefs f
  omega

theorem take (hf : 0 < s.proc.fileRefs f) (h : ∀ g, proc.fileRefs g = s.proc.fileRefs g + if g = f then 1 else 0) :
    Balanced s ⟨s.files.take f, proc⟩ := by
  intro n hn hle
  refine (hn.take (lt_of_lt_of_le hf (hle f))).congr fun g => ?_
  have := h g
  have := hle g
  change _ = n g - s.proc.fileRefs g + proc.fileRefs g
  omega

end Balanced

/-! ### Descriptor calls -/

theorem Process.fileRefs_pos_of_fd (h : proc.files fd = some f) : 0 < proc.fileRefs f := by
  have : 0 < refs Finset.univ proc.files f := refs_pos_iff.mpr ⟨fd, Finset.mem_univ fd, h⟩
  unfold fileRefs
  omega

theorem Fds.fileRefs_setFd (s : Fds) (fd : Fin maxFilesPerProcess) (o : Option FileId) (f : FileId) :
    (s.setFd fd o).proc.fileRefs f + (if s.proc.files fd = some f then 1 else 0) =
      s.proc.fileRefs f + if o = some f then 1 else 0 := by
  have hothers : ∀ j ∈ Finset.univ, j ≠ fd → update s.proc.files fd o j = s.proc.files j :=
    fun j _ hj => update_of_ne hj ..
  have hchange := refs_change (Finset.mem_univ fd) hothers f
  rw [update_self] at hchange
  unfold Process.fileRefs
  change refs Finset.univ (update s.proc.files fd o) f + _ + _ = _
  change _ + refs Finset.univ (vmaFile s.proc.vmas) f + _ = _
  omega

namespace Balanced

variable (s : Fds)

theorem closeFd (fd : Fin maxFilesPerProcess) : Balanced s (s.closeFd fd) := by
  unfold Fds.closeFd
  cases hfd : s.proc.files fd with
  | none => exact refl s
  | some f =>
    have hone : ∀ g, (s.setFd fd none).proc.fileRefs g + [f].count g = s.proc.fileRefs g := by
      intro g
      have := s.fileRefs_setFd fd none g
      rw [hfd] at this
      rw [List.count_singleton]
      simpa [beq_iff_eq] using this
    exact closeAll hone

theorem share (hfree : s.proc.files fd = none) (hf : 0 < s.proc.fileRefs f) : Balanced s (s.share fd f) := by
  refine take hf fun g => ?_
  have := s.fileRefs_setFd fd (some f) g
  rw [hfree] at this
  simpa [eq_comm] using this

theorem modify (f : FileId) {change : File → File} (hcount : ∀ file, (change file).refCount = file.refCount) :
    Balanced s (s.modify f change) := by
  refine of_same ?_ rfl fun _ => rfl
  funext g
  change (s.files.set f _).counts g = _
  rw [FileTable.counts_set]
  split
  · rename_i hg
    rw [hg, FileTable.counts, Option.map_map]
    congr 1
    exact funext hcount
  · rfl

theorem install (hfree : s.proc.files fd = none) (node : NodeId) (flags : Nat) :
    Balanced s (installFile s fd node flags) := by
  intro n hn hle
  refine (hn.create ⟨some node, 0, flags, _, 1⟩ rfl).congr fun g => ?_
  have := s.fileRefs_setFd fd (some s.files.next) g
  rw [hfree] at this
  have := hle g
  change _ = n g - s.proc.fileRefs g + (s.setFd fd (some s.files.next)).proc.fileRefs g
  simp only [Option.some.injEq, eq_comm (a := s.files.next) (b := g), reduceCtorEq, if_false] at *
  omega

end Balanced

theorem FdMoves.balanced (h : FdMoves s s') : Balanced s s' := by
  induction h with
  | refl => exact .refl s
  | close _ fd ih => exact ih.trans (.closeFd _ fd)
  | share _ hf hfree ih => exact ih.trans (.share _ hfree (Process.fileRefs_pos_of_fd hf))
  | modify _ f hcount ih => exact ih.trans (.modify _ f hcount)
  | install _ hfree node flags ih => exact ih.trans (.install _ hfree node flags)

end Litenix
