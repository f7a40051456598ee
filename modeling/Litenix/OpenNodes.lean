import Litenix.VfsTree

/-! Open files and removed nodes (`vfs.c`, `sys_file.c`). An open file points to its node, and a mapping to its file;
nodes have no reference count. What the `data` field of a node holds depends on who has set it: a block of the heap, or
a device, a process id or a block device. -/

namespace Litenix.Vfs

open Lib Function

abbrev FileId := Nat

inductive Data
  | empty
  | heap (block : Nat)
  | foreign

structure OpenFile where
  node : NodeId
  refCount : Nat

structure OpenState where
  vfs : State
  files : FileId → Option OpenFile
  data : NodeId → Data
  nextBlock : Nat
  /-- What `vfs_unlink` has passed to `kfree` as the data of a node. -/
  freed : List Data

inductive OpenOp
  | create (env : Env) (path : Path)
  | openFile (f : FileId) (path : Path)
  /-- `dup`, `fork` and `mmap` take another reference on a file. -/
  | share (f : FileId)
  | close (f : FileId)
  /-- `krealloc` gives the node of a file a new block. -/
  | write (f : FileId)
  /-- A driver, or a lookup in `/proc`, sets the data of a node. -/
  | setData (n : NodeId)
  | unlink (env : Env) (path : Path)
  | rename (env : Env) (old new : Path)

/-- The node that `vfs_unlink` frees. -/
def victim (s : State) (env : Env) (path : Path) : Option NodeId :=
  match (vfsUnlink s env path).2, findParentOf s path with
  | .ok _, some (parent, base) => s.child parent base
  | _, _ => none

/-- The node that `vfs_rename` frees: the one that has the new name. -/
def renameVictim (s : State) (env : Env) (new : Path) : Option NodeId :=
  match vfsResolvePathAt s new false with
  | .error _ => none
  | .ok _ => victim s env new

/-- The tree after a node has been freed together with its data. -/
def OpenState.free (s : OpenState) (vfs : State) : Option NodeId → OpenState
  | none => { s with vfs := vfs }
  | some n =>
    match s.data n with
    | .empty => { s with vfs := vfs }
    | d => { s with vfs := vfs, data := update s.data n .empty, freed := d :: s.freed }

def openStep (s : OpenState) : OpenOp → Except Unit OpenState
  | .create env path => .ok { s with vfs := (vfsCreateFile s.vfs env path .file [] none).1 }
  | .openFile f path =>
    match s.files f, vfsLookup s.vfs path with
    | none, .ok n =>
      if (s.vfs.nodes n).allocated then .ok { s with files := update s.files f (some ⟨n, 1⟩) }
      else .error ()
    | _, _ => .error ()
  | .share f =>
    match s.files f with
    | none => .error ()
    | some file => .ok { s with files := update s.files f (some { file with refCount := file.refCount + 1 }) }
  | .close f =>
    match s.files f with
    | none => .error ()
    | some file =>
      let left := if file.refCount ≤ 1 then none else some { file with refCount := file.refCount - 1 }
      .ok { s with files := update s.files f left }
  | .write f =>
    match s.files f with
    | none => .error ()
    | some file =>
      .ok { s with data := update s.data file.node (.heap s.nextBlock), nextBlock := s.nextBlock + 1 }
  | .setData n => .ok { s with data := update s.data n .foreign }
  | .unlink env path => .ok (s.free (vfsUnlink s.vfs env path).1 (victim s.vfs env path))
  | .rename env old new => .ok (s.free (vfsRename s.vfs env old new).1 (renameVictim s.vfs env new))

/-- Open files have nodes that are not freed, and what has been freed as the data of a node was a block of its own. -/
structure Safe (s : OpenState) : Prop where
  files : ∀ f file, s.files f = some file → (s.vfs.nodes file.node).allocated = true
  freed : ∀ d ∈ s.freed, ∃ b, d = .heap b
  owner : ∀ n m b, s.data n = .heap b → s.data m = .heap b → n = m
  blocks : ∀ n b, s.data n = .heap b → b < s.nextBlock

/-- No file is open on the node, and its data is no foreign pointer. -/
def Removable (s : OpenState) (n : NodeId) : Prop :=
  (∀ f file, s.files f = some file → file.node ≠ n) ∧ s.data n ≠ .foreign

def RemoveCond (s : OpenState) : OpenOp → Prop
  | .unlink env path => ∀ n, victim s.vfs env path = some n → Removable s n
  | .rename env _ new => ∀ n, renameVictim s.vfs env new = some n → Removable s n
  | _ => True

/-! ### Nodes that are freed -/

variable {s : State} {o : OpenState}

/-- The nodes in use, but for the victim. -/
def Frees (s t : State) (v : Option NodeId) : Prop :=
  ∀ m, (t.nodes m).allocated = if v = some m then false else (s.nodes m).allocated

theorem modify_allocated (s : State) (n m : NodeId) {f : Node → Node} (hf : ∀ node, (f node).allocated = node.allocated) :
    ((s.modify n f).nodes m).allocated = (s.nodes m).allocated := by
  rw [modify_nodes]
  split
  · rename_i hm
    rw [hf, hm]
  · rfl

theorem vfsUnlink_frees (s : State) (env : Env) (path : Path) : Frees s (vfsUnlink s env path).1 (victim s env path) := by
  have hsame : Frees s s none := fun m => rfl
  rcases hparent : findParentOf s path with _ | ⟨parent, base⟩
  · simpa only [victim, vfsUnlink, hparent] using hsame
  rcases hchild : s.child parent base with _ | n
  · simpa only [victim, vfsUnlink, hparent, hchild] using hsame
  by_cases hempty : (s.nodes n).type = .dir ∧ (s.nodes n).children ≠ []
  · simpa only [victim, vfsUnlink, hparent, hchild, if_pos hempty] using hsame
  rcases hfs : (if (s.nodes parent).hooks ∧ (s.nodes n).type ≠ .link then env.unlink else none) with _ | e
  · simp only [victim, vfsUnlink, hparent, hchild, if_neg hempty, hfs]
    intro m
    rw [modify_nodes]
    by_cases hm : m = n
    · rw [hm, if_pos rfl, if_pos rfl]
    · rw [if_neg hm, if_neg fun heq => hm (Option.some.inj heq).symm]
      apply modify_allocated
      exact fun _ => rfl
  · simpa only [victim, vfsUnlink, hparent, hchild, if_neg hempty, hfs] using hsame

theorem renameNode_allocated (s : State) (env : Env) (old new : Path) (m : NodeId) :
    (((renameNode s env old new).1).nodes m).allocated = (s.nodes m).allocated := by
  unfold renameNode
  split
  · rfl
  split
  · rfl
  split
  · rfl
  split
  · rfl
  · unfold State.attach State.detach
    rw [modify_allocated, modify_allocated, modify_allocated]
    all_goals exact fun _ => rfl

theorem vfsRename_frees (s : State) (env : Env) (old new : Path) :
    Frees s (vfsRename s env old new).1 (renameVictim s env new) := by
  rcases hnew : vfsResolvePathAt s new false with e | n
  · simp only [vfsRename, renameVictim, hnew]
    exact fun m => renameNode_allocated s env old new m
  simp only [vfsRename, renameVictim, hnew]
  have hfrees := vfsUnlink_frees s env new
  rcases hunlink : vfsUnlink s env new with ⟨t, e | _⟩
  · rw [hunlink] at hfrees
    exact hfrees
  · rw [hunlink] at hfrees
    exact fun m => (renameNode_allocated t env old new m).trans (hfrees m)

theorem createLoop_allocated {env : Env} {type : NodeType} {data : List UInt8} {target : Option Target} {cs : List Name}
    {cur m : NodeId} (h : (s.nodes m).allocated = true) :
    ((createLoop env type data target s cur cs).1.nodes m).allocated = true := by
  have hadd (s : State) (parent m : NodeId) (node : Node) (atHead : Bool) (hnode : node.allocated = true)
      (h : (s.nodes m).allocated = true) : ((s.add parent node atHead).nodes m).allocated = true := by
    rw [State.add, modify_allocated]
    · dsimp only
      exact update_ind m hnode fun _ => h
    · exact fun _ => rfl
  induction cs generalizing s cur with
  | nil => exact h
  | cons c cs ih =>
    rw [createLoop]
    repeat' split
    all_goals first | exact h | exact ih h | exact hadd _ _ _ _ _ rfl h | exact ih (hadd _ _ _ _ _ rfl h)

/-! ### Steps -/

/-- A node is freed: that is safe exactly if it could be removed. -/
theorem Safe.free_iff (h : Safe o) {vfs : State} {v : Option NodeId} (hfrees : Frees o.vfs vfs v) :
    Safe (o.free vfs v) ↔ ∀ n, v = some n → Removable o n := by
  have hfiles : (∀ f file, o.files f = some file → (vfs.nodes file.node).allocated = true) ↔
      ∀ n, v = some n → ∀ f file, o.files f = some file → file.node ≠ n := by
    constructor
    · rintro hall n rfl f file hfile rfl
      have halloc := hall f file hfile
      rw [hfrees, if_pos rfl] at halloc
      cases halloc
    · intro hall f file hfile
      rw [hfrees, if_neg fun heq => hall _ heq f file hfile rfl]
      exact h.files f file hfile
  cases v with
  | none => exact iff_of_true ⟨hfiles.mpr (by simp), h.freed, h.owner, h.blocks⟩ (by simp)
  | some n =>
  have hupdate {m : NodeId} {b : Nat} (hm : update o.data n .empty m = .heap b) : o.data m = .heap b := by
    revert hm
    exact update_ind m nofun fun _ => id
  simp only [Option.some.injEq, forall_eq', Removable] at hfiles ⊢
  rw [← hfiles, OpenState.free]
  rcases hdata : o.data n with _ | b | _
  · exact ⟨fun hsafe => ⟨hsafe.files, (by simp)⟩, fun hall => ⟨hall.1, h.freed, h.owner, h.blocks⟩⟩
  · refine ⟨fun hsafe => ⟨hsafe.files, (by simp)⟩, fun hall => ⟨hall.1, ?_, ?_, ?_⟩⟩
    · exact List.forall_mem_cons.mpr ⟨⟨b, rfl⟩, h.freed⟩
    · exact fun m k c hm hk => h.owner m k c (hupdate hm) (hupdate hk)
    · exact fun m c hm => h.blocks m c (hupdate hm)
  · refine iff_of_false (fun hsafe => ?_) (by simp)
    obtain ⟨b, hb⟩ := hsafe.freed .foreign List.mem_cons_self
    cases hb

theorem Safe.updateFile (h : Safe o) {f : FileId} {new : Option OpenFile}
    (hnew : ∀ file, new = some file → (o.vfs.nodes file.node).allocated = true) :
    Safe { o with files := update o.files f new } := by
  refine ⟨fun g file hfile => ?_, h.freed, h.owner, h.blocks⟩
  revert hfile
  dsimp only
  exact update_ind g (hnew file) fun _ => h.files g file

/-- **One step.** -/
theorem Safe.step_iff (h : Safe o) (op : OpenOp) : (∀ o', openStep o op = .ok o' → Safe o') ↔ RemoveCond o op := by
  cases op with
  | create env path =>
    refine iff_of_true ?_ trivial
    rintro _ ⟨⟩
    exact ⟨fun f file hfile => createLoop_allocated (h.files f file hfile), h.freed, h.owner, h.blocks⟩
  | openFile f path =>
    refine iff_of_true (fun o' ho' => ?_) trivial
    rw [openStep] at ho'
    split at ho'
    · split at ho'
      · rename_i halloc
        cases ho'
        exact h.updateFile (by rintro _ ⟨⟩; exact halloc)
      · cases ho'
    · cases ho'
  | share f =>
    refine iff_of_true (fun o' ho' => ?_) trivial
    rw [openStep] at ho'
    split at ho'
    · cases ho'
    · rename_i file hfile
      cases ho'
      exact h.updateFile (by rintro _ ⟨⟩; exact h.files f file hfile)
  | close f =>
    refine iff_of_true (fun o' ho' => ?_) trivial
    rw [openStep] at ho'
    split at ho'
    · cases ho'
    rename_i file hfile
    cases ho'
    refine h.updateFile fun file' hfile' => ?_
    split at hfile'
    · cases hfile'
    · cases hfile'
      exact h.files f file hfile
  | write f =>
    refine iff_of_true (fun o' ho' => ?_) trivial
    rw [openStep] at ho'
    split at ho'
    · cases ho'
    rename_i file hfile
    cases ho'
    have hold {m : NodeId} {b : Nat} (hm : update o.data file.node (.heap o.nextBlock) m = .heap b) :
        m = file.node ∧ b = o.nextBlock ∨ o.data m = .heap b ∧ b < o.nextBlock := by
      revert hm
      exact update_ind m (fun hm => .inl ⟨rfl, (Data.heap.inj hm).symm⟩) fun _ hm => .inr ⟨hm, h.blocks m b hm⟩
    refine ⟨h.files, h.freed, fun m k b hm hk => ?_, fun m b hm => ?_⟩
    · rcases hold hm with ⟨rfl, rfl⟩ | ⟨hm, hlt⟩ <;> rcases hold hk with ⟨rfl, hb⟩ | ⟨hk, hlt'⟩
      · rfl
      · exact absurd hlt' (Nat.lt_irrefl _)
      · omega
      · exact h.owner m k b hm hk
    · show b < o.nextBlock + 1
      rcases hold hm with ⟨-, rfl⟩ | ⟨-, hlt⟩ <;> omega
  | setData n =>
    refine iff_of_true ?_ trivial
    rintro _ ⟨⟩
    have hold {m : NodeId} {b : Nat} (hm : update o.data n .foreign m = .heap b) : o.data m = .heap b := by
      revert hm
      exact update_ind m nofun fun _ => id
    exact ⟨h.files, h.freed, fun m k b hm hk => h.owner m k b (hold hm) (hold hk), fun m b hm => h.blocks m b (hold hm)⟩
  | unlink env path =>
    refine Iff.trans ⟨fun hall => hall _ rfl, ?_⟩ (h.free_iff (vfsUnlink_frees o.vfs env path))
    rintro hsafe _ ⟨⟩
    exact hsafe
  | rename env old new =>
    refine Iff.trans ⟨fun hall => hall _ rfl, ?_⟩ (h.free_iff (vfsRename_frees o.vfs env old new))
    rintro hsafe _ ⟨⟩
    exact hsafe

/-- No file has been opened, and no node has data. -/
def OpenState.start (vfs : State) : OpenState := ⟨vfs, fun _ => none, fun _ => .empty, 0, []⟩

/-- An empty tree. -/
def bareRoot : State where
  nodes := fun n => ⟨n = 0, [], .dir, none, [], [], none, false⟩
  root := 0
  nextNode := 1

end Litenix.Vfs
