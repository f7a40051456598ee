import Litenix.Creds
import Litenix.VfsTree

/-! Opening a file by name (`open_copied_path_at`, without `O_CREAT`) and the permission check
(`vfs_check_permission`). The resolver of `vfs.c` is repeated here with a record of the nodes in which it
looks up the components of the path and of the links on it. It asks for no permission on the way: only the node
at the end is checked, so a directory keeps a process out of what is below it only where all of it denies
every access. -/

namespace Litenix.Vfs

variable {flags : UInt32} {memory : Bool} {path : Target}

/-! ### The permission check -/

/-- The fields of a node that the check reads. -/
structure Attr where
  mode : UInt32
  uid : UInt32
  gid : UInt32

/-- The access mode: `VFS_ACCESS_READ`, `VFS_ACCESS_WRITE` and `VFS_ACCESS_EXEC`. -/
structure Access where
  read : Bool
  write : Bool
  exec : Bool

def Access.readOnly : Access := ⟨true, false, false⟩
def Access.writeOnly : Access := ⟨false, true, false⟩
def Access.search : Access := ⟨false, false, true⟩

/-- The permission bits that apply to a process. -/
def Attr.checkBits (attr : Attr) (cred : Creds) : UInt32 :=
  let mode := attr.mode &&& 0x1FF
  if attr.uid = cred.uids.effective then (mode >>> 6) &&& 7
  else if attr.gid = cred.gids.effective then (mode >>> 3) &&& 7
  else mode &&& 7

/-- `true` where the source returns 0. -/
def vfsCheckPermission (cred : Creds) (attr : Attr) (access : Access) : Bool :=
  if cred.uids.effective = 0 then true
  else
    let bits := attr.checkBits cred
    !(access.read && bits &&& 4 = 0) && !(access.write && bits &&& 2 = 0) && !(access.exec && bits &&& 1 = 0)

/-- Read or write access: what an `open` can ask for. -/
def Accessible (cred : Creds) (attr : Attr) : Prop :=
  vfsCheckPermission cred attr .readOnly = true ∨ vfsCheckPermission cred attr .writeOnly = true

theorem vfsCheckPermission_accessible (hasks : access.read = true ∨ access.write = true)
    (h : vfsCheckPermission cred attr access = true) :
    Accessible cred attr := by
  unfold Accessible vfsCheckPermission at *
  split at h
  · simp_all
  · rcases hasks with hread | hwrite <;> simp_all [Access.readOnly, Access.writeOnly]

/-! ### Resolution with a record -/

/-- The loop of `vfs_resolve_path_rec`, with the nodes in which a component was looked up. -/
def walkSearch (s : State) (follow : Option NodeId → Target → List NodeId × Except Errno NodeId) (followLast : Bool) :
    NodeId → List Name → List NodeId × Except Errno NodeId
  | cur, [] => ([], .ok cur)
  | cur, c :: cs =>
    if c = ['.'] then walkSearch s follow followLast cur cs
    else if c = ['.', '.'] then
      let rest := walkSearch s follow followLast ((s.nodes cur).parent.getD cur) cs
      (cur :: rest.1, rest.2)
    else
      match s.child cur c with
      | none => ([cur], .error .noent)
      | some found =>
        if (s.nodes found).type = .link then
          if cs.isEmpty && !followLast then
            let rest := walkSearch s follow followLast found cs
            (cur :: rest.1, rest.2)
          else
            match (s.nodes found).target with
            | none => ([cur], .error .noent)
            | some target =>
              match follow (s.nodes found).parent target with
              | (searched, .error e) => (cur :: searched, .error e)
              | (searched, .ok resolved) =>
                let rest := walkSearch s follow followLast resolved cs
                (cur :: searched ++ rest.1, rest.2)
        else if !cs.isEmpty ∧ (s.nodes found).type ≠ .dir then ([cur], .error .notdir)
        else
          let rest := walkSearch s follow followLast found cs
          (cur :: rest.1, rest.2)

def resolveSearch (s : State) : Nat → Option NodeId → Target → Bool → List NodeId × Except Errno NodeId
  | 0, _, _, _ => ([], .error .loop)
  | levels + 1, start, target, followLast =>
    walkSearch s (fun start target => resolveSearch s levels start target true) followLast
      (if target.absolute then s.root else start.getD s.root) target.comps

theorem walkSearch_snd (hfollow : ∀ start text, (follow start text).2 = follow' start text)
    (followLast : Bool) (cur : NodeId) (cs : List Name) :
    (walkSearch s follow followLast cur cs).2 = walk s follow' followLast false cur cs := by
  induction cs generalizing cur with
  | nil => rfl
  | cons c cs ih =>
  rw [walkSearch, walk]
  split
  · exact ih cur
  split
  · exact ih _
  simp only [Bool.not_false, Bool.and_true]
  cases s.child cur c with
  | none => rfl
  | some found =>
  dsimp only
  split
  · split
    · exact ih found
    cases (s.nodes found).target with
    | none => rfl
    | some text =>
      dsimp only
      rw [← hfollow]
      rcases follow (s.nodes found).parent text with ⟨searched, _ | resolved⟩
      · rfl
      · exact ih resolved
  · split
    · rfl
    · exact ih found

theorem resolveSearch_snd (s : State) (levels : Nat) (start : Option NodeId) (text : Target) (followLast : Bool) :
    (resolveSearch s levels start text followLast).2 = vfsResolvePathRec s levels start text followLast := by
  induction levels generalizing start text followLast with
  | zero => rfl
  | succ levels ih =>
    rw [resolveSearch, vfsResolvePathRec]
    exact walkSearch_snd (fun start text => ih start text true) followLast _ _

/-! ### `open` -/

def oCreat : UInt32 := 64
def oTrunc : UInt32 := 512
def atEmptyPath : UInt32 := 0x1000
def oDirectory : UInt32 := 65536
def oNofollow : UInt32 := 131072
def atFdcwd : Int := -100

def hasFlag (flags mask : UInt32) : Bool := flags &&& mask != 0

abbrev maxFiles : Nat := 256

/-- What `open` reads of a process; the path of the working directory starts at the root. -/
structure OpenProc where
  cred : Creds
  cwd : Path
  files : Fin maxFiles → Option NodeId

def OpenProc.file (p : OpenProc) (fd : Int) : Option NodeId :=
  if h : 0 ≤ fd ∧ fd.toNat < maxFiles then p.files ⟨fd.toNat, h.2⟩ else none

def allocFd (p : OpenProc) : Option (Fin maxFiles) := (List.finRange maxFiles).find? fun fd => p.files fd = none

inductive OpenError
  | mfile
  | badf
  | acces
  | vfs (e : Errno)
deriving DecidableEq

def nodeRequiredAccess (flags : UInt32) (type : NodeType) : Access where
  read := flags &&& 3 ≠ 1
  write := flags &&& 3 = 1 || flags &&& 3 = 2 || hasFlag flags oTrunc && type = .file
  exec := hasFlag flags oDirectory && type = .dir

/-- `vfs_resolve_path_at` for any path; the empty one does not exist. -/
def resolveAt (s : State) (start : Option NodeId) (path : Target) (followLast : Bool) :
    List NodeId × Except (Option OpenError) NodeId :=
  if !path.absolute ∧ path.comps = [] then ([], .error (some (.vfs .noent)))
  else
    let found := resolveSearch s 17 start path followLast
    (found.1, found.2.mapError fun e => some (.vfs e))

/-- `resolve_dirfd_ex`. The error is missing where the source returns no node and leaves `err_out` at 0. -/
def resolveDirfdEx (s : State) (p : OpenProc) (dirfd : Int) (path : Target) (followLast : Bool) (flags : UInt32) :
    List NodeId × Except (Option OpenError) NodeId :=
  if (!path.absolute ∧ path.comps = []) ∧ hasFlag flags atEmptyPath then
    if dirfd = atFdcwd then ([], (vfsLookup s p.cwd).mapError fun _ => none)
    else
      match p.file dirfd with
      | none => ([], .error (some .badf))
      | some n => ([], .ok n)
  else if path.absolute then resolveAt s (some s.root) path followLast
  else if dirfd = atFdcwd then resolveAt s (vfsLookup s p.cwd).toOption path followLast
  else
    match p.file dirfd with
    | none => ([], .error (some .badf))
    | some n =>
      if (s.nodes n).type ≠ .dir then ([], .error (some (.vfs .notdir)))
      else resolveAt s (some n) path followLast

/-- What a call of `open` leaves: the record of its lookups, the tree, the process and the answer. -/
structure Opened where
  searched : List NodeId
  tree : State
  proc : OpenProc
  answer : Except OpenError (Fin maxFiles)

/-- The part of `open_copied_path_at` after the node has been found; `memory` says whether the file can be
allocated. -/
def openNode (s : State) (attrs : NodeId → Attr) (p : OpenProc) (fd : Fin maxFiles) (flags : UInt32) (memory : Bool)
    (searched : List NodeId) (node : NodeId) : Opened :=
  let type := (s.nodes node).type
  if hasFlag flags oNofollow ∧ type = .link then ⟨searched, s, p, .error (.vfs .loop)⟩
  else if !vfsCheckPermission p.cred (attrs node) (nodeRequiredAccess flags type) then ⟨searched, s, p, .error .acces⟩
  else if hasFlag flags oDirectory ∧ type ≠ .dir then ⟨searched, s, p, .error (.vfs .notdir)⟩
  else
    let s := if hasFlag flags oTrunc ∧ type = .file then s.modify node fun n => { n with data := [] } else s
    if !memory then ⟨searched, s, p, .error (.vfs .nomem)⟩
    else ⟨searched, s, { p with files := Function.update p.files fd (some node) }, .ok fd⟩

/-- `open_copied_path_at` without `O_CREAT`. -/
def openCopiedPathAt (s : State) (attrs : NodeId → Attr) (p : OpenProc) (dirfd : Int) (path : Target) (flags : UInt32)
    (memory : Bool) : Opened :=
  match allocFd p with
  | none => ⟨[], s, p, .error .mfile⟩
  | some fd =>
    match resolveDirfdEx s p dirfd path (!hasFlag flags oNofollow) flags with
    | (searched, .error (some e)) => ⟨searched, s, p, .error e⟩
    -- the error code is still 0: the answer reads as descriptor 0
    | (searched, .error none) => ⟨searched, s, p, .ok 0⟩
    | (searched, .ok node) => openNode s attrs p fd flags memory searched node

/-! ### Walks over a tree -/

/-- A tree whose nodes can all be named: no name is one of the two that the resolver treats on its own. -/
structure NamedTree (s : State) : Prop extends TreeOk s where
  named : ∀ n, ∀ m ∈ (s.nodes n).children, (s.nodes m).name ≠ ['.'] ∧ (s.nodes m).name ≠ ['.', '.']

section Walks

variable {s : State} {cur n m d : NodeId} {cs : List Name}
  {follow : Option NodeId → Target → List NodeId × Except Errno NodeId} {followLast : Bool}

/-- A node of the tree that is not a link. -/
def State.Stop (s : State) (n : NodeId) : Prop := (s.nodes n).allocated = true ∧ (s.nodes n).type ≠ .link

theorem TreeOk.stop_root (h : TreeOk s) : s.Stop s.root := ⟨h.root.1, by simp [h.root.2.1]⟩

theorem TreeOk.stop_parent (h : TreeOk s) (hn : (s.nodes n).allocated = true) (hp : (s.nodes n).parent = some m) :
    s.Stop m ∧ (s.nodes m).type = .dir := by
  obtain ⟨hmem, hm⟩ := h.parent_allocated hn hp
  have hdir := h.dirs m (List.ne_nil_of_mem hmem)
  exact ⟨⟨hm, by simp [hdir]⟩, hdir⟩

/-- What a resolution that starts in the tree meets and finds. -/
structure StaysIn (s : State) (followLast : Bool) (out : List NodeId × Except Errno NodeId) : Prop where
  searched : ∀ d ∈ out.1, (s.nodes d).allocated = true
  result : ∀ r, out.2 = .ok r → (s.nodes r).allocated = true ∧ ((s.nodes r).type = .link → followLast = false)

theorem StaysIn.cons (h : StaysIn s followLast out)
    (hcur : (s.nodes cur).allocated = true) : StaysIn s followLast (cur :: out.1, out.2) :=
  ⟨fun d hd => (List.mem_cons.mp hd).elim (fun heq => heq ▸ hcur) (h.searched d), h.result⟩

theorem StaysIn.stopped (hcur : (s.nodes cur).allocated = true) : StaysIn s followLast ([cur], .error e) :=
  ⟨fun _ hd => List.mem_singleton.mp hd ▸ hcur, nofun⟩

theorem TreeOk.walk_staysIn (h : TreeOk s)
    (hfollow : ∀ start text, (∀ p, start = some p → s.Stop p) → StaysIn s true (follow start text))
    (hcur : s.Stop cur) : StaysIn s followLast (walkSearch s follow followLast cur cs) := by
  induction cs generalizing cur with
  | nil =>
    refine ⟨nofun, fun r hr => ?_⟩
    cases hr
    exact ⟨hcur.1, fun hlink => absurd hlink hcur.2⟩
  | cons c cs ih =>
  rw [walkSearch]
  split
  · exact ih hcur
  split
  · refine (ih ?_).cons hcur.1
    cases hparent : (s.nodes cur).parent with
    | none => exact hcur
    | some p => exact (h.stop_parent hcur.1 hparent).1
  cases hchild : s.child cur c with
  | none => exact .stopped hcur.1
  | some found =>
  obtain ⟨hparent, hfound, -⟩ := h.child cur found (Tree.child_mem hchild).1
  dsimp only
  split
  · split
    · -- the link itself is the result
      rename_i hlast
      simp only [Bool.and_eq_true, List.isEmpty_iff, Bool.not_eq_true'] at hlast
      obtain ⟨rfl, hlast⟩ := hlast
      refine StaysIn.cons ⟨nofun, fun r hr => ?_⟩ hcur.1
      cases hr
      exact ⟨hfound, fun _ => hlast⟩
    cases (s.nodes found).target with
    | none => exact .stopped hcur.1
    | some text =>
    dsimp only
    have hin := hfollow (s.nodes found).parent text fun p hp => (h.stop_parent hfound hp).1
    generalize follow (s.nodes found).parent text = out at hin ⊢
    rcases out with ⟨searched, e | resolved⟩
    · exact StaysIn.cons ⟨hin.searched, nofun⟩ hcur.1
    obtain ⟨hresolved, hlink⟩ := hin.result resolved rfl
    have hrest := ih ⟨hresolved, fun heq => nomatch hlink heq⟩
    have hboth : StaysIn s followLast (searched ++ (walkSearch s follow followLast resolved cs).1, _) :=
      ⟨fun d hd => (List.mem_append.mp hd).elim (hin.searched d) (hrest.searched d), hrest.result⟩
    exact hboth.cons hcur.1
  · split
    · exact .stopped hcur.1
    · rename_i hlink _
      exact (ih ⟨hfound, hlink⟩).cons hcur.1

theorem TreeOk.resolve_staysIn (h : TreeOk s) (levels : Nat) (start : Option NodeId) (text : Target) (followLast : Bool)
    (hstart : ∀ p, start = some p → s.Stop p) : StaysIn s followLast (resolveSearch s levels start text followLast) := by
  induction levels generalizing start text followLast with
  | zero => exact ⟨nofun, nofun⟩
  | succ levels ih =>
    rw [resolveSearch]
    refine h.walk_staysIn (fun start text hs => ih start text true hs) ?_
    split
    · exact h.stop_root
    · cases hs : start with
      | none => exact h.stop_root
      | some p => exact hstart p hs

variable (follow followLast)

/-- From the root every node that is not a link can be named. -/
theorem NamedTree.descend (h : NamedTree s) (hn : s.Stop n) :
    ∃ path : List Name, ∀ cs : List Name, (cs ≠ [] → (s.nodes n).type = .dir) → ∃ log,
      walkSearch s follow followLast s.root (path ++ cs) =
        (log ++ (walkSearch s follow followLast n cs).1, (walkSearch s follow followLast n cs).2) := by
  obtain ⟨halloc, hlink⟩ := hn
  induction h.reaches n halloc with
  | root => exact ⟨[], fun cs _ => ⟨[], rfl⟩⟩
  | @step m p hp _ ih =>
  obtain ⟨⟨hpalloc, hplink⟩, hdir⟩ := h.stop_parent halloc hp
  obtain ⟨path, hpath⟩ := ih hpalloc hplink
  have hmem := (h.parent_allocated halloc hp).1
  obtain ⟨hdot, hdots⟩ := h.named p m hmem
  refine ⟨path ++ [(s.nodes m).name], fun cs hcs => ?_⟩
  obtain ⟨log, hlog⟩ := hpath ((s.nodes m).name :: cs) fun _ => hdir
  have hstep : walkSearch s follow followLast p ((s.nodes m).name :: cs) =
      (p :: (walkSearch s follow followLast m cs).1, (walkSearch s follow followLast m cs).2) := by
    rw [walkSearch, if_neg hdot, if_neg hdots, h.child_of_mem hmem rfl]
    dsimp only
    rw [if_neg hlink, if_neg]
    rintro ⟨hne, hnot⟩
    exact hnot (hcs (by simpa using hne))
  refine ⟨log ++ [p], ?_⟩
  rw [List.append_assoc, List.singleton_append, hlog, hstep]
  simp

/-- The name of the parent, often enough, leads to the root. -/
theorem TreeOk.climb (h : TreeOk s) (hn : (s.nodes n).allocated = true) :
    ∃ k, ∀ cs : List Name, ∃ log, walkSearch s follow followLast n (List.replicate k ['.', '.'] ++ cs) =
      (log ++ (walkSearch s follow followLast s.root cs).1, (walkSearch s follow followLast s.root cs).2) := by
  induction h.reaches n hn with
  | root => exact ⟨0, fun cs => ⟨[], rfl⟩⟩
  | @step m p hp _ ih =>
    obtain ⟨k, hk⟩ := ih (h.stop_parent hn hp).1.1
    refine ⟨k + 1, fun cs => ?_⟩
    obtain ⟨log, hlog⟩ := hk cs
    refine ⟨m :: log, ?_⟩
    rw [List.replicate_succ, List.cons_append, walkSearch, if_neg (by decide), if_pos rfl, hp]
    simp [hlog]

/-- **A way through a directory.** Every directory lies on a path to every node that is not a link. -/
theorem NamedTree.way (h : NamedTree s) (hd : (s.nodes d).allocated = true) (hdir : (s.nodes d).type = .dir)
    (hn : s.Stop n) (levels : Nat) (start : Option NodeId) :
    ∃ path : Target, path.absolute = true ∧ d ∈ (resolveSearch s (levels + 1) start path followLast).1 ∧
      (resolveSearch s (levels + 1) start path followLast).2 = .ok n := by
  let follow start text := resolveSearch s levels start text true
  obtain ⟨down, hdown⟩ := h.descend follow followLast ⟨hd, by simp [hdir]⟩
  have hup : s.Stop ((s.nodes d).parent.getD d) := by
    cases hparent : (s.nodes d).parent with
    | none => exact ⟨hd, by simp [hdir]⟩
    | some p => exact (h.stop_parent hd hparent).1
  obtain ⟨k, hclimb⟩ := h.climb follow followLast hup.1
  obtain ⟨toNode, hnode⟩ := h.descend follow followLast hn
  refine ⟨⟨true, down ++ ['.', '.'] :: (List.replicate k ['.', '.'] ++ (toNode ++ []))⟩, rfl, ?_⟩
  rw [resolveSearch, if_pos rfl]
  obtain ⟨log, hlog⟩ := hdown (['.', '.'] :: (List.replicate k ['.', '.'] ++ (toNode ++ []))) fun _ => hdir
  obtain ⟨log', hlog'⟩ := hclimb (toNode ++ [])
  obtain ⟨log'', hlog''⟩ := hnode [] fun hne => absurd rfl hne
  rw [hlog, walkSearch, if_neg (by decide), if_pos rfl]
  rw [hlog', hlog'']
  exact ⟨by simp, rfl⟩

end Walks

/-! ### Search permission -/

/-- Every directory that was searched lets the process do so. -/
def SearchGranted (s : State) (attrs : NodeId → Attr) (cred : Creds) (searched : List NodeId) : Prop :=
  ∀ d ∈ searched, (s.nodes d).type = .dir → vfsCheckPermission cred (attrs d) .search = true

/-- Every `open` of a process that succeeds has searched only directories that it may search. -/
def OpensSearchGranted (s : State) (attrs : NodeId → Attr) (p : OpenProc) : Prop :=
  ∀ (dirfd : Int) (path : Target) (flags : UInt32) (memory : Bool) (fd : Fin maxFiles), hasFlag flags oCreat = false →
    (openCopiedPathAt s attrs p dirfd path flags memory).answer = .ok fd →
      SearchGranted s attrs p.cred (openCopiedPathAt s attrs p dirfd path flags memory).searched

section Open

variable {s : State} {attrs : NodeId → Attr} {p : OpenProc}

/-- The open files are nodes of the tree. -/
def OpenProc.In (p : OpenProc) (s : State) : Prop := ∀ fd n, p.files fd = some n → (s.nodes n).allocated = true

theorem OpenProc.In.file (h : p.In s) {fd : Int} (hfile : p.file fd = some n) : (s.nodes n).allocated = true := by
  unfold OpenProc.file at hfile
  split at hfile
  · exact h _ n hfile
  · cases hfile

theorem TreeOk.lookup_stop (h : TreeOk s) {path : Path} (hlookup : vfsLookup s path = .ok n) : s.Stop n := by
  rw [vfsLookup, vfsResolvePathAt, ← resolveSearch_snd] at hlookup
  obtain ⟨halloc, hlink⟩ := (h.resolve_staysIn 17 none _ true nofun).result n hlookup
  exact ⟨halloc, fun heq => nomatch hlink heq⟩

/-- The nodes that the search for the node of an `open` meets, if it looks up any component. -/
structure Found (s : State) (followLast : Bool) (out : List NodeId × Except (Option OpenError) NodeId) : Prop where
  searched : ∀ d ∈ out.1, (s.nodes d).allocated = true
  result : out.1 ≠ [] → ∀ r, out.2 = .ok r → (s.nodes r).allocated = true ∧ ((s.nodes r).type = .link → followLast = false)
  silent : out.2 = .error none → out.1 = []

theorem Found.of_nil {out : Except (Option OpenError) NodeId} : Found s followLast ([], out) :=
  ⟨nofun, fun hne => absurd rfl hne, fun _ => rfl⟩

theorem TreeOk.resolveAt_found (h : TreeOk s) {start : Option NodeId} (hstart : ∀ q, start = some q → s.Stop q)
    (path : Target) (followLast : Bool) : Found s followLast (resolveAt s start path followLast) := by
  unfold resolveAt
  split
  · exact .of_nil
  have hin := h.resolve_staysIn 17 start path followLast hstart
  generalize resolveSearch s 17 start path followLast = out at hin
  rcases out with ⟨searched, e | r⟩
  · exact ⟨hin.searched, fun _ => nofun, nofun⟩
  · exact ⟨hin.searched, fun _ r' hr => hin.result r' (by cases hr; rfl), nofun⟩

theorem TreeOk.resolveDirfdEx_found (h : TreeOk s) (hp : p.In s) (dirfd : Int) (path : Target) (followLast : Bool)
    (flags : UInt32) : Found s followLast (resolveDirfdEx s p dirfd path followLast flags) := by
  unfold resolveDirfdEx
  split
  · split
    · exact .of_nil
    · split <;> exact .of_nil
  split
  · refine h.resolveAt_found (fun q hq => ?_) path followLast
    cases hq
    exact h.stop_root
  split
  · refine h.resolveAt_found (fun q hq => ?_) path followLast
    cases hlookup : vfsLookup s p.cwd with
    | error e =>
      rw [hlookup] at hq
      cases hq
    | ok d =>
      rw [hlookup] at hq
      cases hq
      exact h.lookup_stop hlookup
  split
  · exact .of_nil
  rename_i n hfile
  split
  · exact .of_nil
  rename_i hdir
  refine h.resolveAt_found (fun q hq => ?_) path followLast
  cases hq
  exact ⟨hp.file hfile, by simp [not_not.mp hdir]⟩

theorem openNode_searched (fd : Fin maxFiles) (flags : UInt32) (memory : Bool) (searched : List NodeId) (node : NodeId) :
    (openNode s attrs p fd flags memory searched node).searched = searched := by
  unfold openNode
  dsimp only
  split_ifs <;> rfl

/-- What is opened is not a link where links are followed, and can be read or written. -/
theorem openNode_ok (h : (openNode s attrs p fd flags memory searched node).answer = .ok fd') :
    (hasFlag flags oNofollow = true → (s.nodes node).type ≠ .link) ∧ Accessible p.cred (attrs node) := by
  unfold openNode at h
  dsimp only at h
  split at h
  · cases h
  rename_i hlink
  split at h
  · cases h
  rename_i hperm
  refine ⟨fun hflag heq => hlink ⟨hflag, heq⟩, vfsCheckPermission_accessible ?_ (by simpa using hperm)⟩
  by_cases hmode : flags &&& 3 = 1 <;> simp [nodeRequiredAccess, hmode]

/-- A successful `open` that has searched something has found a node of the tree that the process can access. -/
theorem TreeOk.open_ok (h : TreeOk s) (hp : p.In s) {dirfd : Int}
    {fd : Fin maxFiles} (hopen : (openCopiedPathAt s attrs p dirfd path flags memory).answer = .ok fd)
    (hd : d ∈ (openCopiedPathAt s attrs p dirfd path flags memory).searched) :
    (s.nodes d).allocated = true ∧ (∃ fd, p.files fd = none) ∧ ∃ n, s.Stop n ∧ Accessible p.cred (attrs n) := by
  have hfound := h.resolveDirfdEx_found hp dirfd path (!hasFlag flags oNofollow) flags
  unfold openCopiedPathAt at hopen hd
  split at hopen
  · cases hopen
  rename_i free hfree
  have hfd : p.files free = none := by simpa using List.find?_some hfree
  rw [hfree] at hd
  generalize resolveDirfdEx s p dirfd path (!hasFlag flags oNofollow) flags = out at hfound hopen hd
  rcases out with ⟨searched, (_ | e) | node⟩
  · obtain rfl : searched = [] := hfound.silent rfl
    cases hd
  · cases hopen
  rw [openNode_searched] at hd
  obtain ⟨hflag, haccess⟩ := openNode_ok hopen
  obtain ⟨halloc, hlink⟩ := hfound.result (List.ne_nil_of_mem hd) node rfl
  refine ⟨hfound.searched d hd, ⟨free, hfd⟩, node, ⟨halloc, fun heq => ?_⟩, haccess⟩
  exact hflag (by simpa using hlink heq) heq

/-- A free descriptor, an absolute path and a node at its end that the process can read or write. -/
theorem open_of_resolve (hfree : ∃ fd, p.files fd = none) (habsolute : path.absolute = true)
    (hresolve : (resolveSearch s 17 (some s.root) path true).2 = .ok n) (haccess : Accessible p.cred (attrs n)) :
    ∃ flags fd, hasFlag flags oCreat = false ∧ (openCopiedPathAt s attrs p atFdcwd path flags true).answer = .ok fd ∧
      (openCopiedPathAt s attrs p atFdcwd path flags true).searched = (resolveSearch s 17 (some s.root) path true).1 := by
  obtain ⟨free, hfree⟩ := hfree
  have hdirfd (flags : UInt32) : resolveDirfdEx s p atFdcwd path true flags =
      ((resolveSearch s 17 (some s.root) path true).1, .ok n) := by
    simp [resolveDirfdEx, resolveAt, habsolute, hresolve, Except.mapError]
  cases hfd : allocFd p with
  | none => exact absurd (List.find?_eq_none.mp hfd free (List.mem_finRange free)) (by simp [hfree])
  | some fd =>
  have hopen {flags : UInt32} (hfollow : hasFlag flags oNofollow = false) (hdirectory : hasFlag flags oDirectory = false)
      (hperm : vfsCheckPermission p.cred (attrs n) (nodeRequiredAccess flags (s.nodes n).type) = true) :
      (openCopiedPathAt s attrs p atFdcwd path flags true).answer = .ok fd ∧
        (openCopiedPathAt s attrs p atFdcwd path flags true).searched =
          (resolveSearch s 17 (some s.root) path true).1 := by
    simp [openCopiedPathAt, hfd, hfollow, hdirfd, openNode, hdirectory, hperm]
  rcases haccess with hread | hwrite
  · refine ⟨0, fd, by decide, hopen (by decide) (by decide) ?_⟩
    cases (s.nodes n).type <;> exact hread
  · refine ⟨1, fd, by decide, hopen (by decide) (by decide) ?_⟩
    cases (s.nodes n).type <;> exact hwrite

end Open

theorem NamedTree.add (h : NamedTree s) {parent : NodeId} {c : Name} (type : NodeType)
    (hparent : (s.nodes parent).allocated = true) (hdir : (s.nodes parent).type = .dir)
    (hfree : s.child parent c = none) (hname : c ≠ ['.'] ∧ c ≠ ['.', '.']) :
    NamedTree (s.add parent (newNode parent c type [] none false) false) := by
  refine ⟨h.toTreeOk.add type [] none false false hparent hdir hfree nofun, fun n m hm => ?_⟩
  have hplaced := h.placed_add type [] none false false hparent hfree
  obtain ⟨hm, hnew⟩ | ⟨-, rfl⟩ := (hplaced.kids n m).mp hm
  · rw [hplaced.old m hnew]
    exact h.named n m hm
  · rw [add_new false (h.ne_nextNode hparent)]
    exact hname

/-- The directory `/d` with the file `/d/f` in it. -/
def secretTree : State :=
  (emptyTree.add 0 (newNode 0 ['d'] .dir [] none false) false).add 1 (newNode 1 ['f'] .file [] none false) false

theorem secretTree_named : NamedTree secretTree := by
  have hroot : NamedTree emptyTree := by
    refine ⟨emptyTree_ok, fun n m hm => ?_⟩
    have hnil : (emptyTree.nodes n).children = [] := by
      unfold emptyTree
      dsimp only
      split <;> rfl
    rw [hnil] at hm
    cases hm
  exact (hroot.add .dir rfl rfl rfl (by decide)).add .file rfl rfl rfl (by decide)

/-- A user with no open file. -/
def plainProc : OpenProc where
  cred := ⟨⟨1000, 1000, 1000⟩, ⟨100, 100, 100⟩⟩
  cwd := []
  files _ := none

theorem plainProc_in (s : State) : plainProc.In s := fun _ _ hfile => nomatch hfile

/-- Everything belongs to root; `/d` has the given permission bits, all others can be read and searched. -/
def dirAttrs (mode : UInt32) (n : NodeId) : Attr := if n = 1 then ⟨mode, 0, 0⟩ else ⟨0o755, 0, 0⟩

end Litenix.Vfs
