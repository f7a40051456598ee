import Litenix.VfsResolve
import Litenix.SearchPermission

/-! Creation and lookup. `vfs_create_file` walks the path with a buffer of its own, takes every component
as a name, and asks the filesystem below a directory to create a regular file whatever the type; the
filesystem's `mkdir` answers that it succeeded even when there is no memory for the node. Where the names
fit the buffer and the type is one the filesystem makes, the path leads to the new node afterwards, and no
other path without symbolic links changes. -/

namespace Litenix.Vfs

/-- Every component fits the buffer. -/
def Short (path : Path) : Prop := ∀ c ∈ path, c.length ≤ 127

instance (path : Path) : Decidable (Short path) := by
  unfold Short
  infer_instance

/-- A path leads to the new node `n` below `d`; what other paths led to they still lead to, and paths without
symbolic links lead nowhere else. -/
structure CreatedAt (s s' : State) (path : Path) (type : NodeType) (d n : NodeId) : Prop where
  found : vfsResolvePathAt s' path false = .ok n
  followed : type ≠ .link → vfsLookup s' path = .ok n
  hasType : (s'.nodes n).type = type
  name : path.getLast? = some (s'.nodes n).name
  parent : (s'.nodes n).parent = some d
  kept : ∀ q followLast m, vfsResolvePathAt s q followLast = .ok m → vfsResolvePathAt s' q followLast = .ok m
  others : ∀ q, Canonical q → Short q → q ≠ path → MeetsNoLink idleWorld s s.root q →
    (type = .link → ¬path <+: q) → ∀ followLast m, vfsResolvePathAt s' q followLast = .ok m → vfsResolvePathAt s q followLast = .ok m

/-! ### Walks -/

section

variable {s s' : State} {cur d m n : NodeId} {c base : Name} {cs ps : List Name} {path : Path} {more followLast : Bool}
  {f : Option NodeId → Target → Except Errno NodeId}

theorem pieces_of_short (h : Short path) : pieces path = path := by
  induction path with
  | nil => rfl
  | cons c path ih =>
    rw [pieces_cons, chunks_of_short (h c List.mem_cons_self), ih fun d hd => h d (List.mem_cons_of_mem c hd)]
    rfl

theorem walk_of_plain (h : walkPlain s more cur cs = some n) : walk s f followLast more cur cs = .ok n := by
  refine walkPlain_rule (motive := fun cur cs => walk s f followLast more cur cs = .ok n) rfl
    (fun ih => ih) (fun ih => ih) (fun {cur c cs found} hdot hdots hchild htype ih => ?_) h
  rw [walk, if_neg hdot, if_neg hdots, hchild]
  dsimp only
  rw [if_neg (by rcases htype with hdir | ⟨-, -, hlink⟩ <;> simp_all),
    if_neg (by rcases htype with hdir | ⟨hnil, hmore, -⟩ <;> simp_all)]
  exact ih

theorem Tree.walkPlain_injective (h : Tree s) {xs ys : Path} (hxs : Canonical xs) (hys : Canonical ys)
    (hx : walkPlain s true s.root xs = some d) (hy : walkPlain s true s.root ys = some d) : xs = ys := by
  have hlast {zs : Path} {c : Name} {d : NodeId} (hzs : Canonical (zs ++ [c]))
      (hz : walkPlain s true s.root (zs ++ [c]) = some d) :
      ∃ p, walkPlain s true s.root zs = some p ∧ (s.nodes d).parent = some p ∧ (s.nodes d).name = c := by
    obtain ⟨-, -, hdot, hdots⟩ := hzs c (by simp)
    obtain ⟨p, hp, hc⟩ := walkPlain_append.mp hz
    refine ⟨p, hp, h.parent_of_walk hdot hdots hc, ?_⟩
    obtain ⟨found, hchild, -, hrest⟩ := (walkPlain_cons hdot hdots).mp hc
    cases hrest
    exact (Tree.child_mem hchild).2
  induction xs using List.reverseRecOn generalizing ys d with
  | nil =>
    rcases List.eq_nil_or_concat' ys with rfl | ⟨zs, c, rfl⟩
    · rfl
    cases hx
    obtain ⟨p, -, hparent, -⟩ := hlast hys hy
    rw [h.root.2.2] at hparent
    cases hparent
  | append_singleton xs c ih =>
  obtain ⟨p, hp, hparent, hname⟩ := hlast hxs hx
  rcases List.eq_nil_or_concat' ys with rfl | ⟨zs, c', rfl⟩
  · cases hy
    rw [h.root.2.2] at hparent
    cases hparent
  · obtain ⟨p', hp', hparent', hname'⟩ := hlast hys hy
    obtain rfl : p = p' := Option.some.inj (hparent.symm.trans hparent')
    rw [ih (fun d hd => hxs d (by simp [hd])) (fun d hd => hys d (by simp [hd])) hp hp', ← hname, hname']

theorem Grows.walkPlain (hgrows : Grows s s') (h : Tree s) (hcur : (s.nodes cur).allocated = true)
    (hwalk : walkPlain s more cur cs = some n) :
    Vfs.walkPlain s' more cur cs = some n ∧ (s.nodes n).allocated = true := by
  induction cs generalizing cur with
  | nil =>
    cases hwalk
    exact ⟨rfl, hcur⟩
  | cons c cs ih =>
  by_cases hdot : c = ['.']
  · rw [Vfs.walkPlain, if_pos hdot] at hwalk ⊢
    exact ih hcur hwalk
  by_cases hdots : c = ['.', '.']
  · rw [Vfs.walkPlain, if_neg hdot, if_pos hdots] at hwalk ⊢
    rw [(hgrows.node cur hcur).2.1]
    refine ih ?_ hwalk
    cases hp : (s.nodes cur).parent with
    | none => exact hcur
    | some p => exact (h.parent_allocated hcur hp).2
  · rw [walkPlain_cons hdot hdots] at hwalk ⊢
    obtain ⟨found, hchild, htype, hrest⟩ := hwalk
    have hfound := (h.child cur found (Tree.child_mem hchild).1).2.1
    obtain ⟨hwalk', hn⟩ := ih hfound hrest
    refine ⟨⟨found, hgrows.child cur c found hcur hchild, ?_, hwalk'⟩, hn⟩
    rw [(hgrows.node found hfound).2.2.1]
    exact htype

theorem Grows.joint (hgrows : Grows s s') (h : Tree s) :
    Joint (fun n => (s.nodes n).allocated = true) s s s' where
  root := ⟨rfl, hgrows.root, h.root.1⟩
  child n c a b hn ha hb := by
    rw [ha] at hb
    cases hb
    exact ⟨rfl, hgrows.child n c a hn ha, (h.child n a (Tree.child_mem ha).1).2.1⟩
  parent n p hn hp := (h.parent_allocated hn hp).2
  same n hn := ⟨rfl, (hgrows.node n hn).2.1⟩
  type n hn := ⟨rfl, (hgrows.node n hn).2.2.1⟩
  target n hn := ⟨rfl, (hgrows.node n hn).2.2.2⟩

theorem findChild_idle (s : State) (cur : NodeId) (c : Name) : findChild idleWorld s cur c = (s, s.child cur c) := by
  unfold findChild
  cases s.child cur c with
  | some found => rfl
  | none =>
    rw [if_neg]
    rintro ⟨-, -, hprocess⟩
    cases hpid : pidOf c <;> simp [hpid, idleWorld] at hprocess

end

/-! ### One new node -/

/-- The names of a path fit the buffer, the components before the last lead to the directory `d`, and the last
one is free there. -/
structure FreeAt (s : State) (ps : Path) (base : Name) (d : NodeId) : Prop where
  canonical : Canonical (ps ++ [base])
  short : Short (ps ++ [base])
  dir : walkPlain s true s.root ps = some d
  free : s.child d base = none

section Added

variable {s : State} {cur d m : NodeId} {base : Name} {ps before rest : Path} {type : NodeType} {data : List UInt8}
  {target : Option Target} {hooks atHead followLast : Bool} {f f' : Option NodeId → Target → Except Errno NodeId}

section

variable (hat : FreeAt s ps base d) (h : Tree s)

include hat h

theorem FreeAt.allocated : (s.nodes d).allocated = true :=
  ((Grows.refl s).walkPlain h h.root.1 hat.dir).2

/-- A path that differs from the new one does not end at the new node, and goes no further behind it. -/
theorem FreeAt.walk_add (hcanonical : Canonical (before ++ rest))
    (hne : before ++ rest ≠ ps ++ [base]) (hbelow : type = .link → ¬ps ++ [base] <+: before ++ rest)
    (hbefore : walkPlain s true s.root before = some cur) (hlinks : MeetsNoLink idleWorld s cur rest)
    (hwalk : walk (s.add d (newNode d base type data target hooks) atHead) f' followLast false cur rest = .ok m) :
    walk s f followLast false cur rest = .ok m := by
  induction rest generalizing before cur with
  | nil => exact hwalk
  | cons c rest ih =>
  obtain ⟨-, -, hdot, hdots⟩ := hcanonical c (by simp)
  have hd := hat.allocated h
  have hcur : (s.nodes cur).allocated = true := ((Grows.refl s).walkPlain h h.root.1 hbefore).2
  rw [walk, if_neg hdot, if_neg hdots,
    h.child_add type data target hooks atHead hd hat.free] at hwalk
  rw [walk, if_neg hdot, if_neg hdots]
  rw [MeetsNoLink, if_neg hdot, if_neg hdots, findChild_idle] at hlinks
  by_cases hnew : cur = d ∧ c = base
  · -- the names before are those of the path, so something follows the new node
    obtain ⟨rfl, rfl⟩ := hnew
    obtain rfl : before = ps := h.walkPlain_injective (fun x hx => hcanonical x (by simp [hx]))
      (fun x hx => hat.canonical x (by simp [hx])) hbefore hat.dir
    obtain ⟨c', rest, rfl⟩ := List.exists_cons_of_ne_nil fun hnil : rest = [] => hne (by rw [hnil])
    obtain ⟨-, -, hdot', hdots'⟩ := hcanonical c' (by simp)
    have hnode := add_new atHead (h.ne_nextNode hd) (newNode cur c type data target hooks)
    have hchild : (s.add cur (newNode cur c type data target hooks) atHead).child s.nextNode c' = none := by
      rw [State.child, hnode]
      rfl
    have hlink : type ≠ .link := fun htype => hbelow htype ⟨c' :: rest, by simp⟩
    rw [if_pos ⟨rfl, rfl⟩] at hwalk
    dsimp only at hwalk
    rw [hnode, show (newNode cur c type data target hooks).type = type from rfl, if_neg hlink] at hwalk
    split at hwalk
    · cases hwalk
    · rw [walk, if_neg hdot', if_neg hdots', hchild] at hwalk
      cases hwalk
  rw [if_neg hnew] at hwalk
  cases hchild : s.child cur c with
  | none =>
    rw [hchild] at hwalk
    cases hwalk
  | some found =>
  rw [hchild] at hwalk hlinks
  dsimp only at hwalk hlinks ⊢
  have hfound := (h.child cur found (Tree.child_mem hchild).1).2.1
  simp only [add_old atHead (h.ne_nextNode hd) _ (h.ne_nextNode hfound), if_neg hlinks.1] at hwalk
  rw [if_neg hlinks.1]
  split at hwalk
  · cases hwalk
  rename_i htype
  rw [if_neg htype]
  cases rest with
  | nil => exact hwalk
  | cons c' rest =>
    have hdir : (s.nodes found).type = .dir := not_not.mp fun hne => htype ⟨rfl, hne⟩
    have hcanonical' : Canonical ((before ++ [c]) ++ c' :: rest) := by simpa using hcanonical
    refine ih hcanonical' ?_ ?_ ?_ hlinks.2 hwalk
    · simpa using hne
    · simpa using hbelow
    · rw [walkPlain_append]
      exact ⟨cur, hbefore, (walkPlain_cons hdot hdots).mpr ⟨found, hchild, .inl hdir, rfl⟩⟩

/-- **The new node.** -/
theorem FreeAt.createdAt :
    CreatedAt s (s.add d (newNode d base type data target hooks) atHead) (ps ++ [base]) type d s.nextNode := by
  have hd := hat.allocated h
  have hnode := add_new atHead (h.ne_nextNode hd) (newNode d base type data target hooks)
  have hgrows := h.grows_add type data target hooks atHead hd hat.free
  have hchild := h.child_add type data target hooks atHead hd hat.free (x := d) base
  rw [if_pos ⟨rfl, rfl⟩] at hchild
  have hdir := (hgrows.walkPlain h h.root.1 hat.dir).1
  obtain ⟨-, -, hdot, hdots⟩ := hat.canonical base (by simp)
  have hbase : base.length < 128 := Nat.lt_succ_of_le (hat.short base (by simp))
  have hps : pieces ps = ps := pieces_of_short fun c hc => hat.short c (by simp [hc])
  refine ⟨?_, fun hlink => ?_, by rw [hnode]; rfl, by rw [hnode]; simp [newNode], by rw [hnode]; rfl, ?_, ?_⟩
  · refine (resolve_concat hbase hdot hdots).mpr ⟨d, ?_, hchild⟩
    rw [resolveDir, hps]
    exact walk_of_plain hdir
  · refine walk_of_plain ?_
    rw [pieces_of_short hat.short, walkPlain_append]
    refine ⟨d, hdir, (walkPlain_cons hdot hdots).mpr ⟨s.nextNode, hchild, .inr ⟨rfl, rfl, ?_⟩, rfl⟩⟩
    rw [hnode]
    exact hlink
  · exact fun q followLast m hm => ((hgrows.joint h).resolveAt hm hm).2.1
  intro q hcanonical hshort hne hlinks hbelow followLast m hm
  unfold vfsResolvePathAt at hm ⊢
  rw [pieces_of_short hshort, vfsResolvePathRec] at hm ⊢
  exact hat.walk_add h (show Canonical ([] ++ q) from hcanonical) hne hbelow rfl hlinks hm

end

end Added

/-! ### The loop of `vfs_create_file` -/

section Loop

variable {s s' : State} {env : Env} {cur d n : NodeId} {c base : Name} {ps cs : List Name} {path : Path}
  {type : NodeType} {data : List UInt8} {target : Option Target}

/-- The loop goes down to the directory of the path. -/
theorem createLoop_append (env : Env) (type : NodeType) (data : List UInt8) (target : Option Target)
    (hps : ∀ c ∈ ps, c ≠ ['.'] ∧ c ≠ ['.', '.']) (hwalk : walkPlain s true cur ps = some d) (hcs : cs ≠ []) :
    createLoop env type data target s cur (ps ++ cs) = createLoop env type data target s d cs := by
  induction ps generalizing cur with
  | nil =>
    cases hwalk
    rfl
  | cons c ps ih =>
    obtain ⟨hdot, hdots⟩ := hps c List.mem_cons_self
    obtain ⟨found, hchild, hdir | ⟨-, hmore, -⟩, hrest⟩ := (walkPlain_cons hdot hdots).mp hwalk
    · rw [List.cons_append, createLoop, hchild]
      dsimp only
      rw [if_neg (by simp [hcs]), if_neg (by simp [hdir])]
      exact ih (fun x hx => hps x (List.mem_cons_of_mem c hx)) hrest
    · cases hmore

/-- The type of the node that is created: the filesystem below makes regular files. -/
def createdType (s : State) (d : NodeId) (type : NodeType) : NodeType :=
  if type ≠ .link ∧ (s.nodes d).hooks then .file else type

theorem createLoop_last (hfree : s.child d base = none)
    (hcreate : createLoop env type data target s d [base] = (s', some n)) :
    n = s.nextNode ∧ ∃ data target atHead,
      s' = s.add d (newNode d base (createdType s d type) data target false) atHead := by
  rw [createLoop, hfree] at hcreate
  unfold createdType
  dsimp only at hcreate
  split at hcreate
  · rename_i hbelow
    rw [if_pos hbelow.2]
    split at hcreate
    · cases (Prod.mk.inj hcreate).2
    split at hcreate
    · obtain ⟨rfl, hn⟩ := Prod.mk.inj hcreate
      exact ⟨(Option.some.inj hn).symm, [], none, true, rfl⟩
    · cases (Prod.mk.inj hcreate).2
  rename_i hbelow
  rw [if_neg fun hhooks => hbelow ⟨rfl, hhooks⟩]
  split at hcreate
  · cases (Prod.mk.inj hcreate).2
  rw [if_pos rfl] at hcreate
  split at hcreate
  · cases (Prod.mk.inj hcreate).2
  · obtain ⟨rfl, hn⟩ := Prod.mk.inj hcreate
    exact ⟨(Option.some.inj hn).symm, data, target, false, rfl⟩

theorem FreeAt.vfsCreateFile (hat : FreeAt s ps base d) (h : Tree s)
    (hcreate : vfsCreateFile s env (ps ++ [base]) type data target = (s', some n)) :
    CreatedAt s s' (ps ++ [base]) (createdType s d type) d n := by
  have hnames : ∀ c ∈ ps, c ≠ ['.'] ∧ c ≠ ['.', '.'] := fun c hc => (hat.canonical c (by simp [hc])).2.2
  rw [Vfs.vfsCreateFile, pieces_of_short hat.short,
    createLoop_append env type data target hnames hat.dir (List.cons_ne_nil base [])] at hcreate
  obtain ⟨rfl, data, target, atHead, rfl⟩ := createLoop_last hat.free hcreate
  exact hat.createdAt h

theorem createLoop_missing (hfree : s.child cur c = none) (hcs : cs ≠ [])
    (hcreate : createLoop env type data target s cur (c :: cs) = (s', some n)) :
    createLoop env type data target (s.add cur (newNode cur c .dir [] none false) false) s.nextNode cs =
      (s', some n) := by
  rw [createLoop, hfree] at hcreate
  dsimp only at hcreate
  rw [if_neg (by simp [hcs])] at hcreate
  split at hcreate
  · cases (Prod.mk.inj hcreate).2
  · simpa only [if_neg hcs] using hcreate

/-- The name of the node that the loop returns is the last one that it reads. -/
theorem Tree.createLoop_name (h : Tree s) (hcur : (s.nodes cur).allocated = true) (hcs : cs ≠ [])
    (hcreate : createLoop env type data target s cur cs = (s', some n)) : cs.getLast? = some (s'.nodes n).name := by
  induction cs generalizing s cur with
  | nil => exact absurd rfl hcs
  | cons c cs ih =>
  cases hchild : s.child cur c with
  | some found =>
    have hfound : (s.nodes found).allocated = true := (h.child cur found (Tree.child_mem hchild).1).2.1
    rw [createLoop, hchild] at hcreate
    dsimp only at hcreate
    by_cases hlast : cs = []
    · rw [if_pos hlast] at hcreate
      obtain ⟨rfl, hn⟩ := Prod.mk.inj hcreate
      cases hn
      rw [hlast, (Tree.child_mem hchild).2]
      rfl
    rw [if_neg hlast] at hcreate
    rw [List.getLast?_cons_of_ne_nil hlast]
    split at hcreate
    · split at hcreate
      · cases (Prod.mk.inj hcreate).2
      split at hcreate
      · cases (Prod.mk.inj hcreate).2
      · rename_i hresolve
        exact ih h (h.resolve_allocated hcur hresolve) hlast hcreate
    · exact ih h hfound hlast hcreate
  | none =>
  by_cases hlast : cs = []
  · subst hlast
    obtain ⟨rfl, data, target, atHead, rfl⟩ := createLoop_last hchild hcreate
    rw [add_new atHead (h.ne_nextNode hcur)]
    rfl
  · have hnew := congrArg Node.allocated (add_new false (h.ne_nextNode hcur) (newNode cur c .dir [] none false))
    rw [List.getLast?_cons_of_ne_nil hlast]
    exact ih (h.add .dir [] none false false hcur hchild) hnew hlast (createLoop_missing hchild hlast hcreate)

/-- Behind a missing name all nodes are new. -/
theorem Tree.createLoop_fresh (h : Tree s) (hcur : (s.nodes cur).allocated = true) (hfree : s.child cur c = none)
    (hcs : cs ≠ []) (hcreate : createLoop env type data target s cur (c :: cs) = (s', some n)) :
    ∃ p, (s'.nodes n).parent = some p ∧ s.nextNode ≤ p := by
  induction cs generalizing s cur c with
  | nil => exact absurd rfl hcs
  | cons c' cs ih =>
  have hcreate := createLoop_missing hfree hcs hcreate
  have htree := h.add .dir [] none false false hcur hfree
  have hnode := add_new false (h.ne_nextNode hcur) (newNode cur c .dir [] none false)
  have hnew := congrArg Node.allocated hnode
  have hempty : (s.add cur (newNode cur c .dir [] none false) false).child s.nextNode c' = none := by
    rw [State.child, hnode]
    rfl
  by_cases hlast : cs = []
  · subst hlast
    obtain ⟨rfl, data, target, atHead, rfl⟩ := createLoop_last hempty hcreate
    rw [add_new atHead (htree.ne_nextNode hnew)]
    exact ⟨s.nextNode, rfl, Nat.le_refl _⟩
  · obtain ⟨p, hp, hle⟩ := ih htree hnew hempty hlast hcreate
    exact ⟨p, hp, Nat.le_of_succ_le hle⟩

end Loop

/-! ### Long names -/

theorem mem_chunks (hfuel : c.length ≤ fuel) (hx : x ∈ chunks fuel c) :
    x.length ≤ 127 ∧ (c ≠ [] → x ≠ []) ∧ x ⊆ c := by
  induction fuel generalizing c with
  | zero =>
    obtain rfl := List.mem_singleton.mp hx
    exact ⟨by omega, id, List.Subset.refl x⟩
  | succ fuel ih =>
  rw [chunks] at hx
  split at hx
  · rename_i hshort
    obtain rfl := List.mem_singleton.mp hx
    exact ⟨hshort, id, List.Subset.refl x⟩
  rcases List.mem_cons.mp hx with rfl | hx
  · exact ⟨by simp, fun hne => by simpa using hne, List.take_subset 127 c⟩
  · obtain ⟨hlength, hne, hsub⟩ := ih (by simp; omega) hx
    exact ⟨hlength, fun _ => hne (by simp; omega), List.Subset.trans hsub (List.drop_subset 127 c)⟩

theorem short_pieces (path : Path) : Short (pieces path) := by
  intro x hx
  obtain ⟨c, -, hx⟩ := List.mem_flatMap.mp hx
  exact (mem_chunks (Nat.le_refl _) hx).1

theorem Canonical.pieces (h : Canonical path)
    (hdots : ∀ x ∈ pieces path, x ≠ ['.'] ∧ x ≠ ['.', '.']) : Canonical (pieces path) := by
  intro x hx
  obtain ⟨c, hc, hxc⟩ := List.mem_flatMap.mp hx
  obtain ⟨-, hne, hsub⟩ := mem_chunks (Nat.le_refl _) hxc
  exact ⟨hne (h c hc).1, fun hslash => (h c hc).2.1 (hsub hslash), hdots x hx⟩

section Necessary

variable {s s' : State} {env : Env} {cur d n : NodeId} {base : Name} {xs ys : List Name} {ps : Path}
  {type : NodeType} {data : List UInt8} {target : Option Target}

theorem meetsNoLink_append (hwalk : walkPlain s true cur xs = some d) (hrest : MeetsNoLink idleWorld s d ys) :
    MeetsNoLink idleWorld s cur (xs ++ ys) := by
  refine walkPlain_rule (motive := fun cur xs => MeetsNoLink idleWorld s cur (xs ++ ys)) hrest
    (fun ih => ih) (fun ih => ih) (fun hdot hdots hchild htype ih => ?_) hwalk
  rw [List.cons_append, MeetsNoLink, if_neg hdot, if_neg hdots, findChild_idle, hchild]
  exact ⟨by rcases htype with hdir | ⟨-, hmore, -⟩ <;> simp_all, ih⟩

theorem child_eq_none (hcanonical : Canonical (ps ++ [base])) (hbase : base.length ≤ 127)
    (hdir : walkPlain s true s.root (pieces ps) = some d)
    (hnew : ∀ m, vfsResolvePathAt s (ps ++ [base]) false ≠ .ok m) : s.child d base = none := by
  obtain ⟨-, -, hdot, hdots⟩ := hcanonical base (by simp)
  cases hchild : s.child d base with
  | none => rfl
  | some m =>
    refine absurd ?_ (hnew m)
    exact (resolve_concat (Nat.lt_succ_of_le hbase) hdot hdots).mpr ⟨d, walk_of_plain hdir, hchild⟩

/-- A component that is read in pieces one of which is `.` or `..` is created as a directory of that name. -/
theorem NamedTree.parent_of_dots (h : NamedTree s) (hbefore : ∀ x ∈ xs, x ≠ ['.'] ∧ x ≠ ['.', '.'])
    (hwalk : walkPlain s true s.root xs = some cur) {x : Name} (hx : x = ['.'] ∨ x = ['.', '.']) (hys : ys ≠ [])
    (hcreate : createLoop env type data target s s.root (xs ++ x :: ys) = (s', some n)) :
    ∃ p, (s'.nodes n).parent = some p ∧ s.nextNode ≤ p := by
  rw [createLoop_append env type data target hbefore hwalk (List.cons_ne_nil x ys)] at hcreate
  have hcur := ((Grows.refl s).walkPlain h.toTree h.root.1 hwalk).2
  have hfree : s.child cur x = none := by
    cases hchild : s.child cur x with
    | none => rfl
    | some m =>
      obtain ⟨hmem, hname⟩ := Tree.child_mem hchild
      have hnamed := h.named cur m hmem
      rw [hname] at hnamed
      rcases hx with hx | hx
      · exact absurd hx hnamed.1
      · exact absurd hx hnamed.2
  exact h.toTree.createLoop_fresh hcur hfree hys hcreate

theorem exists_first_dots (h : ¬∀ x ∈ xs, x ≠ ['.'] ∧ x ≠ ['.', '.']) :
    ∃ before x after, xs = before ++ x :: after ∧ (∀ y ∈ before, y ≠ ['.'] ∧ y ≠ ['.', '.']) ∧
      (x = ['.'] ∨ x = ['.', '.']) := by
  induction xs with
  | nil => simp at h
  | cons c xs ih =>
  by_cases hc : c = ['.'] ∨ c = ['.', '.']
  · exact ⟨[], c, xs, rfl, by simp, hc⟩
  rw [not_or] at hc
  obtain ⟨before, x, after, rfl, hbefore, hx⟩ := ih fun hall => h fun y hy => by
    rcases List.mem_cons.mp hy with rfl | hy
    · exact hc
    · exact hall y hy
  refine ⟨c :: before, x, after, rfl, fun y hy => ?_, hx⟩
  rcases List.mem_cons.mp hy with rfl | hy
  · exact hc
  · exact hbefore y hy

theorem NamedTree.short_of_createdAt (h : NamedTree s) (hcanonical : Canonical (ps ++ [base]))
    (hdir : walkPlain s true s.root (pieces ps) = some d)
    (hnew : ∀ m, vfsResolvePathAt s (ps ++ [base]) false ≠ .ok m)
    (hcreate : vfsCreateFile s env (ps ++ [base]) type data target = (s', some n))
    (hcreated : CreatedAt s s' (ps ++ [base]) type d n) : Short (ps ++ [base]) := by
  have hpieces : pieces (ps ++ [base]) ≠ [] := by
    rw [pieces_append, pieces_cons]
    simp [chunks_ne_nil]
  have hname := h.toTree.createLoop_name h.root.1 hpieces hcreate
  rw [← hcreated.name, List.getLast?_concat] at hname
  have hbase : base.length ≤ 127 := short_pieces _ base (List.mem_of_getLast? hname)
  have hfree := child_eq_none hcanonical hbase hdir hnew
  rw [Vfs.vfsCreateFile, pieces_concat (Nat.lt_succ_of_le hbase)] at hcreate
  by_contra hlong
  have hsame {q : Path} (hq : ∀ c ∈ ps ++ [base], c ∈ q) (hshort : Short q) : False :=
    hlong fun c hc => hshort c (hq c hc)
  by_cases hdots : ∀ x ∈ pieces ps, x ≠ ['.'] ∧ x ≠ ['.', '.']
  · -- the pieces are another path to the new node
    have hq : pieces (ps ++ [base]) = pieces ps ++ [base] := pieces_concat (Nat.lt_succ_of_le hbase)
    have hshort := short_pieces (ps ++ [base])
    have hqcanonical : Canonical (pieces (ps ++ [base])) := by
      refine hcanonical.pieces fun x hx => ?_
      rw [hq] at hx
      rcases List.mem_append.mp hx with hx | hx
      · exact hdots x hx
      · obtain rfl := List.mem_singleton.mp hx
        exact (hcanonical x (by simp)).2.2
    have hresolve (t : State) : vfsResolvePathAt t (pieces (ps ++ [base])) false =
        vfsResolvePathAt t (ps ++ [base]) false := by
      unfold vfsResolvePathAt
      rw [pieces_of_short hshort]
    have hlinks : MeetsNoLink idleWorld s s.root (pieces (ps ++ [base])) := by
      rw [hq]
      refine meetsNoLink_append hdir ?_
      rw [MeetsNoLink, if_neg (hcanonical base (by simp)).2.2.1, if_neg (hcanonical base (by simp)).2.2.2,
        findChild_idle, hfree]
      trivial
    refine hnew n ((hresolve s).symm.trans (hcreated.others _ hqcanonical hshort ?_ hlinks ?_ false n
      ((hresolve s').trans hcreated.found)))
    · exact fun heq => hsame (fun c hc => by rwa [heq]) hshort
    · exact fun _ hbelow => hsame (fun c hc => hbelow.subset hc) hshort
  obtain ⟨before, x, after, hsplit, hbefore, hx⟩ := exists_first_dots hdots
  have hd := h.bound d ((Grows.refl s).walkPlain h.toTree h.root.1 hdir).2
  rw [hsplit, List.append_assoc, List.cons_append] at hcreate
  rw [hsplit, walkPlain_append] at hdir
  obtain ⟨cur, hcur, hrest⟩ := hdir
  obtain ⟨p, hp, hle⟩ := h.parent_of_dots hbefore hcur hx (by simp) hcreate
  obtain rfl : d = p := Option.some.inj (hcreated.parent.symm.trans hp)
  exact absurd hd (Nat.not_lt.mpr hle)

end Necessary

/-! ### The calls -/

section Calls

variable {s s' : State} {env : Env} {d n : NodeId} {base : Name} {ps : Path} {type : NodeType}

/-- The filesystem below the directory, if there is one, makes nodes of this type for `vfs_create_file`. -/
def MakesType (s : State) (d : NodeId) (type : NodeType) : Prop :=
  (s.nodes d).hooks = true → type = .file ∨ type = .link

theorem makesType_iff : MakesType s d type ↔ createdType s d type = type := by
  unfold MakesType createdType
  cases (s.nodes d).hooks <;> cases type <;> simp

theorem freeAt_of_short (hcanonical : Canonical (ps ++ [base])) (hshort : Short (ps ++ [base]))
    (hdir : walkPlain s true s.root (pieces ps) = some d)
    (hnew : ∀ m, vfsResolvePathAt s (ps ++ [base]) false ≠ .ok m) : FreeAt s ps base d where
  canonical := hcanonical
  short := hshort
  dir := by rwa [pieces_of_short fun c hc => hshort c (by simp [hc])] at hdir
  free := child_eq_none hcanonical (hshort base (by simp)) hdir hnew

/-- `find_parent_of` holds 511 characters of the directory's path. -/
theorem FreeAt.findParentOf (hat : FreeAt s ps base d) :
    findParentOf s (ps ++ [base]) = if textLength ps < 512 then some (d, base) else none := by
  have hbase := hat.short base (by simp)
  unfold Vfs.findParentOf
  rw [List.getLast?_concat, List.dropLast_concat]
  dsimp only
  rw [if_neg (by omega)]
  by_cases hps : ps = []
  · subst hps
    obtain rfl := Option.some.inj hat.dir
    rfl
  rw [if_neg hps]
  by_cases htext : textLength ps < 512
  · have hlookup : vfsLookup s ps = .ok d := by
      refine walk_of_plain ?_
      rw [pieces_of_short fun c hc => hat.short c (by simp [hc])]
      exact walkPlain_of_more hat.dir
    rw [if_neg (Nat.not_le.mpr htext), if_pos htext, hlookup]
  · rw [if_pos (Nat.not_lt.mp htext), if_neg htext]

theorem CreatedAt.type_eq {type' : NodeType} {d' n' : NodeId} (h : CreatedAt s s' path type d n)
    (h' : CreatedAt s s' path type' d' n') : type = type' := by
  obtain rfl : n = n' := Except.ok.inj (h.found.symm.trans h'.found)
  exact h.hasType.symm.trans h'.hasType

/-- `vfs_mkdir` where the filesystem below is not asked. -/
theorem FreeAt.mkdir_created (hat : FreeAt s ps base d) (h : Tree s)
    (hmkdir : (match Vfs.vfsCreateFile s env (ps ++ [base]) .dir [] none with
      | (s, some _) => ((s, .ok ()) : State × Except Errno Unit)
      | (s, none) => (s, .error .nomem)) = (s', .ok ())) :
    (∃ n, CreatedAt s s' (ps ++ [base]) .dir d n) ↔ (s.nodes d).hooks = false := by
  rcases hcreate : Vfs.vfsCreateFile s env (ps ++ [base]) .dir [] none with ⟨s₁, _ | n⟩
  · rw [hcreate] at hmkdir
    cases (Prod.mk.inj hmkdir).2
  rw [hcreate] at hmkdir
  obtain ⟨rfl, -⟩ := Prod.mk.inj hmkdir
  have hcreated := hat.vfsCreateFile h hcreate
  constructor
  · rintro ⟨n', hn'⟩
    have htype := hcreated.type_eq hn'
    rw [← makesType_iff, MakesType] at htype
    simpa using htype
  · intro hhooks
    have htype : createdType s d .dir = .dir := makesType_iff.mp (by simp [MakesType, hhooks])
    exact ⟨n, htype ▸ hcreated⟩

theorem FreeAt.vfsMkdir (hat : FreeAt s ps base d) (h : Tree s)
    (hnew : ∀ m, vfsResolvePathAt s (ps ++ [base]) false ≠ .ok m)
    (hmkdir : Vfs.vfsMkdir s env (ps ++ [base]) = (s', .ok ())) :
    (∃ n, CreatedAt s s' (ps ++ [base]) .dir d n) ↔
      ((s.nodes d).hooks = true → textLength ps < 512 ∧ env.alloc s.nextNode = true) := by
  unfold Vfs.vfsMkdir at hmkdir
  cases hresolve : vfsResolvePathAt s (ps ++ [base]) false with
  | ok m => exact absurd hresolve (hnew m)
  | error e =>
  rw [hresolve, hat.findParentOf] at hmkdir
  by_cases htext : textLength ps < 512
  · rw [if_pos htext] at hmkdir
    dsimp only at hmkdir
    by_cases hhooks : (s.nodes d).hooks = true
    · rw [if_pos hhooks] at hmkdir
      split at hmkdir
      · cases (Prod.mk.inj hmkdir).2
      split at hmkdir
      · rename_i halloc
        obtain ⟨rfl, -⟩ := Prod.mk.inj hmkdir
        exact ⟨fun _ _ => ⟨htext, halloc⟩, fun _ => ⟨s.nextNode, hat.createdAt h⟩⟩
      -- the directory is on the disk, and there is no node for it
      rename_i halloc
      obtain ⟨rfl, -⟩ := Prod.mk.inj hmkdir
      exact ⟨fun ⟨n, hn⟩ => absurd hn.found (hnew n), fun hcond => absurd (hcond hhooks).2 halloc⟩
    · rw [if_neg hhooks] at hmkdir
      rw [hat.mkdir_created h hmkdir]
      simp [hhooks]
  · rw [if_neg htext] at hmkdir
    rw [hat.mkdir_created h hmkdir]
    simp [htext]

end Calls

end Litenix.Vfs
