import Litenix.VfsTree

/-! Renaming as a whole. `vfs_rename` removes the node at the new path before it looks for the node at
the old one, so it is all or nothing only where the rest of the call succeeds without the removed node;
and the moved node is found at its new place only where the directory of the new path is found without
the moved node. -/

namespace Litenix.Vfs

variable {s s' t : State} {d m n oldParent newParent parent : NodeId} {base oldBase newBase : Name} {env : Env}
  {old new ps : Path}

/-! ### What a rename should do -/

/-- A node is below the root along the lists of children. -/
inductive Attached (s : State) : NodeId → Prop
  | root : Attached s s.root
  | child {n m : NodeId} : m ∈ (s.nodes n).children → Attached s n → Attached s m

/-- A node keeps its contents. -/
def SameContents (s s' : State) (n : NodeId) : Prop :=
  (s'.nodes n).type = (s.nodes n).type ∧ (s'.nodes n).data = (s.nodes n).data ∧
    (s'.nodes n).target = (s.nodes n).target

structure Renamed (s s' : State) (old new : Path) : Prop where
  same : old = new → s' = s
  moved : old ≠ new → ∃ n, vfsResolvePathAt s old false = .ok n ∧ vfsResolvePathAt s' new false = .ok n ∧
    vfsResolvePathAt s' old false ≠ .ok n ∧ SameContents s s' n
  kept : ∀ m, (s.nodes m).allocated = true → vfsResolvePathAt s new false ≠ .ok m →
    (s'.nodes m).allocated = true ∧ Attached s' m ∧ SameContents s s' m

/-- A failed rename changes nothing, and a successful one moves the node. -/
def RenameAtomic (s : State) (env : Env) (old new : Path) : Prop :=
  match vfsRename s env old new with
  | (s', .error _) => s' = s
  | (s', .ok ()) => Renamed s s' old new

/-! ### When it does -/

/-- The directory of the new path is found without the node at the old one. -/
def Apart (s : State) (old new : Path) : Prop :=
  match findParentOf s old, findParentOf s new with
  | some (oldParent, oldBase), some (newParent, _) =>
    match s.child oldParent oldBase with
    | some n => resolveDir (s.detach oldParent n) new.dropLast = .ok newParent
    | none => True
  | _, _ => True

instance : Decidable (Apart s old new) :=
  match hold : findParentOf s old, hnew : findParentOf s new with
  | some (oldParent, oldBase), some (newParent, _) =>
    match hn : s.child oldParent oldBase with
    | some n => decidable_of_iff (resolveDir (s.detach oldParent n) new.dropLast = .ok newParent)
        (by simp only [Apart, hold, hnew, hn])
    | none => isTrue (by simp only [Apart, hold, hnew, hn])
  | some _, none => isTrue (by simp only [Apart, hold, hnew])
  | none, _ => isTrue (by simp only [Apart, hold])

/-- Where a node at the new path is removed, the rest succeeds without it; and where a node is moved,
its new directory is found without it. -/
def RenameSafe (s : State) (env : Env) (old new : Path) : Prop :=
  match vfsResolvePathAt s new false with
  | .error _ => Ready s env old new → Apart s old new
  | .ok _ =>
    match replaced s env new with
    | some (parent, n) => Ready (s.remove parent n) env old new ∧ Apart (s.remove parent n) old new
    | none => True

/-! ### The tree without the moved node -/

theorem Tree.attached (h : Tree s) (hm : (s.nodes m).allocated = true) : Attached s m := by
  have hreach := h.reaches m hm
  induction hreach with
  | root => exact Attached.root
  | step hp _ ih =>
    obtain ⟨hmem, hlive⟩ := h.parent_allocated hm hp
    exact Attached.child hmem (ih hlive)

section Detach

variable (h : TreeOk t) (hmem : n ∈ (t.nodes oldParent).children)

include h

theorem not_below_child {x y : NodeId} (hx : ¬ Below t n x) (hy : y ∈ (t.nodes x).children) (hyn : y ≠ n) :
    ¬ Below t n y := by
  intro hbelow
  cases hbelow with
  | self => exact hyn rfl
  | step hp hb =>
    rw [(h.child x y hy).1] at hp
    cases hp
    exact hx hb

include hmem

theorem child_detach (x : NodeId) (c : Name) (y : NodeId) :
    (t.detach oldParent n).child x c = some y ↔ t.child x c = some y ∧ y ≠ n := by
  have hnames : ∀ a ∈ ((t.detach oldParent n).nodes x).children, ∀ b ∈ ((t.detach oldParent n).nodes x).children,
      ((t.detach oldParent n).nodes a).name = ((t.detach oldParent n).nodes b).name → a = b := by
    intro a ha b hb hab
    simp only [detach_nodes t oldParent n a, detach_nodes t oldParent n b] at hab
    exact h.names x a ((h.mem_detach hmem x a).mp ha).1 b ((h.mem_detach hmem x b).mp hb).1 hab
  rw [Tree.child_iff hnames, Tree.child_iff (h.names x), h.mem_detach hmem, detach_nodes t oldParent n y]
  exact and_right_comm

theorem not_below_root : ¬ Below t n t.root := by
  intro hbelow
  have hparent := (h.child oldParent n hmem).1
  cases hbelow with
  | self =>
    rw [h.root.2.2] at hparent
    cases hparent
  | step hp _ =>
    rw [h.root.2.2] at hp
    cases hp

theorem detach_outside : Joint (fun m => ¬ Below t n m) (t.detach oldParent n) (t.detach oldParent n)
    (t.detach oldParent n) := by
  refine ⟨⟨rfl, rfl, not_below_root h hmem⟩, ?_, ?_, fun _ _ => ⟨rfl, rfl⟩, fun _ _ => ⟨rfl, rfl⟩,
    fun _ _ => ⟨rfl, rfl⟩⟩
  · intro x c a b hx ha hb
    rw [ha] at hb
    cases hb
    obtain ⟨hchild, han⟩ := (child_detach h hmem x c a).mp ha
    exact ⟨rfl, ha, not_below_child h hx (Tree.child_mem hchild).1 han⟩
  · intro x p hx hp hbelow
    rw [detach_nodes] at hp
    exact hx (Below.step hp hbelow)

end Detach

section Move

variable (h : TreeOk t) (hmem : n ∈ (t.nodes oldParent).children) (hfree : t.child newParent newBase = none)
  (hne : newParent ≠ n)

include h hmem

/-- Below itself, the moved node is cut off from the root. -/
theorem cut_joint (hbelow : Below t n newParent) : Joint (fun m => ¬ Below t n m)
    (t.move oldParent n newParent newBase) (t.move oldParent n newParent newBase)
    (t.move oldParent n newParent newBase) := by
  have houtside {x : NodeId} (hx : ¬ Below t n x) :
      (t.move oldParent n newParent newBase).nodes x = (t.detach oldParent n).nodes x := by
    unfold State.move State.attach
    have hnew : x ≠ newParent := fun heq => hx (heq ▸ hbelow)
    have hself : x ≠ n := fun heq => hx (heq ▸ Below.self)
    rw [modify_nodes, if_neg hnew, modify_nodes, if_neg hself]
  refine ⟨⟨rfl, rfl, not_below_root h hmem⟩, ?_, ?_, fun _ _ => ⟨rfl, rfl⟩, fun _ _ => ⟨rfl, rfl⟩,
    fun _ _ => ⟨rfl, rfl⟩⟩
  · intro x c a b hx ha hb
    have hkid := (Tree.child_mem ha).1
    rw [houtside hx, h.mem_detach hmem] at hkid
    rw [ha] at hb
    cases hb
    exact ⟨rfl, ha, not_below_child h hx hkid.1 hkid.2⟩
  · intro x p hx hp hb
    rw [houtside hx, detach_nodes] at hp
    exact hx (Below.step hp hb)

include hfree hne

theorem child_move (x : NodeId) (c : Name) (y : NodeId) :
    (t.move oldParent n newParent newBase).child x c = some y ↔
      t.child x c = some y ∧ y ≠ n ∨ x = newParent ∧ c = newBase ∧ y = n := by
  rw [Tree.child_iff ((h.placed_move hmem hne fun m hm _ => Tree.name_ne_of_child hfree hm).names h.toTree x),
    Tree.child_iff (h.names x), h.mem_move hmem hne, move_nodes hne]
  by_cases hy : y = n
  · simp [hy, eq_comm]
  · simp [hy]

/-- What is found without the moved node is found after the move. -/
theorem detach_joint : Joint (fun m => ¬ Below t n m) (t.detach oldParent n) (t.detach oldParent n)
    (t.move oldParent n newParent newBase) := by
  have houtside := detach_outside h hmem
  have hother {x : NodeId} (hx : ¬ Below t n x) : x ≠ n := fun heq => hx (heq ▸ Below.self)
  refine ⟨houtside.root, ?_, houtside.parent, ?_, ?_, ?_⟩
  · intro x c a b hx ha hb
    obtain ⟨hab, -, hlive⟩ := houtside.child x c a b hx ha hb
    exact ⟨hab, (child_move h hmem hfree hne x c a).mpr (.inl ((child_detach h hmem x c a).mp ha)), hlive⟩
  · exact fun x hx => ⟨rfl, by simp only [move_nodes hne, detach_nodes, if_neg (hother hx)]⟩
  · exact fun x _ => ⟨rfl, by rw [move_nodes hne, detach_nodes]⟩
  · exact fun x _ => ⟨rfl, by rw [move_nodes hne, detach_nodes]⟩

/-- What is found before and after the move is found without the moved node. -/
theorem move_joint : Joint (fun m => ¬ Below t n m) t (t.move oldParent n newParent newBase)
    (t.detach oldParent n) := by
  have hother {x : NodeId} (hx : ¬ Below t n x) : x ≠ n := fun heq => hx (heq ▸ Below.self)
  refine ⟨⟨rfl, rfl, not_below_root h hmem⟩, ?_, ?_, ?_, ?_, ?_⟩
  · intro x c a b hx ha hb
    -- a name that is looked up at both times is neither the old nor the new one of the moved node
    obtain ⟨hb, hbn⟩ | ⟨rfl, rfl, -⟩ := (child_move h hmem hfree hne x c b).mp hb
    · rw [ha] at hb
      cases hb
      exact ⟨rfl, (child_detach h hmem x c a).mpr ⟨ha, hbn⟩, not_below_child h hx (Tree.child_mem ha).1 hbn⟩
    · rw [hfree] at ha
      cases ha
  · exact fun x p hx hp hbelow => hx (Below.step hp hbelow)
  · exact fun x hx => ⟨by simp only [move_nodes hne, if_neg (hother hx)], by rw [detach_nodes]⟩
  · exact fun x _ => ⟨by rw [move_nodes hne], by rw [detach_nodes]⟩
  · exact fun x _ => ⟨by rw [move_nodes hne], by rw [detach_nodes]⟩

end Move

/-! ### The move -/

section Found

variable (h : TreeOk t) (hchild : t.child oldParent oldBase = some n) (hfree : t.child newParent newBase = none)

include h hchild hfree

/-- After the move another node may be at the old path, but not the moved one. -/
theorem not_found_at_old (hcanonical : Canonical old)
    (hold : findParentOf t old = some (oldParent, oldBase)) (hbelow : ¬ Below t n newParent) :
    vfsResolvePathAt (t.move oldParent n newParent newBase) old false ≠ .ok n := by
  intro hfound
  have hmem := (Tree.child_mem hchild).1
  have hne : newParent ≠ n := fun heq => hbelow (heq ▸ Below.self)
  obtain ⟨ps, rfl, hlength, hlookup⟩ := findParentOf_eq hold
  obtain ⟨-, -, hdot, hdots⟩ := hcanonical oldBase (by simp)
  obtain ⟨d, hdir, hlast⟩ := (resolve_concat hlength hdot hdots).mp hfound
  obtain ⟨rfl, -, -⟩ := (move_joint h hmem hfree hne).lookupDir hlookup hdir
  obtain ⟨-, hself⟩ | ⟨rfl, rfl, -⟩ := (child_move h hmem hfree hne _ _ n).mp hlast
  · exact hself rfl
  · rw [hfree] at hchild
    cases hchild

variable (hcanonical : Canonical new) (hnew : findParentOf t new = some (newParent, newBase))

include hcanonical hnew

theorem found_of_apart (happart : resolveDir (t.detach oldParent n) new.dropLast = .ok newParent) :
    ¬ Below t n newParent ∧ vfsResolvePathAt (t.move oldParent n newParent newBase) new false = .ok n := by
  obtain ⟨ps, rfl, hlength, -⟩ := findParentOf_eq hnew
  obtain ⟨-, -, hdot, hdots⟩ := hcanonical newBase (by simp)
  rw [List.dropLast_concat] at happart
  have hmem := (Tree.child_mem hchild).1
  have hbelow : ¬ Below t n newParent := ((detach_outside h hmem).resolveDir happart happart).2.2
  have hne : newParent ≠ n := fun heq => hbelow (heq ▸ Below.self)
  obtain ⟨-, hdir, -⟩ := (detach_joint h hmem hfree hne).resolveDir happart happart
  refine ⟨hbelow, (resolve_concat hlength hdot hdots).mpr ⟨newParent, hdir, ?_⟩⟩
  exact (child_move h hmem hfree hne newParent newBase n).mpr (.inr ⟨rfl, rfl, rfl⟩)

theorem apart_of_found (hfound : vfsResolvePathAt (t.move oldParent n newParent newBase) new false = .ok n) :
    resolveDir (t.detach oldParent n) new.dropLast = .ok newParent := by
  have hmem := (Tree.child_mem hchild).1
  by_cases hbelow : Below t n newParent
  · exact absurd Below.self ((cut_joint h hmem hbelow).resolveAt hfound hfound).2.2
  have hne : newParent ≠ n := fun heq => hbelow (heq ▸ Below.self)
  obtain ⟨ps, rfl, hlength, hlookup⟩ := findParentOf_eq hnew
  obtain ⟨-, -, hdot, hdots⟩ := hcanonical newBase (by simp)
  obtain ⟨d, hdir, hlast⟩ := (resolve_concat hlength hdot hdots).mp hfound
  rw [List.dropLast_concat]
  exact ((move_joint h hmem hfree hne).lookupDir hlookup hdir).2.1

end Found

/-! ### The call -/

/-- The tree `t` from which the node is moved has all nodes of `s` but the one at the new path. -/
structure Before (s t : State) (new : Path) : Prop where
  ok : TreeOk t
  lookup : ∀ path n, vfsResolvePathAt t path false = .ok n → vfsResolvePathAt s path false = .ok n
  allocated : ∀ m, (s.nodes m).allocated = true → vfsResolvePathAt s new false ≠ .ok m → (t.nodes m).allocated = true
  contents : ∀ m, SameContents s t m
  free : ∀ parent base, findParentOf t new = some (parent, base) → t.child parent base = none

/-- **The move is a rename** where the new directory is found without the moved node. -/
theorem Before.renameNode (hbefore : Before s t new) (hcanonicalOld : Canonical old) (hcanonicalNew : Canonical new)
    (hready : Ready t env old new) (hrun : renameNode t env old new = (s', .ok ())) :
    Renamed s s' old new ↔ Apart t old new := by
  have h := hbefore.ok
  rcases renameNode_cases t env old new with
    ⟨e, hnot, -⟩ | ⟨oldParent, oldBase, newParent, newBase, n, hold, hnew, hchild, -, heq⟩
  · exact absurd hready hnot
  rw [heq] at hrun
  cases hrun
  have hfree := hbefore.free newParent newBase hnew
  have hmem := (Tree.child_mem hchild).1
  have hdiffer : old ≠ new := by
    rintro rfl
    rw [hold] at hnew
    cases hnew
    rw [hfree] at hchild
    cases hchild
  have hatOld := hbefore.lookup old n (h.resolve_of_find hcanonicalOld hold hchild)
  have hapart : Apart t old new ↔ resolveDir (t.detach oldParent n) new.dropLast = .ok newParent := by
    unfold Apart
    rw [hold, hnew]
    dsimp only
    rw [hchild]
  rw [hapart]
  constructor
  · intro hrenamed
    obtain ⟨m, hm, hfound, -⟩ := hrenamed.moved hdiffer
    rw [hatOld] at hm
    cases hm
    exact apart_of_found h hchild hfree hcanonicalNew hnew hfound
  intro hdir
  obtain ⟨hbelow, hfound⟩ := found_of_apart h hchild hfree hcanonicalNew hnew hdir
  have hne : newParent ≠ n := fun heq => hbelow (heq ▸ Below.self)
  have hcontents (m : NodeId) : SameContents s (t.move oldParent n newParent newBase) m := by
    rw [SameContents, move_nodes hne]
    exact hbefore.contents m
  refine ⟨fun heq => absurd heq hdiffer, fun _ => ⟨n, hatOld, hfound, ?_, hcontents n⟩, fun m hm hother => ?_⟩
  · exact not_found_at_old h hchild hfree hcanonicalOld hold hbelow
  have hlive := hbefore.allocated m hm hother
  have hmoved : ((t.move oldParent n newParent newBase).nodes m).allocated = true := by rwa [move_nodes hne]
  have htree := h.toTree.move hmem (h.findParentOf_allocated hnew) hbelow fun m hm _ => Tree.name_ne_of_child hfree hm
  exact ⟨hmoved, htree.attached hmoved, hcontents m⟩

theorem Before.of_error (h : TreeOk s) (hcanonical : Canonical new) {e : Errno}
    (hresolve : vfsResolvePathAt s new false = .error e) : Before s s new where
  ok := h
  lookup _ _ hn := hn
  allocated _ hm _ := hm
  contents _ := ⟨rfl, rfl, rfl⟩
  free _ _ hfind := h.child_free hcanonical hfind hresolve

theorem Before.of_remove (h : TreeOk s) (hcanonical : Canonical new) (hfind : findParentOf s new = some (parent, base))
    (hchild : s.child parent base = some n) (hleaf : (s.nodes n).children = []) :
    Before s (s.remove parent n) new where
  ok := h.remove (Tree.child_mem hchild).1 hleaf
  lookup path m hm := ((h.remove_joint (Tree.child_mem hchild).1 hleaf).resolveAt hm hm).2.1
  allocated m hm hother := by
    have hne : m ≠ n := by
      rintro rfl
      exact hother (h.resolve_of_find hcanonical hfind hchild)
    rw [remove_nodes, if_neg hne]
    exact hm
  contents m := by
    rw [SameContents, remove_nodes]
    exact ⟨rfl, rfl, rfl⟩
  free _ _ hnew := h.remove_free hfind hchild hleaf hnew

/-- A tree with the files `/f` and `/g`. -/
def twoFiles : State :=
  (vfsCreateFile (vfsCreateFile emptyTree plainEnv [['f']] .file [1] none).1 plainEnv [['g']] .file [2] none).1

theorem twoFiles_ok : TreeOk twoFiles := by
  have hfirst : TreeOk (vfsCreateFile emptyTree plainEnv [['f']] .file [1] none).1 :=
    emptyTree_ok.createLoop emptyTree_ok.root.1 (by decide +kernel)
  exact hfirst.createLoop hfirst.root.1 (by decide +kernel)

end Litenix.Vfs
