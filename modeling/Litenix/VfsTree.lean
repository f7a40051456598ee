import Litenix.VfsLookup
import Mathlib.Data.List.Nodup

/-! The shape of the tree. Every node but the root is once in the list of children of its parent, the
chain of parents of every node ends at the root, and siblings have different names; only directories
have children. Creation and renaming do not check that the parent is a directory, and renaming does
not check that it is outside of the moved node; where this is so the shape is kept. -/

namespace Litenix.Vfs

open Lib Function

variable {s s' : State} {cur d m n p parent : NodeId} {c base : Name} {cs : List Name} {path ps old new : Path}
  {env : Env}
variable {x : NodeId}

/-! ### The invariant -/

/-- The chain of parents ends at the root. -/
inductive Reaches (s : State) : NodeId → Prop
  | root : Reaches s s.root
  | step {m p : NodeId} : (s.nodes m).parent = some p → Reaches s p → Reaches s m

structure Tree (s : State) : Prop where
  root : (s.nodes s.root).allocated = true ∧ (s.nodes s.root).type = .dir ∧ (s.nodes s.root).parent = none
  child : ∀ n, ∀ m ∈ (s.nodes n).children,
    (s.nodes m).parent = some n ∧ (s.nodes m).allocated = true ∧ (s.nodes n).allocated = true
  listed : ∀ m, (s.nodes m).allocated = true → m ≠ s.root →
    ∃ n, (s.nodes m).parent = some n ∧ m ∈ (s.nodes n).children
  nodup : ∀ n, (s.nodes n).children.Nodup
  names : ∀ n, ∀ a ∈ (s.nodes n).children, ∀ b ∈ (s.nodes n).children, (s.nodes a).name = (s.nodes b).name → a = b
  reaches : ∀ m, (s.nodes m).allocated = true → Reaches s m
  bound : ∀ m, (s.nodes m).allocated = true → m < s.nextNode

/-- The shape of the tree; a filesystem is below directories only. -/
structure TreeOk (s : State) : Prop extends Tree s where
  dirs : ∀ n, (s.nodes n).children ≠ [] → (s.nodes n).type = .dir
  hooks : ∀ n, (s.nodes n).hooks = true → (s.nodes n).type = .dir

namespace Tree

theorem child_mem (h : s.child n c = some m) : m ∈ (s.nodes n).children ∧ (s.nodes m).name = c :=
  ⟨List.mem_of_find?_eq_some h, by simpa using List.find?_some h⟩

theorem child_iff (hnames : ∀ a ∈ (s.nodes n).children, ∀ b ∈ (s.nodes n).children,
    (s.nodes a).name = (s.nodes b).name → a = b) :
    s.child n c = some m ↔ m ∈ (s.nodes n).children ∧ (s.nodes m).name = c := by
  refine ⟨child_mem, fun ⟨hm, hname⟩ => ?_⟩
  unfold State.child
  cases hfind : (s.nodes n).children.find? fun m => (s.nodes m).name = c with
  | none =>
    have := List.find?_eq_none.mp hfind m hm
    simp [hname] at this
  | some x =>
    have hx : (s.nodes x).name = c := by simpa using List.find?_some hfind
    rw [hnames x (List.mem_of_find?_eq_some hfind) m hm (hx.trans hname.symm)]

theorem child_of_mem (h : Tree s) (hm : m ∈ (s.nodes n).children) (hname : (s.nodes m).name = c) :
    s.child n c = some m := (child_iff (h.names n)).mpr ⟨hm, hname⟩

theorem name_ne_of_child (h : s.child n c = none) (hm : m ∈ (s.nodes n).children) : (s.nodes m).name ≠ c := by
  simpa using List.find?_eq_none.mp h m hm

theorem parent_allocated (h : Tree s) (hn : (s.nodes n).allocated = true) (hp : (s.nodes n).parent = some p) :
    n ∈ (s.nodes p).children ∧ (s.nodes p).allocated = true := by
  have hroot : n ≠ s.root := by
    rintro rfl
    rw [h.root.2.2] at hp
    cases hp
  obtain ⟨q, hq, hmem⟩ := h.listed n hn hroot
  obtain rfl : q = p := Option.some.inj (hq.symm.trans hp)
  exact ⟨hmem, (h.child q n hmem).2.2⟩

theorem joint (h : Tree s) : Joint (fun n => (s.nodes n).allocated = true) s s s where
  root := ⟨rfl, rfl, h.root.1⟩
  child n c a b _ ha hb := by
    rw [ha] at hb
    cases hb
    exact ⟨rfl, ha, (h.child n a (child_mem ha).1).2.1⟩
  parent n p hn hp := (h.parent_allocated hn hp).2
  same _ _ := ⟨rfl, rfl⟩
  type _ _ := ⟨rfl, rfl⟩
  target _ _ := ⟨rfl, rfl⟩

theorem lookup_allocated (h : Tree s) (hlookup : vfsLookup s ps = .ok d) : (s.nodes d).allocated = true :=
  (h.joint.lookup hlookup hlookup).2.2

theorem resolve_allocated (h : Tree s) {levels : Nat} {text : Target} {followLast : Bool}
    (hcur : (s.nodes cur).allocated = true)
    (hresolve : vfsResolvePathRec s levels (some cur) text followLast = .ok d) : (s.nodes d).allocated = true := by
  refine (h.joint.resolve (fun p hp => ?_) hresolve hresolve).2.2
  cases hp
  exact hcur

theorem findParentOf_allocated (h : Tree s) (hfind : findParentOf s path = some (d, base)) :
    (s.nodes d).allocated = true := by
  obtain ⟨ps, -, -, hlookup⟩ := findParentOf_eq hfind
  exact h.lookup_allocated hlookup

end Tree

/-! ### Placing a node -/

/-- A node is the given one or below it. -/
inductive Below (s : State) (node : NodeId) : NodeId → Prop
  | self : Below s node node
  | step {m p : NodeId} : (s.nodes m).parent = some p → Below s node p → Below s node m

/-- What every operation does: a node is taken out of the tree, and put under `place` if there is a place. -/
structure Placed (s s' : State) (n : NodeId) (place : Option NodeId) : Prop where
  old : ∀ x, x ≠ n → s'.nodes x = { s.nodes x with children := (s'.nodes x).children }
  kids : ∀ x y, y ∈ (s'.nodes x).children ↔ y ∈ (s.nodes x).children ∧ y ≠ n ∨ place = some x ∧ y = n
  nodup : ∀ x, (s'.nodes x).children.Nodup
  apart : place ≠ some n
  free : ∀ p ∈ place, ∀ m ∈ (s.nodes p).children, m ≠ n → (s.nodes m).name ≠ (s'.nodes n).name

namespace Placed

variable {place : Option NodeId} (hp : Placed s s' n place)

include hp

theorem names (h : Tree s) (x : NodeId) : ∀ a ∈ (s'.nodes x).children, ∀ b ∈ (s'.nodes x).children,
    (s'.nodes a).name = (s'.nodes b).name → a = b := by
  intro a ha b hb hab
  obtain ⟨hax, han⟩ | ⟨hx, rfl⟩ := (hp.kids x a).mp ha <;> obtain ⟨hbx, hbn⟩ | ⟨hx', rfl⟩ := (hp.kids x b).mp hb
  · rw [hp.old a han, hp.old b hbn] at hab
    exact h.names x a hax b hbx hab
  · rw [hp.old a han] at hab
    exact absurd hab (hp.free x hx' a hax han)
  · rw [hp.old b hbn] at hab
    exact absurd hab.symm (hp.free x hx b hbx hbn)
  · rfl

/-- A node that is taken out for good has no children, and the place for a node is not below it. -/
theorem tree (h : Tree s) (hroot : s'.root = s.root ∧ n ≠ s.root) (hnext : s.nextNode ≤ s'.nextNode ∧ n < s'.nextNode)
    (hnode : (s'.nodes n).allocated = place.isSome ∧ (s'.nodes n).parent = place.or (s.nodes n).parent)
    (hleaf : place = none → (s.nodes n).children = [])
    (hplace : ∀ p ∈ place, (s.nodes p).allocated = true ∧ ¬ Below s n p) : Tree s' := by
  have hparent {p : NodeId} (hpl : place = some p) : (s'.nodes n).parent = some p := by rw [hnode.2, hpl]; rfl
  -- first the nodes that are not below the placed one
  have hout {x : NodeId} (hx : Reaches s x) (hx' : ¬ Below s n x) : Reaches s' x := by
    induction hx with
    | root => exact hroot.1 ▸ Reaches.root
    | @step m q hq _ ih =>
      have hm : m ≠ n := fun heq => hx' (heq ▸ Below.self)
      exact Reaches.step (by rwa [hp.old m hm]) (ih fun hqn => hx' (Below.step hq hqn))
  have hput {p : NodeId} (hpl : place = some p) : Reaches s' n :=
    Reaches.step (hparent hpl) (hout (h.reaches p (hplace p hpl).1) (hplace p hpl).2)
  have hreach {x : NodeId} (hx : Reaches s x) : Reaches s' x := by
    induction hx with
    | root => exact hroot.1 ▸ Reaches.root
    | @step m q hq _ ih =>
      by_cases hm : m = n
      · subst hm
        cases hpl : place with
        | none => exact Reaches.step (by rw [hnode.2, hpl]; exact hq) ih
        | some p => exact hput hpl
      · exact Reaches.step (by rwa [hp.old m hm]) ih
  have hlive {y : NodeId} (hy : (s'.nodes y).allocated = true) :
      (∃ p, place = some p ∧ y = n) ∨ y ≠ n ∧ (s.nodes y).allocated = true := by
    by_cases hyn : y = n
    · rw [hyn, hnode.1] at hy
      exact .inl ((Option.isSome_iff_exists.mp hy).imp fun _ hpl => ⟨hpl, hyn⟩)
    · rw [hp.old y hyn] at hy
      exact .inr ⟨hyn, hy⟩
  refine ⟨?rootOk, fun x y hy => ?child, fun y hy hyroot => ?listed, hp.nodup, hp.names h, fun y hy => ?reaches,
    fun y hy => ?bound⟩
  case rootOk =>
    rw [hroot.1, hp.old _ hroot.2.symm]
    exact h.root
  case child =>
    obtain ⟨hy, hyn⟩ | ⟨hpl, rfl⟩ := (hp.kids x y).mp hy
    · rw [hp.old y hyn]
      obtain ⟨hxy, ha, hxa⟩ := h.child x y hy
      refine ⟨hxy, ha, ?_⟩
      by_cases hxn : x = n
      · subst hxn
        rw [hnode.1, Option.isSome_iff_ne_none]
        exact fun hnone => List.ne_nil_of_mem hy (hleaf hnone)
      · rwa [hp.old x hxn]
    · rw [hparent hpl, hnode.1, hpl, hp.old x fun heq => hp.apart (heq ▸ hpl)]
      exact ⟨rfl, rfl, (hplace x hpl).1⟩
  case listed =>
    obtain ⟨p, hpl, rfl⟩ | ⟨hyn, hya⟩ := hlive hy
    · exact ⟨p, hparent hpl, (hp.kids p y).mpr (.inr ⟨hpl, rfl⟩)⟩
    · obtain ⟨x, hxy, hmem⟩ := h.listed y hya (hroot.1 ▸ hyroot)
      exact ⟨x, by rwa [hp.old y hyn], (hp.kids x y).mpr (.inl ⟨hmem, hyn⟩)⟩
  case reaches =>
    obtain ⟨p, hpl, rfl⟩ | ⟨-, hya⟩ := hlive hy
    · exact hput hpl
    · exact hreach (h.reaches y hya)
  case bound =>
    obtain ⟨-, -, rfl⟩ | ⟨-, hya⟩ := hlive hy
    · exact hnext.2
    · exact (h.bound y hya).trans_le hnext.1

theorem treeOk (h : TreeOk s) (htree : Tree s') (hdir : ∀ p ∈ place, (s.nodes p).type = .dir)
    (hkids : (s.nodes n).children ≠ [] → (s'.nodes n).type = .dir)
    (hhooks : (s'.nodes n).hooks = true → (s'.nodes n).type = .dir) : TreeOk s' := by
  refine ⟨htree, fun x hx => ?_, fun x hx => ?_⟩
  · obtain ⟨y, hy⟩ := List.exists_mem_of_ne_nil _ hx
    obtain ⟨hy, -⟩ | ⟨hpl, -⟩ := (hp.kids x y).mp hy
    · by_cases hxn : x = n
      · exact hxn ▸ hkids (hxn ▸ List.ne_nil_of_mem hy)
      · rw [hp.old x hxn]
        exact h.dirs x (List.ne_nil_of_mem hy)
    · rw [hp.old x fun heq => hp.apart (heq ▸ hpl)]
      exact hdir x hpl
  · by_cases hxn : x = n
    · exact hxn ▸ hhooks (hxn ▸ hx)
    · rw [hp.old x hxn] at hx ⊢
      exact h.hooks x hx

end Placed

/-! ### Creation -/

section

variable (type : NodeType) (data : List UInt8) (target : Option Target) (hooks atHead : Bool)

theorem add_new (hne : parent ≠ s.nextNode) (node : Node) : (s.add parent node atHead).nodes s.nextNode = node := by
  unfold State.add State.modify
  dsimp only
  rw [update_of_ne hne.symm, update_self]

/-- An old node is the same, apart from the list of the parent. -/
theorem add_old (hne : parent ≠ s.nextNode) (node : Node) (hx : x ≠ s.nextNode) :
    (s.add parent node atHead).nodes x = { s.nodes x with
      children := if x = parent then
          if atHead then s.nextNode :: (s.nodes x).children else (s.nodes x).children ++ [s.nextNode]
        else (s.nodes x).children } := by
  unfold State.add State.modify
  dsimp only
  by_cases hp : x = parent
  · subst hp
    rw [update_self, update_of_ne hne, if_pos rfl]
  · rw [update_of_ne hp, update_of_ne hx, if_neg hp]

theorem Tree.not_allocated (h : Tree s) : (s.nodes s.nextNode).allocated ≠ true :=
  fun ha => absurd (h.bound _ ha) (Nat.lt_irrefl _)

theorem Tree.ne_nextNode (h : Tree s) (hn : (s.nodes n).allocated = true) : n ≠ s.nextNode := by
  rintro rfl
  exact h.not_allocated hn

theorem Tree.no_children (h : Tree s) : (s.nodes s.nextNode).children = [] :=
  List.eq_nil_iff_forall_not_mem.mpr fun _ hmem => h.not_allocated (h.child _ _ hmem).2.2

section

variable (h : Tree s) (hparent : (s.nodes parent).allocated = true) (hfree : s.child parent c = none)

include h hparent hfree

theorem Tree.placed_add :
    Placed s (s.add parent (newNode parent c type data target hooks) atHead) s.nextNode (some parent) := by
  have hne := h.ne_nextNode hparent
  have hnot {x y : NodeId} (hy : y ∈ (s.nodes x).children) : y ≠ s.nextNode := h.ne_nextNode (h.child x y hy).2.1
  have hnew := add_new atHead hne (newNode parent c type data target hooks)
  have hold (x : NodeId) := add_old atHead hne (newNode parent c type data target hooks) (x := x)
  refine ⟨fun x hx => by rw [hold x hx], fun x y => ?_, fun x => ?_, fun heq => hne (Option.some.inj heq), ?_⟩
  · by_cases hx : x = s.nextNode
    · subst hx
      rw [hnew]
      simp [newNode, h.no_children, hne]
    rw [hold x hx]
    by_cases hp : x = parent
    · subst hp
      cases atHead <;> simp [or_comm, and_iff_left_of_imp hnot]
    · simp [hp, Ne.symm hp, and_iff_left_of_imp hnot]
  · by_cases hx : x = s.nextNode
    · rw [hx, hnew]
      exact List.nodup_nil
    rw [hold x hx]
    split
    · cases atHead with
      | true => exact List.nodup_cons.mpr ⟨fun hmem => hnot hmem rfl, h.nodup x⟩
      | false =>
        refine List.nodup_append.mpr ⟨h.nodup x, List.nodup_singleton _, fun a ha b hb => ?_⟩
        rw [List.mem_singleton.mp hb]
        exact hnot ha
    · exact h.nodup x
  · rintro p ⟨⟩ m hm -
    rw [hnew]
    exact Tree.name_ne_of_child hfree hm

theorem Tree.add : Tree (s.add parent (newNode parent c type data target hooks) atHead) := by
  have hbelow {x : NodeId} (hx : Below s s.nextNode x) : (s.nodes x).allocated ≠ true := by
    induction hx with
    | self => exact h.not_allocated
    | step hp _ ih => exact fun ha => ih (h.parent_allocated ha hp).2
  refine (h.placed_add type data target hooks atHead hparent hfree).tree h ⟨rfl, (h.ne_nextNode h.root.1).symm⟩
    ⟨Nat.le_succ _, Nat.lt_succ_self _⟩ ?_ nofun ?_
  · rw [add_new atHead (h.ne_nextNode hparent)]
    exact ⟨rfl, rfl⟩
  · rintro p ⟨⟩
    exact ⟨hparent, fun hp => hbelow hp hparent⟩

end

theorem TreeOk.add (h : TreeOk s) (hparent : (s.nodes parent).allocated = true) (hdir : (s.nodes parent).type = .dir)
    (hfree : s.child parent c = none) (hhooks : hooks = true → type = .dir) :
    TreeOk (s.add parent (newNode parent c type data target hooks) atHead) := by
  refine (h.placed_add type data target hooks atHead hparent hfree).treeOk h
    (h.toTree.add type data target hooks atHead hparent hfree) ?_ (fun hne => absurd h.no_children hne) ?_
  · rintro p ⟨⟩
    exact hdir
  · rw [add_new atHead (h.ne_nextNode hparent)]
    exact hhooks

theorem Tree.child_add (h : Tree s) (hparent : (s.nodes parent).allocated = true) (hfree : s.child parent c = none)
    (c' : Name) : (s.add parent (newNode parent c type data target hooks) atHead).child x c' =
      if x = parent ∧ c' = c then some s.nextNode else s.child x c' := by
  have hplaced := h.placed_add type data target hooks atHead hparent hfree
  have hname : ((s.add parent (newNode parent c type data target hooks) atHead).nodes s.nextNode).name = c := by
    rw [add_new atHead (h.ne_nextNode hparent)]
    rfl
  refine Option.ext fun y => ?_
  rw [Tree.child_iff (hplaced.names h x), hplaced.kids]
  split
  · rename_i hnew
    obtain ⟨rfl, rfl⟩ := hnew
    constructor
    · rintro ⟨⟨hy, hyn⟩ | ⟨-, rfl⟩, hc⟩
      · rw [hplaced.old y hyn] at hc
        exact absurd hc (Tree.name_ne_of_child hfree hy)
      · rfl
    · rintro ⟨⟩
      exact ⟨.inr ⟨rfl, rfl⟩, hname⟩
  rename_i hold
  rw [Tree.child_iff (h.names x)]
  constructor
  · rintro ⟨⟨hy, hyn⟩ | ⟨hx, rfl⟩, hc⟩
    · rw [hplaced.old y hyn] at hc
      exact ⟨hy, hc⟩
    · exact absurd ⟨(Option.some.inj hx).symm, hc.symm.trans hname⟩ hold
  · rintro ⟨hy, hc⟩
    have hyn := h.ne_nextNode (h.child x y hy).2.1
    exact ⟨.inl ⟨hy, hyn⟩, by rwa [hplaced.old y hyn]⟩

end

/-- The nodes under which `vfs_create_file` creates others are directories: the path leads through
existing nodes to one under which the next component is missing. -/
def WalksDirs (s : State) : NodeId → List Name → Prop
  | _, [] => True
  | cur, c :: cs =>
    match s.child cur c with
    | none => (s.nodes cur).type = .dir
    | some found =>
      if cs = [] then True
      else if (s.nodes found).type = .link then
        match (s.nodes found).target with
        | none => True
        | some text =>
          match vfsResolvePathRec s 17 (some cur) text true with
          | .error _ => True
          | .ok resolved => WalksDirs s resolved cs
      else WalksDirs s found cs

instance decidableWalksDirs (s : State) : ∀ cur cs, Decidable (WalksDirs s cur cs)
  | _, [] => isTrue trivial
  | cur, c :: cs => by
      unfold WalksDirs
      split
      · infer_instance
      split
      · infer_instance
      split
      · split
        · infer_instance
        · split
          · infer_instance
          · exact decidableWalksDirs s _ cs
      · exact decidableWalksDirs s _ cs

/-- **Creation.** -/
theorem TreeOk.createLoop {type : NodeType} {data : List UInt8} {target : Option Target} (h : TreeOk s)
    (hcur : (s.nodes cur).allocated = true) (hwalks : WalksDirs s cur cs) :
    TreeOk (createLoop env type data target s cur cs).1 := by
  induction cs generalizing s cur with
  | nil => exact h
  | cons c cs ih =>
  rw [Vfs.createLoop]
  rw [WalksDirs] at hwalks
  cases hchild : s.child cur c with
  | some found =>
    rw [hchild] at hwalks
    dsimp only at hwalks ⊢
    have hfound : (s.nodes found).allocated = true := (h.child cur found (Tree.child_mem hchild).1).2.1
    by_cases hlast : cs = []
    · rw [if_pos hlast]
      exact h
    rw [if_neg hlast] at hwalks ⊢
    by_cases hlink : (s.nodes found).type = .link
    · rw [if_pos hlink] at hwalks ⊢
      cases htarget : (s.nodes found).target with
      | none => exact h
      | some text =>
        rw [htarget] at hwalks
        dsimp only at hwalks ⊢
        cases hresolve : vfsResolvePathRec s 17 (some cur) text true with
        | error e => exact h
        | ok resolved =>
          rw [hresolve] at hwalks
          exact ih h (h.resolve_allocated hcur hresolve) hwalks
    · rw [if_neg hlink] at hwalks ⊢
      exact ih h hfound hwalks
  | none =>
  rw [hchild] at hwalks
  dsimp only at hwalks ⊢
  split
  · split
    · exact h
    split
    · exact h.add _ _ _ _ _ hcur hwalks hchild nofun
    · exact h
  split
  · exact h
  split
  · split
    · exact h
    · exact h.add _ _ _ _ _ hcur hwalks hchild nofun
  -- the new directory is empty, so the rest of the path is created below it
  have hadded := h.add .dir [] none false false hcur hwalks hchild nofun
  have hne : cur ≠ s.nextNode := fun heq => absurd (heq ▸ h.bound cur hcur) (Nat.lt_irrefl _)
  have hnew : (s.add cur (newNode cur c .dir [] none false) false).nodes s.nextNode =
      newNode cur c .dir [] none false := add_new false hne _
  refine ih hadded (by rw [hnew]; rfl) ?_
  cases cs with
  | nil => trivial
  | cons c' cs' =>
    have hempty : (s.add cur (newNode cur c .dir [] none false) false).child s.nextNode c' = none := by
      unfold State.child
      rw [hnew]
      rfl
    rw [WalksDirs, hempty]
    rw [hnew]
    rfl

/-! ### Removal -/

theorem modify_nodes (s : State) (n : NodeId) (f : Node → Node) (x : NodeId) :
    (s.modify n f).nodes x = if x = n then f (s.nodes n) else s.nodes x :=
  update_apply ..

/-- The state of `vfs_unlink` after the node has been freed. -/
def State.remove (s : State) (parent n : NodeId) : State :=
  (s.detach parent n).modify n fun node => { node with allocated := false }

theorem detach_nodes (s : State) (parent n x : NodeId) : (s.detach parent n).nodes x = { s.nodes x with
    children := if x = parent then (s.nodes x).children.erase n else (s.nodes x).children } := by
  unfold State.detach
  rw [modify_nodes]
  split
  · rename_i heq
    rw [heq]
  · rfl

theorem remove_nodes (s : State) (parent n x : NodeId) : (s.remove parent n).nodes x = { s.nodes x with
    allocated := if x = n then false else (s.nodes x).allocated
    children := ((s.detach parent n).nodes x).children } := by
  unfold State.remove
  rw [modify_nodes]
  split
  · rename_i heq
    rw [heq, detach_nodes]
  · rw [detach_nodes]

theorem Tree.mem_detach (h : Tree s) (hmem : n ∈ (s.nodes parent).children) (x y : NodeId) :
    y ∈ ((s.detach parent n).nodes x).children ↔ y ∈ (s.nodes x).children ∧ y ≠ n := by
  rw [detach_nodes]
  split
  · rw [(h.nodup x).mem_erase_iff]
    exact and_comm
  rename_i hx
  refine ⟨fun hy => ⟨hy, ?_⟩, fun hy => hy.1⟩
  rintro rfl
  exact hx (Option.some.inj ((h.child x y hy).1.symm.trans (h.child parent y hmem).1))

theorem Tree.nodup_detach (h : Tree s) (x : NodeId) : ((s.detach parent n).nodes x).children.Nodup := by
  rw [detach_nodes]
  split
  · exact (h.nodup x).erase n
  · exact h.nodup x

theorem Tree.ne_root (h : Tree s) (hmem : n ∈ (s.nodes parent).children) : n ≠ s.root := by
  rintro rfl
  have hparent := (h.child parent _ hmem).1
  rw [h.root.2.2] at hparent
  cases hparent

/-- **Removal** of a node without children. -/
theorem TreeOk.remove (h : TreeOk s) (hmem : n ∈ (s.nodes parent).children) (hleaf : (s.nodes n).children = []) :
    TreeOk (s.remove parent n) := by
  have hplaced : Placed s (s.remove parent n) n none := by
    refine ⟨fun x hx => ?_, fun x y => ?_, fun x => ?_, nofun, nofun⟩
    · rw [remove_nodes, if_neg hx]
    · rw [remove_nodes]
      simpa using h.mem_detach hmem x y
    · rw [remove_nodes]
      exact h.nodup_detach x
  have htree := hplaced.tree h.toTree ⟨rfl, h.ne_root hmem⟩ ⟨le_rfl, h.bound n (h.child parent n hmem).2.1⟩
    (by simp [remove_nodes]) (fun _ => hleaf) nofun
  refine hplaced.treeOk h htree nofun (fun hne => absurd hleaf hne) fun hhooks => ?_
  rw [remove_nodes] at hhooks ⊢
  exact h.hooks n hhooks

/-- The node that `vfs_unlink` removes, with its parent. -/
def replaced (s : State) (env : Env) (path : Path) : Option (NodeId × NodeId) :=
  match findParentOf s path with
  | none => none
  | some (parent, base) =>
    match s.child parent base with
    | none => none
    | some n =>
      if (s.nodes n).type = .dir ∧ (s.nodes n).children ≠ [] then none
      else if (if (s.nodes parent).hooks ∧ (s.nodes n).type ≠ .link then env.unlink else none) = none then
        some (parent, n)
      else none

theorem vfsUnlink_cases (s : State) (env : Env) (path : Path) :
    (∃ e, replaced s env path = none ∧ vfsUnlink s env path = (s, .error e)) ∨
    ∃ parent base n, findParentOf s path = some (parent, base) ∧ s.child parent base = some n ∧
      ¬ ((s.nodes n).type = .dir ∧ (s.nodes n).children ≠ []) ∧ replaced s env path = some (parent, n) ∧
      vfsUnlink s env path = (s.remove parent n, .ok ()) := by
  unfold replaced vfsUnlink
  cases hfind : findParentOf s path with
  | none => exact .inl ⟨_, rfl, rfl⟩
  | some found =>
  obtain ⟨parent, base⟩ := found
  dsimp only
  cases hchild : s.child parent base with
  | none => exact .inl ⟨_, rfl, rfl⟩
  | some n =>
  dsimp only
  by_cases hleaf : (s.nodes n).type = .dir ∧ (s.nodes n).children ≠ []
  · rw [if_pos hleaf, if_pos hleaf]
    exact .inl ⟨_, rfl, rfl⟩
  rw [if_neg hleaf, if_neg hleaf]
  cases henv : (if (s.nodes parent).hooks ∧ (s.nodes n).type ≠ .link then env.unlink else none) with
  | some e => exact .inl ⟨e, rfl, rfl⟩
  | none => exact .inr ⟨parent, base, n, rfl, hchild, hleaf, rfl, rfl⟩

theorem TreeOk.leaf (h : TreeOk s) (hleaf : ¬ ((s.nodes n).type = .dir ∧ (s.nodes n).children ≠ [])) :
    (s.nodes n).children = [] := by
  by_contra hne
  exact hleaf ⟨h.dirs n hne, hne⟩

theorem TreeOk.unlink (h : TreeOk s) (env : Env) (path : Path) : TreeOk (vfsUnlink s env path).1 := by
  rcases vfsUnlink_cases s env path with ⟨e, -, heq⟩ | ⟨parent, base, n, -, hchild, hleaf, -, heq⟩
  · rw [heq]
    exact h
  · rw [heq]
    exact h.remove (Tree.child_mem hchild).1 (h.leaf hleaf)

/-- A path as the system calls pass it on. -/
def Canonical (path : Path) : Prop := ∀ c ∈ path, c ≠ [] ∧ '/' ∉ c ∧ c ≠ ['.'] ∧ c ≠ ['.', '.']

instance : Decidable (Canonical path) := inferInstanceAs (Decidable (∀ c ∈ path, _ ∧ _))

section

variable (h : TreeOk s) (hcanonical : Canonical path) (hfind : findParentOf s path = some (parent, base))

include h hcanonical hfind

/-- The child of the directory of a path is the node at the path. -/
theorem TreeOk.resolve_of_find (hchild : s.child parent base = some n) : vfsResolvePathAt s path false = .ok n := by
  obtain ⟨ps, rfl, hlength, hlookup⟩ := findParentOf_eq hfind
  obtain ⟨-, -, hdot, hdots⟩ := hcanonical base (by simp)
  have hdir := h.dirs parent (List.ne_nil_of_mem (Tree.child_mem hchild).1)
  exact (resolve_concat hlength hdot hdots).mpr ⟨parent, resolveDir_of_lookup hdir hlookup, hchild⟩

theorem TreeOk.child_free (hresolve : vfsResolvePathAt s path false = .error e) : s.child parent base = none := by
  cases hchild : s.child parent base with
  | none => rfl
  | some n =>
    rw [h.resolve_of_find hcanonical hfind hchild] at hresolve
    cases hresolve

end

/-- The directory of a path belongs to a filesystem with its own `mkdir`. -/
def HooksAt (s : State) (path : Path) : Prop := (findParentOf s path).any (fun found => (s.nodes found.1).hooks) = true

instance : Decidable (HooksAt s path) := inferInstanceAs (Decidable (_ = true))

theorem TreeOk.mkdir (h : TreeOk s) (hcanonical : Canonical path)
    (hwalks : HooksAt s path ∨ WalksDirs s s.root (pieces path)) : TreeOk (vfsMkdir s env path).1 := by
  unfold vfsMkdir
  cases hresolve : vfsResolvePathAt s path false with
  | ok _ => exact h
  | error e =>
  have hcreate (hplain : ¬ HooksAt s path) : TreeOk (vfsCreateFile s env path .dir [] none).1 :=
    h.createLoop h.root.1 (hwalks.resolve_left hplain)
  cases hfind : findParentOf s path with
  | none =>
    have hloop := hcreate (by simp [HooksAt, hfind])
    dsimp only
    split <;> rename_i heq <;> rwa [heq] at hloop
  | some found =>
  obtain ⟨parent, base⟩ := found
  dsimp only
  by_cases hhooks : (s.nodes parent).hooks = true
  · rw [if_pos hhooks]
    have hdir := h.hooks parent hhooks
    split
    · exact h
    split
    · exact h.add _ _ _ _ _ (h.findParentOf_allocated hfind) hdir (h.child_free hcanonical hfind hresolve)
        fun _ => rfl
    · exact h
  · rw [if_neg hhooks]
    have hloop := hcreate (by simpa [HooksAt, hfind] using hhooks)
    split <;> rename_i heq <;> rwa [heq] at hloop

/-! ### Renaming -/

/-- The state of `vfs_rename` after the move. -/
def State.move (s : State) (oldParent n newParent : NodeId) (name : Name) : State :=
  (s.detach oldParent n).attach newParent n name

section Move

variable {oldParent newParent : NodeId}

theorem move_nodes (hne : newParent ≠ n) (x : NodeId) :
    (s.move oldParent n newParent base).nodes x = { s.nodes x with
      name := if x = n then base else (s.nodes x).name
      parent := if x = n then some newParent else (s.nodes x).parent
      children := if x = newParent then n :: ((s.detach oldParent n).nodes x).children
        else ((s.detach oldParent n).nodes x).children } := by
  unfold State.move State.attach
  simp only [modify_nodes, if_neg hne, detach_nodes]
  by_cases hx : x = n
  · subst hx
    simp [hne.symm]
  · by_cases hnew : x = newParent
    · subst hnew
      simp [hx]
    · simp [hx, hnew]

section

variable (h : Tree s) (hmem : n ∈ (s.nodes oldParent).children) (hne : newParent ≠ n)

include h hmem hne

theorem Tree.mem_move (base : Name) (x y : NodeId) : y ∈ ((s.move oldParent n newParent base).nodes x).children ↔
    y ∈ (s.nodes x).children ∧ y ≠ n ∨ x = newParent ∧ y = n := by
  rw [move_nodes hne]
  by_cases hx : x = newParent <;> simp [hx, h.mem_detach hmem, or_comm]

theorem Tree.placed_move (hfree : ∀ m ∈ (s.nodes newParent).children, m ≠ n → (s.nodes m).name ≠ base) :
    Placed s (s.move oldParent n newParent base) n (some newParent) := by
  refine ⟨fun x hx => ?_, fun x y => ?_, fun x => ?_, fun heq => hne (Option.some.inj heq), ?_⟩
  · rw [move_nodes hne, if_neg hx, if_neg hx]
  · rw [h.mem_move hmem hne, Option.some_inj, eq_comm (a := x)]
  · rw [move_nodes hne]
    dsimp only
    split
    · exact List.nodup_cons.mpr ⟨fun hin => ((h.mem_detach hmem x n).mp hin).2 rfl, h.nodup_detach x⟩
    · exact h.nodup_detach x
  · rintro p ⟨⟩
    rw [move_nodes hne, if_pos rfl]
    exact hfree

end

/-- **Moving** a node to a place that is not below it. -/
theorem Tree.move (h : Tree s) (hmem : n ∈ (s.nodes oldParent).children)
    (hallocated : (s.nodes newParent).allocated = true) (hbelow : ¬ Below s n newParent)
    (hfree : ∀ m ∈ (s.nodes newParent).children, m ≠ n → (s.nodes m).name ≠ base) :
    Tree (s.move oldParent n newParent base) := by
  have hne : newParent ≠ n := fun heq => hbelow (heq ▸ Below.self)
  have hlive := (h.child oldParent n hmem).2.1
  refine (h.placed_move hmem hne hfree).tree h ⟨rfl, h.ne_root hmem⟩ ⟨le_rfl, h.bound n hlive⟩ ?_ nofun ?_
  · rw [move_nodes hne]
    exact ⟨hlive, if_pos rfl⟩
  · rintro p ⟨⟩
    exact ⟨hallocated, hbelow⟩

theorem TreeOk.move (h : TreeOk s) (hmem : n ∈ (s.nodes oldParent).children)
    (hallocated : (s.nodes newParent).allocated = true) (hdir : (s.nodes newParent).type = .dir)
    (hbelow : ¬ Below s n newParent) (hfree : ∀ m ∈ (s.nodes newParent).children, m ≠ n → (s.nodes m).name ≠ base) :
    TreeOk (s.move oldParent n newParent base) := by
  have hne : newParent ≠ n := fun heq => hbelow (heq ▸ Below.self)
  refine (h.placed_move hmem hne hfree).treeOk h (h.toTree.move hmem hallocated hbelow hfree) ?_ ?_ ?_
  · rintro p ⟨⟩
    exact hdir
  · rw [move_nodes hne]
    exact h.dirs n
  · rw [move_nodes hne]
    exact h.hooks n

end Move

/-- Walks that find their way without a node find the same way with it. -/
theorem TreeOk.remove_joint (h : TreeOk s) (hmem : n ∈ (s.nodes parent).children) (hleaf : (s.nodes n).children = []) :
    Joint (fun m => ((s.remove parent n).nodes m).allocated = true) (s.remove parent n) (s.remove parent n) s := by
  have hafter := (h.remove hmem hleaf).joint
  refine ⟨⟨rfl, rfl, hafter.root.2.2⟩, fun m c a b hm ha hb => ?_, hafter.parent, fun m _ => ⟨rfl, ?_⟩,
    fun m _ => ⟨rfl, ?_⟩, fun m _ => ⟨rfl, ?_⟩⟩
  · obtain ⟨hab, -, hlive⟩ := hafter.child m c a b hm ha hb
    refine ⟨hab, ?_, hlive⟩
    obtain ⟨hkid, hname⟩ := Tree.child_mem ha
    rw [remove_nodes] at hkid hname
    exact h.child_of_mem ((h.mem_detach hmem m a).mp hkid).1 hname
  · rw [remove_nodes]
  · rw [remove_nodes]
  · rw [remove_nodes]

theorem Joint.findParentOf {P : NodeId → Prop} {s₁ s₃ : State} (h : Joint P s₁ s₁ s₃)
    (hfind : findParentOf s₁ path = some (d, base)) : Vfs.findParentOf s₃ path = some (d, base) := by
  obtain ⟨ps, rfl, -, hlookup⟩ := findParentOf_eq hfind
  exact findParentOf_concat hfind (h.lookup hlookup hlookup).2.1

/-- A removed node was the only one of its name. -/
theorem TreeOk.remove_free (h : TreeOk s) (hfind : Vfs.findParentOf s path = some (parent, base))
    (hchild : s.child parent base = some n) (hleaf : (s.nodes n).children = []) {newBase : Name}
    (hnew : Vfs.findParentOf (s.remove parent n) path = some (newParent, newBase)) :
    (s.remove parent n).child newParent newBase = none := by
  have hmem := (Tree.child_mem hchild).1
  have hjoint := h.remove_joint hmem hleaf
  have hlive := (h.remove hmem hleaf).findParentOf_allocated hnew
  have hboth := hjoint.findParentOf hnew
  rw [hfind] at hboth
  cases hboth
  cases hother : (s.remove parent n).child parent base with
  | none => rfl
  | some m =>
    obtain ⟨-, hm, hmlive⟩ := hjoint.child parent base m m hlive hother hother
    rw [hchild] at hm
    cases hm
    simp [remove_nodes] at hmlive

/-- Where `vfs_rename` puts a node: in a directory that is not below the node. -/
def MovesInto (s : State) (old new : Path) : Prop :=
  match findParentOf s old, findParentOf s new with
  | some (oldParent, oldBase), some (newParent, _) =>
    match s.child oldParent oldBase with
    | some n => (s.nodes newParent).type = .dir ∧ ¬ Below s n newParent
    | none => True
  | _, _ => True

/-- Both directories and the node at the old path are found, and the filesystem below agrees. -/
def Ready (s : State) (env : Env) (old new : Path) : Prop :=
  match findParentOf s old, findParentOf s new with
  | some (oldParent, oldBase), some _ =>
    (if (s.nodes oldParent).hooks then env.rename else none) = none ∧ (s.child oldParent oldBase).isSome = true
  | _, _ => False

instance : Decidable (Ready s env old new) := by
  unfold Ready
  split <;> infer_instance

theorem renameNode_cases (s : State) (env : Env) (old new : Path) :
    (∃ e, ¬ Ready s env old new ∧ renameNode s env old new = (s, .error e)) ∨
    ∃ oldParent oldBase newParent newBase n, findParentOf s old = some (oldParent, oldBase) ∧
      findParentOf s new = some (newParent, newBase) ∧ s.child oldParent oldBase = some n ∧ Ready s env old new ∧
      renameNode s env old new = (s.move oldParent n newParent newBase, .ok ()) := by
  unfold Ready renameNode
  cases hold : findParentOf s old with
  | none => exact .inl ⟨_, by simp, rfl⟩
  | some found =>
  obtain ⟨oldParent, oldBase⟩ := found
  cases hnew : findParentOf s new with
  | none => exact .inl ⟨_, by simp, rfl⟩
  | some found =>
  obtain ⟨newParent, newBase⟩ := found
  dsimp only
  cases henv : (if (s.nodes oldParent).hooks then env.rename else none) with
  | some e => exact .inl ⟨_, by simp, rfl⟩
  | none =>
    cases hchild : s.child oldParent oldBase with
    | none => exact .inl ⟨_, by simp, rfl⟩
    | some n => exact .inr ⟨oldParent, oldBase, newParent, newBase, n, rfl, rfl, hchild, ⟨rfl, rfl⟩, rfl⟩

theorem TreeOk.renameNode (h : TreeOk s) (hinto : MovesInto s old new)
    (hfree : ∀ newParent newBase, findParentOf s new = some (newParent, newBase) →
      s.child newParent newBase = none) : TreeOk (renameNode s env old new).1 := by
  rcases renameNode_cases s env old new with
    ⟨e, -, heq⟩ | ⟨oldParent, oldBase, newParent, newBase, n, hold, hnew, hchild, -, heq⟩
  · rw [heq]
    exact h
  rw [heq]
  rw [MovesInto, hold, hnew] at hinto
  dsimp only at hinto
  rw [hchild] at hinto
  refine h.move (Tree.child_mem hchild).1 (h.findParentOf_allocated hnew) hinto.1 hinto.2 fun m hm _ => ?_
  exact Tree.name_ne_of_child (hfree newParent newBase hnew) hm

theorem TreeOk.below_remove (hbelow : Below (s.remove parent n) m d) : Below s m d := by
  induction hbelow with
  | self => exact Below.self
  | step hp _ ih => exact Below.step (by rwa [remove_nodes] at hp) ih

theorem TreeOk.rename (h : TreeOk s) (hcanonical : Canonical new)
    (hinto : MovesInto s old new) : TreeOk (vfsRename s env old new).1 := by
  unfold vfsRename
  cases hresolve : vfsResolvePathAt s new false with
  | error e =>
    exact h.renameNode hinto fun newParent newBase hnew => h.child_free hcanonical hnew hresolve
  | ok _ =>
  rcases vfsUnlink_cases s env new with ⟨e, -, heq⟩ | ⟨parent, base, n, hfind, hchild, hleaf, -, heq⟩
  · rw [heq]
    exact h
  rw [heq]
  have hmem := (Tree.child_mem hchild).1
  have hjoint := h.remove_joint hmem (h.leaf hleaf)
  have hafter := h.remove hmem (h.leaf hleaf)
  refine hafter.renameNode ?_ fun newParent newBase hnew => ?_
  · unfold MovesInto at hinto ⊢
    split
    · rename_i oldParent oldBase newParent newBase hold hnew
      split
      · rename_i m hm
        rw [hjoint.findParentOf hold, hjoint.findParentOf hnew] at hinto
        dsimp only at hinto
        have hlive := hafter.findParentOf_allocated hold
        rw [(hjoint.child oldParent oldBase m m hlive hm hm).2.1] at hinto
        rw [remove_nodes]
        exact ⟨hinto.1, fun hbelow => hinto.2 (TreeOk.below_remove hbelow)⟩
      · trivial
    · trivial
  · exact h.remove_free hfind hchild (h.leaf hleaf) hnew

/-! ### Runs -/

inductive Op
  | createFile (env : Env) (path : Path) (type : NodeType) (data : List UInt8) (target : Option Target)
  | mkdir (env : Env) (path : Path)
  | unlink (env : Env) (path : Path)
  | rename (env : Env) (old new : Path)

def step (s : State) : Op → Except Empty State
  | .createFile env path type data target => .ok (vfsCreateFile s env path type data target).1
  | .mkdir env path => .ok (vfsMkdir s env path).1
  | .unlink env path => .ok (vfsUnlink s env path).1
  | .rename env old new => .ok (vfsRename s env old new).1

def Op.Canonical : Op → Prop
  | .createFile _ path _ _ _ => Vfs.Canonical path
  | .mkdir _ path => Vfs.Canonical path
  | .unlink _ path => Vfs.Canonical path
  | .rename _ old new => Vfs.Canonical old ∧ Vfs.Canonical new

instance : (op : Op) → Decidable op.Canonical
  | .createFile _ path _ _ _ => inferInstanceAs (Decidable (Vfs.Canonical path))
  | .mkdir _ path => inferInstanceAs (Decidable (Vfs.Canonical path))
  | .unlink _ path => inferInstanceAs (Decidable (Vfs.Canonical path))
  | .rename _ old new => inferInstanceAs (Decidable (Vfs.Canonical old ∧ Vfs.Canonical new))

/-- Nodes are created in directories, and moved into directories that are not below them. -/
def IntoDirs (s : State) : Op → Prop
  | .createFile _ path _ _ _ => WalksDirs s s.root (pieces path)
  | .mkdir _ path => HooksAt s path ∨ WalksDirs s s.root (pieces path)
  | .unlink _ _ => True
  | .rename _ old new => MovesInto s old new

/-- **One step.** -/
theorem TreeOk.step (h : TreeOk s) (hcanonical : op.Canonical) (hinto : IntoDirs s op)
    (hstep : step s op = .ok s') : TreeOk s' := by
  cases op with
  | createFile env path type data target =>
    cases hstep
    exact h.createLoop h.root.1 hinto
  | mkdir env path =>
    cases hstep
    exact h.mkdir hcanonical hinto
  | unlink env path =>
    cases hstep
    exact h.unlink env path
  | rename env old new =>
    cases hstep
    exact h.rename hcanonical.2 hinto

/-- A tree with the root only. -/
def emptyTree : State where
  nodes n :=
    if n = 0 then { newNode 0 [] .dir [] none false with parent := none }
    else { newNode 0 [] .file [] none false with allocated := false, parent := none }
  root := 0
  nextNode := 1

theorem emptyTree_ok : TreeOk emptyTree := by
  have hnil (n : NodeId) : (emptyTree.nodes n).children = [] := by
    unfold emptyTree
    dsimp only
    split <;> rfl
  have hallocated {n : NodeId} (hn : (emptyTree.nodes n).allocated = true) : n = emptyTree.root := by
    by_contra hne
    unfold emptyTree at hn
    dsimp only at hn
    rw [if_neg (show ¬ n = 0 from hne)] at hn
    cases hn
  refine ⟨⟨⟨rfl, rfl, rfl⟩, ?_, ?_, ?_, ?_, ?_, ?_⟩, ?_, ?_⟩
  · exact fun n m hm => absurd hm (by simp [hnil])
  · exact fun m hm hne => absurd (hallocated hm) hne
  · exact fun n => hnil n ▸ List.nodup_nil
  · exact fun n a ha => absurd ha (by simp [hnil])
  · exact fun m hm => hallocated hm ▸ Reaches.root
  · exact fun m hm => hallocated hm ▸ Nat.zero_lt_one
  · exact fun n hn => absurd (hnil n) hn
  intro n hn
  unfold emptyTree at hn
  dsimp only at hn
  split at hn <;> cases hn

/-- Memory is left, and there is no filesystem below. -/
def plainEnv : Env := ⟨fun _ => true, true, none, none, none, none⟩

/-- `/f` and `/d/e` are created, `/f` is moved over `/d/e`, and removed there. -/
def tidyOps : List Op := [.createFile plainEnv [['f']] .file [1, 2] none, .mkdir plainEnv [['d']],
  .createFile plainEnv [['d'], ['e']] .file [] none, .rename plainEnv [['f']] [['d'], ['e']],
  .unlink plainEnv [['d'], ['e']]]

/-- A file is created below a file. -/
def belowFileOps : List Op := [.createFile plainEnv [['f']] .file [] none,
  .createFile plainEnv [['f'], ['g']] .file [] none]

end Litenix.Vfs
