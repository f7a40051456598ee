import Litenix.Lib.Run
import Litenix.Lib.Table
import Mathlib.Algebra.Order.Ring.Nat
import Mathlib.Data.List.Basic

/-! The in-memory tree of the virtual file system (`vfs.c`): path resolution with symbolic links,
creation, removal and renaming of nodes. The children of a node, a list linked through `next` in the
source, are a list here; nodes that are freed keep their id. What the filesystem below a directory
answers, and whether an allocation succeeds, is an input of each call.

A canonical path is the list of its components. The process directories that a lookup in `/proc`
creates on demand are left out. -/

namespace Litenix.Vfs

open Function

abbrev NodeId := Nat
abbrev Name := List Char
abbrev Path := List Name

inductive NodeType
  | file
  | dir
  | link
  | chr
deriving DecidableEq

inductive Errno
  | noent
  | notdir
  | loop
  | exist
  | notempty
  | inval
  | nomem
  /-- An error of the filesystem below. -/
  | fs (code : Nat)
deriving DecidableEq

/-- The text of a symbolic link. -/
structure Target where
  absolute : Bool
  comps : List Name
deriving DecidableEq

structure Node where
  allocated : Bool
  name : Name
  type : NodeType
  parent : Option NodeId
  children : List NodeId
  data : List UInt8
  /-- The text of a link, if it is not empty. -/
  target : Option Target
  /-- `create`, `mkdir`, `unlink` and `rename` of a filesystem are set. -/
  hooks : Bool
deriving DecidableEq

structure State where
  nodes : NodeId → Node
  root : NodeId
  nextNode : NodeId

namespace State

variable (s : State)

def modify (n : NodeId) (f : Node → Node) : State := { s with nodes := update s.nodes n (f (s.nodes n)) }

/-- The child of a node with a name. -/
def child (n : NodeId) (c : Name) : Option NodeId :=
  (s.nodes n).children.find? fun m => (s.nodes m).name = c

end State

/-! ### Resolution -/

/-- The components that the loops over a path see: their buffer holds 127 characters. -/
def chunks : Nat → Name → List Name
  | 0, c => [c]
  | fuel + 1, c => if c.length ≤ 127 then [c] else c.take 127 :: chunks fuel (c.drop 127)

def pieces (path : Path) : List Name := path.flatMap fun c => chunks c.length c

/-- The loop of `vfs_resolve_path_rec`; `follow` resolves the text of a link, and `more` says that
components follow the given ones. -/
def walk (s : State) (follow : Option NodeId → Target → Except Errno NodeId) (followLast more : Bool) :
    NodeId → List Name → Except Errno NodeId
  | cur, [] => .ok cur
  | cur, c :: cs =>
    if c = ['.'] then walk s follow followLast more cur cs
    else if c = ['.', '.'] then walk s follow followLast more ((s.nodes cur).parent.getD cur) cs
    else
      let isLast : Bool := cs.isEmpty && !more
      match s.child cur c with
      | none => .error .noent
      | some found =>
        if (s.nodes found).type = .link then
          if isLast && !followLast then walk s follow followLast more found cs
          else
            match (s.nodes found).target with
            | none => .error .noent
            | some target =>
              match follow (s.nodes found).parent target with
              | .error e => .error e
              | .ok resolved => walk s follow followLast more resolved cs
        else if !isLast ∧ (s.nodes found).type ≠ .dir then .error .notdir
        else walk s follow followLast more found cs

/-- `vfs_resolve_path_rec`, with the number of levels that are left. -/
def vfsResolvePathRec (s : State) : Nat → Option NodeId → Target → Bool → Except Errno NodeId
  | 0, _, _, _ => .error .loop
  | levels + 1, start, target, followLast =>
    walk s (fun start target => vfsResolvePathRec s levels start target true) followLast false
      (if target.absolute then s.root else start.getD s.root) target.comps

/-- `vfs_resolve_path_at` for an absolute path. -/
def vfsResolvePathAt (s : State) (path : Path) (followLast : Bool) : Except Errno NodeId :=
  vfsResolvePathRec s 17 none ⟨true, pieces path⟩ followLast

def vfsLookup (s : State) (path : Path) : Except Errno NodeId := vfsResolvePathAt s path true

/-- The length of the text of a path. -/
def textLength (path : Path) : Nat := (path.map fun c => c.length + 1).sum

/-- `find_parent_of`: the parent directory and the last component. -/
def findParentOf (s : State) (path : Path) : Option (NodeId × Name) :=
  match path.getLast? with
  | none => none
  | some base =>
    if base.length ≥ 128 then none
    else if path.dropLast = [] then some (s.root, base)
    else if textLength path.dropLast ≥ 512 then none
    else
      match vfsLookup s path.dropLast with
      | .ok parent => some (parent, base)
      | .error _ => none

/-! ### Creation -/

/-- What a call finds outside the tree. -/
structure Env where
  /-- The node with this id can be allocated. -/
  alloc : NodeId → Bool
  dataAlloc : Bool
  /-- The answers of the filesystem below. -/
  create : Option Errno
  mkdir : Option Errno
  unlink : Option Errno
  rename : Option Errno

def newNode (parent : NodeId) (name : Name) (type : NodeType) (data : List UInt8) (target : Option Target)
    (hooks : Bool) : Node where
  allocated := true
  name := name
  type := type
  parent := some parent
  children := []
  data := data
  target := target
  hooks := hooks

/-- Allocate a node and put it into a list of children: at the end, or at the head as the filesystem
below does. -/
def State.add (s : State) (parent : NodeId) (node : Node) (atHead : Bool) : State :=
  let n := s.nextNode
  let s' : State := { s with nodes := update s.nodes n node, nextNode := n + 1 }
  s'.modify parent fun p => { p with children := if atHead then n :: p.children else p.children ++ [n] }

/-- The loop of `vfs_create_file`. -/
def createLoop (env : Env) (type : NodeType) (data : List UInt8) (target : Option Target) :
    State → NodeId → List Name → State × Option NodeId
  | s, cur, [] => (s, some cur)
  | s, cur, c :: cs =>
    match s.child cur c with
    | some found =>
      if cs = [] then (s, some found)
      else if (s.nodes found).type = .link then
        match (s.nodes found).target with
        | none => (s, none)
        | some text =>
          match vfsResolvePathRec s 17 (some cur) text true with
          | .error _ => (s, none)
          | .ok resolved => createLoop env type data target s resolved cs
      else createLoop env type data target s found cs
    | none =>
      if cs = [] ∧ type ≠ .link ∧ (s.nodes cur).hooks then
        match env.create with
        | some _ => (s, none)
        | none =>
          if env.alloc s.nextNode then
            (s.add cur (newNode cur c .file [] none false) true, some s.nextNode)
          else (s, none)
      else if !env.alloc s.nextNode then (s, none)
      else if cs = [] then
        if (type = .file ∨ type = .link) ∧ (data ≠ [] ∨ target ≠ none) ∧ !env.dataAlloc then (s, none)
        else (s.add cur (newNode cur c type data target false) false, some s.nextNode)
      else
        createLoop env type data target (s.add cur (newNode cur c .dir [] none false) false) s.nextNode cs

def vfsCreateFile (s : State) (env : Env) (path : Path) (type : NodeType) (data : List UInt8)
    (target : Option Target) : State × Option NodeId :=
  createLoop env type data target s s.root (pieces path)

def vfsMkdir (s : State) (env : Env) (path : Path) : State × Except Errno Unit :=
  match vfsResolvePathAt s path false with
  | .ok _ => (s, .error .exist)
  | .error _ =>
    let create (s : State) : State × Except Errno Unit :=
      match vfsCreateFile s env path .dir [] none with
      | (s, some _) => (s, .ok ())
      | (s, none) => (s, .error .nomem)
    match findParentOf s path with
    | none => create s
    | some (parent, base) =>
      if (s.nodes parent).hooks then
        match env.mkdir with
        | some e => (s, .error e)
        | none =>
          -- the directory exists on the disk even when there is no memory for its node
          if env.alloc s.nextNode then (s.add parent (newNode parent base .dir [] none true) true, .ok ())
          else (s, .ok ())
      else create s

/-! ### Removal and renaming -/

/-- Take a node out of the list of children of another. -/
def State.detach (s : State) (parent n : NodeId) : State :=
  s.modify parent fun p => { p with children := p.children.erase n }

def vfsUnlink (s : State) (env : Env) (path : Path) : State × Except Errno Unit :=
  match findParentOf s path with
  | none => (s, .error .noent)
  | some (parent, base) =>
    match s.child parent base with
    | none => (s, .error .noent)
    | some n =>
      if (s.nodes n).type = .dir ∧ (s.nodes n).children ≠ [] then (s, .error .notempty)
      else
        match if (s.nodes parent).hooks ∧ (s.nodes n).type ≠ .link then env.unlink else none with
        | some e => (s, .error e)
        | none => ((s.detach parent n).modify n fun node => { node with allocated := false }, .ok ())

/-- Put a detached node under a new parent, with a new name. -/
def State.attach (s : State) (parent n : NodeId) (name : Name) : State :=
  (s.modify n fun node => { node with name := name, parent := some parent }).modify parent fun p =>
    { p with children := n :: p.children }

/-- The part of `vfs_rename` after the target has been removed. -/
def renameNode (s : State) (env : Env) (old new : Path) : State × Except Errno Unit :=
  match findParentOf s old with
  | none => (s, .error .noent)
  | some (oldParent, oldBase) =>
    match findParentOf s new with
    | none => (s, .error .noent)
    | some (newParent, newBase) =>
      match if (s.nodes oldParent).hooks then env.rename else none with
      | some e => (s, .error e)
      | none =>
        match s.child oldParent oldBase with
        | none => (s, .error .noent)
        | some n => ((s.detach oldParent n).attach newParent n newBase, .ok ())

def vfsRename (s : State) (env : Env) (old new : Path) : State × Except Errno Unit :=
  match vfsResolvePathAt s new false with
  | .error _ => renameNode s env old new
  | .ok _ =>
    match vfsUnlink s env new with
    | (s, .error e) => (s, .error e)
    | (s, .ok ()) => renameNode s env old new

end Litenix.Vfs
