import Litenix.VfsCanonical

/-! Resolution of the text of a path. The loop of `vfs_resolve_path_rec` reads a component into a buffer of
127 characters, so that a longer one becomes several; a slash or the end of the text ends the last of them.
Below `/proc` a number that is no child is the directory of a process, which the loop creates when it is
looked up: here resolution passes on the tree. Where it meets no symbolic link, the tree that it leaves
resolves the path without further creation, and a canonical path leads to the same node provided that
every component that a `..` removes fits the buffer. -/

namespace Litenix.Vfs

variable {text : List Char}

/-! ### Reading a path -/

theorem length_unread_lt (c : Char) (rest : List Char) :
    (((c :: rest).drop (((c :: rest).takeWhile (· ≠ '/')).take 127).length).dropWhile (· = '/')).length <
      (c :: rest).length := by
  by_cases hc : c = '/'
  · have := (List.dropWhile_sublist (l := rest) (· = '/')).length_le
    simp only [hc, List.takeWhile_cons]
    simp
    omega
  have := (List.dropWhile_sublist (l := (c :: rest).drop (((c :: rest).takeWhile (· ≠ '/')).take 127).length)
    (· = '/')).length_le
  simp only [List.takeWhile_cons, hc, ne_eq, not_false_eq_true, decide_true, if_true, List.take_succ_cons,
    List.length_cons, List.drop_succ_cons, List.length_drop] at this ⊢
  omega

/-- The components that the loop reads; it stands behind the slashes that it has skipped. -/
def readPieces : List Char → List Name
  | [] => []
  | c :: rest =>
    let component := ((c :: rest).takeWhile (· ≠ '/')).take 127
    let text := ((c :: rest).drop component.length).dropWhile (· = '/')
    if component = [] then readPieces text else component :: readPieces text
termination_by text => text.length
decreasing_by
  all_goals exact length_unread_lt c rest

theorem readPieces_nil : readPieces [] = [] := by rw [readPieces]

/-- The components of a text between its slashes. -/
def textComponents (text : List Char) : Path := (text.splitOn '/').filter (· ≠ [])

theorem chunks_fuel (fuel fuel' : Nat) (h : c.length ≤ fuel) (h' : c.length ≤ fuel') :
    chunks fuel c = chunks fuel' c := by
  induction fuel generalizing c fuel' with
  | zero => rw [chunks_of_short (by omega), chunks_of_short (by omega)]
  | succ fuel ih =>
    by_cases hshort : c.length ≤ 127
    · rw [chunks_of_short hshort, chunks_of_short hshort]
    · obtain ⟨fuel', rfl⟩ : ∃ n, fuel' = n + 1 := ⟨fuel' - 1, by omega⟩
      rw [chunks, chunks, if_neg hshort, if_neg hshort]
      rw [ih fuel' (by simp; omega) (by simp; omega)]

/-- A component, and what follows the slashes behind it. -/
theorem readPieces_append (hname : '/' ∉ name) (hne : name ≠ []) (hrest : ∀ d, rest.head? = some d → d = '/') :
    readPieces (name ++ rest) = chunks name.length name ++ readPieces (rest.dropWhile (· = '/')) := by
  induction hlength : name.length using Nat.strongRecOn generalizing name with
  | ind n ih =>
  subst hlength
  have hchars : ∀ d ∈ name, decide (d ≠ '/') = true := fun d hd => by
    simpa using fun hslash : d = '/' => hname (hslash ▸ hd)
  have htake : (name ++ rest).takeWhile (· ≠ '/') = name := by
    rw [List.takeWhile_append_of_pos hchars]
    cases rest with
    | nil => simp
    | cons d rest => simp [hrest d rfl]
  obtain ⟨c, tail, hcons⟩ := List.exists_cons_of_ne_nil (show name ++ rest ≠ [] by simp [hne])
  rw [hcons] at htake
  rw [hcons, readPieces, htake, ← hcons]
  have hpiece : name.take 127 ≠ [] := by simpa using hne
  rw [if_neg hpiece]
  by_cases hshort : name.length ≤ 127
  · rw [List.take_of_length_le hshort, List.drop_left, chunks_of_short hshort]
    rfl
  have hlength : (name.take 127).length = 127 := by simp; omega
  have hdrop : name.drop 127 ≠ [] := by simp; omega
  have hslash : '/' ∉ name.drop 127 := fun hd => hname (List.mem_of_mem_drop hd)
  obtain ⟨d, more, hmore⟩ := List.exists_cons_of_ne_nil hdrop
  have hd : d ≠ '/' := fun heq => hslash (by rw [hmore, heq]; exact List.mem_cons_self)
  have hstop : (name.drop 127 ++ rest).dropWhile (· = '/') = name.drop 127 ++ rest := by
    rw [hmore, List.cons_append, List.dropWhile_cons_of_neg (by simpa using hd)]
  obtain ⟨fuel, hfuel⟩ : ∃ n, name.length = n + 1 := ⟨name.length - 1, by omega⟩
  rw [hlength, List.drop_append_of_le_length (by omega), hstop,
    ih (name.drop 127).length (by simp; omega) hslash hdrop rfl, hfuel, chunks, if_neg hshort,
    chunks_fuel (name.drop 127).length fuel (Nat.le_refl _) (by simp; omega)]
  rfl

theorem readPieces_dropWhile (text : List Char) :
    readPieces (text.dropWhile (· = '/')) = pieces (textComponents text) := by
  induction hlength : text.length using Nat.strongRecOn generalizing text with
  | ind n ih =>
  subst hlength
  cases text with
  | nil => exact readPieces_nil
  | cons c rest =>
  by_cases hc : c = '/'
  · subst hc
    rw [List.dropWhile_cons_of_pos (by simp), ih rest.length (by simp) rest rfl, textComponents, textComponents,
      splitOn_slash_cons, List.filter_cons_of_neg (by simp)]
  have htext := List.takeWhile_append_dropWhile (p := (· ≠ '/')) (l := c :: rest)
  have hne : (c :: rest).takeWhile (· ≠ '/') ≠ [] := by simp [hc]
  have hpieces : pieces (textComponents (c :: rest)) =
      chunks ((c :: rest).takeWhile (· ≠ '/')).length ((c :: rest).takeWhile (· ≠ '/')) ++
        pieces (match (c :: rest).dropWhile (· ≠ '/') with
          | [] => []
          | _ :: more => textComponents more) := by
    rw [textComponents, splitOn_slash, List.filter_cons_of_pos (by simpa using hne), pieces, List.flatMap_cons]
    cases (c :: rest).dropWhile (· ≠ '/') <;> rfl
  rw [List.dropWhile_cons_of_neg (by simpa using hc), hpieces]
  conv_lhs => rw [← htext]
  rw [readPieces_append (slash_notMem_takeWhile _) hne fun _ => eq_slash_of_head?_dropWhile]
  congr 1
  cases hmore : (c :: rest).dropWhile (· ≠ '/') with
  | nil => exact readPieces_nil
  | cons d more =>
    have hd : d = '/' := eq_slash_of_head?_dropWhile (by rw [hmore]; rfl)
    have hshorter : more.length < (c :: rest).length := by
      have := (List.dropWhile_sublist (l := c :: rest) (· ≠ '/')).length_le
      rw [hmore, List.length_cons] at this
      omega
    rw [List.dropWhile_cons_of_pos (by simpa using hd)]
    exact ih more.length hshorter more rfl

/-! ### Resolution with the directories of processes -/

/-- What a resolution finds outside the tree. -/
structure World where
  env : Env
  /-- `find_process`. -/
  process : Nat → Bool

def procName : Name := "proc".toList
def statusName : Name := "status".toList

/-- The number that a component of digits stands for, in a 64-bit word. -/
def pidOf (c : Name) : Option Nat :=
  if c.all Char.isDigit then some (c.foldl (fun pid d => (pid * 10 + (d.toNat - '0'.toNat)) % 2 ^ 64) 0) else none

/-- The search for a child, which creates the directory of a process and its file `status`. -/
def findChild (w : World) (s : State) (cur : NodeId) (c : Name) : State × Option NodeId :=
  match s.child cur c with
  | some found => (s, some found)
  | none =>
    if (s.nodes cur).name = procName ∧ (s.nodes cur).parent = some s.root ∧ (pidOf c).any w.process then
      match vfsCreateFile s w.env [procName, c] .dir [] none with
      | (s, none) => (s, none)
      | (s, some _) =>
        let s := (vfsCreateFile s w.env [procName, c, statusName] .chr [] none).1
        (s, s.child cur c)
    else (s, none)

/-- The loop of `vfs_resolve_path_rec`; `follow` resolves the text of a link. -/
def walkIn (w : World) (follow : State → Option NodeId → Target → State × Except Errno NodeId) (followLast : Bool) :
    State → NodeId → List Name → State × Except Errno NodeId
  | s, cur, [] => (s, .ok cur)
  | s, cur, c :: cs =>
    if c = ['.'] then walkIn w follow followLast s cur cs
    else if c = ['.', '.'] then walkIn w follow followLast s ((s.nodes cur).parent.getD cur) cs
    else
      match findChild w s cur c with
      | (s, none) => (s, .error .noent)
      | (s, some found) =>
        if (s.nodes found).type = .link then
          if cs.isEmpty && !followLast then walkIn w follow followLast s found cs
          else
            match (s.nodes found).target with
            | none => (s, .error .noent)
            | some text =>
              match follow s (s.nodes found).parent text with
              | (s, .error e) => (s, .error e)
              | (s, .ok resolved) => walkIn w follow followLast s resolved cs
        else if cs ≠ [] ∧ (s.nodes found).type ≠ .dir then (s, .error .notdir)
        else walkIn w follow followLast s found cs

def resolveRec (w : World) : Nat → State → Option NodeId → Target → Bool → State × Except Errno NodeId
  | 0, s, _, _, _ => (s, .error .loop)
  | levels + 1, s, start, target, followLast =>
    walkIn w (fun s start target => resolveRec w levels s start target true) followLast s
      (if target.absolute then s.root else start.getD s.root) target.comps

/-- `vfs_resolve_path_at`. -/
def resolveText (w : World) (s : State) (start : Option NodeId) (path : List Char) (followLast : Bool) :
    State × Except Errno NodeId :=
  if path = [] then (s, .error .noent)
  else resolveRec w 17 s start ⟨path.head? = some '/', readPieces (path.dropWhile (· = '/'))⟩ followLast

/-- No node that the loop finds is a symbolic link. -/
def MeetsNoLink (w : World) : State → NodeId → List Name → Prop
  | _, _, [] => True
  | s, cur, c :: cs =>
    if c = ['.'] then MeetsNoLink w s cur cs
    else if c = ['.', '.'] then MeetsNoLink w s ((s.nodes cur).parent.getD cur) cs
    else
      match findChild w s cur c with
      | (_, none) => True
      | (s, some found) => (s.nodes found).type ≠ .link ∧ MeetsNoLink w s found cs

/-- A `..` removes a component that fits the buffer. -/
def ShortRemoved : Path → List Name → Prop
  | _, [] => True
  | kept, c :: cs =>
    (c = ['.', '.'] → ∀ last ∈ kept.getLast?, last.length ≤ 127) ∧ ShortRemoved (keepComponent kept c) cs

instance decidableShortRemoved : ∀ kept cs, Decidable (ShortRemoved kept cs)
  | _, [] => isTrue trivial
  | kept, c :: cs => by
      have := decidableShortRemoved (keepComponent kept c) cs
      unfold ShortRemoved
      infer_instance

/-! ### Growing trees -/

/-- Nodes are added; the old ones stay what they are, and every name stands for what it stood for. -/
structure Grows (s s' : State) : Prop where
  root : s'.root = s.root
  node : ∀ n, (s.nodes n).allocated = true → (s'.nodes n).allocated = true ∧
    (s'.nodes n).parent = (s.nodes n).parent ∧ (s'.nodes n).type = (s.nodes n).type ∧
    (s'.nodes n).target = (s.nodes n).target
  child : ∀ n c m, (s.nodes n).allocated = true → s.child n c = some m → s'.child n c = some m

section Grows

variable {s s' s'' : State} {cur m n parent : NodeId} {c : Name} {cs : List Name} {env : Env} {w : World}

theorem Grows.refl (s : State) : Grows s s :=
  ⟨rfl, fun _ hn => ⟨hn, rfl, rfl, rfl⟩, fun _ _ _ _ hc => hc⟩

theorem Grows.trans (h : Grows s s') (h' : Grows s' s'') : Grows s s'' where
  root := h'.root.trans h.root
  node n hn := by
    obtain ⟨ha, hp, ht, hg⟩ := h.node n hn
    obtain ⟨ha', hp', ht', hg'⟩ := h'.node n ha
    exact ⟨ha', hp'.trans hp, ht'.trans ht, hg'.trans hg⟩
  child n c m hn hc := h'.child n c m (h.node n hn).1 (h.child n c m hn hc)

theorem Tree.grows_add (h : Tree s) (type : NodeType) (data : List UInt8) (target : Option Target)
    (hooks atHead : Bool) (hparent : (s.nodes parent).allocated = true) (hfree : s.child parent c = none) :
    Grows s (s.add parent (newNode parent c type data target hooks) atHead) where
  root := rfl
  node n hn := by
    rw [add_old atHead (h.ne_nextNode hparent) _ (h.ne_nextNode hn)]
    exact ⟨hn, rfl, rfl, rfl⟩
  child n c' m hn hc := by
    rw [h.child_add type data target hooks atHead hparent hfree, if_neg, hc]
    rintro ⟨rfl, rfl⟩
    rw [hfree] at hc
    cases hc

/-- `vfs_create_file` only adds nodes. -/
theorem Tree.createLoop_grows {type : NodeType} {data : List UInt8} {target : Option Target} (h : Tree s)
    (hcur : (s.nodes cur).allocated = true) :
    Tree (createLoop env type data target s cur cs).1 ∧ Grows s (createLoop env type data target s cur cs).1 := by
  induction cs generalizing s cur with
  | nil => exact ⟨h, .refl s⟩
  | cons c cs ih =>
  rw [createLoop]
  cases hchild : s.child cur c with
  | some found =>
    dsimp only
    have hfound : (s.nodes found).allocated = true := (h.child cur found (Tree.child_mem hchild).1).2.1
    split
    · exact ⟨h, .refl s⟩
    split
    · split
      · exact ⟨h, .refl s⟩
      split
      · exact ⟨h, .refl s⟩
      · rename_i hresolve
        exact ih h (h.resolve_allocated hcur hresolve)
    · exact ih h hfound
  | none =>
  have hadd (type : NodeType) (data : List UInt8) (target : Option Target) (atHead : Bool) :
      Tree (s.add cur (newNode cur c type data target false) atHead) ∧
        Grows s (s.add cur (newNode cur c type data target false) atHead) :=
    ⟨h.add type data target false atHead hcur hchild, h.grows_add type data target false atHead hcur hchild⟩
  dsimp only
  split
  · split
    · exact ⟨h, .refl s⟩
    split
    · exact hadd ..
    · exact ⟨h, .refl s⟩
  split
  · exact ⟨h, .refl s⟩
  split
  · split
    · exact ⟨h, .refl s⟩
    · exact hadd ..
  obtain ⟨htree, hgrows⟩ := hadd .dir [] none false
  have hnew := congrArg Node.allocated (add_new false (h.ne_nextNode hcur) (newNode cur c .dir [] none false))
  obtain ⟨htree', hgrows'⟩ := ih htree hnew
  exact ⟨htree', hgrows.trans hgrows'⟩

theorem Tree.vfsCreateFile_grows (h : Tree s) (env : Env) (path : Path) (type : NodeType) (data : List UInt8)
    (target : Option Target) :
    Tree (vfsCreateFile s env path type data target).1 ∧ Grows s (vfsCreateFile s env path type data target).1 :=
  h.createLoop_grows h.root.1

/-- The search for a child leaves a tree in which the name stands for what was found. -/
theorem Tree.findChild (h : Tree s) (w : World) (cur : NodeId) (c : Name) :
    Tree (findChild w s cur c).1 ∧ Grows s (findChild w s cur c).1 ∧
      ∀ found, (findChild w s cur c).2 = some found → (findChild w s cur c).1.child cur c = some found := by
  unfold Vfs.findChild
  split
  · rename_i found hchild
    exact ⟨h, .refl s, fun m hm => hm ▸ hchild⟩
  split
  · obtain ⟨htree, hgrows⟩ := h.vfsCreateFile_grows w.env [procName, c] .dir [] none
    split
    · rename_i s₁ hcreate
      rw [hcreate] at htree hgrows
      exact ⟨htree, hgrows, fun _ hm => by cases hm⟩
    rename_i s₁ dir hcreate
    rw [hcreate] at htree hgrows
    obtain ⟨htree', hgrows'⟩ := htree.vfsCreateFile_grows w.env [procName, c, statusName] .chr [] none
    exact ⟨htree', hgrows.trans hgrows', fun _ hm => hm⟩
  · exact ⟨h, .refl s, fun _ hm => by cases hm⟩

end Grows

/-! ### Walks without links -/

/-- A walk that meets no link and creates nothing; all but the last component are directories, and the last one
too if more components follow. -/
def walkPlain (s : State) (more : Bool) : NodeId → List Name → Option NodeId
  | cur, [] => some cur
  | cur, c :: cs =>
    if c = ['.'] then walkPlain s more cur cs
    else if c = ['.', '.'] then walkPlain s more ((s.nodes cur).parent.getD cur) cs
    else
      match s.child cur c with
      | none => none
      | some found =>
        if (s.nodes found).type = .dir ∨ (cs = [] ∧ more = false ∧ (s.nodes found).type ≠ .link) then
          walkPlain s more found cs
        else none

section Plain

variable {s s' : State} {cur d m n : NodeId} {c : Name} {cs cs' : List Name} {w : World} {more followLast : Bool}
  {follow : State → Option NodeId → Target → State × Except Errno NodeId}

theorem walkPlain_cons (hdot : c ≠ ['.']) (hdots : c ≠ ['.', '.']) :
    walkPlain s more cur (c :: cs) = some n ↔ ∃ found, s.child cur c = some found ∧
      ((s.nodes found).type = .dir ∨ (cs = [] ∧ more = false ∧ (s.nodes found).type ≠ .link)) ∧
      walkPlain s more found cs = some n := by
  rw [walkPlain, if_neg hdot, if_neg hdots]
  cases hchild : s.child cur c with
  | none => simp
  | some found => simp

/-- Induction along a walk. -/
theorem walkPlain_rule {motive : NodeId → List Name → Prop} (hnil : motive n [])
    (hdot : ∀ {cur cs}, motive cur cs → motive cur (['.'] :: cs))
    (hdots : ∀ {cur cs}, motive ((s.nodes cur).parent.getD cur) cs → motive cur (['.', '.'] :: cs))
    (hchild : ∀ {cur c cs found}, c ≠ ['.'] → c ≠ ['.', '.'] → s.child cur c = some found →
      (s.nodes found).type = .dir ∨ (cs = [] ∧ more = false ∧ (s.nodes found).type ≠ .link) →
      motive found cs → motive cur (c :: cs)) (h : walkPlain s more cur cs = some n) : motive cur cs := by
  induction cs generalizing cur with
  | nil =>
    cases h
    exact hnil
  | cons c cs ih =>
  by_cases hc : c = ['.']
  · rw [walkPlain, if_pos hc] at h
    exact hc ▸ hdot (ih h)
  by_cases hcs : c = ['.', '.']
  · rw [walkPlain, if_neg hc, if_pos hcs] at h
    exact hcs ▸ hdots (ih h)
  · obtain ⟨found, hfound, htype, hrest⟩ := (walkPlain_cons hc hcs).mp h
    exact hchild hc hcs hfound htype (ih hrest)

theorem walkPlain_append : walkPlain s more cur (cs ++ cs') = some n ↔
    ∃ d, walkPlain s (more || !cs'.isEmpty) cur cs = some d ∧ walkPlain s more d cs' = some n := by
  induction cs generalizing cur with
  | nil => simp [walkPlain]
  | cons c cs ih =>
  by_cases hdot : c = ['.']
  · simp only [List.cons_append, walkPlain, hdot, if_true, ih]
  by_cases hdots : c = ['.', '.']
  · simp only [List.cons_append, walkPlain, hdots, if_neg (show (['.', '.'] : Name) ≠ ['.'] by decide), if_true, ih]
  simp only [List.cons_append, walkPlain_cons hdot hdots, ih]
  constructor
  · rintro ⟨found, hchild, htype, d, hd, hn⟩
    refine ⟨d, ⟨found, hchild, ?_, hd⟩, hn⟩
    rcases htype with hdir | ⟨hnil, hmore, hlink⟩
    · exact .inl hdir
    · obtain ⟨rfl, rfl⟩ := List.append_eq_nil_iff.mp hnil
      exact .inr ⟨rfl, by simpa using hmore, hlink⟩
  · rintro ⟨d, ⟨found, hchild, htype, hd⟩, hn⟩
    refine ⟨found, hchild, ?_, d, hd, hn⟩
    rcases htype with hdir | ⟨rfl, hmore, hlink⟩
    · exact .inl hdir
    · have hmore : more = false ∧ cs' = [] := by simpa using hmore
      exact .inr ⟨by rw [hmore.2]; rfl, hmore.1, hlink⟩

theorem walkPlain_of_more (h : walkPlain s true cur cs = some n) : walkPlain s more cur cs = some n := by
  induction cs generalizing cur with
  | nil => exact h
  | cons c cs ih =>
  by_cases hdot : c = ['.']
  · simp only [walkPlain, hdot, if_true] at h ⊢
    exact ih h
  by_cases hdots : c = ['.', '.']
  · simp only [walkPlain, hdots, if_neg (show (['.', '.'] : Name) ≠ ['.'] by decide), if_true] at h ⊢
    exact ih h
  rw [walkPlain_cons hdot hdots] at h ⊢
  obtain ⟨found, hchild, hdir | ⟨-, hmore, -⟩, hrest⟩ := h
  · exact ⟨found, hchild, .inl hdir, ih hrest⟩
  · cases hmore

/-- A walk that meets no link is one of the tree that it leaves. -/
theorem Tree.walkIn_plain (h : Tree s) (hcur : (s.nodes cur).allocated = true) (hlinks : MeetsNoLink w s cur cs)
    (hwalk : walkIn w follow followLast s cur cs = (s', .ok n)) :
    Tree s' ∧ Grows s s' ∧ walkPlain s' false cur cs = some n := by
  induction cs generalizing s cur with
  | nil =>
    rw [walkIn] at hwalk
    obtain ⟨rfl, hok⟩ := Prod.mk.inj hwalk
    cases hok
    exact ⟨h, .refl s, rfl⟩
  | cons c cs ih =>
  rw [walkIn] at hwalk
  rw [MeetsNoLink] at hlinks
  by_cases hdot : c = ['.']
  · rw [if_pos hdot] at hwalk hlinks
    rw [walkPlain, if_pos hdot]
    exact ih h hcur hlinks hwalk
  rw [if_neg hdot] at hwalk hlinks
  by_cases hdots : c = ['.', '.']
  · rw [if_pos hdots] at hwalk hlinks
    have hparent : (s.nodes ((s.nodes cur).parent.getD cur)).allocated = true := by
      cases hp : (s.nodes cur).parent with
      | none => exact hcur
      | some p => exact (h.parent_allocated hcur hp).2
    obtain ⟨htree, hgrows, hplain⟩ := ih h hparent hlinks hwalk
    rw [walkPlain, if_neg hdot, if_pos hdots, (hgrows.node cur hcur).2.1]
    exact ⟨htree, hgrows, hplain⟩
  rw [if_neg hdots] at hwalk hlinks
  obtain ⟨htree, hgrows, hfind⟩ := h.findChild w cur c
  rcases hfound : Vfs.findChild w s cur c with ⟨s₁, _ | found⟩
  · rw [hfound] at hwalk
    cases (Prod.mk.inj hwalk).2
  rw [hfound] at hwalk hlinks htree hgrows hfind
  dsimp only at hwalk hlinks htree hgrows hfind
  have hchild := hfind found rfl
  rw [if_neg hlinks.1] at hwalk
  split at hwalk
  · cases (Prod.mk.inj hwalk).2
  rename_i htype
  have hallocated := (htree.child cur found (Tree.child_mem hchild).1).2.1
  obtain ⟨htree', hgrows', hplain⟩ := ih htree hallocated hlinks.2 hwalk
  refine ⟨htree', hgrows.trans hgrows', (walkPlain_cons hdot hdots).mpr ⟨found, ?_, ?_, hplain⟩⟩
  · exact hgrows'.child cur c found (hgrows.node cur hcur).1 hchild
  rw [(hgrows'.node found hallocated).2.2.1]
  by_cases hdir : (s₁.nodes found).type = .dir
  · exact .inl hdir
  · exact .inr ⟨not_not.mp fun hne => htype ⟨hne, hdir⟩, rfl, hlinks.1⟩

/-- A walk that the tree allows creates nothing. -/
theorem walkIn_of_plain (h : walkPlain s false cur cs = some n) : walkIn w follow followLast s cur cs = (s, .ok n) := by
  refine walkPlain_rule (motive := fun cur cs => walkIn w follow followLast s cur cs = (s, .ok n)) rfl
    (fun ih => ih) (fun ih => ih) (fun {cur c cs found} hdot hdots hchild htype ih => ?_) h
  have hfind : findChild w s cur c = (s, some found) := by
    rw [findChild, hchild]
  rw [walkIn, if_neg hdot, if_neg hdots, hfind]
  dsimp only
  rw [if_neg (by rcases htype with hdir | ⟨-, -, hlink⟩ <;> simp_all),
    if_neg (by rcases htype with hdir | ⟨hnil, -, -⟩ <;> simp_all)]
  exact ih

theorem meetsNoLink_of_plain (h : walkPlain s false cur cs = some n) : MeetsNoLink w s cur cs := by
  refine walkPlain_rule (motive := MeetsNoLink w s) trivial (fun ih => ih) (fun ih => ih)
    (fun {cur c cs found} hdot hdots hchild htype ih => ?_) h
  have hfind : findChild w s cur c = (s, some found) := by
    rw [findChild, hchild]
  rw [MeetsNoLink, if_neg hdot, if_neg hdots, hfind]
  exact ⟨by rcases htype with hdir | ⟨-, -, hlink⟩ <;> simp_all, ih⟩

end Plain

/-! ### Canonical paths -/

theorem chunks_ne_nil (fuel : Nat) (c : Name) : chunks fuel c ≠ [] := by
  cases fuel with
  | zero => simp [chunks]
  | succ fuel =>
    rw [chunks]
    split <;> simp

theorem pieces_cons (c : Name) (path : Path) : pieces (c :: path) = chunks c.length c ++ pieces path := rfl

theorem pieces_append (path path' : Path) : pieces (path ++ path') = pieces path ++ pieces path' :=
  List.flatMap_append

section Canonical

variable {s s' : State} {cur d n : NodeId} {c : Name} {path kept : Path} {w : World}

/-- A step down and a `..` lead back. -/
theorem Tree.parent_of_walk (h : Tree s) (hdot : c ≠ ['.']) (hdots : c ≠ ['.', '.'])
    (hwalk : walkPlain s true d [c] = some cur) : (s.nodes cur).parent = some d := by
  obtain ⟨found, hchild, -, hrest⟩ := (walkPlain_cons hdot hdots).mp hwalk
  cases hrest
  exact (h.child d cur (Tree.child_mem hchild).1).1

/-- The walk stands where the components that are kept lead to. -/
theorem Tree.walkPlain_canonical (h : Tree s) {comps : List Name} (hcomps : ∀ c ∈ comps, c ≠ [] ∧ '/' ∉ c)
    (hkept : Canonical kept) (hshort : ShortRemoved kept comps)
    (hhere : walkPlain s true s.root (pieces kept) = some cur)
    (hwalk : walkPlain s false cur (pieces comps) = some n) :
    walkPlain s false s.root (pieces (comps.foldl keepComponent kept)) = some n := by
  induction comps generalizing kept cur with
  | nil =>
    cases hwalk
    exact walkPlain_of_more hhere
  | cons c comps ih =>
  obtain ⟨hnil, hslash⟩ := hcomps c List.mem_cons_self
  have hrest : ∀ d ∈ comps, d ≠ [] ∧ '/' ∉ d := fun d hd => hcomps d (List.mem_cons_of_mem c hd)
  have hkeep := hkept.keepComponent hslash
  rw [ShortRemoved] at hshort
  rw [pieces_cons] at hwalk
  rw [List.foldl_cons]
  by_cases hdot : c = ['.']
  · subst hdot
    exact ih hrest hkeep hshort.2 hhere hwalk
  by_cases hdots : c = ['.', '.']
  · subst hdots
    refine ih hrest hkeep hshort.2 ?_ hwalk
    rcases List.eq_nil_or_concat' kept with rfl | ⟨rest, b, rfl⟩
    · -- at the root `..` stays
      cases hhere
      rw [h.root.2.2]
      rfl
    obtain ⟨-, -, hbdot, hbdots⟩ := hkept b (by simp)
    have hb : b.length ≤ 127 := hshort.1 rfl b (by simp)
    rw [pieces_concat (by omega), walkPlain_append] at hhere
    obtain ⟨d, hd, hlast⟩ := hhere
    rw [h.parent_of_walk hbdot hbdots hlast]
    simpa [keepComponent] using hd
  have hkept' : keepComponent kept c = kept ++ [c] := by
    rw [keepComponent, if_neg (by simp [hnil, hdot]), if_neg hdots]
  obtain ⟨d, hd, hwalk⟩ := walkPlain_append.mp hwalk
  have hpieces : pieces (kept ++ [c]) = pieces kept ++ chunks c.length c := by
    rw [pieces_append, pieces_cons]
    exact congrArg _ (List.append_nil _)
  rw [hkept'] at hkeep hshort ⊢
  cases comps with
  | nil =>
    cases hwalk
    rw [List.foldl_nil, hpieces, walkPlain_append]
    exact ⟨cur, walkPlain_of_more hhere, hd⟩
  | cons c' comps =>
    have hmore : (pieces (c' :: comps)).isEmpty = false := by
      simp [pieces_cons, chunks_ne_nil]
    rw [hmore] at hd
    refine ih hrest hkeep hshort.2 ?_ hwalk
    rw [hpieces, walkPlain_append]
    exact ⟨cur, hhere, hd⟩

theorem canonicalComponents_eq (text : List Char) :
    canonicalComponents text = (textComponents text).foldl keepComponent [] := by
  rw [canonicalComponents, textComponents, List.foldl_filter]
  refine congrFun (congrFun (congrArg List.foldl ?_) _) _
  funext kept c
  by_cases hc : c = []
  · simp [hc, keepComponent]
  · simp [hc]

theorem textComponents_pathText (h : Canonical path) : textComponents (pathText path) = path := by
  by_cases hne : path = []
  · rw [hne]
    decide
  · rw [textComponents, splitOn_pathText h hne, List.filter_cons_of_neg (by simp)]
    exact List.filter_eq_self.mpr fun c hc => by simpa using (h c hc).1

theorem mem_textComponents (hc : c ∈ textComponents text) : c ≠ [] ∧ '/' ∉ c := by
  obtain ⟨hmem, hne⟩ := List.mem_filter.mp hc
  exact ⟨by simpa using hne, not_mem_of_mem_splitOn hmem⟩

theorem resolveText_of_plain (habsolute : text.head? = some '/')
    (h : walkPlain s false s.root (pieces (textComponents text)) = some n) (start : Option NodeId) (followLast : Bool) :
    resolveText w s start text followLast = (s, .ok n) := by
  have hne : text ≠ [] := by
    rintro rfl
    cases habsolute
  rw [resolveText, if_neg hne, resolveRec, readPieces_dropWhile]
  simp only [habsolute, decide_true, if_true]
  exact walkIn_of_plain h

/-- **Resolution and canonical paths.** Where the resolution of an absolute path meets no symbolic link and every
component that a `..` removes fits the buffer, the canonical path leads to the same node. -/
theorem resolve_canonicalize (h : Tree s) (w w' : World) {text : List Char} {followLast followLast' : Bool}
    (habsolute : text.head? = some '/') (hshort : ShortRemoved [] (textComponents text))
    (hlinks : MeetsNoLink w s s.root (readPieces (text.dropWhile (· = '/'))))
    (hresolve : resolveText w s (some s.root) text followLast = (s', .ok n)) :
    resolveText w' s' (some s'.root) (vfsCanonicalizePath text) followLast' = (s', .ok n) := by
  have hne : text ≠ [] := by
    rintro rfl
    cases habsolute
  rw [resolveText, if_neg hne, resolveRec] at hresolve
  simp only [habsolute, decide_true, if_true] at hresolve
  obtain ⟨htree, hgrows, hplain⟩ := h.walkIn_plain h.root.1 hlinks hresolve
  rw [readPieces_dropWhile, ← hgrows.root] at hplain
  rw [vfsCanonicalizePath_eq]
  refine resolveText_of_plain rfl ?_ _ _
  rw [textComponents_pathText (canonical_canonicalComponents text), canonicalComponents_eq]
  exact htree.walkPlain_canonical (fun _ => mem_textComponents) canonical_nil hshort rfl hplain

end Canonical

/-! ### A long name -/

def longName : Name := List.replicate 127 'a'

/-- A directory with a name of 127 characters, and the directory `b` in it. -/
def longTree : State :=
  (emptyTree.add 0 (newNode 0 longName .dir [] none false) false).add 1 (newNode 1 ['b'] .dir [] none false) false

theorem longTree_ok : TreeOk longTree := by
  refine (emptyTree_ok.add .dir [] none false false rfl rfl ?_ nofun).add .dir [] none false false ?_ ?_ ?_ nofun
  · decide
  · decide
  · decide
  · decide +kernel

def idleWorld : World := ⟨plainEnv, fun _ => false⟩

theorem resolve_of_plain (habsolute : text.head? = some '/')
    (h : walkPlain longTree false longTree.root (pieces (textComponents text)) = some n) :
    MeetsNoLink idleWorld longTree longTree.root (readPieces (text.dropWhile (· = '/'))) ∧
      resolveText idleWorld longTree (some longTree.root) text true = (longTree, .ok n) := by
  rw [readPieces_dropWhile]
  exact ⟨meetsNoLink_of_plain h, resolveText_of_plain habsolute h _ _⟩

/-- The path goes down both directories, up one, and down again. -/
theorem resolve_canonicalize_up_down : ∃ text : List Char, text = '/' :: longName ++ "/b/./../b/".toList ∧
    TreeOk longTree ∧ text.head? = some '/' ∧ ShortRemoved [] (textComponents text) ∧
    MeetsNoLink idleWorld longTree longTree.root (readPieces (text.dropWhile (· = '/'))) ∧
    resolveText idleWorld longTree (some longTree.root) text true = (longTree, .ok 2) ∧
    resolveText idleWorld longTree (some longTree.root) (vfsCanonicalizePath text) true = (longTree, .ok 2) := by
  obtain ⟨text, htext⟩ : ∃ text : List Char, text = '/' :: longName ++ "/b/./../b/".toList := ⟨_, rfl⟩
  have habsolute : text.head? = some '/' := by rw [htext]; rfl
  have hplain : walkPlain longTree false longTree.root (pieces (textComponents text)) = some 2 := by
    rw [htext]
    decide +kernel
  have hshort : ShortRemoved [] (textComponents text) := by
    rw [htext]
    decide +kernel
  obtain ⟨hlinks, hresolve⟩ := resolve_of_plain habsolute hplain
  exact ⟨text, htext, longTree_ok, habsolute, hshort, hlinks, hresolve,
    resolve_canonicalize longTree_ok.toTree idleWorld idleWorld habsolute hshort hlinks hresolve⟩

/-- The last character of a name of 128 is a component of its own: `..` leads back to the first 127, and the
canonical path is the root. -/
theorem resolve_canonicalize_long_name :
    ¬∀ (s s' : State) (w : World) (text : List Char) (followLast : Bool) (n : NodeId), TreeOk s →
      text.head? = some '/' → MeetsNoLink w s s.root (readPieces (text.dropWhile (· = '/'))) →
      resolveText w s (some s.root) text followLast = (s', .ok n) →
      resolveText w s' (some s'.root) (vfsCanonicalizePath text) followLast = (s', .ok n) := by
  intro hall
  obtain ⟨text, htext⟩ : ∃ text : List Char, text = '/' :: longName ++ "b/..".toList := ⟨_, rfl⟩
  have habsolute : text.head? = some '/' := by rw [htext]; rfl
  have hplain : walkPlain longTree false longTree.root (pieces (textComponents text)) = some 1 := by
    rw [htext]
    decide +kernel
  have hroot : canonicalComponents text = [] := by
    rw [htext]
    decide +kernel
  obtain ⟨hlinks, hresolve⟩ := resolve_of_plain habsolute hplain
  have hsame := hall longTree longTree idleWorld text true 1 longTree_ok habsolute hlinks hresolve
  rw [vfsCanonicalizePath_eq, hroot, resolveText_of_plain (n := 0) rfl rfl] at hsame
  cases (Prod.mk.inj hsame).2

end Litenix.Vfs
