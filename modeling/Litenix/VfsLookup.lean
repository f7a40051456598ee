import Litenix.Vfs

/-! Path resolution. A resolution depends only on the nodes that it meets, so it can be carried from
one tree to another that agrees with the first on a set of nodes closed under the steps of a walk.
The last component of a path is looked up in the directory that the components before it lead to. -/

namespace Litenix.Vfs

variable {s s₁ s₂ s₃ : State} {P : NodeId → Prop} {cur d m n : NodeId} {c base : Name} {cs : List Name} {path ps : Path}
variable {a b : NodeId}

/-! ### Resolution in several trees -/

/-- A walk that both `s₁` and `s₂` allow stays in `P` and is a walk of `s₃`. -/
structure Joint (P : NodeId → Prop) (s₁ s₂ s₃ : State) : Prop where
  root : s₂.root = s₁.root ∧ s₃.root = s₁.root ∧ P s₁.root
  child : ∀ n c a b, P n → s₁.child n c = some a → s₂.child n c = some b → a = b ∧ s₃.child n c = some a ∧ P a
  parent : ∀ n p, P n → (s₁.nodes n).parent = some p → P p
  same : ∀ n, P n → (s₂.nodes n).parent = (s₁.nodes n).parent ∧ (s₃.nodes n).parent = (s₁.nodes n).parent
  type : ∀ n, P n → (s₂.nodes n).type = (s₁.nodes n).type ∧ (s₃.nodes n).type = (s₁.nodes n).type
  target : ∀ n, P n → (s₂.nodes n).target = (s₁.nodes n).target ∧ (s₃.nodes n).target = (s₁.nodes n).target

section Joint

variable {f₁ f₂ f₃ : Option NodeId → Target → Except Errno NodeId} {followLast more followLast' more' : Bool}

/-- The walks may treat the last component differently, as long as they agree on following it. -/
theorem Joint.walk (h : Joint P s₁ s₂ s₃)
    (hflags : ∀ last : Bool, (last && !more && !followLast) = (last && !more' && !followLast'))
    (hfollow : ∀ start text a b, (∀ p, start = some p → P p) → f₁ start text = .ok a → f₂ start text = .ok b →
      a = b ∧ f₃ start text = .ok a ∧ P a) (hcur : P cur)
    (h₁ : walk s₁ f₁ followLast more cur cs = .ok a) (h₂ : walk s₂ f₂ followLast' more' cur cs = .ok b) :
    a = b ∧ Vfs.walk s₃ f₃ followLast' more' cur cs = .ok a ∧ P a := by
  induction cs generalizing cur with
  | nil =>
    cases h₁
    cases h₂
    exact ⟨rfl, rfl, hcur⟩
  | cons c cs ih =>
  rw [Vfs.walk] at h₁ h₂ ⊢
  by_cases hdot : c = ['.']
  · rw [if_pos hdot] at h₁ h₂ ⊢
    exact ih hcur h₁ h₂
  rw [if_neg hdot] at h₁ h₂ ⊢
  by_cases hdots : c = ['.', '.']
  · rw [if_pos hdots] at h₁ h₂ ⊢
    rw [(h.same cur hcur).1] at h₂
    rw [(h.same cur hcur).2]
    refine ih ?_ h₁ h₂
    cases hparent : (s₁.nodes cur).parent with
    | none => exact hcur
    | some p => exact h.parent cur p hcur hparent
  rw [if_neg hdots] at h₁ h₂ ⊢
  cases hchild₁ : s₁.child cur c with
  | none =>
    rw [hchild₁] at h₁
    cases h₁
  | some x =>
  cases hchild₂ : s₂.child cur c with
  | none =>
    rw [hchild₂] at h₂
    cases h₂
  | some y =>
  obtain ⟨rfl, hchild₃, hx⟩ := h.child cur c x y hcur hchild₁ hchild₂
  rw [hchild₁] at h₁
  rw [hchild₂] at h₂
  rw [hchild₃]
  dsimp only at h₁ h₂ ⊢
  rw [(h.type x hx).1, (h.target x hx).1, (h.same x hx).1] at h₂
  rw [(h.type x hx).2, (h.target x hx).2, (h.same x hx).2]
  by_cases hlink : (s₁.nodes x).type = .link
  · rw [if_pos hlink] at h₁ h₂ ⊢
    rw [hflags] at h₁
    split at h₁
    · rename_i hlast
      rw [if_pos hlast] at h₂ ⊢
      exact ih hx h₁ h₂
    rename_i hlast
    rw [if_neg hlast] at h₂ ⊢
    cases htarget : (s₁.nodes x).target with
    | none =>
      rw [htarget] at h₁
      cases h₁
    | some text =>
    rw [htarget] at h₁ h₂
    dsimp only at h₁ h₂ ⊢
    cases hf₁ : f₁ (s₁.nodes x).parent text with
    | error e =>
      rw [hf₁] at h₁
      cases h₁
    | ok a' =>
    cases hf₂ : f₂ (s₁.nodes x).parent text with
    | error e =>
      rw [hf₂] at h₂
      cases h₂
    | ok b' =>
      rw [hf₁] at h₁
      rw [hf₂] at h₂
      obtain ⟨rfl, hf₃, ha'⟩ := hfollow _ text a' b' (fun p hp => h.parent x p hx hp) hf₁ hf₂
      rw [hf₃]
      exact ih ha' h₁ h₂
  rw [if_neg hlink] at h₁ h₂ ⊢
  split at h₂
  · cases h₂
  rename_i hdir
  rw [if_neg hdir]
  split at h₁
  · cases h₁
  · exact ih hx h₁ h₂

theorem Joint.resolve (h : Joint P s₁ s₂ s₃) : ∀ {levels : Nat} {start : Option NodeId} {text : Target}
    {followLast : Bool} {a b : NodeId}, (∀ p, start = some p → P p) →
    vfsResolvePathRec s₁ levels start text followLast = .ok a →
    vfsResolvePathRec s₂ levels start text followLast = .ok b →
    a = b ∧ vfsResolvePathRec s₃ levels start text followLast = .ok a ∧ P a := by
  intro levels
  induction levels with
  | zero => exact fun _ h₁ _ => by cases h₁
  | succ levels ih =>
  intro start text followLast a b hstart h₁ h₂
  rw [vfsResolvePathRec] at h₁ h₂ ⊢
  rw [h.root.1] at h₂
  rw [h.root.2.1]
  refine h.walk (fun _ => rfl) (fun start text a b hs => ih hs) ?_ h₁ h₂
  split
  · exact h.root.2.2
  · cases hs : start with
    | none => exact h.root.2.2
    | some p => exact hstart p hs

end Joint

/-! ### The directory of a path -/

/-- Where the components before the last one lead to. -/
def resolveDir (s : State) (ps : Path) : Except Errno NodeId :=
  walk s (fun start text => vfsResolvePathRec s 16 start text true) false true s.root (pieces ps)

section

variable (h : Joint P s₁ s₂ s₃)

include h

theorem Joint.resolveDir (h₁ : resolveDir s₁ ps = .ok a)
    (h₂ : resolveDir s₂ ps = .ok b) : a = b ∧ Vfs.resolveDir s₃ ps = .ok a ∧ P a := by
  unfold Vfs.resolveDir at h₁ h₂ ⊢
  rw [h.root.1] at h₂
  rw [h.root.2.1]
  exact h.walk (fun _ => rfl) (fun start text a b hs => h.resolve hs) h.root.2.2 h₁ h₂

theorem Joint.lookupDir (h₁ : vfsLookup s₁ ps = .ok a)
    (h₂ : Vfs.resolveDir s₂ ps = .ok b) : a = b ∧ Vfs.resolveDir s₃ ps = .ok a ∧ P a := by
  unfold Vfs.resolveDir at h₂ ⊢
  rw [h.root.1] at h₂
  rw [h.root.2.1]
  exact h.walk (by decide) (fun start text a b hs => h.resolve hs) h.root.2.2 h₁ h₂

theorem Joint.resolveAt
    (h₁ : vfsResolvePathAt s₁ ps followLast = .ok a) (h₂ : vfsResolvePathAt s₂ ps followLast = .ok b) :
    a = b ∧ vfsResolvePathAt s₃ ps followLast = .ok a ∧ P a :=
  h.resolve nofun h₁ h₂

theorem Joint.lookup (h₁ : vfsLookup s₁ ps = .ok a)
    (h₂ : vfsLookup s₂ ps = .ok b) : a = b ∧ vfsLookup s₃ ps = .ok a ∧ P a :=
  h.resolveAt h₁ h₂

end

section Dir

variable {f : Option NodeId → Target → Except Errno NodeId} {followLast : Bool}

/-- A lookup that ends at a directory can be continued. -/
theorem walk_dir_of_lookup (hdir : (s.nodes d).type = .dir) (h : walk s f true false cur cs = .ok d) :
    walk s f followLast true cur cs = .ok d := by
  induction cs generalizing cur with
  | nil => exact h
  | cons c cs ih =>
  rw [walk] at h ⊢
  split
  · rename_i hdot
    rw [if_pos hdot] at h
    exact ih h
  rename_i hdot
  rw [if_neg hdot] at h
  split
  · rename_i hdots
    rw [if_pos hdots] at h
    exact ih h
  rename_i hdots
  rw [if_neg hdots] at h
  cases hchild : s.child cur c with
  | none =>
    rw [hchild] at h
    cases h
  | some x =>
  rw [hchild] at h
  simp only [Bool.not_true, Bool.and_false, Bool.false_and, Bool.false_eq_true, if_false, Bool.not_false,
    true_and] at h ⊢
  split at h
  · rename_i hlink
    rw [if_pos hlink]
    split at h
    · cases h
    · split at h
      · cases h
      · exact ih h
  rename_i hlink
  rw [if_neg hlink]
  split at h
  · cases h
  rename_i hlast
  -- the last component is the directory itself
  have hx : (s.nodes x).type = .dir := by
    cases cs with
    | nil =>
      cases h
      exact hdir
    | cons c' cs' =>
      by_contra hne
      exact hlast ⟨rfl, hne⟩
  rw [if_neg fun hne => hne hx]
  exact ih h

theorem walk_concat (hdot : base ≠ ['.']) (hdots : base ≠ ['.', '.']) :
    walk s f false false cur (cs ++ [base]) = .ok n ↔
      ∃ d, walk s f false true cur cs = .ok d ∧ s.child d base = some n := by
  induction cs generalizing cur with
  | nil =>
    conv_lhs => rw [List.nil_append, walk, if_neg hdot, if_neg hdots]
    cases hchild : s.child cur base with
    | none => simp [walk, hchild]
    | some x =>
      by_cases hlink : (s.nodes x).type = .link <;> simp [walk, hchild, hlink]
  | cons c cs ih =>
  rw [List.cons_append, walk, walk]
  split
  · exact ih
  split
  · exact ih
  cases hchild : s.child cur c with
  | none => simp
  | some x =>
  have hmore : (cs ++ [base]).isEmpty = false := by simp
  simp only [hmore, Bool.and_false, Bool.false_and, Bool.false_eq_true, if_false, Bool.not_false, Bool.not_true,
    true_and]
  split
  · split
    · simp
    · split
      · simp
      · exact ih
  · split
    · simp
    · exact ih

end Dir

theorem chunks_of_short {fuel : Nat} (h : c.length ≤ 127) : chunks fuel c = [c] := by
  cases fuel with
  | zero => rfl
  | succ fuel => exact if_pos h

theorem pieces_concat (h : base.length < 128) : pieces (ps ++ [base]) = pieces ps ++ [base] := by
  unfold pieces
  rw [List.flatMap_append, List.flatMap_singleton, chunks_of_short (by omega)]

/-- The node at a path is the child of the directory of the path. -/
theorem resolve_concat (hlength : base.length < 128) (hdot : base ≠ ['.']) (hdots : base ≠ ['.', '.']) :
    vfsResolvePathAt s (ps ++ [base]) false = .ok n ↔ ∃ d, resolveDir s ps = .ok d ∧ s.child d base = some n := by
  unfold vfsResolvePathAt
  rw [pieces_concat hlength, vfsResolvePathRec]
  exact walk_concat hdot hdots

theorem resolveDir_of_lookup (hdir : (s.nodes d).type = .dir) (h : vfsLookup s ps = .ok d) :
    resolveDir s ps = .ok d := walk_dir_of_lookup hdir h

theorem findParentOf_eq (h : findParentOf s path = some (d, base)) :
    ∃ ps, path = ps ++ [base] ∧ base.length < 128 ∧ vfsLookup s ps = .ok d := by
  unfold findParentOf at h
  cases hlast : path.getLast? with
  | none =>
    rw [hlast] at h
    cases h
  | some b =>
  rw [hlast] at h
  dsimp only at h
  have hpath : path = path.dropLast ++ [b] := by
    obtain ⟨ys, rfl⟩ := List.getLast?_eq_some_iff.mp hlast
    rw [List.dropLast_concat]
  split at h
  · cases h
  split at h
  · rename_i hnil
    cases h
    exact ⟨path.dropLast, hpath, by omega, by rw [hnil]; rfl⟩
  split at h
  · cases h
  split at h
  · rename_i parent hlookup
    cases h
    exact ⟨path.dropLast, hpath, by omega, hlookup⟩
  · cases h

/-- Whether a path can be split depends on its text and on the lookup of its directory. -/
theorem findParentOf_concat (h : findParentOf s (ps ++ [base]) = some (d, base)) {d' : NodeId}
    (hlookup : vfsLookup s₁ ps = .ok d') : findParentOf s₁ (ps ++ [base]) = some (d', base) := by
  unfold findParentOf at h ⊢
  rw [List.getLast?_concat, List.dropLast_concat] at h ⊢
  dsimp only at h ⊢
  split at h
  · cases h
  rename_i hlength
  rw [if_neg hlength]
  split at h
  · rename_i hnil
    rw [if_pos hnil]
    rw [hnil] at hlookup
    cases hlookup
    rfl
  rename_i hnil
  rw [if_neg hnil]
  split at h
  · cases h
  rename_i htext
  rw [if_neg htext, hlookup]

end Litenix.Vfs
