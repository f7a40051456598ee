import Litenix.Process
import Litenix.VfsCanonical

/-! `sys_chdir`. The canonical path is written into a buffer of `TASK_CWD_MAX` bytes and its length is tested afterwards.
The joined path may be twice as long, and what a later `..` removes has been in the buffer too. -/

namespace Litenix

open Vfs hiding Errno

def taskCwdMax : Nat := 256

/-- The path that is looked up, joined to the working directory unless it is absolute. -/
def joinCwd (cwd path : List Char) : Option (List Char) :=
  if path.head? = some '/' then if 512 ≤ path.length then none else some path
  else if 512 ≤ cwd.length + 1 + path.length then none
  else some (if cwd.getLast? = some '/' then cwd ++ path else cwd ++ '/' :: path)

variable (lookup : List Char → Option VfsType)

/-- The string of the caller up to its NUL is `none` when a byte of it cannot be read, and `lookup` gives the type of the
node at a path. -/
def sysChdir (cwd : List Char) (user : Option (List Char)) : List Char × Except Errno Unit :=
  match user.filter (·.length < taskCwdMax) with
  | none => (cwd, .error .EFAULT)
  | some path =>
    match joinCwd cwd path with
    | none => (cwd, .error .ENAMETOOLONG)
    | some abspath =>
      let cleanpath := vfsCanonicalizePath abspath
      match lookup cleanpath with
      | none => (cwd, .error .ENOENT)
      | some type =>
        if type ≠ .dir then (cwd, .error .ENOTDIR)
        else if taskCwdMax ≤ cleanpath.length then (cwd, .error .ENAMETOOLONG)
        else (cleanpath, .ok ())

/-- After every component the text in the buffer of `vfs_canonicalize_path` leaves room for its NUL. -/
def CleanFits (src : List Char) : Prop :=
  ∀ comps, comps <+: src.splitOn '/' → (comps.foldl canonicalizeComponent ['/']).length < taskCwdMax

/-- The path that a call joins fits the buffer. -/
def ChdirFits (cwd : List Char) (user : Option (List Char)) : Prop :=
  ∀ path ∈ user, path.length < taskCwdMax → ∀ abspath ∈ joinCwd cwd path, CleanFits abspath

/-- The text is a canonical absolute path shorter than `TASK_CWD_MAX`. -/
def CwdOk (cwd : List Char) : Prop := (∃ path, Canonical path ∧ cwd = pathText path) ∧ cwd.length < taskCwdMax

/-- What a call with a given result does: it keeps the working directory or moves to the directory that the path names,
and writes only inside its buffers, the joined path and the canonical one. -/
structure ChdirRight (cwd : List Char) (user : Option (List Char))
    (result : List Char × Except Errno Unit) : Prop where
  ok : CwdOk result.1
  error : ∀ e, result.2 = .error e → result.1 = cwd
  moved : result.2 = .ok () → lookup result.1 = some .dir ∧ ∃ path ∈ user,
    result.1 = vfsCanonicalizePath (if path.head? = some '/' then path else cwd ++ '/' :: path)
  joined : ∀ path ∈ user, ∀ abspath ∈ joinCwd cwd path, abspath.length < 512
  clean : ChdirFits cwd user

variable {cwd path abspath : List Char}

theorem vfsCanonicalizePath_slash (text : List Char) :
    vfsCanonicalizePath ('/' :: text) = vfsCanonicalizePath text := by
  rw [vfsCanonicalizePath_eq_foldl, vfsCanonicalizePath_eq_foldl, splitOn_slash_cons]
  rfl

theorem joinCwd_spec (hcwd : CwdOk cwd) (h : joinCwd cwd path = some abspath) : abspath.length < 512 ∧
    vfsCanonicalizePath abspath = vfsCanonicalizePath (if path.head? = some '/' then path else cwd ++ '/' :: path) := by
  unfold joinCwd at h
  by_cases habsolute : path.head? = some '/'
  · rw [if_pos habsolute] at h ⊢
    split at h
    · cases h
    · cases h
      exact ⟨by omega, rfl⟩
  rw [if_neg habsolute] at h ⊢
  split at h
  · cases h
  cases h
  split
  · -- only the root ends in a slash
    rename_i hslash
    obtain ⟨⟨comps, hcomps, rfl⟩, -⟩ := hcwd
    obtain rfl : comps = [] := by
      by_contra hne
      exact getLast?_pathText hcomps hne hslash
    exact ⟨by simp [pathText] at *; omega, (vfsCanonicalizePath_slash ('/' :: path)).symm⟩
  · exact ⟨by simp; omega, rfl⟩

theorem sysChdir_cases (cwd : List Char) (user : Option (List Char)) :
    (∃ e, sysChdir lookup cwd user = (cwd, .error e)) ∨ ∃ path ∈ user, ∃ abspath ∈ joinCwd cwd path,
      lookup (vfsCanonicalizePath abspath) = some .dir ∧ (vfsCanonicalizePath abspath).length < taskCwdMax ∧
      sysChdir lookup cwd user = (vfsCanonicalizePath abspath, .ok ()) := by
  unfold sysChdir
  split
  · exact .inl ⟨_, rfl⟩
  rename_i path hpath
  split
  · exact .inl ⟨_, rfl⟩
  rename_i abspath habs
  dsimp only
  split
  · exact .inl ⟨_, rfl⟩
  rename_i type htype
  split
  · exact .inl ⟨_, rfl⟩
  split
  · exact .inl ⟨_, rfl⟩
  · rename_i hdir hlen
    exact .inr ⟨path, (Option.filter_eq_some_iff.mp hpath).1, abspath, habs, htype.trans (by simpa using hdir),
      not_le.mp hlen, rfl⟩

/-- A call from a good working directory is right exactly if its path fits. -/
theorem chdirRight_iff (hcwd : CwdOk cwd) (user : Option (List Char)) : CwdOk (sysChdir lookup cwd user).1 ∧
      (ChdirRight lookup cwd user (sysChdir lookup cwd user) ↔ ChdirFits cwd user) := by
  have hjoined : ∀ path ∈ user, ∀ abspath ∈ joinCwd cwd path, abspath.length < 512 :=
    fun _ _ _ habs => (joinCwd_spec hcwd habs).1
  rcases sysChdir_cases lookup cwd user with ⟨e, heq⟩ | ⟨path, hpath, abspath, habs, hdir, hlen, heq⟩ <;> rw [heq]
  · exact ⟨hcwd, fun h => h.clean, fun h => ⟨hcwd, fun _ _ => rfl, fun hno => (by cases hno), hjoined, h⟩⟩
  · have hok : CwdOk (vfsCanonicalizePath abspath) :=
      ⟨⟨_, canonical_canonicalComponents abspath, vfsCanonicalizePath_eq abspath⟩, hlen⟩
    exact ⟨hok, fun h => h.clean, fun h => ⟨hok, fun _ hno => (by cases hno),
      fun _ => ⟨hdir, path, hpath, (joinCwd_spec hcwd habs).2⟩, hjoined, h⟩⟩

/-- The working directory after a sequence of calls. -/
def cwdAfter (calls : List ((List Char → Option VfsType) × Option (List Char))) : List Char :=
  calls.foldl (fun cwd call => (sysChdir call.1 cwd call.2).1) ['/']

end Litenix
