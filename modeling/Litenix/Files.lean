import Litenix.SysMem

/-! Open files and the descriptor table of a process: `file_close` and the calls of `sys_file.c` that move
references. A `struct file` is an entry of a table of files; a freed one has no entry, and its id is not
used again. -/

namespace Litenix

open Lib Function

abbrev NodeId := Nat

def fdCloexec : Nat := 1
def oAppend : Nat := 1024
def oNonblock : Nat := 2048
def oCloexec : Nat := 524288

def fDupfd : Nat := 0
def fGetfd : Nat := 1
def fSetfd : Nat := 2
def fGetfl : Nat := 3
def fSetfl : Nat := 4

/-- The fields `flags` and `fd_flags` are 32-bit words. -/
structure File where
  node : Option NodeId
  offset : Nat
  flags : Nat
  fdFlags : Nat
  refCount : Int

structure FileTable where
  get : FileId → Option File
  next : FileId

namespace FileTable

def set (files : FileTable) (f : FileId) (file : Option File) : FileTable :=
  { files with get := update files.get f file }

/-- `ref_count++`. -/
def take (files : FileTable) (f : FileId) : FileTable :=
  files.set f ((files.get f).map fun file => { file with refCount := file.refCount + 1 })

/-- `kzalloc` of a `struct file` with its first reference. -/
def create (files : FileTable) (file : File) : FileTable × FileId :=
  ({ files.set files.next (some file) with next := files.next + 1 }, files.next)

end FileTable

/-- The last reference frees the file. The `close` callback of the node is left out. -/
def fileClose (files : FileTable) (f : FileId) : FileTable :=
  match files.get f with
  | none => files
  | some file =>
    if file.refCount - 1 = 0 then files.set f none
    else files.set f (some { file with refCount := file.refCount - 1 })

def FileTable.apply (files : FileTable) : FileEvent → FileTable
  | .take f => files.take f
  | .close f => fileClose files f

def FileTable.applyAll (files : FileTable) (events : List FileEvent) : FileTable := events.foldl FileTable.apply files

/-! ### Descriptors -/

/-- The files and the current process. -/
structure Fds where
  files : FileTable
  proc : Process

namespace Fds

def setFd (s : Fds) (fd : Fin maxFilesPerProcess) (f : Option FileId) : Fds :=
  { s with proc := { s.proc with files := update s.proc.files fd f } }

def modify (s : Fds) (f : FileId) (change : File → File) : Fds :=
  { s with files := s.files.set f ((s.files.get f).map change) }

/-- A new descriptor for an open file, whose count goes up. -/
def share (s : Fds) (fd : Fin maxFilesPerProcess) (f : FileId) : Fds :=
  { s.setFd fd (some f) with files := s.files.take f }

/-- A descriptor that is in use is closed. -/
def closeFd (s : Fds) (fd : Fin maxFilesPerProcess) : Fds :=
  match s.proc.files fd with
  | none => s
  | some f => { s.setFd fd none with files := fileClose s.files f }

end Fds

/-- A descriptor in use and its file. -/
def Fds.lookup (s : Fds) (fd : Int) : Option (Fin maxFilesPerProcess × FileId) := do
  let i ← fdIndex fd
  let f ← s.proc.files i
  return (i, f)

def allocFd (proc : Process) : Option (Fin maxFilesPerProcess) := firstSlot fun i => (proc.files i).isNone

def allocFdAbove (proc : Process) (minFd : Nat) : Option (Fin maxFilesPerProcess) :=
  firstSlot fun i => decide (minFd ≤ i.val) && (proc.files i).isNone

def sysClose (s : Fds) (fd : Int) : Fds × Except Errno Nat :=
  match s.lookup fd with
  | none => (s, .error .EBADF)
  | some (i, _) => (s.closeFd i, .ok 0)

def sysDup (s : Fds) (oldfd : Int) : Fds × Except Errno Nat :=
  match s.lookup oldfd with
  | none => (s, .error .EBADF)
  | some (_, f) =>
    match allocFd s.proc with
    | none => (s, .error .EMFILE)
    | some newfd => (s.share newfd f, .ok newfd)

def sysDup2 (s : Fds) (oldfd newfd : Int) : Fds × Except Errno Nat :=
  match s.lookup oldfd, fdIndex newfd with
  | none, _ => (s, .error .EBADF)
  | _, none => (s, .error .EBADF)
  | some (_, f), some new => if oldfd = newfd then (s, .ok new) else ((s.closeFd new).share new f, .ok new)

/-- The flags of `dup3` other than `O_CLOEXEC` are refused. -/
def sysDup3 (s : Fds) (oldfd newfd : Int) (flags : Nat) : Fds × Except Errno Nat :=
  if oldfd = newfd then (s, .error .EINVAL)
  else
    match s.lookup oldfd, fdIndex newfd with
    | none, _ => (s, .error .EBADF)
    | _, none => (s, .error .EBADF)
    | some (_, f), some new =>
      if hasFlag flags (2 ^ 32 - 1 - oCloexec) then (s, .error .EINVAL)
      else
        let s := (s.closeFd new).share new f
        let s := s.modify f fun file =>
          { file with fdFlags := if hasFlag flags oCloexec then file.fdFlags ||| fdCloexec
              else file.fdFlags &&& (2 ^ 32 - 1 - fdCloexec) }
        (s, .ok new)

/-- `arg` is the third argument as a signed 32-bit number. -/
def sysFcntl (s : Fds) (fd : Int) (cmd : Nat) (arg : Int) : Fds × Except Errno Nat :=
  match s.lookup fd with
  | none => (s, .error .EBADF)
  | some (_, f) =>
    match s.files.get f with
    | none => (s, .error .EBADF)
    | some file =>
      let word := (arg % 2 ^ 32).toNat
      if cmd = fGetfd then (s, .ok file.fdFlags)
      else if cmd = fSetfd then (s.modify f fun file => { file with fdFlags := word }, .ok 0)
      else if cmd = fGetfl then (s, .ok file.flags)
      else if cmd = fSetfl then
        let mask := oAppend ||| oNonblock
        (s.modify f fun file =>
          { file with flags := (file.flags &&& (2 ^ 32 - 1 - mask)) ||| (word &&& mask) }, .ok 0)
      else if cmd = fDupfd ∨ cmd = fDupfd + 0x400 then
        match allocFdAbove s.proc arg.toNat with
        | none => (s, .error .EMFILE)
        | some newfd =>
          let s := s.share newfd f
          let s := if cmd = fDupfd then s
            else s.modify f fun file => { file with fdFlags := file.fdFlags ||| fdCloexec }
          (s, .ok newfd)
      else (s, .error .EINVAL)

/-- The end of `open_copied_path_at`, once the node is found and access is granted. The slot of the
descriptor was chosen at the start of the call. -/
def installFile (s : Fds) (fd : Fin maxFilesPerProcess) (node : NodeId) (flags : Nat) : Fds :=
  let (files, f) := s.files.create
    { node := some node, offset := 0, flags := flags
      fdFlags := if hasFlag flags oCloexec then fdCloexec else 0, refCount := 1 }
  { s.setFd fd (some f) with files := files }

/-! ### What the calls do -/

variable {i : Fin maxFilesPerProcess} {s s' : Fds} {f : FileId}

theorem lookup_eq_some (h : s.lookup fd = some (i, f)) : fdIndex fd = some i ∧ s.proc.files i = some f := by
  obtain ⟨j, hj, h⟩ := Option.bind_eq_some_iff.mp h
  obtain ⟨g, hg, h⟩ := Option.bind_eq_some_iff.mp h
  cases h
  exact ⟨hj, hg⟩

theorem fdIndex_inj (ha : fdIndex a = some i) (hb : fdIndex b = some i) : a = b := by
  unfold fdIndex at ha hb
  split at ha
  · split at hb
    · cases ha
      have := congrArg Fin.val (Option.some.inj hb)
      dsimp only at this
      omega
    · cases hb
  · cases ha

/-- The moves that the descriptor calls are made of. A call gets a free slot for a file that it holds or opens. -/
inductive FdMoves (s : Fds) : Fds → Prop
  | refl : FdMoves s s
  | close {s' : Fds} (h : FdMoves s s') (fd : Fin maxFilesPerProcess) : FdMoves s (s'.closeFd fd)
  | share {s' : Fds} {i fd : Fin maxFilesPerProcess} {f : FileId} (h : FdMoves s s') (hf : s'.proc.files i = some f)
      (hfree : s'.proc.files fd = none) : FdMoves s (s'.share fd f)
  | modify {s' : Fds} (h : FdMoves s s') (f : FileId) {change : File → File}
      (hcount : ∀ file, (change file).refCount = file.refCount) : FdMoves s (s'.modify f change)
  | install {s' : Fds} {fd : Fin maxFilesPerProcess} (h : FdMoves s s') (hfree : s'.proc.files fd = none)
      (node : NodeId) (flags : Nat) : FdMoves s (installFile s' fd node flags)

namespace FdMoves

variable (s : Fds)

theorem sysClose (fd : Int) : FdMoves s (sysClose s fd).1 := by
  unfold Litenix.sysClose
  split
  · exact .refl
  · exact .close .refl _

theorem sysDup (oldfd : Int) : FdMoves s (sysDup s oldfd).1 := by
  unfold Litenix.sysDup
  split
  · exact .refl
  rename_i hlookup
  split
  · exact .refl
  · rename_i hnew
    exact .share .refl (lookup_eq_some hlookup).2 (by simpa using firstSlot_some hnew)

/-- The descriptor `new` is closed, and then shares the file of another descriptor. -/
theorem closeShare (hold : s.lookup oldfd = some (i, f)) (hnew : fdIndex newfd = some new) (hne : oldfd ≠ newfd) :
    FdMoves s ((s.closeFd new).share new f) := by
  obtain ⟨hi, hf⟩ := lookup_eq_some hold
  have hdiff : i ≠ new := by
    rintro rfl
    exact hne (fdIndex_inj hi hnew)
  refine .share (i := i) (.close .refl new) ?_ ?_ <;> unfold Fds.closeFd <;> split
  · exact hf
  · exact (update_of_ne hdiff ..).trans hf
  · assumption
  · exact update_self ..

theorem sysDup2 (oldfd newfd : Int) : FdMoves s (sysDup2 s oldfd newfd).1 := by
  unfold Litenix.sysDup2
  split
  · exact .refl
  · exact .refl
  rename_i hold hnew
  split
  · exact .refl
  · exact closeShare s hold hnew (by assumption)

theorem sysDup3 (oldfd newfd : Int) (flags : Nat) : FdMoves s (sysDup3 s oldfd newfd flags).1 := by
  unfold Litenix.sysDup3
  split
  · exact .refl
  rename_i hne
  split
  · exact .refl
  · exact .refl
  rename_i hold hnew
  split
  · exact .refl
  · exact .modify (closeShare s hold hnew hne) _ fun _ => rfl

theorem sysFcntl (fd : Int) (cmd : Nat) (arg : Int) : FdMoves s (sysFcntl s fd cmd arg).1 := by
  unfold Litenix.sysFcntl
  split
  · exact .refl
  rename_i f hlookup
  split
  · exact .refl
  split
  · exact .refl
  split
  · exact .modify .refl f fun _ => rfl
  split
  · exact .refl
  split
  · exact .modify .refl f fun _ => rfl
  split
  · split
    · exact .refl
    rename_i hnew
    have htest := firstSlot_some hnew
    rw [Bool.and_eq_true] at htest
    have hshare := share .refl (lookup_eq_some hlookup).2 (by simpa using htest.2)
    split
    · exact hshare
    · exact .modify hshare f fun _ => rfl
  · exact .refl

end FdMoves

/-- Nothing of the process changes but its descriptor table. -/
def OnlyFiles (s s' : Fds) : Prop := ∃ table, s'.proc = { s.proc with files := table }

theorem OnlyFiles.trans (h : OnlyFiles s s') (h' : OnlyFiles s' s'') : OnlyFiles s s'' := by
  obtain ⟨table, ht⟩ := h
  obtain ⟨table', ht'⟩ := h'
  exact ⟨table', by rw [ht', ht]⟩

theorem FdMoves.onlyFiles (h : FdMoves s s') : OnlyFiles s s' := by
  induction h with
  | refl => exact ⟨s.proc.files, rfl⟩
  | @close s' _ fd ih =>
    refine ih.trans ?_
    unfold Fds.closeFd
    split
    · exact ⟨s'.proc.files, rfl⟩
    · exact ⟨_, rfl⟩
  | share _ _ _ ih | modify _ _ _ ih | install _ _ _ _ ih => exact ih.trans ⟨_, rfl⟩

end Litenix
