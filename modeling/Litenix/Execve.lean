import Litenix.ElfContents
import Litenix.Login
import Litenix.Signals

/-! `sys_execve` (`sys/sys_file.c`). The strings are copied from the memory of the old image, which is given as the
view that the task has of it; the copies may bring in pages of the old image, and `supply` is the memory after
that. The outcomes of allocations from the kernel heap are inputs. -/

namespace Litenix

open Lib
open Signals (UserMem Sigaction)

variable {n : Nat}

/-! ### Strings from user memory -/

def maxArgv : Nat := 64
def maxArgLen : Nat := 4096
def pathMaxLen : Nat := 256

/-- The loop of `copy_string_from_user`, which copies byte after byte; the fuel is `max_len`. -/
def copyStringLoop (mem : UserMem) (src : UInt64) : (fuel i : Nat) → Option (List UInt8)
  | 0, _ => none
  | fuel + 1, i =>
    match mem.copyFromUser (src + .ofNat i) 1 with
    | none => none
    | some c => if c 0 = 0 then some [] else (copyStringLoop mem src fuel (i + 1)).map (c 0 :: ·)

def copyStringFromUser (mem : UserMem) (src : UInt64) (maxLen : Nat) : Option (List UInt8) :=
  if src = 0 then none else copyStringLoop mem src maxLen 0

/-- The loop that copies `argv` or `envp`; `buf` is the outcome of `kmalloc` for each string. -/
def copyVectorLoop (mem : UserMem) (buf : Nat → Bool) (vector : UInt64) :
    (fuel i : Nat) → Except Errno (List (List UInt8))
  | 0, _ => .ok []
  | fuel + 1, i =>
    match mem.copyFromUser (vector + 8 * .ofNat i) 8 with
    | none => .error .EFAULT
    | some c =>
      if c.u64 0 = 0 then .ok []
      else if !buf i then .error .ENOMEM
      else
        match copyStringFromUser mem (c.u64 0) maxArgLen with
        | none => .error .EFAULT
        | some str => (copyVectorLoop mem buf vector fuel (i + 1)).map (str :: ·)

def copyVector (mem : UserMem) (buf : Nat → Bool) (vector : UInt64) : Except Errno (List (List UInt8)) :=
  if vector = 0 then .ok [] else copyVectorLoop mem buf vector maxArgv 0

/-! ### The state -/

/-- A file that `vfs_lookup_at` finds. `data` is what the buffer holds after the file was read, or `none` when it
cannot be read in full. -/
structure ExecNode where
  type : VfsType
  hasData : Bool
  size : Nat
  attr : Vfs.Attr
  data : Option Bytes

/-- What the call takes from the rest of the kernel. -/
structure ExecEnv where
  load : LoadEnv
  vfsLookupAt : String → List UInt8 → Option ExecNode
  argvBuf : Nat → Bool
  envpBuf : Nat → Bool
  elfBuf : Bool

structure ExecTask where
  cr3 : Nat
  userRip : Nat
  userRsp : Nat

/-- The current task with its process, and the other tasks. -/
structure ExecState where
  supply : Supply
  files : FileTable
  proc : Process
  sigactions : Nat → Sigaction
  task : ExecTask
  others : List ExecTask

/-- `outside` records a write behind the end of `kargv`, `kenvp` or the buffer for the stack. -/
structure ExecReply where
  state : ExecState
  outside : Bool
  ret : Except Errno Nat

def ExecState.fail (st : ExecState) (outside : Bool) (e : Errno) : Except Panic ExecReply := .ok ⟨st, outside, .error e⟩

def Process.creds (proc : Process) : Creds :=
  ⟨⟨.ofNat proc.ruid, .ofNat proc.euid, .ofNat proc.suid⟩, ⟨.ofNat proc.rgid, .ofNat proc.egid, .ofNat proc.sgid⟩⟩

def Process.setCreds (proc : Process) (c : Creds) : Process :=
  { proc with
    ruid := c.uids.real.toNat, euid := c.uids.effective.toNat, suid := c.uids.saved.toNat
    rgid := c.gids.real.toNat, egid := c.gids.effective.toNat, sgid := c.gids.saved.toNat }

/-- `at_secure`: the file changes an effective identifier. -/
def atSecure (attr : Vfs.Attr) (proc : Creds) : Bool :=
  decide (attr.mode &&& 0o4000 ≠ 0 ∧ attr.uid ≠ proc.uids.effective ∨
    attr.mode &&& 0o2000 ≠ 0 ∧ attr.gid ≠ proc.gids.effective)

/-- The checks of the file, with the identifiers of the new program. -/
def execNode (env : ExecEnv) (proc : Process) (path : List UInt8) : Except Errno (ExecNode × Creds) :=
  match env.vfsLookupAt proc.cwd path with
  | none => .error .ENOENT
  | some node =>
    if node.type ≠ .file then .error .EACCES
    else if !node.hasData || node.size = 0 then .error .ENOEXEC
    else (execIdentity node.attr proc.creds).map fun creds => (node, creds)

/-- The body of the loop that closes the descriptors with `FD_CLOEXEC`. -/
def closeFdOnExec (s : Fds) (fd : Fin maxFilesPerProcess) : Fds :=
  match (s.proc.files fd).bind s.files.get with
  | some file => if hasFlag file.fdFlags fdCloexec then s.closeFd fd else s
  | none => s

def closeOnExec (s : Fds) : Fds := (List.finRange maxFilesPerProcess).foldl closeFdOnExec s

/-- The state before the load: the identifiers are set and descriptors are closed. -/
def ExecState.prepare (st : ExecState) (attr : Vfs.Attr) (creds : Creds) : ExecState :=
  let proc := { st.proc.setCreds creds with dumpable := !atSecure attr st.proc.creds }
  let fds := closeOnExec ⟨st.files, proc⟩
  { st with files := fds.files, proc := fds.proc }

theorem prepare_supply (st : ExecState) (attr : Vfs.Attr) (creds : Creds) :
    (st.prepare attr creds).supply = st.supply := by rw [ExecState.prepare]

/-- The load, and the switch of the task to the new image. -/
def execLoad (env : ExecEnv) (st : ExecState) (node : ExecNode) (args : ExecArgs) (outside : Bool) :
    Except Panic ExecReply :=
  if !env.elfBuf then st.fail outside .ENOMEM
  else
    match node.data with
    | none => st.fail outside .EIOErr
    | some bytes =>
      match elfLoadIntoProcess env.load st.supply st.proc ⟨bytes, node.size⟩ args with
      | .error panic => .error panic
      | .ok reply =>
        let st := { st with supply := reply.supply, proc := reply.proc }
        match reply.ret with
        | .error e => st.fail (outside || reply.outside) e
        | .ok (entry, rsp) =>
          .ok ⟨{ st with task := ⟨reply.proc.addressSpace.pml4Phys, entry, rsp⟩ }, outside || reply.outside, .ok 0⟩

/-- The path that the loader gets is the pointer of the caller, with the same string. `kargv[argc] = 0` and
`kenvp[envc] = 0` lie behind the end of a full array. -/
def sysExecve (env : ExecEnv) (mem : UserMem) (st : ExecState) (filename argv envp : UInt64) :
    Except Panic ExecReply :=
  match copyStringFromUser mem filename pathMaxLen with
  | none => st.fail false .EFAULT
  | some path =>
    match copyVector mem env.argvBuf argv with
    | .error e => st.fail false e
    | .ok kargv =>
      match copyVector mem env.envpBuf envp with
      | .error e => st.fail (kargv.length == maxArgv) e
      | .ok kenvp =>
        let outside := kargv.length == maxArgv || kenvp.length == maxArgv
        match execNode env st.proc path with
        | .error e => st.fail outside e
        | .ok (node, creds) =>
          execLoad env (st.prepare node.attr creds) node
            ⟨kargv, kenvp, path, atSecure node.attr st.proc.creds⟩ outside

/-! ### A call that succeeds -/

/-- The parts of a call that returns `0`. -/
structure Execed (env : ExecEnv) (mem : UserMem) (st : ExecState) (filename argv envp : UInt64) (reply : ExecReply)
    (args : ExecArgs) (node : ExecNode) (creds : Creds) (bytes : Bytes) (load : LoadReply) (entry rsp : Nat) :
    Prop where
  pathCopied : copyStringFromUser mem filename pathMaxLen = some args.execPath
  argvCopied : copyVector mem env.argvBuf argv = .ok args.argv
  envpCopied : copyVector mem env.envpBuf envp = .ok args.envp
  found : execNode env st.proc args.execPath = .ok (node, creds)
  read : node.data = some bytes
  loads : elfLoadIntoProcess env.load st.supply (st.prepare node.attr creds).proc ⟨bytes, node.size⟩ args = .ok load
  loaded : load.ret = .ok (entry, rsp)
  state : reply.state = { st.prepare node.attr creds with
    supply := load.supply, proc := load.proc, task := ⟨load.proc.addressSpace.pml4Phys, entry, rsp⟩ }
  outside : reply.outside = (args.argv.length == maxArgv || args.envp.length == maxArgv || load.outside)

variable {env : ExecEnv} {mem : UserMem} {st : ExecState} {filename argv envp : UInt64} {reply : ExecReply}
variable {outside : Bool}

theorem ExecState.fail_ne (h : st.fail outside e = .ok reply) : reply.ret ≠ .ok n := by
  cases h
  exact fun hno => by cases hno

theorem execLoad_ok (h : execLoad env st node args outside = .ok reply) (hret : reply.ret = .ok n) :
    ∃ bytes load entry rsp, node.data = some bytes ∧
      elfLoadIntoProcess env.load st.supply st.proc ⟨bytes, node.size⟩ args = .ok load ∧
      load.ret = .ok (entry, rsp) ∧
      reply = ⟨{ st with
        supply := load.supply, proc := load.proc, task := ⟨load.proc.addressSpace.pml4Phys, entry, rsp⟩ },
        outside || load.outside, .ok 0⟩ := by
  unfold execLoad at h
  split at h
  · exact absurd hret (ExecState.fail_ne h)
  split at h
  · exact absurd hret (ExecState.fail_ne h)
  rename_i bytes hdata
  split at h
  · cases h
  rename_i load hload
  split at h
  · exact absurd hret (ExecState.fail_ne h)
  rename_i entry rsp hloaded
  cases h
  exact ⟨bytes, load, entry, rsp, hdata, hload, hloaded, rfl⟩

theorem sysExecve_ok (h : sysExecve env mem st filename argv envp = .ok reply) (hret : reply.ret = .ok n) :
    ∃ args node creds bytes load entry rsp,
      Execed env mem st filename argv envp reply args node creds bytes load entry rsp := by
  unfold sysExecve at h
  cases hpath : copyStringFromUser mem filename pathMaxLen with
  | none =>
    rw [hpath] at h
    exact absurd hret (ExecState.fail_ne h)
  | some path =>
  cases hargv : copyVector mem env.argvBuf argv with
  | error e =>
    rw [hpath, hargv] at h
    exact absurd hret (ExecState.fail_ne h)
  | ok kargv =>
  cases henvp : copyVector mem env.envpBuf envp with
  | error e =>
    rw [hpath, hargv, henvp] at h
    exact absurd hret (ExecState.fail_ne h)
  | ok kenvp =>
  cases hnode : execNode env st.proc path with
  | error e =>
    simp only [hpath, hargv, henvp, hnode] at h
    exact absurd hret (ExecState.fail_ne h)
  | ok found =>
  obtain ⟨node, creds⟩ := found
  simp only [hpath, hargv, henvp, hnode] at h
  obtain ⟨bytes, load, entry, rsp, hdata, hload, hloaded, rfl⟩ := execLoad_ok h hret
  rw [prepare_supply] at hload
  exact ⟨⟨kargv, kenvp, path, atSecure node.attr st.proc.creds⟩, node, creds, bytes, load, entry, rsp, hpath, hargv,
    henvp, hnode, hdata, hload, hloaded, rfl, rfl⟩

theorem FdMoves.closeOnExec (s : Fds) : FdMoves s (closeOnExec s) := by
  refine foldl_inv (FdMoves s) .refl fun s' fd _ h => ?_
  unfold closeFdOnExec
  split
  · split
    · exact .close h fd
    · exact h
  · exact h

theorem prepare_proc (st : ExecState) (attr : Vfs.Attr) (creds : Creds) :
    ∃ files, (st.prepare attr creds).proc =
      { st.proc.setCreds creds with dumpable := !atSecure attr st.proc.creds, files := files } := by
  obtain ⟨files, hfiles⟩ := FdMoves.onlyFiles <| .closeOnExec
    ⟨st.files, { st.proc.setCreds creds with dumpable := !atSecure attr st.proc.creds }⟩
  refine ⟨files, ?_⟩
  rw [ExecState.prepare, hfiles]

end Litenix
