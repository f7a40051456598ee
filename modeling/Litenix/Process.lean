import Litenix.PageTable

/-! The process structure of `sched/task.h`, with its areas of virtual memory and its descriptor table.
A pointer to a `struct file` is a file id, and a null pointer is `none`. The links between processes, the
signal actions and the identifiers of groups and sessions are left out. -/

namespace Litenix

open Lib

/-- The error numbers of `sys/syscall.h` that the modelled calls return. -/
inductive Errno where
  | EPERM | ENOENT | EIOErr | E2BIG | ENOEXEC | EBADF | ENOMEM | EACCES | EFAULT | EEXIST | ENODEV | ENOTDIR
  | EISDIR | EINVAL | EMFILE | EFBIG | ENOSPC | ENAMETOOLONG | ENOSYS | ENOTEMPTY | ELOOP | ENOTSUP | ESRCH
  | ENOTSOCK | EOPNOTSUPP | EAFNOSUPPORT
  deriving DecidableEq, Repr

/-- The node types of `fs/vfs.h`. -/
inductive VfsType where
  | file | dir | char | link
  deriving DecidableEq, Repr

def vmaMax : Nat := 128

theorem vmaMax_pos : 0 < vmaMax := by decide
def maxFilesPerProcess : Nat := 256
def processHeapMax : Nat := 256 * 1024 * 1024

abbrev FileId := Nat

/-- The field `end` of the source is `stop` here. `flags` are page flags cut to 32 bits. -/
structure Vma where
  start : Nat
  stop : Nat
  protFlags : Nat
  mmapFlags : Nat
  isAnonymous : Bool
  isPrivate : Bool
  file : Option FileId
  fileOffset : Nat
  flags : Nat
  valid : Bool
  deriving DecidableEq

abbrev VmaTable := Fin vmaMax → Vma

/-- The file to which `file_close` is applied when the area goes away. -/
def Vma.backing (vma : Vma) : Option FileId := if vma.isAnonymous then none else vma.file

structure Process where
  addressSpace : AddressSpace
  ownsAddressSpace : Bool
  files : Fin maxFilesPerProcess → Option FileId
  cwd : String
  umask : Nat
  ruid : Nat
  euid : Nat
  suid : Nat
  rgid : Nat
  egid : Nat
  sgid : Nat
  dumpable : Bool
  heapStart : Nat
  heapEnd : Nat
  vmas : VmaTable

/-- The slot of a descriptor in the range of the table. -/
def fdIndex (fd : Int) : Option (Fin maxFilesPerProcess) :=
  if h : 0 ≤ fd ∧ fd < maxFilesPerProcess then some ⟨fd.toNat, by omega⟩ else none

/-- The file of a descriptor. -/
def Process.fdFile (proc : Process) (fd : Int) : Option FileId := (fdIndex fd).bind proc.files

end Litenix
