import Litenix.SysMem

/-! Access of the kernel to user memory: `vmm_validate_user_ptr_ex`, `vmm_copy_to_user` and
`vmm_copy_from_user`. A page of memory is an array of 512 words of eight bytes. -/

namespace Litenix

open Lib

def wordByte (word k : Nat) : UInt8 := UInt8.ofNat (word / 256 ^ k)

def setWordByte (word k : Nat) (byte : UInt8) : Nat :=
  word / 256 ^ (k + 1) * 256 ^ (k + 1) + byte.toNat * 256 ^ k + word % 256 ^ k

namespace Phys

def readByte (p : Phys) (phys : Nat) : UInt8 :=
  wordByte (p.mem (pageIndex phys) (phys % vmmPageSize / 8)) (phys % 8)

def writeByte (p : Phys) (phys : Nat) (byte : UInt8) : Phys :=
  let word := p.mem (pageIndex phys) (phys % vmmPageSize / 8)
  p.setWord (pageIndex phys) (phys % vmmPageSize / 8) (setWordByte word (phys % 8) byte)

def writeBytes (p : Phys) (phys : Nat) (bytes : List UInt8) : Phys :=
  bytes.zipIdx.foldl (fun p (byte, i) => p.writeByte (phys + i) byte) p

def readBytes (p : Phys) (phys count : Nat) : List UInt8 := (List.range count).map fun i => p.readByte (phys + i)

end Phys

/-- The word that `walk_to_pte` finds; `0` stands for a missing table too. -/
def pteWord (mem : Nat → Nat → Nat) (root page : Nat) : Nat :=
  match walkToPte mem root page with
  | none => 0
  | some (pt, i) => mem pt i

/-- The area of the current process that covers a page. `vmas` is `none` when the space is not that of the
current process. -/
def coveringVma (vmas : Option VmaTable) (page : Nat) : Option Vma :=
  vmas.bind fun t => (vmaFind t page).map t

variable (p : Phys) (space : AddressSpace) (vmas : Option VmaTable)

/-- The first part of the loop body of `vmm_validate_user_ptr_ex`: a page that is not present is mapped if
an area covers it. -/
def lazyPage (requireWrite : Bool) (page : Nat) : Except Panic (Phys × Bool) :=
  if hasFlag (pteWord p.mem space.root page) vmmPresent then .ok (p, true)
  else
    match coveringVma vmas page with
    | none => .ok (p, false)
    | some vma =>
      if requireWrite && !hasFlag vma.protFlags protWrite then .ok (p, false)
      else if !requireWrite && !hasFlag vma.protFlags protRead then .ok (p, false)
      else mapFreshPage p space page vma.flags fun _ => 0

/-- The last part of the loop body, for a page that has to be made writable. -/
def writablePage (page : Nat) : Except Panic (Phys × Bool) :=
  let resolved : Except Panic Phys :=
    if hasFlag (pteWord p.mem space.root page) vmmCow then (vmmHandleCow p space page).map Prod.fst else .ok p
  match resolved with
  | .error e => .error e
  | .ok p =>
    let p :=
      if hasFlag (pteWord p.mem space.root page) vmmWritable then p
      else
        match coveringVma vmas page with
        | none => p
        | some vma => if hasFlag vma.protFlags protWrite then (vmmProtect p space page vma.flags).1 else p
    .ok (p, hasFlag (pteWord p.mem space.root page) vmmWritable)

def validatePage (requireWrite : Bool) (page : Nat) : Except Panic (Phys × Bool) :=
  match lazyPage p space vmas requireWrite page with
  | .error e => .error e
  | .ok (p, false) => .ok (p, false)
  | .ok (p, true) =>
    let entry := pteWord p.mem space.root page
    if !hasFlag entry vmmPresent then .ok (p, false)
    else if !hasFlag entry vmmUser then .ok (p, false)
    else if requireWrite && !hasFlag entry vmmWritable then writablePage p space vmas page
    else .ok (p, true)

def validatePages (space : AddressSpace) (vmas : Option VmaTable) (requireWrite : Bool) :
    Phys → List Nat → Except Panic (Phys × Bool)
  | p, [] => .ok (p, true)
  | p, page :: rest =>
    match validatePage p space vmas requireWrite page with
    | .error e => .error e
    | .ok (p, false) => .ok (p, false)
    | .ok (p, true) => validatePages space vmas requireWrite p rest

/-- The pages from that of `start` to that of `last`. -/
def touchedPages (start last : Nat) : List Nat := pageAddrs (pageAlignDown start) (pageAlignDown last + 1)

def vmmValidateUserPtrEx (ptr length : Nat) (requireWrite : Bool) : Except Panic (Phys × Bool) :=
  let last := sub64 (add64 ptr length) 1
  if length = 0 then .ok (p, true)
  else if ptr = 0 then .ok (p, false)
  else if last < ptr then .ok (p, false)
  else if ptr < vmmUserBase ∨ vmmUserTop < last then .ok (p, false)
  else if vmmKernelBase ≤ ptr ∨ vmmKernelBase ≤ last then .ok (p, false)
  else validatePages space vmas requireWrite p (touchedPages ptr last)

/-- The copying loop of `vmm_copy_to_user`; each round copies at least one byte, so the fuel is the length. -/
def copyOut (space : AddressSpace) : (fuel : Nat) → Phys → Nat → List UInt8 → Phys × Bool
  | 0, p, _, _ => (p, true)
  | fuel + 1, p, dst, bytes =>
    if bytes = [] then (p, true)
    else
      match vmmVirtToPhys p space dst with
      | none => (p, false)
      | some phys =>
        let chunk := min bytes.length (vmmPageSize - dst % vmmPageSize)
        copyOut space fuel (p.writeBytes phys (bytes.take chunk)) (add64 dst chunk) (bytes.drop chunk)

/-- The flag is `true` for the return value `0` and `false` for `-1`. -/
def vmmCopyToUser (dst : Nat) (bytes : List UInt8) : Except Panic (Phys × Bool) :=
  match vmmValidateUserPtrEx p space vmas dst bytes.length true with
  | .error e => .error e
  | .ok (p, false) => .ok (p, false)
  | .ok (p, true) => .ok (copyOut space bytes.length p dst bytes)

/-- The copying loop of `vmm_copy_from_user`. -/
def copyIn (p : Phys) (space : AddressSpace) : (fuel : Nat) → (src remaining : Nat) → Option (List UInt8)
  | 0, _, _ => some []
  | fuel + 1, src, remaining =>
    if remaining = 0 then some []
    else
      match vmmVirtToPhys p space src with
      | none => none
      | some phys =>
        let chunk := min remaining (vmmPageSize - src % vmmPageSize)
        (copyIn p space fuel (add64 src chunk) (remaining - chunk)).map (p.readBytes phys chunk ++ ·)

def vmmCopyFromUser (src length : Nat) : Except Panic (Phys × Option (List UInt8)) :=
  match vmmValidateUserPtrEx p space vmas src length false with
  | .error e => .error e
  | .ok (p, false) => .ok (p, none)
  | .ok (p, true) => .ok (p, copyIn p space length src length)

end Litenix
