import Litenix.Lib.Bytes
import Litenix.Lib.Run
import Mathlib.Logic.Function.Basic

/-! The ext2 filesystem (`ext2.c`): the block and inode bitmaps, the block map of a file with its single
and double indirect pointer blocks, directory entries, and the operations on them. Beside the inode on
the disk every node in memory has its own copy of the block pointers.

The disk has one block group. Its bitmaps and its inode table are kept apart from the other blocks,
whose contents are bytes. -/

namespace Litenix.Ext2

open Lib Function

abbrev NodeId := Nat
abbrev Name := List UInt8

inductive Errno
  | nospc
  | noent
  | fbig
  | io
  | nomem
  | exist
  | notempty
deriving DecidableEq

/-- An inode of the table on the disk. -/
structure Inode where
  dir : Bool
  links : Nat
  size : Nat
  block : Nat → Nat

/-- `struct ext2_vfs_data`. -/
structure Evd where
  blocks : Nat → Nat
  inodeNum : Nat

/-- A node of the virtual file system below the mount point. -/
structure Node where
  allocated : Bool
  name : Name
  dir : Bool
  inodeNum : Nat
  parent : NodeId
  children : List NodeId
  size : Nat
  data : Option Evd

structure State where
  /-- The number of blocks, by the superblock and by the size of the device. -/
  blocksCount : Nat
  inodesCount : Nat
  inodesPerGroup : Nat
  /-- Bit `i` is the one of block `i + 1`. -/
  blockBitmap : Nat → Bool
  /-- `bg_free_blocks_count`. -/
  freeBlocks : Nat
  inodeBitmap : Nat → Bool
  /-- `bg_free_inodes_count` and `bg_used_dirs_count`. -/
  freeInodes : Nat
  usedDirs : Nat
  inodes : Nat → Inode
  disk : Nat → Bytes
  nodes : NodeId → Node
  nextNode : NodeId

namespace State

variable (s : State)

def writeBlock (b : Nat) (c : Bytes) : State := { s with disk := update s.disk b c }

def modifyNode (n : NodeId) (f : Node → Node) : State :=
  { s with nodes := update s.nodes n (f (s.nodes n)) }

/-- The copy of the block pointers of a node. -/
def evd (n : NodeId) : Evd := (s.nodes n).data.getD ⟨fun _ => 0, 0⟩

end State

def isValidBlock (s : State) (blk : Nat) : Bool := blk ≠ 0 && blk < s.blocksCount

def isValidInode (s : State) (ino : Nat) : Bool := ino ≠ 0 && ino ≤ s.inodesCount

/-! ### Bitmaps and inodes -/

/-- The first index from `i` on, among the next ones, that a loop stops at. -/
def findFrom (p : Nat → Bool) : Nat → Nat → Option Nat
  | 0, _ => none
  | fuel + 1, i => if p i then some i else findFrom p fuel (i + 1)

def freeBlock (s : State) (blk : Nat) : State :=
  if isValidBlock s blk ∧ blk - 1 < 8192 ∧ s.blockBitmap (blk - 1) then
    { s with
      blockBitmap := update s.blockBitmap (blk - 1) false
      freeBlocks := (s.freeBlocks + 1) % 65536 }
  else s

/-- The bit of a block that can be allocated. -/
def isFreeBit (s : State) (i : Nat) : Bool := !s.blockBitmap i && isValidBlock s (i + 1)

/-- `ext2_alloc_block`; the new block is filled with zeros. -/
def allocBlock (s : State) : Option (Nat × State) :=
  match findFrom (isFreeBit s) 8192 0 with
  | none => none
  | some i =>
    some (i + 1, { s with
      blockBitmap := update s.blockBitmap i true
      freeBlocks := (s.freeBlocks + 65535) % 65536
      disk := update s.disk (i + 1) Bytes.zero })

def freeInode (s : State) (ino : Nat) : State :=
  if isValidInode s ino ∧ ino - 1 < 8192 ∧ s.inodeBitmap (ino - 1) then
    { s with
      inodeBitmap := update s.inodeBitmap (ino - 1) false
      freeInodes := (s.freeInodes + 1) % 65536 }
  else s

def readInode (s : State) (ino : Nat) : Option Inode := if isValidInode s ino then some (s.inodes ino) else none

def saveInode (s : State) (ino : Nat) (inode : Inode) : State :=
  if isValidInode s ino then { s with inodes := update s.inodes ino inode } else s

/-- The bit of an inode that can be allocated. -/
def isFreeInode (s : State) (i : Nat) : Bool := !s.inodeBitmap i && isValidInode s (i + 1)

def allocInode (s : State) (dir : Bool) : Option (Nat × State) :=
  match findFrom (isFreeInode s) (min s.inodesPerGroup 8192 - 10) 10 with
  | none => none
  | some i =>
    let s' : State := { s with
      inodeBitmap := update s.inodeBitmap i true
      freeInodes := (s.freeInodes + 65535) % 65536
      usedDirs := if dir then (s.usedDirs + 1) % 65536 else s.usedDirs }
    some (i + 1, saveInode s' (i + 1) ⟨dir, 1, 0, fun _ => 0⟩)

/-! ### Block maps -/

def getBlockNum (s : State) (evd : Evd) (idx : Nat) : Nat :=
  if idx < 12 then evd.blocks idx
  else if idx - 12 < 256 then
    if isValidBlock s (evd.blocks 12) then (s.disk (evd.blocks 12)).ptr (idx - 12) else 0
  else if (idx - 268) / 256 < 256 then
    if isValidBlock s (evd.blocks 13) then
      let sib := (s.disk (evd.blocks 13)).ptr ((idx - 268) / 256)
      if isValidBlock s sib then (s.disk sib).ptr ((idx - 268) % 256) else 0
    else 0
  else 0

/-- Set a block pointer of a node, in memory and on the disk. -/
def setPointer (s : State) (n : NodeId) (k blk : Nat) : State :=
  let evd := s.evd n
  let s' := s.modifyNode n fun node =>
    { node with data := some { evd with blocks := update evd.blocks k blk } }
  match readInode s' evd.inodeNum with
  | some inode => saveInode s' evd.inodeNum { inode with block := update inode.block k blk }
  | none => s'

/-- Allocate the pointer block `k` of a node if there is none. -/
def ensurePointer (s : State) (n : NodeId) (k : Nat) : State × Option Errno :=
  if (s.evd n).blocks k ≠ 0 then (s, none)
  else
    match allocBlock s with
    | none => (s, some .nospc)
    | some (b, s) => (setPointer (s.writeBlock b Bytes.zero) n k b, none)

/-- Allocate a pointer block of the double indirect block if there is none. -/
def ensureOuter (s : State) (dib i : Nat) : State × Option Errno :=
  let outer := s.disk dib
  if outer.ptr i ≠ 0 then (s, none)
  else
    match allocBlock s with
    | none => (s, some .nospc)
    | some (b, s) => ((s.writeBlock b Bytes.zero).writeBlock dib (outer.setPtr i b), none)

def setBlockNum (s : State) (n : NodeId) (idx blk : Nat) : State × Option Errno :=
  if idx < 12 then (setPointer s n idx blk, none)
  else if idx - 12 < 256 then
    match ensurePointer s n 12 with
    | (s, some e) => (s, some e)
    | (s, none) =>
      let sib := (s.evd n).blocks 12
      (s.writeBlock sib ((s.disk sib).setPtr (idx - 12) blk), none)
  else if (idx - 268) / 256 < 256 then
    match ensurePointer s n 13 with
    | (s, some e) => (s, some e)
    | (s, none) =>
      let dib := (s.evd n).blocks 13
      match ensureOuter s dib ((idx - 268) / 256) with
      | (s, some e) => (s, some e)
      | (s, none) =>
        let sib := (s.disk dib).ptr ((idx - 268) / 256)
        (s.writeBlock sib ((s.disk sib).setPtr ((idx - 268) % 256) blk), none)
  else (s, some .fbig)

/-! ### File contents -/

/-- The loop of `ext2_file_read`. -/
def readLoop (s : State) (evd : Evd) : Nat → Nat → Nat → List UInt8
  | 0, _, _ => []
  | fuel + 1, pos, copy =>
    if copy = 0 then []
    else
      let blk := getBlockNum s evd (pos / 1024)
      if isValidBlock s blk then
        let chunk := min (1024 - pos % 1024) copy
        (List.range chunk).map (fun i => s.disk blk (pos % 1024 + i)) ++
          readLoop s evd fuel (pos + chunk) (copy - chunk)
      else []

def fileRead (s : State) (n : NodeId) (offset count : Nat) : Except Errno (List UInt8) :=
  match (s.nodes n).data with
  | none => .error .io
  | some evd =>
    if offset ≥ (s.nodes n).size then .ok []
    else
      let copy := min count ((s.nodes n).size - offset)
      .ok (readLoop s evd copy offset copy)

/-- Set the size of a node, in memory and on the disk. -/
def setSize (s : State) (n : NodeId) (size : Nat) : State :=
  let ino := (s.evd n).inodeNum
  let s' := s.modifyNode n fun node => { node with size := size }
  match readInode s' ino with
  | some inode => saveInode s' ino { inode with size := size % 2 ^ 32 }
  | none => s'

/-- The block that a write at `pos` goes to, allocated if there is none. -/
def blockFor (s : State) (n : NodeId) (pos : Nat) : State × Except Errno Nat :=
  let blk := getBlockNum s (s.evd n) (pos / 1024)
  if blk ≠ 0 then (s, .ok blk)
  else
    match allocBlock s with
    | none => (s, .error .nospc)
    | some (blk, s) =>
      match setBlockNum s n (pos / 1024) blk with
      | (s, some e) => (s, .error e)
      | (s, none) =>
        if (readInode s (s.evd n).inodeNum).isSome ∧ pos > (s.nodes n).size then (setSize s n pos, .ok blk)
        else (s, .ok blk)

/-- The loop of `ext2_file_write`. -/
def writeLoop (n : NodeId) : Nat → State → Nat → List UInt8 → State × Option Errno
  | 0, s, _, _ => (s, none)
  | fuel + 1, s, pos, buf =>
    if buf = [] then (s, none)
    else
      match blockFor s n pos with
      | (s, .error e) => (s, some e)
      | (s, .ok blk) =>
        let chunk := min (1024 - pos % 1024) buf.length
        let s := s.writeBlock blk ((s.disk blk).put (pos % 1024) (buf.take chunk))
        writeLoop n fuel s ((pos + chunk) % 2 ^ 64) (buf.drop chunk)

/-- `ext2_file_write`; the number of bytes written, or an error. -/
def fileWrite (s : State) (n : NodeId) (offset : Nat) (buf : List UInt8) : State × Except Errno Nat :=
  if (s.nodes n).data.isNone then (s, .error .io)
  else if (offset + buf.length) % 2 ^ 64 > 65804 * 1024 then (s, .error .fbig)
  else
    match writeLoop n buf.length s offset buf with
    | (s, some e) => (s, .error e)
    | (s, none) =>
      if (offset + buf.length) % 2 ^ 64 > (s.nodes n).size then
        (setSize s n ((offset + buf.length) % 2 ^ 64), .ok buf.length)
      else (s, .ok buf.length)

/-! ### Directory entries -/

/-- The name of the entry at an offset. -/
def nameAt (c : Bytes) (off : Nat) : Name := (List.range (c (off + 6)).toNat).map fun i => c (off + 8 + i)

/-- The offset of the first entry with a name and an inode of some kind. An entry takes at least eight
bytes, so there are at most 128 of them. -/
def findEntry (c : Bytes) (accept : Nat → Bool) (name : Name) : Nat → Nat → Option Nat
  | 0, _ => none
  | fuel + 1, off =>
    if off ≥ 1024 ∨ c.u16 (off + 4) < 8 then none
    else if accept (c.u32 off) ∧ nameAt c off = name then some off
    else if off + c.u16 (off + 4) ≥ 1024 then none
    else findEntry c accept name fuel (off + c.u16 (off + 4))

/-- The entry of a name in a directory block. -/
def lookupEntry (c : Bytes) (name : Name) : Option Nat := findEntry c (fun ino => ino ≠ 0) name 128 0

/-- The entries in use from an offset on, with their inodes. -/
def liveEntries (c : Bytes) : Nat → Nat → List (Name × Nat)
  | 0, _ => []
  | fuel + 1, off =>
    if off ≥ 1024 ∨ c.u16 (off + 4) < 8 then []
    else if c.u32 off ≠ 0 then (nameAt c off, c.u32 off) :: liveEntries c fuel (off + c.u16 (off + 4))
    else liveEntries c fuel (off + c.u16 (off + 4))

/-- The end of the loop of `ext2_add_entry`: the offset, and the last entry met. -/
def lastEntry (c : Bytes) : Nat → Nat → Option Nat → Nat × Option Nat
  | 0, off, last => (off, last)
  | fuel + 1, off, last =>
    if off ≥ 1024 ∨ c.u16 (off + 4) = 0 then (off, last)
    else if off + c.u16 (off + 4) ≥ 1024 then (off, some off)
    else lastEntry c fuel (off + c.u16 (off + 4)) (some off)

/-- The space that an entry with a name of this length takes. -/
def entrySize (length : Nat) : Nat := (8 + length + 3) / 4 * 4

/-- An entry of a directory. -/
def entryBytes (ino recLen : Nat) (name : Name) (type : UInt8) : List UInt8 :=
  Bytes.le32 ino ++ Bytes.le16 recLen ++ [UInt8.ofNat name.length, type] ++ name

/-- The directory block of a node. -/
def dirBlock (s : State) (parent : NodeId) : Option Nat :=
  match (s.nodes parent).data with
  | none => none
  | some evd => if isValidBlock s (evd.blocks 0) then some (evd.blocks 0) else none

def addEntry (s : State) (parent : NodeId) (name : Name) (ino : Nat) (type : UInt8) : State × Option Errno :=
  match (s.nodes parent).data with
  | none => (s, some .io)
  | some evd =>
    if evd.blocks 0 = 0 then (s, some .nospc)
    else
      match dirBlock s parent with
      | none => (s, some .io)
      | some block =>
        let c := s.disk block
        match lastEntry c 1024 0 none with
        | (_, none) => (s, some .io)
        | (off, some last) =>
          let minLast := entrySize (c (last + 6)).toNat
          let remaining := (c.u16 (last + 4) + (2 ^ 32 - minLast)) % 2 ^ 32
          if remaining < entrySize name.length then (s, some .nospc)
          else
            let c := c.put (last + 4) (Bytes.le16 minLast)
            (s.writeBlock block (c.put (off + minLast) (entryBytes ino remaining name type)), none)

/-- Clear the inode number of the entry at an offset. -/
def clearEntry (s : State) (block off : Nat) : State :=
  s.writeBlock block ((s.disk block).put off (Bytes.le32 0))

/-! ### Nodes -/

/-- Whether the allocations of a call succeed. -/
structure Memory where
  node : Bool
  evd : Bool

def addNode (s : State) (parent : NodeId) (name : Name) (dir : Bool) (ino : Nat) (data : Option Evd) : State :=
  let n := s.nextNode
  let s' : State := { s with
    nodes := update s.nodes n ⟨true, name, dir, ino, parent, [], 0, data⟩
    nextNode := n + 1 }
  s'.modifyNode parent fun p => { p with children := n :: p.children }

def create (s : State) (mem : Memory) (parent : NodeId) (name : Name) : State × Option Errno :=
  match allocInode s false with
  | none => (s, some .nospc)
  | some (ino, s) =>
    match addEntry s parent name ino 1 with
    | (s, some e) => (s, some e)
    | (s, none) =>
      if mem.node then
        (addNode s parent name false ino (if mem.evd then some ⟨fun _ => 0, ino⟩ else none), none)
      else (s, some .nomem)

/-- The first block of a directory, with the entries `.` and `..`. -/
def newDirBlock (ino parentIno : Nat) : Bytes :=
  (Bytes.zero.put 0 (entryBytes ino 12 [46] 2)).put 12 (entryBytes parentIno 1012 [46, 46] 2)

def mkdir (s : State) (mem : Memory) (parent : NodeId) (name : Name) : State × Option Errno :=
  match allocInode s true with
  | none => (s, some .nospc)
  | some (ino, s) =>
    match addEntry s parent name ino 2 with
    | (s, some e) => (s, some e)
    | (s, none) =>
      match allocBlock s with
      | none => (s, some .nospc)
      | some (block, s) =>
        let s := s.writeBlock block (newDirBlock ino (s.nodes parent).inodeNum)
        let inode := s.inodes ino
        let s := saveInode s ino { inode with links := 2, size := 1024, block := update inode.block 0 block }
        if mem.node then
          (addNode s parent name true ino
            (if mem.evd then some ⟨update (fun _ => 0) 0 block, ino⟩ else none), none)
        else (s, none)

/-- Drop a link of an inode; with the last one its direct blocks and the inode are freed. -/
def dropLink (s : State) (ino : Nat) : State :=
  let inode := s.inodes ino
  if inode.links = 0 then s
  else
    let links := if inode.dir then 0 else inode.links - 1
    if links = 0 then
      let s := (List.range 12).foldl
        (fun s i => if inode.block i ≠ 0 then freeBlock s (inode.block i) else s) s
      freeInode (saveInode s ino { inode with
        links := 0
        size := 0
        block := fun k => if k < 12 then 0 else inode.block k }) ino
    else saveInode s ino { inode with links := links }

/-- `ext2_unlink`. -/
def unlinkEntry (s : State) (parent : NodeId) (name : Name) : State × Option Errno :=
  match dirBlock s parent with
  | none => (s, some .io)
  | some block =>
    match lookupEntry (s.disk block) name with
    | none => (s, some .noent)
    | some off => (dropLink (clearEntry s block off) ((s.disk block).u32 off), none)

/-- `ext2_rename`. -/
def renameEntry (s : State) (oldParent : NodeId) (oldName : Name) (newParent : NodeId) (newName : Name) :
    State × Option Errno :=
  if (s.nodes newParent).data.isNone then (s, some .io)
  else
    match dirBlock s oldParent with
    | none => (s, some .io)
    | some block =>
      match lookupEntry (s.disk block) oldName with
      | none => (s, some .noent)
      | some off =>
        let ino := (s.disk block).u32 off
        match addEntry s newParent newName ino (s.disk block (off + 7)) with
        | (s, some e) => (s, some e)
        | (s, none) =>
          -- the block may be the one that has just been written, so the entry is searched for again
          match findEntry (s.disk block) (fun i => i = ino) oldName 128 0 with
          | some off => (clearEntry s block off, none)
          | none => (s, none)

end Litenix.Ext2
