import Litenix.Getdents

/-! Mounting a device (`ext2_mount_device`). The named device is read for its magic number. Inodes, directories and
files are read from the device of `ext2_init`, blocks are written to it, and block and inode numbers are checked against
the superblock that `ext2_init` has read. -/

namespace Litenix.Ext2

open Lib Function

abbrev DevId := Nat

/-- The fields of a superblock that the filesystem looks at. -/
structure Superblock where
  magic : Nat
  blocksCount : Nat
  inodesCount : Nat

/-- A block device, with the inode table apart from the other blocks; the size is in bytes. -/
structure Device where
  superblock : Superblock
  size : Nat
  inodes : Nat → Inode
  disk : Nat → Bytes

/-- A node that a mount creates. -/
structure MountNode where
  path : Name
  dir : Bool
  size : Nat
  evd : Evd

/-- The devices, the variables `hda` and `current_sb` of `ext2.c`, and the nodes of all mounts. -/
structure Machine where
  devices : DevId → Device
  hda : Option DevId
  currentSb : Superblock
  nodes : List MountNode

/-- What the filesystem finds on a device when it checks numbers against a superblock. -/
def Device.volume (d : Device) (sb : Superblock) : State where
  blocksCount := min sb.blocksCount ((d.size + 1023) / 1024)
  inodesCount := sb.inodesCount
  inodesPerGroup := 0
  blockBitmap _ := false
  freeBlocks := 0
  inodeBitmap _ := false
  freeInodes := 0
  usedDirs := 0
  inodes := d.inodes
  disk := d.disk
  nodes _ := ⟨false, [], false, 0, 0, [], 0, none⟩
  nextNode := 0

/-- The volume of a device by itself. -/
def Device.own (d : Device) : State := d.volume d.superblock

/-- The volume that the filesystem works on. -/
def Machine.current (m : Machine) : Option State := m.hda.map fun h => (m.devices h).volume m.currentSb

def Machine.setBlock (m : Machine) (dev : DevId) (b : Nat) (c : Bytes) : Machine :=
  { m with devices := update m.devices dev { m.devices dev with disk := update (m.devices dev).disk b c } }

/-- `hda->write`. -/
def Machine.write (m : Machine) (b : Nat) (c : Bytes) : Machine :=
  match m.hda with
  | none => m
  | some h => m.setBlock h b c

/-- `ext2_scan_directory`; a recursion that is deeper than the fuel does not return. -/
def scanDirectory (s : State) : Nat → Name → Nat → Option (List MountNode)
  | 0, _, _ => none
  | fuel + 1, path, ino =>
    match readInode s ino with
    | none => some []
    | some inode =>
      let blocks := ((List.range 12).map inode.block).filter fun b => isValidBlock s b
      let found := (blocks.flatMap fun b => Getdents.blockEntries (s.disk b) 128 0).filter fun d => d.name ≠ []
      (found.mapM fun (d : Getdents.Dirent) =>
        let name := d.name.takeWhile (· ≠ 0)
        match if name = [46] ∨ name = [46, 46] then none else readInode s d.inodeNum with
        | none => some []
        | some child =>
          let node : MountNode :=
            ⟨path ++ 47 :: name, d.type = Getdents.FileType.dir, child.size, ⟨child.block, d.inodeNum⟩⟩
          (if node.dir then scanDirectory s fuel node.path d.inodeNum else some []).map (node :: ·)).map List.flatten

/-- The nodes of a mount: the mount point, and what the scan finds. -/
def mountNodes (s : State) (fuel : Nat) (path : Name) : Option (List MountNode) :=
  match readInode s 2 with
  | none => none
  | some root => (scanDirectory s fuel path 2).map fun nodes => ⟨path, true, 0, ⟨root.block, 2⟩⟩ :: nodes

/-- `ext2_mount_device`, as far as it returns true. -/
def mountDevice (m : Machine) (fuel : Nat) (dev : DevId) (path : Name) : Option Machine :=
  if (m.devices dev).superblock.magic ≠ 0xEF53 then none
  else
    match m.current with
    | none => none
    | some s => (mountNodes s fuel path).map fun nodes => { m with nodes := m.nodes ++ nodes }

/-- The mount shows the device: its tree, the contents of its files and its inodes, and it writes to it. -/
structure Shows (m m' : Machine) (fuel : Nat) (dev : DevId) (path : Name) : Prop where
  tree : ∃ nodes, mountNodes (m.devices dev).own fuel path = some nodes ∧ m'.nodes = m.nodes ++ nodes
  inodes : ∀ ino, m'.current.bind (fun s => readInode s ino) = readInode (m.devices dev).own ino
  files : ∀ evd pos count, m'.current.map (fun s => readLoop s evd count pos count) =
    some (readLoop (m.devices dev).own evd count pos count)
  writes : ∀ b c, m'.write b c = m'.setBlock dev b c

/-- Numbers are checked as against the superblock of the device. -/
def SameChecks (m : Machine) (dev : DevId) : Prop :=
  (∀ b, isValidBlock ((m.devices dev).volume m.currentSb) b = isValidBlock (m.devices dev).own b) ∧
    ∀ ino, isValidInode ((m.devices dev).volume m.currentSb) ino = isValidInode (m.devices dev).own ino

variable {s s' : State} {m m' : Machine} {dev : DevId} {path : Name} {fuel : Nat}

/-! ### Volumes with the same checks -/

section

variable (hblock : ∀ b, isValidBlock s' b = isValidBlock s b) (hdisk : s'.disk = s.disk)

include hblock hdisk

theorem readLoop_congr (evd : Evd) (count : Nat) :
    ∀ pos copy, readLoop s' evd count pos copy = readLoop s evd count pos copy := by
  have hnum (idx : Nat) : getBlockNum s' evd idx = getBlockNum s evd idx := by simp only [getBlockNum, hblock, hdisk]
  induction count with
  | zero => exact fun _ _ => rfl
  | succ count ih =>
    intro pos copy
    simp only [readLoop, hnum, hblock, hdisk, ih]

theorem scanDirectory_congr (hinode : ∀ ino, readInode s' ino = readInode s ino) (fuel : Nat) :
    ∀ path ino, scanDirectory s' fuel path ino = scanDirectory s fuel path ino := by
  induction fuel with
  | zero => exact fun _ _ => rfl
  | succ fuel ih =>
    intro path ino
    simp only [scanDirectory, hinode, hblock, hdisk, ih]

end

/-! ### The device that a mount shows -/

theorem Machine.current_of_hda (h : m.hda = some dev) : m.current = some ((m.devices dev).volume m.currentSb) := by
  rw [Machine.current, h]
  rfl

theorem mountDevice_some (h : mountDevice m fuel dev path = some m') : ∃ s nodes, m.current = some s ∧
    mountNodes s fuel path = some nodes ∧ m' = { m with nodes := m.nodes ++ nodes } := by
  unfold mountDevice at h
  split at h
  · cases h
  split at h
  · cases h
  · rename_i s hs
    obtain ⟨nodes, hnodes, rfl⟩ := Option.map_eq_some_iff.mp h
    exact ⟨s, nodes, hs, hnodes, rfl⟩

/-- A block that is written through the mount is a block of the device. -/
theorem Shows.hda_eq (h : Shows m m' fuel dev path) : m'.hda = some dev := by
  have hwrite := congrArg (fun x => (x.devices dev).disk 0 0)
    (h.writes 0 fun _ => (m'.devices dev).disk 0 0 + 1)
  have hne : (m'.devices dev).disk 0 0 ≠ (m'.devices dev).disk 0 0 + 1 := by simp
  simp only [Machine.write, Machine.setBlock, update_self] at hwrite
  split at hwrite
  · exact absurd hwrite hne
  · rename_i x hx
    dsimp only at hwrite
    by_cases hdev : x = dev
    · rw [hx, hdev]
    · rw [update_of_ne (Ne.symm hdev)] at hwrite
      exact absurd hwrite hne

/-- Two empty devices; the first one is that of `ext2_init`. -/
def twoDevices : Machine where
  devices _ := ⟨⟨0xEF53, 8, 8⟩, 8192, fun _ => ⟨true, 2, 1024, fun _ => 0⟩, fun _ => Bytes.zero⟩
  hda := some 0
  currentSb := ⟨0xEF53, 8, 8⟩
  nodes := []

end Litenix.Ext2
