import Litenix.Ext2

/-! Listing a directory (`sys_getdents64`). The call asks the filesystem for one entry after the other and takes a
positive answer for an entry; `default_dir_readdir` answers `1`, `ext2_readdir` answers `0`. -/

namespace Litenix.Getdents

open Lib

inductive FileType
  | file
  | dir
  | char
  | link
  deriving DecidableEq

/-- `struct vfs_dirent`. -/
structure Dirent where
  name : List UInt8
  inodeNum : Nat
  type : FileType
  deriving DecidableEq

/-- A directory in memory, where the names are `char[128]`, or the block of one on the disk. -/
inductive Directory
  | memory (children : List Dirent) (short : ∀ d ∈ children, d.name.length < 128)
  | ext2 (block : Bytes)

/-- `default_dir_readdir`. -/
def defaultReaddir (children : List Dirent) (index : Nat) : Int × Option Dirent :=
  match children[index]? with
  | none => (0, none)
  | some d => (1, some { d with name := d.name.take 255 })

/-- The entries in use of an ext2 directory block from an offset on. -/
def blockEntries (c : Bytes) : (fuel off : Nat) → List Dirent
  | 0, _ => []
  | fuel + 1, off =>
    if off ≥ 1024 ∨ c.u16 (off + 4) < 8 then []
    else if c.u32 off ≠ 0 then
      ⟨Ext2.nameAt c off, c.u32 off, if c (off + 7) = 2 then .dir else .file⟩ ::
        blockEntries c fuel (off + c.u16 (off + 4))
    else blockEntries c fuel (off + c.u16 (off + 4))

/-- `ext2_readdir`: its loop ends at the entry with the index, and the answer is `-ENOENT` if there is none. -/
def ext2Readdir (c : Bytes) (index : Nat) : Int × Option Dirent :=
  match (blockEntries c 128 0)[index]? with
  | none => (-2, none)
  | some d => (0, some d)

def readdir : Directory → Nat → Int × Option Dirent
  | .memory children _ => defaultReaddir children
  | .ext2 block => ext2Readdir block

/-- `d_type` as the call sets it. -/
def direntType : FileType → Nat
  | .dir => 4
  | .char => 2
  | _ => 8

structure LinuxDirent where
  ino : Nat
  off : Nat
  reclen : Nat
  type : Nat
  name : List UInt8

/-- `sizeof(struct linux_dirent64)` is 24. -/
def entrySize (name : List UInt8) : Nat := (24 + name.length + 1 + 7) / 8 * 8

/-- The loop of `sys_getdents64`: the records, and the new offset; or `-EINVAL`. -/
def fill (dir : Directory) (count : Nat) : (fuel offset written : Nat) → Except Unit (List LinuxDirent × Nat)
  | 0, offset, _ => .ok ([], offset)
  | fuel + 1, offset, written =>
    if written < count then
      match readdir dir offset with
      | (ret, some d) =>
        if ret ≤ 0 then .ok ([], offset)
        else if written + entrySize d.name > count then if written = 0 then .error () else .ok ([], offset)
        else do
          let (rest, offset') ← fill dir count fuel (offset + 1) (written + entrySize d.name)
          return (⟨d.inodeNum, offset + 1, entrySize d.name, direntType d.type, d.name⟩ :: rest, offset')
      | (_, none) => .ok ([], offset)
    else .ok ([], offset)

/-- The records of calls that go on until one returns zero. -/
def listing (dir : Directory) (count : Nat) : (calls offset : Nat) → Except Unit (List LinuxDirent)
  | 0, _ => .ok []
  | calls + 1, offset => do
      let (records, offset') ← fill dir count count offset 0
      if records = [] then return []
      else return records ++ (← listing dir count calls offset')

/-! ### What a listing is for -/

def Directory.entries : Directory → List Dirent
  | .memory children _ => children
  | .ext2 block => blockEntries block 128 0

/-- `d_type` of a type. -/
def FileType.code : FileType → Nat
  | .file => 8
  | .dir => 4
  | .char => 2
  | .link => 10

/-- The listing holds every entry once, with its name, inode number and type. -/
def Lists (dir : Directory) (records : List LinuxDirent) : Prop :=
  records.map (fun r => (r.name, r.ino, r.type)) = dir.entries.map fun d => (d.name, d.inodeNum, d.type.code)

/-- What the records of in-memory nodes say. -/
def reported (d : Dirent) : List UInt8 × Nat × Nat := (d.name.take 255, d.inodeNum, direntType d.type)

variable {children : List Dirent} (short : ∀ d ∈ children, d.name.length < 128) {count : Nat}

theorem entrySize_pos (name : List UInt8) : 32 ≤ entrySize name := by
  unfold entrySize
  omega

/-- A call returns the next entries, one at least if there is one. -/
theorem fill_memory (hfit : ∀ d ∈ children, entrySize d.name ≤ count) (fuel offset written : Nat) :
    ∃ k records, fill (.memory children short) count fuel offset written = .ok (records, offset + k) ∧
      records.map (fun r => (r.name, r.ino, r.type)) = ((children.drop offset).take k).map reported ∧
      records.length = k ∧ (written = 0 → 0 < fuel → offset < children.length → 0 < k) := by
  induction fuel generalizing offset written with
  | zero => exact ⟨0, [], rfl, rfl, rfl, fun _ h => absurd h (Nat.lt_irrefl 0)⟩
  | succ fuel ih =>
  rw [fill]
  by_cases hoffset : offset < children.length
  · have hget : children[offset]? = some children[offset] := List.getElem?_eq_getElem hoffset
    have hsize : entrySize (children[offset].name.take 255) ≤ count := by
      refine (Nat.le_trans ?_ (hfit _ (List.getElem_mem hoffset)))
      unfold entrySize
      rw [List.length_take]
      omega
    have hpos := entrySize_pos (children[offset].name.take 255)
    simp only [readdir, defaultReaddir, hget]
    rw [if_neg (show ¬(1 : Int) ≤ 0 by decide)]
    split
    · split
      · rw [if_neg (by omega)]
        exact ⟨0, [], rfl, rfl, rfl, fun hzero => by omega⟩
      obtain ⟨k, records, hrest, hmap, hlength, -⟩ := ih (offset + 1) (written + entrySize _)
      rw [hrest]
      refine ⟨k + 1, _, by rw [Nat.add_assoc, Nat.add_comm 1]; rfl, ?_, ?_, fun _ _ _ => Nat.succ_pos k⟩
      · rw [List.drop_eq_getElem_cons hoffset, List.take_succ_cons, List.map_cons, List.map_cons, hmap]
        rfl
      · rw [List.length_cons, hlength]
    · exact ⟨0, [], rfl, rfl, rfl, fun hzero => by omega⟩
  · have hget : children[offset]? = none := List.getElem?_eq_none (by omega)
    simp only [readdir, defaultReaddir, hget]
    refine ⟨0, [], by split <;> rfl, rfl, rfl, fun _ _ h => absurd h hoffset⟩

theorem listing_memory (hfit : ∀ d ∈ children, entrySize d.name ≤ count) (calls offset : Nat)
    (hcalls : children.length < offset + calls) :
    ∃ records, listing (.memory children short) count calls offset = .ok records ∧
      records.map (fun r => (r.name, r.ino, r.type)) = (children.drop offset).map reported := by
  induction calls generalizing offset with
  | zero => exact ⟨[], rfl, by rw [List.drop_eq_nil_of_le (by omega)]; rfl⟩
  | succ calls ih =>
  obtain ⟨k, records, hfill, hmap, hlength, hk⟩ := fill_memory short hfit count offset 0
  rw [listing, hfill]
  by_cases hempty : records = []
  · refine ⟨[], if_pos hempty, ?_⟩
    have hzero : k = 0 := by rw [← hlength, hempty]; rfl
    by_cases hoffset : offset < children.length
    · have := hfit _ (List.getElem_mem hoffset)
      have := entrySize_pos children[offset].name
      omega
    · rw [List.drop_eq_nil_of_le (by omega)]
      rfl
  · have hpos : 0 < k := hlength ▸ List.length_pos_iff.mpr hempty
    obtain ⟨rest, hrest, hrestMap⟩ := ih (offset + k) (by omega)
    refine ⟨records ++ rest, ?_, ?_⟩
    · show (if records = [] then _ else _) = _
      rw [if_neg hempty, hrest]
      rfl
    · rw [List.map_append, hmap, hrestMap, ← List.map_append, ← List.drop_drop, List.take_append_drop]

theorem listing_ext2 (block : Bytes) (calls offset : Nat) : listing (.ext2 block) count calls offset = .ok [] := by
  have hfill (fuel written : Nat) : fill (.ext2 block) count fuel offset written = .ok ([], offset) := by
    cases fuel with
    | zero => rfl
    | succ fuel =>
    rw [fill]
    split
    · simp only [readdir, ext2Readdir]
      split
      · rename_i heq
        -- an entry that is found is reported with `0`
        split at heq
        · cases heq
        · cases heq
          exact if_pos le_rfl
      · rfl
    · rfl
  cases calls with
  | zero => rfl
  | succ calls =>
    rw [listing, hfill]
    rfl

/-- No entry is a symbolic link, and none is on the disk. -/
def Listable : Directory → Prop
  | .memory children _ => ∀ d ∈ children, d.type ≠ .link
  | .ext2 block => blockEntries block 128 0 = []

theorem reported_eq_iff {d : Dirent} (hshort : d.name.length < 128) :
    reported d = (d.name, d.inodeNum, d.type.code) ↔ d.type ≠ .link := by
  rw [reported, List.take_of_length_le (by omega)]
  cases htype : d.type <;> simp [direntType, FileType.code]

theorem short_file : ∀ d ∈ [(⟨[97], 5, .file⟩ : Dirent)], d.name.length < 128 := by
  simp

end Litenix.Getdents
