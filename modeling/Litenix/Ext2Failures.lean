import Litenix.Ext2Blocks

/-! Calls of the ext2 filesystem that fail (`ext2.c`). `ext2_create` and `ext2_mkdir` take an inode before they know
whether the directory has room, and `ext2_file_write` attaches block after block; none of them gives anything back. -/

namespace Litenix.Ext2

open Lib Function

variable {s s' : State} {n : NodeId} {b k fuel i pos : Nat}

theorem findFrom_none (h : findFrom p fuel i = none) : ∀ k, i ≤ k → k < i + fuel → p k = false := by
  induction fuel generalizing i with
  | zero =>
    intro k hlo hhi
    omega
  | succ fuel ih =>
  rw [findFrom] at h
  split at h
  · cases h
  rename_i hp
  intro k hlo hhi
  rcases Nat.eq_or_lt_of_le hlo with rfl | hlt
  · exact Bool.eq_false_of_not_eq_true hp
  · exact ih h k hlt (by omega)

/-! ### New files and directories -/

/-- Everything that a call that fails has to leave as it was. -/
structure Unchanged (s s' : State) : Prop where
  inodeBitmap : s'.inodeBitmap = s.inodeBitmap
  blockBitmap : s'.blockBitmap = s.blockBitmap
  counters : s'.freeBlocks = s.freeBlocks ∧ s'.freeInodes = s.freeInodes ∧ s'.usedDirs = s.usedDirs
  entries : ∀ n, (dirBlock s' n).map (fun b => liveEntries (s'.disk b) 128 0) =
    (dirBlock s n).map fun b => liveEntries (s.disk b) 128 0
  children : ∀ n, (s'.nodes n).children = (s.nodes n).children

/-- No inode can be allocated. -/
def NoInode (s : State) : Prop := ∀ i, 10 ≤ i → i < min s.inodesPerGroup 8192 → isFreeInode s i = false

/-- The last entry of a directory has room for a new one behind it. -/
def HasRoom (s : State) (parent : NodeId) (name : Name) : Prop :=
  ∃ block off last, dirBlock s parent = some block ∧ lastEntry (s.disk block) 1024 0 none = (off, some last) ∧
    entrySize name.length ≤
      ((s.disk block).u16 (last + 4) + (2 ^ 32 - entrySize (s.disk block (last + 6)).toNat)) % 2 ^ 32

/-- A block can be allocated. -/
def HasBlock (s : State) : Prop := ∃ i < 8192, isFreeBit s i = true

theorem allocInode_none_iff (dir : Bool) : allocInode s dir = none ↔ NoInode s := by
  unfold allocInode
  split
  · rename_i hfind
    exact iff_of_true rfl fun i hlo hhi => findFrom_none hfind i hlo (by omega)
  rename_i i hfind
  obtain ⟨hlo, hhi, hfree⟩ := findFrom_some hfind
  refine iff_of_false (by simp) fun hno => ?_
  rw [hno i hlo (by omega)] at hfree
  cases hfree

theorem saveInode_eq (s : State) (ino : Nat) (inode : Inode) : ∃ inodes, saveInode s ino inode = { s with inodes := inodes } := by
  unfold saveInode
  split
  · exact ⟨_, rfl⟩
  · exact ⟨s.inodes, rfl⟩

theorem allocInode_some (h : allocInode s dir = some (ino, s')) :
    s.inodeBitmap (ino - 1) = false ∧ s'.inodeBitmap (ino - 1) = true ∧ s'.blockBitmap = s.blockBitmap ∧
      s'.blocksCount = s.blocksCount ∧ s'.disk = s.disk ∧ s'.nodes = s.nodes := by
  unfold allocInode at h
  split at h
  · cases h
  rename_i i hfind
  cases h
  obtain ⟨-, -, hfree⟩ := findFrom_some hfind
  have hbit : s.inodeBitmap i = false := by
    simpa using (Bool.and_eq_true_iff.mp hfree).1
  obtain ⟨inodes, hsave⟩ := saveInode_eq _ (i + 1) ⟨dir, 1, 0, fun _ => 0⟩
  rw [hsave]
  exact ⟨hbit, update_self .., rfl, rfl, rfl, rfl⟩

/-- An entry is added exactly if there is room, and nothing happens if there is none. -/
theorem addEntry_cases (s : State) (parent : NodeId) (name : Name) (ino : Nat) (type : UInt8) :
    (HasRoom s parent name ∧ ∃ block c, addEntry s parent name ino type = (s.writeBlock block c, none)) ∨
      ¬HasRoom s parent name ∧ ∃ e, addEntry s parent name ino type = (s, some e) := by
  unfold addEntry
  split
  · rename_i hdata
    exact .inr ⟨by simp [HasRoom, dirBlock, hdata], _, rfl⟩
  rename_i evd hdata
  split
  · rename_i hzero
    exact .inr ⟨by simp [HasRoom, dirBlock, hdata, hzero, isValidBlock], _, rfl⟩
  split
  · rename_i hnone
    exact .inr ⟨by simp [HasRoom, hnone], _, rfl⟩
  rename_i block hblock
  dsimp only
  split
  · rename_i off hlast
    exact .inr ⟨by simp [HasRoom, hblock, hlast], _, rfl⟩
  rename_i off last hlast
  split
  · rename_i hfull
    exact .inr ⟨by simpa [HasRoom, hblock, hlast] using hfull, _, rfl⟩
  · rename_i hroom
    exact .inl ⟨⟨block, off, last, hblock, hlast, Nat.le_of_not_lt hroom⟩, _, _, rfl⟩

theorem HasRoom.congr (hdisk : s'.disk = s.disk) (hnodes : s'.nodes = s.nodes) (hcount : s'.blocksCount = s.blocksCount)
    (parent : NodeId) (name : Name) : HasRoom s' parent name ↔ HasRoom s parent name := by
  have hblock : dirBlock s' parent = dirBlock s parent := by
    unfold dirBlock isValidBlock
    rw [hnodes, hcount]
  unfold HasRoom
  rw [hblock, hdisk]

theorem not_unchanged (hold : s.inodeBitmap i = false) (hnew : s'.inodeBitmap i = true) :
    ¬Unchanged s s' := fun h => by
  rw [h.inodeBitmap, hold] at hnew
  cases hnew

theorem Unchanged.refl (s : State) : Unchanged s s := ⟨rfl, rfl, ⟨rfl, rfl, rfl⟩, fun _ => rfl, fun _ => rfl⟩

theorem create_undone_iff (s : State) (mem : Memory) (parent : NodeId) (name : Name) :
    (∀ e, (create s mem parent name).2 = some e → Unchanged s (create s mem parent name).1) ↔
      NoInode s ∨ HasRoom s parent name ∧ mem.node = true := by
  unfold create
  rw [← allocInode_none_iff false]
  split
  · rename_i hnone
    exact iff_of_true (fun _ _ => .refl s) (.inl hnone)
  rename_i ino s₁ hsome
  obtain ⟨hold, hnew, -, hcount, hdisk, hnodes⟩ := allocInode_some hsome
  have hroom := HasRoom.congr hdisk hnodes hcount parent name
  rw [or_iff_right (by simp [hsome])]
  rcases addEntry_cases s₁ parent name ino 1 with ⟨hyes, block, c, hadd⟩ | ⟨hno, e, hadd⟩
  · simp only [hadd]
    by_cases hmem : mem.node = true
    · rw [if_pos hmem]
      exact iff_of_true (fun e he => (by cases he)) ⟨hroom.mp hyes, hmem⟩
    rw [if_neg hmem]
    refine iff_of_false (fun h => not_unchanged hold ?_ (h .nomem rfl)) fun hyes => hmem hyes.2
    exact hnew
  · simp only [hadd]
    exact iff_of_false (fun h => not_unchanged hold hnew (h e rfl)) fun hyes => hno (hroom.mpr hyes.1)

theorem allocBlock_none_iff : allocBlock s = none ↔ ¬HasBlock s := by
  unfold allocBlock
  split
  · rename_i hfind
    refine iff_of_true rfl ?_
    rintro ⟨i, hi, hfree⟩
    rw [findFrom_none hfind i (Nat.zero_le i) (by omega)] at hfree
    cases hfree
  · rename_i i hfind
    obtain ⟨-, hlt, hfree⟩ := findFrom_some hfind
    exact iff_of_false (by simp) (not_not.mpr ⟨i, by omega, hfree⟩)

theorem mkdir_undone_iff (s : State) (mem : Memory) (parent : NodeId) (name : Name) :
    (∀ e, (mkdir s mem parent name).2 = some e → Unchanged s (mkdir s mem parent name).1) ↔
      NoInode s ∨ HasRoom s parent name ∧ HasBlock s := by
  unfold mkdir
  rw [← allocInode_none_iff true]
  split
  · rename_i hnone
    exact iff_of_true (fun _ _ => .refl s) (.inl hnone)
  rename_i ino s₁ hsome
  obtain ⟨hold, hnew, hbitmap, hcount, hdisk, hnodes⟩ := allocInode_some hsome
  have hroom := HasRoom.congr hdisk hnodes hcount parent name
  rw [or_iff_right (by simp [hsome])]
  rcases addEntry_cases s₁ parent name ino 2 with ⟨hyes, block, c, hadd⟩ | ⟨hno, e, hadd⟩
  · simp only [hadd]
    have hblock : HasBlock (s₁.writeBlock block c) ↔ HasBlock s := by
      simp only [HasBlock, isFreeBit, isValidBlock, State.writeBlock, hbitmap, hcount]
    split
    · rename_i hnone
      refine iff_of_false (fun h => not_unchanged hold ?_ (h .nospc rfl)) fun hyes =>
        allocBlock_none_iff.mp hnone (hblock.mpr hyes.2)
      exact hnew
    · rename_i newBlock s₂ halloc
      refine iff_of_true (fun e he => ?_) ⟨hroom.mp hyes, hblock.mp ?_⟩
      · split at he <;> cases he
      · by_contra hnot
        rw [allocBlock_none_iff.mpr hnot] at halloc
        cases halloc
  · simp only [hadd]
    exact iff_of_false (fun h => not_unchanged hold hnew (h e rfl)) fun hyes => hno (hroom.mpr hyes.1)

theorem rename_undone (s : State) (oldParent : NodeId) (oldName : Name) (newParent : NodeId) (newName : Name)
    {e : Errno} (h : (renameEntry s oldParent oldName newParent newName).2 = some e) :
    Unchanged s (renameEntry s oldParent oldName newParent newName).1 := by
  unfold renameEntry at *
  split
  · exact .refl s
  rename_i hdata
  rw [if_neg hdata] at h
  split
  · exact .refl s
  rename_i block hblock
  simp only [hblock] at h
  split
  · exact .refl s
  rename_i off hoff
  simp only [hoff] at h
  rcases addEntry_cases s newParent newName ((s.disk block).u32 off) (s.disk block (off + 7)) with
    ⟨-, block', c, hadd⟩ | ⟨-, e', hadd⟩
  · simp only [hadd] at h
    split at h <;> cases h
  · simp only [hadd]
    exact .refl s

/-- A call that fails leaves everything as it was exactly if no inode is free, or there is room for the entry and
what comes after it does not fail; a rename always does. -/
theorem failed_call_undone_iff (s : State) (mem : Memory) (parent : NodeId) (name : Name) (newParent : NodeId)
    (newName : Name) :
    ((∀ e, (create s mem parent name).2 = some e → Unchanged s (create s mem parent name).1) ↔
      NoInode s ∨ HasRoom s parent name ∧ mem.node = true) ∧
    ((∀ e, (mkdir s mem parent name).2 = some e → Unchanged s (mkdir s mem parent name).1) ↔
      NoInode s ∨ HasRoom s parent name ∧ HasBlock s) ∧
    ∀ e, (renameEntry s parent name newParent newName).2 = some e →
      Unchanged s (renameEntry s parent name newParent newName).1 :=
  ⟨create_undone_iff s mem parent name, mkdir_undone_iff s mem parent name,
    fun _ h => rename_undone s parent name newParent newName h⟩

/-- A small disk. Node 1 is a directory with the block 5. -/
def smallDisk (dirBlock : Bytes) (usedBlocks : Nat → Bool) : State where
  blocksCount := 64
  inodesCount := 32
  inodesPerGroup := 32
  blockBitmap := usedBlocks
  freeBlocks := 1
  inodeBitmap := fun i => i < 11
  freeInodes := 21
  usedDirs := 1
  inodes := fun _ => ⟨false, 1, 0, fun _ => 0⟩
  disk := update (fun _ => Bytes.zero) 5 dirBlock
  nodes := fun n =>
    if n = 1 then ⟨true, [], true, 2, 0, [], 1024, some ⟨update (fun _ => 0) 0 5, 2⟩⟩
    else ⟨true, [], false, 12, 1, [], 0, some ⟨fun _ => 0, 12⟩⟩
  nextNode := 3

/-- A directory block with four entries that leave no room. -/
def fullBlock : Bytes :=
  (((Bytes.zero.put 0 (Bytes.le32 11 ++ Bytes.le16 264 ++ [255, 1])).put 264
    (Bytes.le32 12 ++ Bytes.le16 264 ++ [255, 1])).put 528 (Bytes.le32 13 ++ Bytes.le16 264 ++ [255, 1])).put 792
    (Bytes.le32 14 ++ Bytes.le16 232 ++ [224, 1])

/-- A file is created in a full directory: the call fails, and the inode that it has taken stays marked. -/
theorem failed_create_takes_inode : (create (smallDisk fullBlock fun _ => true) ⟨true, true⟩ 1 [97]).2 = some .nospc ∧
    ¬Unchanged (smallDisk fullBlock fun _ => true)
      (create (smallDisk fullBlock fun _ => true) ⟨true, true⟩ 1 [97]).1 := by
  refine ⟨by decide +kernel, not_unchanged (i := 11) rfl ?_⟩
  decide +kernel

/-! ### Writes -/

/-- There are `k` blocks that can be allocated. -/
def HasBlocks (s : State) (k : Nat) : Prop :=
  ∃ free : List Nat, free.Nodup ∧ k ≤ free.length ∧ ∀ i ∈ free, i < 8192 ∧ isFreeBit s i = true

theorem HasBlocks.congr (h : HasBlocks s k) (hbitmap : s'.blockBitmap = s.blockBitmap)
    (hcount : s'.blocksCount = s.blocksCount) : HasBlocks s' k := by
  obtain ⟨free, hnodup, hk, hfree⟩ := h
  refine ⟨free, hnodup, hk, fun i hi => ⟨(hfree i hi).1, ?_⟩⟩
  have hbit := (hfree i hi).2
  unfold isFreeBit isValidBlock at *
  rw [hbitmap, hcount]
  exact hbit

theorem HasBlocks.alloc (h : HasBlocks s (k + 1)) : ∃ b, allocBlock s = some (b, s.taken b) ∧ HasBlocks (s.taken b) k := by
  obtain ⟨free, hnodup, hk, hfree⟩ := h
  obtain ⟨i, hi⟩ := List.exists_mem_of_length_pos (show 0 < free.length by omega)
  rcases hb : allocBlock s with _ | ⟨b, t⟩
  · exact absurd ⟨i, hfree i hi⟩ (allocBlock_none_iff.mp hb)
  obtain ⟨-, rfl⟩ := allocBlock_some hb
  refine ⟨b, rfl, free.erase (b - 1), hnodup.erase _, ?_, fun j hj => ?_⟩
  · have := List.le_length_erase (a := b - 1) (l := free)
    omega
  obtain ⟨hne, hj⟩ := hnodup.mem_erase_iff.mp hj
  refine ⟨(hfree j hj).1, ?_⟩
  have hbit := (hfree j hj).2
  unfold isFreeBit isValidBlock State.taken at *
  dsimp only
  rwa [update_of_ne hne]

theorem setPointer_blocks (s : State) (n : NodeId) (i blk : Nat) :
    (setPointer s n i blk).blockBitmap = s.blockBitmap ∧ (setPointer s n i blk).blocksCount = s.blocksCount := by
  unfold setPointer
  dsimp only
  split
  · obtain ⟨inodes, hsave⟩ := saveInode_eq _ _ _
    rw [hsave]
    exact ⟨rfl, rfl⟩
  · exact ⟨rfl, rfl⟩

theorem setSize_blocks (s : State) (n : NodeId) (size : Nat) :
    (setSize s n size).blockBitmap = s.blockBitmap ∧ (setSize s n size).blocksCount = s.blocksCount := by
  unfold setSize
  dsimp only
  split
  · obtain ⟨inodes, hsave⟩ := saveInode_eq _ _ _
    rw [hsave]
    exact ⟨rfl, rfl⟩
  · exact ⟨rfl, rfl⟩

theorem HasBlocks.mono (h : HasBlocks s b) (hk : k ≤ b) : HasBlocks s k := by
  obtain ⟨free, hnodup, hb, hfree⟩ := h
  exact ⟨free, hnodup, hk.trans hb, hfree⟩

theorem HasBlocks.ensurePointer (h : HasBlocks s (k + 1)) (n : NodeId) (i : Nat) :
    ∃ t, ensurePointer s n i = (t, none) ∧ HasBlocks t k := by
  unfold Ext2.ensurePointer
  split
  · exact ⟨s, rfl, h.mono (Nat.le_succ k)⟩
  obtain ⟨b, hb, hleft⟩ := h.alloc
  rw [hb]
  obtain ⟨hbitmap, hcount⟩ := setPointer_blocks ((s.taken b).writeBlock b Bytes.zero) n i b
  exact ⟨_, rfl, hleft.congr hbitmap hcount⟩

theorem HasBlocks.ensureOuter (h : HasBlocks s (k + 1)) (dib i : Nat) :
    ∃ t, ensureOuter s dib i = (t, none) ∧ HasBlocks t k := by
  unfold Ext2.ensureOuter
  dsimp only
  split
  · exact ⟨s, rfl, h.mono (Nat.le_succ k)⟩
  · obtain ⟨b, hb, hleft⟩ := h.alloc
    rw [hb]
    exact ⟨_, rfl, hleft.congr rfl rfl⟩

/-- With two free blocks the block map of a file can be set. -/
theorem HasBlocks.setBlockNum (h : HasBlocks s (k + 2)) (n : NodeId) {idx : Nat} (hidx : idx < 65804) (blk : Nat) :
    ∃ t, setBlockNum s n idx blk = (t, none) ∧ HasBlocks t k := by
  unfold Ext2.setBlockNum
  split
  · obtain ⟨hbitmap, hcount⟩ := setPointer_blocks s n idx blk
    exact ⟨_, rfl, (h.mono (by omega)).congr hbitmap hcount⟩
  split
  · obtain ⟨t, ht, hleft⟩ := (h.mono (show k + 1 ≤ k + 2 by omega)).ensurePointer n 12
    rw [ht]
    exact ⟨_, rfl, hleft.congr rfl rfl⟩
  split
  · obtain ⟨t, ht, hleft⟩ := h.ensurePointer n 13
    obtain ⟨u, hu, hleft⟩ := hleft.ensureOuter ((t.evd n).blocks 13) ((idx - 268) / 256)
    simp only [ht, hu]
    exact ⟨_, rfl, hleft.congr rfl rfl⟩
  · omega

/-- With three a block of the file can be written. -/
theorem HasBlocks.blockFor (h : HasBlocks s (k + 3)) (n : NodeId) (hpos : pos / 1024 < 65804) :
    ∃ t blk, blockFor s n pos = (t, .ok blk) ∧ HasBlocks t k := by
  unfold Ext2.blockFor
  dsimp only
  split
  · exact ⟨s, _, rfl, h.mono (by omega)⟩
  obtain ⟨b, hb, hleft⟩ := h.alloc
  obtain ⟨t, ht, hleft⟩ := hleft.setBlockNum n hpos b
  simp only [hb, ht]
  split
  · obtain ⟨hbitmap, hcount⟩ := setSize_blocks t n pos
    exact ⟨_, _, rfl, hleft.congr hbitmap hcount⟩
  · exact ⟨_, _, rfl, hleft⟩

/-- A write succeeds if there are three free blocks for every block that it touches. -/
theorem HasBlocks.writeLoop (hend : pos + buf.length ≤ 65804 * 1024)
    (hfuel : buf.length ≤ fuel) (h : HasBlocks s (3 * ((pos % 1024 + buf.length + 1023) / 1024))) :
    (writeLoop n fuel s pos buf).2 = none := by
  induction fuel generalizing s pos buf with
  | zero => rfl
  | succ fuel ih =>
  rw [Ext2.writeLoop]
  split
  · rfl
  rename_i hbuf
  have hlength := List.length_pos_iff.mpr hbuf
  have hsplit : 3 * ((pos % 1024 + buf.length + 1023) / 1024) =
      3 * ((pos % 1024 + buf.length + 1023) / 1024 - 1) + 3 := by omega
  rw [hsplit] at h
  obtain ⟨t, blk, ht, hleft⟩ := h.blockFor n (show pos / 1024 < 65804 by omega)
  simp only [ht]
  by_cases hlast : buf.length ≤ 1024 - pos % 1024
  · -- the rest of the buffer has been written
    rw [List.drop_eq_nil_of_le (by omega)]
    cases fuel <;> rfl
  have hpos : (pos + (1024 - pos % 1024)) % 2 ^ 64 = pos + (1024 - pos % 1024) := Nat.mod_eq_of_lt (by omega)
  apply ih
  · rw [List.length_drop]
    omega
  · rw [List.length_drop]
    omega
  · refine (hleft.congr rfl rfl).mono ?_
    rw [List.length_drop]
    omega

/-- What a write that fails has to leave as it was. -/
structure SameFile (s s' : State) (n : NodeId) : Prop where
  size : (s'.nodes n).size = (s.nodes n).size
  diskSize : (s'.inodes (s.evd n).inodeNum).size = (s.inodes (s.evd n).inodeNum).size
  contents : ∀ offset count, fileRead s' n offset count = fileRead s n offset count
  free : s'.freeBlocks = s.freeBlocks ∧ s'.blockBitmap = s.blockBitmap

end Litenix.Ext2
