import Litenix.ElfContents

/-! A load of files whose tables, segments and strings lie inside them depends on nothing else. The loader checks
none of this: it follows the offsets of the file to whatever memory holds behind it. -/

namespace Litenix

open Lib

variable {env env' : LoadEnv}

/-! ### Files that agree -/

/-- Two buffers with the same file; what lies behind it may differ. -/
structure SameFile (d d' : ElfFile) : Prop where
  size : d'.size = d.size
  bytes : ∀ k < d.size, d'.bytes k = d.bytes k

/-- The header, the program headers and the data of the segments lie in the file. -/
structure ElfFile.Contained (d : ElfFile) : Prop where
  size : d.size < 2 ^ 64
  header : ehdrSize ≤ d.size
  table : d.ePhoff + phdrSize * d.ePhnum ≤ d.size
  data : ∀ ph ∈ d.phdrs, ph.pType = ptLoad → ph.pOffset + ph.pFilesz ≤ d.size

variable {d d' : ElfFile} {base : Nat} {ph : Phdr}

theorem SameFile.mem (h : SameFile d d') (hsize : d.size < 2 ^ 64) {k : Nat} (hk : k < d.size) : d'.mem k = d.mem k := by
  rw [ElfFile.mem, ElfFile.mem, Nat.mod_eq_of_lt (by omega), h.bytes k hk]

theorem SameFile.headerOk (h : SameFile d d') (hsize : d.size < 2 ^ 64) : d'.headerOk = d.headerOk := by
  unfold ElfFile.headerOk
  rw [h.size]
  by_cases hheader : ehdrSize ≤ d.size
  · rw [ehdrSize] at hheader
    have hmem : ∀ k < 64, d'.mem k = d.mem k := fun k hk => h.mem hsize (by omega)
    have hmachine : d'.eMachine = d.eMachine := Bytes.u16_congr fun k _ hk => hmem k (by omega)
    rw [hmachine, hmem 0 (by norm_num), hmem 1 (by norm_num), hmem 2 (by norm_num), hmem 3 (by norm_num),
      hmem 4 (by norm_num), hmem 5 (by norm_num)]
  · simp [hheader]

namespace ElfFile.Contained

section

variable (hd : d.Contained) (h : SameFile d d')

include hd h

theorem fields : d'.eType = d.eType ∧ d'.eEntry = d.eEntry ∧ d'.ePhoff = d.ePhoff ∧ d'.ePhnum = d.ePhnum := by
  have hheader := hd.header
  rw [ehdrSize] at hheader
  have hmem : ∀ k < 64, d'.mem k = d.mem k := fun k hk => h.mem hd.size (by omega)
  refine ⟨?_, ?_, ?_, ?_⟩
  · exact Bytes.u16_congr fun k _ hk => hmem k (by omega)
  · exact congrArg UInt64.toNat (Bytes.u64_congr fun k _ hk => hmem k (by omega))
  · exact congrArg UInt64.toNat (Bytes.u64_congr fun k _ hk => hmem k (by omega))
  · exact Bytes.u16_congr fun k _ hk => hmem k (by omega)

theorem phdrs_eq : d'.phdrs = d.phdrs := by
  obtain ⟨-, -, hphoff, hphnum⟩ := hd.fields h
  rw [ElfFile.phdrs, ElfFile.phdrs, hphoff, hphnum]
  refine List.map_congr_left fun i hi => ?_
  have htable := hd.table
  have hi := List.mem_range.mp hi
  have hmem : ∀ k, d.ePhoff + phdrSize * i ≤ k → k < d.ePhoff + phdrSize * i + phdrSize → d'.mem k = d.mem k := by
    intro k _ hk
    refine h.mem hd.size ?_
    rw [phdrSize] at *
    omega
  generalize d.ePhoff + phdrSize * i = off at hmem
  rw [phdrSize] at hmem
  simp only [Phdr.read, Phdr.mk.injEq]
  refine ⟨?_, ?_, ?_, ?_, ?_, ?_⟩
  · exact Bytes.u32_congr fun k _ hk => hmem k (by omega) (by omega)
  · exact Bytes.u32_congr fun k _ hk => hmem k (by omega) (by omega)
  all_goals exact congrArg UInt64.toNat (Bytes.u64_congr fun k _ hk => hmem k (by omega) (by omega))

theorem loadBase_eq : d'.loadBase = d.loadBase := by
  rw [ElfFile.loadBase, ElfFile.loadBase, (hd.fields h).1]

theorem interpHeaderOk_eq : d'.interpHeaderOk = d.interpHeaderOk := by
  have hheader := hd.header
  rw [ehdrSize] at hheader
  rw [ElfFile.interpHeaderOk, ElfFile.interpHeaderOk, h.mem hd.size (by omega), h.mem hd.size (by omega)]

end

end ElfFile.Contained

theorem pagePut_congr (h : ∀ k < len, src' k = src k) : pagePut page off len src' = pagePut page off len src := by
  have hbytes : (fun k => if off ≤ k ∧ k < off + len then src' (k - off) else pageBytes page k) =
      fun k => if off ≤ k ∧ k < off + len then src (k - off) else pageBytes page k := by
    funext k
    split
    · exact h _ (by omega)
    · rfl
  funext i
  rw [pagePut, pagePut, hbytes]

section

variable (hd : d.Contained) (h : SameFile d d') (hph : ph ∈ d.phdrs) (hload : ph.pType = ptLoad)

include hd h hph hload

/-- The copies into a page read data of the segment only. -/
theorem segmentPage_congr (base vaddr : Nat) : segmentPage d' ph base vaddr = segmentPage d ph base vaddr := by
  have hdata := hd.data ph hph hload
  have hstart := add64_lt base ph.pVaddr
  rw [← Phdr.start] at hstart
  funext page
  unfold segmentPage
  dsimp only
  split
  · refine pagePut_congr fun k hk => h.mem hd.size ?_
    -- a range that wraps around ends before it starts
    have hend : add64 (ph.start base) ph.pFilesz ≤ ph.start base + ph.pFilesz := Nat.mod_le ..
    omega
  · rfl

theorem loadPages_congr (space : AddressSpace) (base : Nat) (pages : List Nat) (s : Supply) :
    loadPages space d' base ph s pages = loadPages space d base ph s pages := by
  induction pages generalizing s with
  | nil => rfl
  | cons vaddr rest ih =>
  have hpage : loadPage space d' base ph s vaddr = loadPage space d base ph s vaddr := by
    unfold loadPage
    rw [segmentPage_congr hd h hph hload]
  unfold loadPages
  rw [hpage]
  split
  · rfl
  · exact ih _

end

theorem loadSegments_congr (hd : d.Contained) (h : SameFile d d') (space : AddressSpace) (base : Nat)
    (phs : List Phdr) (hphs : ∀ ph ∈ phs, ph ∈ d.phdrs) (s : Supply) :
    loadSegments space d' base s phs = loadSegments space d base s phs := by
  induction phs generalizing s with
  | nil => rfl
  | cons ph rest ih =>
  have hrest := ih fun ph hph => hphs ph (List.mem_cons_of_mem _ hph)
  unfold loadSegments
  split
  · rename_i hload
    rw [loadPages_congr hd h (hphs ph List.mem_cons_self) hload]
    split
    · rfl
    · exact hrest _
  · exact hrest s

/-! ### File systems that agree -/

/-- Memory that holds the same string. -/
def SameString (path path' : Bytes) : Prop := ∃ n, path n = 0 ∧ ∀ k ≤ n, path' k = path k

inductive SameNode : Option InterpNode → Option InterpNode → Prop where
  | missing : SameNode none none
  | unreadable (size : Nat) : SameNode (some ⟨size, none⟩) (some ⟨size, none⟩)
  | readable (size : Nat) (bytes bytes' : Bytes) : SameFile ⟨bytes, size⟩ ⟨bytes', size⟩ →
      SameNode (some ⟨size, some bytes⟩) (some ⟨size, some bytes'⟩)

/-- The same files are found under the same paths; what lies behind a path or a file may differ. -/
structure SameEnv (env env' : LoadEnv) : Prop where
  elfData : env'.elfData = env.elfData
  interpBuf : env'.interpBuf = env.interpBuf
  stackBuf : env'.stackBuf = env.stackBuf
  lookup : ∀ path path', SameString path path' → SameNode (env.vfsLookup path) (env'.vfsLookup path')

/-- The program lies in its file, the path of its interpreter ends there, and the interpreter lies in its own
file. -/
structure FilesContained (env : LoadEnv) (d : ElfFile) : Prop where
  program : d.Contained
  path : ∀ ph, (d.phdrs.find? fun ph => ph.pType == ptInterp) = some ph →
    ∃ k, ph.pOffset + k < d.size ∧ d.bytes (ph.pOffset + k) = 0
  interp : ∀ d₂, interpFile env d = some d₂ → d₂.Contained

theorem FilesContained.interpPath (hd : FilesContained env d) (h : SameFile d d') (elfData : Nat) :
    d.interpPath elfData = none ∧ d'.interpPath elfData = none ∨
      ∃ path path', d.interpPath elfData = some path ∧ d'.interpPath elfData = some path' ∧ SameString path path' := by
  unfold ElfFile.interpPath
  rw [hd.program.phdrs_eq h]
  cases hfind : d.phdrs.find? fun ph => ph.pType == ptInterp with
  | none => exact .inl ⟨rfl, rfl⟩
  | some ph =>
    dsimp only
    split
    · exact .inl ⟨rfl, rfl⟩
    obtain ⟨n, hlt, hnul⟩ := hd.path ph hfind
    refine .inr ⟨_, _, rfl, rfl, n, ?_, fun k hk => h.mem hd.program.size (by omega)⟩
    have := hd.program.size
    exact (congrArg d.bytes (Nat.mod_eq_of_lt (by omega))).trans hnul

theorem loadInterp_congr (henv : SameEnv env env') {path path' : Bytes}
    (hpath : d.interpPath env.elfData = some path) (hsame : SameString path path')
    (hinterp : ∀ d₂, interpFile env d = some d₂ → d₂.Contained) (space : AddressSpace) (top : Nat) (s : Supply) :
    loadInterp env' space top path' s = loadInterp env space top path s := by
  unfold loadInterp
  rw [henv.interpBuf]
  have hnode := henv.lookup path path' hsame
  generalize hlookup : env.vfsLookup path = o at hnode
  generalize env'.vfsLookup path' = o' at hnode
  cases hnode with
  | missing => rfl
  | unreadable size => rfl
  | readable size bytes bytes' hfile =>
    have hd₂ : ElfFile.Contained ⟨bytes, size⟩ := hinterp _ (by simp [interpFile, hpath, hlookup])
    dsimp only
    rw [hd₂.interpHeaderOk_eq hfile, hd₂.phdrs_eq hfile, loadSegments_congr hd₂ hfile _ _ _ fun _ => id,
      (hd₂.fields hfile).2.1]

theorem loadImage_congr (henv : SameEnv env env') (hd : FilesContained env d) (h : SameFile d d')
    (space : AddressSpace) (s : Supply) : loadImage env' space d' s = loadImage env space d s := by
  unfold loadImage
  rw [hd.program.loadBase_eq h, hd.program.phdrs_eq h, loadSegments_congr hd.program h _ _ _ fun _ => id,
    (hd.program.fields h).2.1, henv.elfData]
  rcases loadSegments space d d.loadBase s d.phdrs with ⟨s₁, ok⟩
  cases ok with
  | false => rfl
  | true =>
    rcases hd.interpPath h env.elfData with ⟨hnone, hnone'⟩ | ⟨path, path', hsome, hsome', hsame⟩
    · rw [hnone, hnone']
    · rw [hsome, hsome']
      exact loadInterp_congr henv hsome hsame hd.interp space _ s₁

theorem setupUserStack_congr (henv : SameEnv env env') (space : AddressSpace) (args : ExecArgs)
    (info : StackInfo) (s : Supply) : setupUserStack env' space args info s = setupUserStack env space args info s := by
  rw [setupUserStack, setupUserStack, henv.stackBuf]

/-! ### Validation -/

/-- A load that looks at nothing but the files: it fails when something it needs is not in them, and it does the
same for every memory around them. -/
structure ValidatesFiles (env : LoadEnv) (s : Supply) (proc : Process) (d : ElfFile) (args : ExecArgs) : Prop where
  contained : ∀ reply x, elfLoadIntoProcess env s proc d args = .ok reply → reply.ret = .ok x → FilesContained env d
  depends : ∀ env' d', SameEnv env env' → SameFile d d' →
    elfLoadIntoProcess env' s proc d' args = elfLoadIntoProcess env s proc d args

theorem smallProgram_size : smallProgram.size = 120 := by decide +kernel

theorem smallProgram_contained : FilesContained loadEnv smallProgram := by
  refine ⟨⟨?_, ?_, ?_, ?_⟩, ?_, ?_⟩
  · rw [smallProgram_size]
    norm_num
  · rw [smallProgram_size, ehdrSize]
    norm_num
  · decide +kernel
  · exact smallProgram_loadable.inFile
  · intro ph hph
    rw [smallProgram_phdrs] at hph
    cases hph
  intro d₂ hd₂
  have hnone : (interpFile loadEnv smallProgram).isNone = true := by decide +kernel
  rw [hd₂] at hnone
  cases hnone

/-- The program behind which memory holds something else. -/
def smallProgramBefore (other : Bytes) : ElfFile := ⟨fun k => if k < 120 then smallProgram.bytes k else other k, 120⟩

/-- The first 64 bytes of the program: the program header lies behind the end of the file. -/
def cutProgram : ElfFile := ⟨smallProgram.bytes, 64⟩

theorem cutProgram_user : LoadsUserHalf loadEnv cutProgram := .of_static (by decide +kernel) (by decide +kernel)

end Litenix
