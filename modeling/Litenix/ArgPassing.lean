import Litenix.ExecFresh
import Litenix.ElfStack

/-! Passing arguments through `sys_execve`: what the caller has in its arrays and what the new image finds at its
stack pointer. They are the same as long as everything fits. Two of the three limits are not enforced: an array of
64 entries is taken with its end cut off, and its terminator is written behind `kargv` or `kenvp`; and strings that
need more than the stack make the offsets wrap around before the fit test looks at them. The auxiliary vector says
that all identifiers are 0. -/

namespace Litenix

open Lib
open Signals (UserMem)

variable {d : ElfFile} {args : ExecArgs} {strs : List (List UInt8)} {str : List UInt8} {b : StackBuf}
  {src vector : UInt64}
variable {k : List (List UInt8)} {buf : Nat → Bool} {path s : List UInt8} {node : ExecNode} {proc : Process}

/-! ### The caller -/

def userView (mem : UserMem) : Mapped := fun x => some (mem.bytes x)

/-- The strings of `argv` or `envp`; the null pointer stands for an empty array. -/
def CallerVector (mem : UserMem) (vector : UInt64) (strs : List (List UInt8)) : Prop :=
  if vector = 0 then strs = [] else (userView mem).StringsAt vector.toNat strs

instance (mem : UserMem) (vector : UInt64) (strs : List (List UInt8)) : Decidable (CallerVector mem vector strs) :=
  inferInstanceAs (Decidable (if vector = 0 then strs = [] else (userView mem).StringsAt vector.toNat strs))

variable {mem : UserMem} {i : Nat}

theorem copyFromUser_eq_some (h : mem.copyFromUser src len = some c) :
    c = (fun k => mem.bytes (src.toNat + k)) ∧ src.toNat + (len - 1) ≤ vmmUserTop := by
  unfold UserMem.copyFromUser at h
  split at h
  · rename_i hok
    cases h
    simp only [Bool.and_eq_true, Signals.accessible, decide_eq_true_eq] at hok
    exact ⟨rfl, hok.2.1.2⟩
  · cases h

/-- A string of the caller is copied as it is. -/
theorem copyStringLoop_eq (fuel : Nat) (haddr : src.toNat + i < 2 ^ 64)
    (hno : 0 ∉ str) (hstr : (userView mem).BytesAt (src.toNat + i) (str ++ [0]))
    (hok : copyStringLoop mem src fuel i = some s) : s = str := by
  induction fuel generalizing i str s with
  | zero => cases hok
  | succ fuel ih =>
  have hsrc : (src + UInt64.ofNat i).toNat = src.toNat + i := by
    rw [UInt64.toNat_add, UInt64.toNat_ofNat']
    omega
  unfold copyStringLoop at hok
  cases hcopy : mem.copyFromUser (src + UInt64.ofNat i) 1 with
  | none =>
    rw [hcopy] at hok
    cases hok
  | some c =>
  rw [hcopy] at hok
  obtain ⟨hc, hbound⟩ := copyFromUser_eq_some hcopy
  have hbyte : c 0 = mem.bytes (src.toNat + i) := by simp only [hc, hsrc, Nat.add_zero]
  dsimp only at hok
  rw [hbyte] at hok
  cases str with
  | nil =>
    have hzero : mem.bytes (src.toNat + i) = 0 := Option.some.inj hstr.1
    rw [hzero, if_pos rfl] at hok
    exact (Option.some.inj hok).symm
  | cons x rest =>
  obtain ⟨hx, hrest⟩ := hstr
  have hne : x ≠ 0 := fun h0 => hno (h0 ▸ List.mem_cons_self)
  rw [Option.some.inj hx, if_neg hne] at hok
  obtain ⟨s', hs', rfl⟩ := Option.map_eq_some_iff.mp hok
  have hnext : src.toNat + (i + 1) < 2 ^ 64 := by
    rw [hsrc] at hbound
    simp only [vmmUserTop] at hbound
    omega
  rw [ih hnext (fun h0 => hno (List.mem_cons_of_mem _ h0)) hrest hs']

theorem copyStringFromUser_eq (hstr : (userView mem).StringAt src.toNat str)
    (hok : copyStringFromUser mem src maxLen = some s) : s = str := by
  unfold copyStringFromUser at hok
  split at hok
  · cases hok
  · exact copyStringLoop_eq maxLen (by rw [Nat.add_zero]; exact src.toNat_lt) hstr.1 (by rw [Nat.add_zero]; exact hstr.2) hok

theorem word_userView (addr : Nat) : (userView mem).word addr = some (mem.bytes.u64 addr) := by
  have hmapped : ∀ k ∈ List.range 8, (userView mem (addr + k)).isSome = true := fun _ _ => rfl
  rw [Mapped.word, if_pos hmapped]
  rfl

theorem u64_shift (bytes : Bytes) (addr : Nat) : Bytes.u64 (fun k => bytes (addr + k)) 0 = bytes.u64 addr := by
  simp only [Bytes.u64, Bytes.u32, Bytes.u16, Nat.add_zero, Nat.zero_add, Nat.add_assoc]

/-- **An array of the caller** that is not too long is copied as it is. -/
theorem copyVectorLoop_eq (fuel : Nat) (haddr : vector.toNat + 8 * i < 2 ^ 64) (hlen : strs.length < fuel)
    (hstrs : (userView mem).StringsAt (vector.toNat + 8 * i) strs)
    (hok : copyVectorLoop mem buf vector fuel i = .ok k) : k = strs := by
  induction fuel generalizing i strs k with
  | zero => exact absurd hlen (Nat.not_lt_zero _)
  | succ fuel ih =>
  have hsrc : (vector + 8 * UInt64.ofNat i).toNat = vector.toNat + 8 * i := by
    rw [UInt64.toNat_add, UInt64.toNat_mul, UInt64.toNat_ofNat', show (8 : UInt64).toNat = 8 from rfl]
    omega
  unfold copyVectorLoop at hok
  cases hcopy : mem.copyFromUser (vector + 8 * UInt64.ofNat i) 8 with
  | none =>
    rw [hcopy] at hok
    cases hok
  | some c =>
  rw [hcopy] at hok
  obtain ⟨hc, hbound⟩ := copyFromUser_eq_some hcopy
  have hword : c.u64 0 = mem.bytes.u64 (vector.toNat + 8 * i) := by rw [hc, hsrc, u64_shift]
  dsimp only at hok
  rw [hword] at hok
  cases strs with
  | nil =>
    rw [Mapped.StringsAt, word_userView, Option.some.injEq] at hstrs
    rw [hstrs, if_pos rfl] at hok
    exact (Except.ok.inj hok).symm
  | cons str rest =>
  obtain ⟨⟨p, hp, hne, hstr⟩, hrest⟩ := hstrs
  rw [word_userView, Option.mem_some_iff] at hp
  subst hp
  rw [if_neg hne] at hok
  split at hok
  · cases hok
  split at hok
  · cases hok
  rename_i s hs
  cases hloop : copyVectorLoop mem buf vector fuel (i + 1) with
  | error err =>
    rw [hloop] at hok
    cases hok
  | ok k' =>
    rw [hloop] at hok
    have hnext : vector.toNat + 8 * (i + 1) < 2 ^ 64 := by
      rw [hsrc] at hbound
      simp only [vmmUserTop] at hbound
      omega
    rw [← Except.ok.inj hok, copyStringFromUser_eq hstr hs,
      ih hnext (by simpa using hlen) hrest hloop]

theorem copyVector_eq
    (hstrs : CallerVector mem vector strs) (hlen : strs.length < maxArgv) (hok : copyVector mem buf vector = .ok k) :
    k = strs := by
  unfold copyVector at hok
  unfold CallerVector at hstrs
  split at hok
  · rename_i hnull
    rw [if_pos hnull] at hstrs
    rw [hstrs, ← Except.ok.inj hok]
  · rename_i hnull
    rw [if_neg hnull] at hstrs
    exact copyVectorLoop_eq maxArgv (by simpa using vector.toNat_lt) hlen (by simpa using hstrs) hok

/-! ### The new image -/

def atUid : UInt64 := 11
def atEuid : UInt64 := 12
def atGid : UInt64 := 13
def atEgid : UInt64 := 14

/-- The memory of the process. -/
def ExecState.view (st : ExecState) : Mapped := userByte st.supply.phys st.proc.addressSpace

/-- What a new image finds at its stack pointer. -/
structure ArgsPassed (st : ExecState) (argv envp : List (List UInt8)) : Prop where
  aligned : st.task.userRsp % 16 = 0
  argc : st.view.word st.task.userRsp = some (.ofNat argv.length)
  argvAt : st.view.StringsAt (st.task.userRsp + 8) argv
  envpAt : st.view.StringsAt (st.task.userRsp + 8 * (argv.length + 2)) envp
  auxv : ∃ pairs, st.view.PairsAt (st.task.userRsp + 8 * (argv.length + envp.length + 3)) pairs ∧
    pairs.lookup atUid = some (.ofNat st.proc.ruid) ∧ pairs.lookup atEuid = some (.ofNat st.proc.euid) ∧
    pairs.lookup atGid = some (.ofNat st.proc.rgid) ∧ pairs.lookup atEgid = some (.ofNat st.proc.egid)

variable (info : StackInfo) (randAddr execfnAddr : Nat) (atSecure : Bool) {reply : LoadReply} {m : Mapped}

/-- The pairs of the auxiliary vector. -/
def auxPairs : List (UInt64 × UInt64) :=
  [(3, .ofNat info.phdrAddr), (4, .ofNat phdrSize), (5, .ofNat info.phnum), (6, 4096), (7, .ofNat info.interpBase),
    (9, .ofNat info.execEntry), (25, .ofNat randAddr), (31, .ofNat execfnAddr), (atUid, 0), (atEuid, 0), (atGid, 0),
    (atEgid, 0), (23, .ofNat (if atSecure then 1 else 0))]

theorem auxv_eq : (auxv info randAddr execfnAddr atSecure).map UInt64.ofNat =
      ((auxPairs info randAddr execfnAddr atSecure).flatMap fun pair => [pair.1, pair.2]) ++ [0] ++ [0] := rfl

theorem auxPairs_key_ne : ∀ pair ∈ auxPairs info randAddr execfnAddr atSecure, pair.1 ≠ 0 := by
  intro pair hpair
  have hkey : pair.1 ∈ (auxPairs info randAddr execfnAddr atSecure).map Prod.fst := List.mem_map_of_mem hpair
  have hall : ∀ key ∈ ([3, 4, 5, 6, 7, 9, 25, 31, 11, 12, 13, 14, 23] : List UInt64), key ≠ 0 := by simp
  exact hall _ hkey

theorem StackBuf.Holds.stringAt (hview : ∀ x c, b.view x = some c → m x = some c)
    {addr : Nat} (h : b.Holds 0 stackBytes addr str) (hno : 0 ∉ str) :
    UInt64.ofNat addr ≠ 0 ∧ m.StringAt (UInt64.ofNat addr).toNat str := by
  obtain ⟨hlo, hhi, hbytes⟩ := h
  rw [Nat.add_zero] at hlo
  rw [stackBase_add] at hhi
  have hpos : 0 < stackBase := by decide
  have htop : userStackTop < 2 ^ 64 := by decide
  have haddr : (UInt64.ofNat addr).toNat = addr := by
    rw [UInt64.toNat_ofNat']
    exact Nat.mod_eq_of_lt (by omega)
  refine ⟨fun hzero => ?_, hno, ?_⟩
  · rw [hzero] at haddr
    have : addr = 0 := haddr.symm
    omega
  · rw [haddr]
    exact hbytes.keep fun x c _ _ hc => hview x c hc

theorem forall₂_stringAt (hview : ∀ x c, b.view x = some c → m x = some c)
    {addrs : List Nat} (h : List.Forall₂ (b.Holds 0 stackBytes) addrs strs) (hno : ∀ str ∈ strs, 0 ∉ str) :
    List.Forall₂ (fun p str => p ≠ 0 ∧ m.StringAt p.toNat str) (addrs.map UInt64.ofNat) strs := by
  induction h with
  | nil => exact .nil
  | cons hstr _ ih =>
    exact .cons (hstr.stringAt hview (hno _ List.mem_cons_self))
      (ih fun str hmem => hno str (List.mem_cons_of_mem _ hmem))

/-- **The stack of an image** is laid out as the arguments say. -/
theorem Filled.argsPassed {info : StackInfo} {off : Nat}
    (h : Filled args info b off) (hview : ∀ x c, b.view x = some c → st.view x = some c)
    (hrsp : st.task.userRsp = stackAddr off) (hargv : ∀ str ∈ args.argv, 0 ∉ str) (henvp : ∀ str ∈ args.envp, 0 ∉ str)
    (hids : st.proc.ruid = 0 ∧ st.proc.euid = 0 ∧ st.proc.rgid = 0 ∧ st.proc.egid = 0) :
    ArgsPassed st args.argv args.envp := by
  obtain ⟨argvAddrs, envpAddrs, randAddr, execfnAddr, hstrs, henvs, hbytes⟩ := h.words
  rw [stackAddr_eq h.bound] at hrsp
  rw [← hrsp] at hbytes
  have hwords : st.view.WordsAt st.task.userRsp
      ((stackWords args info argvAddrs envpAddrs randAddr execfnAddr).map UInt64.ofNat) := by
    apply Mapped.wordsAt_of_bytesAt
    rw [List.flatMap_map]
    exact hbytes.keep fun x c _ _ hc => hview x c hc
  rw [stackWords, List.map_append, List.map_append, List.map_append, List.map_append, List.map_append, auxv_eq] at hwords
  simp only [Mapped.wordsAt_append, List.map_cons, List.map_nil, List.length_append, List.length_map,
    List.length_singleton, hstrs.length_eq, henvs.length_eq] at hwords
  obtain ⟨⟨⟨⟨⟨hargc, hargvw⟩, hnull⟩, henvpw⟩, hnull'⟩, ⟨haux, hauxnull⟩, -⟩ := hwords
  refine ⟨?_, hargc.1, ?_, ?_, auxPairs info randAddr execfnAddr args.atSecure, ?_, ?_⟩
  · have hbase : stackBase % 16 = 0 := by decide
    have := h.aligned
    omega
  · refine Mapped.stringsAt_of_wordsAt (forall₂_stringAt hview hstrs hargv) (Mapped.wordsAt_append.mpr ⟨hargvw, ?_⟩)
    rw [List.length_map, hstrs.length_eq, Nat.add_assoc, show 8 + 8 * args.argv.length = 8 * (1 + args.argv.length) by omega]
    exact hnull
  · rw [show args.argv.length + 2 = 1 + args.argv.length + 1 by omega]
    refine Mapped.stringsAt_of_wordsAt (forall₂_stringAt hview henvs henvp) (Mapped.wordsAt_append.mpr ⟨henvpw, ?_⟩)
    rw [List.length_map, henvs.length_eq, Nat.add_assoc, ← Nat.mul_add]
    exact hnull'
  · rw [show args.argv.length + args.envp.length + 3 = 1 + args.argv.length + 1 + args.envp.length + 1 by omega]
    refine Mapped.pairsAt_of_wordsAt (auxPairs_key_ne _ _ _ _) (Mapped.wordsAt_append.mpr ⟨haux, ?_⟩)
    rw [Nat.add_assoc, ← Nat.mul_add]
    exact hauxnull
  · obtain ⟨hruid, heuid, hrgid, hegid⟩ := hids
    rw [hruid, heuid, hrgid, hegid]
    exact ⟨rfl, rfl, rfl, rfl⟩

/-! ### The call -/

/-- The arguments fit: fewer than 64 strings in each array, room for all of them on the stack, an image that leaves
the stack alone, memory that does not come back once an allocation has failed, and a program that runs as root. -/
structure ArgsFit (env : ExecEnv) (st : ExecState) (path : List UInt8) (argv envp : List (List UInt8)) : Prop where
  argc : argv.length < maxArgv
  envc : envp.length < maxArgv
  room : 16 + (path.length + 1) + stringsSize envp + stringsSize argv + 8 * (argv.length + envp.length + 31) ≤ stackBytes
  image : ∀ node creds bytes, execNode env st.proc path = .ok (node, creds) → node.data = some bytes →
    LoadsUserHalf env.load ⟨bytes, node.size⟩ ∧ StackFree env.load ⟨bytes, node.size⟩
  memory : st.supply.Persistent
  ids : ∀ node creds, execNode env st.proc path = .ok (node, creds) →
    creds.uids.real = 0 ∧ creds.uids.effective = 0 ∧ creds.gids.real = 0 ∧ creds.gids.effective = 0

theorem ArgsFit.fits (h : ArgsFit env st path argv envp) (secure : Bool) : ExecArgs.Fits ⟨argv, envp, path, secure⟩ :=
  ⟨h.argc.le, h.envc.le, h.room⟩

theorem setupUserStack_outside (env : LoadEnv) (space : AddressSpace) (h : args.Fits)
    (info : StackInfo) (s : Supply) : (setupUserStack env space args info s).2.1 = false := by
  have hout := (fillStack_filled h info).1
  unfold setupUserStack
  split
  · rfl
  split
  · rename_i heq
    rw [heq] at hout
    exact hout
  rename_i heq
  rw [heq] at hout
  split
  · exact hout
  · exact hout

theorem loadFailed_outside {space : AddressSpace} {s : Supply} {outside : Bool} {e : Errno}
    (h : loadFailed space s proc outside e = .ok reply) : reply.outside = outside := by
  unfold loadFailed at h
  split at h
  · cases h
  · cases h
    rfl

/-- A load with arguments that fit does not write outside its buffer, successful or not. -/
theorem elfLoadIntoProcess_outside {env : LoadEnv} {s : Supply}
    (hfits : args.Fits) (h : elfLoadIntoProcess env s proc d args = .ok reply) : reply.outside = false := by
  unfold elfLoadIntoProcess at h
  split at h
  · cases h
    rfl
  split at h
  · cases h
  · cases h
    rfl
  split at h
  · exact loadFailed_outside h
  rename_i space _ _ s₂ interpBase entry _
  have hout := setupUserStack_outside env space hfits ⟨phdrAddr d, d.ePhnum, interpBase, add64 d.loadBase d.eEntry⟩ s₂
  dsimp only at h
  generalize setupUserStack env _ args _ s₂ = r at h hout
  obtain ⟨s₃, outside, rsp⟩ := r
  split at h
  · rw [loadFailed_outside h, hout]
  · rw [(loadDone_eq_ok h).2.2.1, hout]

theorem CallerVector.zero_not_mem (h : CallerVector mem vector strs) : ∀ str ∈ strs, 0 ∉ str := by
  unfold CallerVector at h
  split at h
  · rw [h]
    exact fun _ hno => absurd hno List.not_mem_nil
  · exact h.zero_not_mem

theorem prepare_ids (st : ExecState) (attr : Vfs.Attr) (creds : Creds) :
    (st.prepare attr creds).proc.ruid = creds.uids.real.toNat ∧
      (st.prepare attr creds).proc.euid = creds.uids.effective.toNat ∧
      (st.prepare attr creds).proc.rgid = creds.gids.real.toNat ∧
      (st.prepare attr creds).proc.egid = creds.gids.effective.toNat := by
  obtain ⟨files, hproc⟩ := prepare_proc st attr creds
  rw [hproc]
  exact ⟨rfl, rfl, rfl, rfl⟩

variable {env : ExecEnv} {st : ExecState} {filename argv envp : UInt64} {reply : ExecReply}

/-- A call that succeeds passes arguments that fit. -/
theorem Execed.argsPassed (h : Execed env mem st filename argv envp reply args node creds bytes load entry rsp)
    (hready : LoadReady st.supply.phys) (hargv : CallerVector mem argv args.argv)
    (henvp : CallerVector mem envp args.envp) (hfit : ArgsFit env st args.execPath args.argv args.envp) :
    ArgsPassed reply.state args.argv args.envp := by
  obtain ⟨huser, hfree⟩ := hfit.image node creds bytes h.found h.read
  obtain ⟨s₁, s₂, space, interpBase, entry', rsp', hload⟩ := elfLoadIntoProcess_loaded h.loads h.loaded
  obtain ⟨b, off, hstack⟩ := hload.stackLoaded hready huser hfree hfit.memory
  have hfilled := (fillStack_filled (hfit.fits args.atSecure)
    ⟨phdrAddr ⟨bytes, node.size⟩, ElfFile.ePhnum ⟨bytes, node.size⟩, interpBase,
      add64 (ElfFile.loadBase ⟨bytes, node.size⟩) (ElfFile.eEntry ⟨bytes, node.size⟩)⟩).2 off (by rw [hstack.fill])
  rw [hstack.fill] at hfilled
  have hrsp : rsp = rsp' := by
    have := h.loaded.symm.trans hload.ret
    exact (Prod.mk.inj (Except.ok.inj this)).2
  have hids : reply.state.proc.ruid = 0 ∧ reply.state.proc.euid = 0 ∧ reply.state.proc.rgid = 0 ∧
      reply.state.proc.egid = 0 := by
    obtain ⟨hruid, heuid, hrgid, hegid⟩ := hfit.ids node creds h.found
    obtain ⟨hr, he, hg, heg⟩ := prepare_ids st node.attr creds
    rw [h.state, hload.proc]
    rw [hr, he, hg, heg, hruid, heuid, hrgid, hegid]
    exact ⟨rfl, rfl, rfl, rfl⟩
  refine hfilled.argsPassed (fun x c hx => ?_) ?_ hargv.zero_not_mem henvp.zero_not_mem hids
  · rw [ExecState.view, h.state]
    exact hstack.view x c hx
  · rw [h.state]
    exact hrsp.trans hstack.rsp

theorem execLoad_outside (hfits : args.Fits)
    (h : execLoad env st node args false = .ok reply) : reply.outside = false := by
  unfold execLoad at h
  split at h
  · cases h
    rfl
  split at h
  · cases h
    rfl
  split at h
  · cases h
  rename_i load hload
  have hout := elfLoadIntoProcess_outside hfits hload
  split at h
  · cases h
    exact hout
  · cases h
    exact hout

/-- A call with arguments that fit writes nothing outside its buffers, successful or not. -/
theorem sysExecve_outside (hargv : CallerVector mem argv a) (henvp : CallerVector mem envp e)
    (hfit : ∀ path, copyStringFromUser mem filename pathMaxLen = some path → ArgsFit env st path a e)
    (h : sysExecve env mem st filename argv envp = .ok reply) : reply.outside = false := by
  unfold sysExecve at h
  cases hpath : copyStringFromUser mem filename pathMaxLen with
  | none =>
    rw [hpath] at h
    cases h
    rfl
  | some path =>
  have hfit := hfit path hpath
  have ha : (a.length == maxArgv) = false := beq_false_of_ne hfit.argc.ne
  have he : (e.length == maxArgv) = false := beq_false_of_ne hfit.envc.ne
  cases hkargv : copyVector mem env.argvBuf argv with
  | error err =>
    rw [hpath, hkargv] at h
    cases h
    rfl
  | ok kargv =>
  obtain rfl := copyVector_eq hargv hfit.argc hkargv
  cases hkenvp : copyVector mem env.envpBuf envp with
  | error err =>
    rw [hpath, hkargv, hkenvp] at h
    cases h
    exact ha
  | ok kenvp =>
  obtain rfl := copyVector_eq henvp hfit.envc hkenvp
  simp only [hpath, hkargv, hkenvp, ha, he, Bool.or_self] at h
  split at h
  · cases h
    rfl
  · exact execLoad_outside (hfit.fits _) h

/-- User memory with the string `"a"` and an array of pointers to it. -/
def argMem (n : Nat) : UserMem where
  bytes := fun x =>
    if x = 0x2000 then 0x61 else if 0x3000 ≤ x ∧ x < 0x3000 + 8 * n ∧ x % 8 = 1 then 0x20 else 0
  readable := fun _ => true
  writable := fun _ => true

theorem sysExecve_argMem (n : Nat) (proc : Process) (howns : proc.ownsAddressSpace = false)
    (hroot : UInt32.ofNat proc.euid = 0) {kargv : List (List UInt8)}
    (hpath : copyStringFromUser (argMem n) 0x2000 pathMaxLen = some [0x61])
    (hargv : copyVector (argMem n) (fun _ => true) 0x3000 = .ok kargv)
    (hload : loadSucceeds 0 loadEnv (.full loadPhys) smallProgram ⟨kargv, [], [0x61], false⟩ = true) :
    ∃ reply, sysExecve (oneProgram smallProgram) (argMem n) (oneTask loadPhys proc defaultActions) 0x2000 0x3000 0 =
      .ok reply ∧ reply.ret = .ok 0 := by
  refine sysExecve_of_load [0x61] kargv [] (by decide +kernel) hroot hpath hargv rfl fun proc' hproc' => ?_
  exact loadSucceeds_sound (s := .full loadPhys) 0 proc' loadPhys_ready smallProgram_user (hproc'.trans howns)
    (fun _ _ => rfl) hload

theorem StackFree.of_static {env : LoadEnv}
    (h : ∀ ph ∈ d.phdrs, ph.pType = ptLoad → ∀ vaddr ∈ ph.pages d.loadBase, ∀ i < userStackPages,
      vpn vaddr ≠ vpn (stackPage i)) (hno : (interpFile env d).isNone = true) : StackFree env d :=
  ⟨h, fun d' hd' => by rw [hd'] at hno; cases hno⟩

theorem smallProgram_stackFree : StackFree loadEnv smallProgram :=
  .of_static (by decide +kernel) (by decide +kernel)

theorem argsFit_oneProgram {p : Phys} {argv envp : List (List UInt8)}
    (hsize : d.size ≠ 0) (huser : LoadsUserHalf loadEnv d) (hfree : StackFree loadEnv d)
    (hargc : argv.length < maxArgv) (henvc : envp.length < maxArgv)
    (hroom : 16 + (path.length + 1) + stringsSize envp + stringsSize argv + 8 * (argv.length + envp.length + 31) ≤
      stackBytes) : ArgsFit (oneProgram d) (oneTask p loadProc defaultActions) path argv envp := by
  have hnode : execNode (oneProgram d) loadProc path = _ := oneProgram_node d hsize rfl path
  refine ⟨hargc, henvc, hroom, fun node creds bytes hfound hread => ?_, fun _ hno => (by cases hno),
    fun node creds hfound => ?_⟩
  · obtain ⟨rfl, rfl⟩ := Prod.mk.inj (Except.ok.inj (hnode.symm.trans hfound))
    obtain rfl := Option.some.inj hread
    exact ⟨huser, hfree⟩
  · obtain ⟨rfl, rfl⟩ := Prod.mk.inj (Except.ok.inj (hnode.symm.trans hfound))
    exact ⟨rfl, rfl, rfl, rfl⟩

end Litenix
