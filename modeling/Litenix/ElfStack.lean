import Litenix.ElfContents
import Litenix.Lib.CStrings

/-! The stack of a new image. `setup_user_stack` fills a buffer from its end, first the strings and then the words
that point to them, and maps it below `USER_STACK_TOP`. The offsets are unsigned and the fit test comes at the end,
so all of this is right only as long as no subtraction wraps around. -/

namespace Litenix

open Lib

/-! ### The buffer -/

def stackBase : Nat := userStackTop - stackBytes

/-- The buffer at the addresses where the image finds it. -/
def StackBuf.view (b : StackBuf) : Mapped := fun x =>
  if stackBase ≤ x ∧ x < userStackTop then some (b.bytes (x - stackBase)) else none

variable {b : StackBuf} {off top : Nat} {data : List UInt8}
variable {i x : Nat} {s₁ : Supply} {args : ExecArgs}

theorem stackBase_add : stackBase + stackBytes = userStackTop := rfl

theorem stackAddr_eq (h : off ≤ stackBytes) : stackAddr off = stackBase + off := by
  have hbytes : stackBytes < 2 ^ 64 := by decide
  have htop : userStackTop < 2 ^ 64 := by decide
  have hbase := stackBase_add
  rw [stackAddr, sub64_of_le h hbytes, sub64_of_le (by omega) htop]
  omega

section

variable (hfit : off + data.length ≤ stackBytes)

include hfit

theorem StackBuf.outside_put : (b.put off data).outside = b.outside := by
  simp [StackBuf.put, hfit]

theorem StackBuf.view_put (x : Nat) : (b.put off data).view x =
    if stackBase + off ≤ x ∧ x < stackBase + off + data.length then some (data.getD (x - (stackBase + off)) 0)
    else b.view x := by
  have hbase := stackBase_add
  have hbytes : stackBytes < 2 ^ 64 := by decide
  unfold StackBuf.view StackBuf.put
  by_cases hx : stackBase ≤ x ∧ x < userStackTop
  · rw [if_pos hx, if_pos hx]
    dsimp only
    by_cases hlo : stackBase + off ≤ x
    · rw [sub64_of_le (by omega) (by omega), show x - stackBase - off = x - (stackBase + off) by omega]
      by_cases hhi : x < stackBase + off + data.length
      · rw [if_pos (by omega), if_pos ⟨hlo, hhi⟩]
      · rw [if_neg (by omega), if_neg fun h => hhi h.2]
    have hwrap : ¬sub64 (x - stackBase) off < data.length := by
      rw [sub64, Nat.mod_eq_of_lt (by omega), Nat.mod_eq_of_lt (by omega)]
      omega
    rw [if_neg hwrap, if_neg fun h => hlo h.1]
  · rw [if_neg hx, if_neg hx, if_neg (by omega)]

theorem StackBuf.view_put_of_ne
    (hx : x < stackBase + off ∨ stackBase + off + data.length ≤ x) : (b.put off data).view x = b.view x := by
  rw [StackBuf.view_put hfit, if_neg (by omega)]

theorem StackBuf.bytesAt_put : (b.put off data).view.BytesAt (stackBase + off) data := by
  rw [Mapped.bytesAt_iff]
  intro k hk
  rw [StackBuf.view_put hfit, if_pos (by omega), show stackBase + off + k - (stackBase + off) = k by omega,
    List.getD_eq_getElem?_getD, List.getElem?_eq_getElem hk, Option.getD_some]

end

/-! ### Strings -/

/-- The room that strings need. -/
def stringsSize (strs : List (List UInt8)) : Nat := (strs.map fun str => str.length + 1).sum

/-- A string lies in a part of the buffer. -/
def StackBuf.Holds (b : StackBuf) (lo hi addr : Nat) (str : List UInt8) : Prop :=
  stackBase + lo ≤ addr ∧ addr + (str.length + 1) ≤ stackBase + hi ∧ b.view.BytesAt addr (str ++ [0])

theorem StackBuf.Holds.keep {b' : StackBuf} {lo hi lo' hi' addr : Nat} {str : List UInt8} (h : b.Holds lo hi addr str)
    (hlo : lo' ≤ lo) (hhi : hi ≤ hi') (hsame : ∀ x, stackBase + lo ≤ x → x < stackBase + hi → b'.view x = b.view x) :
    b'.Holds lo' hi' addr str := by
  obtain ⟨h₁, h₂, h₃⟩ := h
  refine ⟨by omega, by omega, h₃.keep fun x c hx hx' hc => ?_⟩
  rw [List.length_append, List.length_singleton] at hx'
  rw [hsame x (by omega) (by omega), hc]

/-- What the loops over the strings do, from offset `top` down to `top'`. -/
structure Pushed (b b' : StackBuf) (top top' : Nat) (strs : List (List UInt8)) (addrs : List Nat) : Prop where
  room : top' + stringsSize strs = top
  outside : b'.outside = b.outside
  others : ∀ x, x < stackBase + top' ∨ stackBase + top ≤ x → b'.view x = b.view x
  strs : List.Forall₂ (b'.Holds top' top) addrs strs

theorem pushStrings_pushed (strs : List (List UInt8)) (b : StackBuf) (hroom : stringsSize strs ≤ top)
    (htop : top ≤ stackBytes) :
    Pushed b (pushStrings strs b top).1 top (pushStrings strs b top).2.1 strs (pushStrings strs b top).2.2 := by
  induction strs with
  | nil => exact ⟨rfl, rfl, fun _ _ => rfl, .nil⟩
  | cons str rest ih =>
  have hsize : stringsSize (str :: rest) = str.length + 1 + stringsSize rest := by simp [stringsSize]
  obtain ⟨hrest, hout, hothers, hstrs⟩ := ih (by omega)
  have hbytes : stackBytes < 2 ^ 64 := by decide
  unfold pushStrings
  generalize pushStrings rest b top = r at hrest hout hothers hstrs
  obtain ⟨b₁, top₁, addrs₁⟩ := r
  dsimp only at hrest hout hothers hstrs ⊢
  rw [sub64_of_le (by omega) (by omega)]
  have hfit : top₁ - (str.length + 1) + (str ++ [0]).length ≤ stackBytes := by
    rw [List.length_append, List.length_singleton]
    omega
  have hother (x : Nat) (hx : x < stackBase + (top₁ - (str.length + 1)) ∨ stackBase + top₁ ≤ x) :
      (b₁.put (top₁ - (str.length + 1)) (str ++ [0])).view x = b₁.view x := by
    refine StackBuf.view_put_of_ne hfit ?_
    rw [List.length_append, List.length_singleton]
    omega
  refine ⟨by omega, (StackBuf.outside_put hfit).trans hout, fun x hx => ?_, .cons ?_ ?_⟩
  · exact (hother x (by omega)).trans (hothers x (by omega))
  · rw [stackAddr_eq (by omega)]
    exact ⟨le_rfl, by omega, StackBuf.bytesAt_put hfit⟩
  · exact hstrs.imp fun addr s h => h.keep (by omega) le_rfl fun x hx _ => hother x (by omega)

/-! ### The contents of the buffer -/

/-- The words at the stack pointer. -/
def stackWords (args : ExecArgs) (info : StackInfo) (argvAddrs envpAddrs : List Nat) (randAddr execfnAddr : Nat) :
    List Nat :=
  [args.argv.length] ++ argvAddrs ++ [0] ++ envpAddrs ++ [0] ++ auxv info randAddr execfnAddr args.atSecure

/-- The arguments fit: at most 64 strings in each list, and room for the strings and the words. -/
structure ExecArgs.Fits (args : ExecArgs) : Prop where
  argv : args.argv.length ≤ maxStackArgv
  envp : args.envp.length ≤ maxStackArgv
  room : 16 + (args.execPath.length + 1) + stringsSize args.envp + stringsSize args.argv +
    8 * (args.argv.length + args.envp.length + 31) ≤ stackBytes

/-- What the image finds in the buffer. -/
structure Filled (args : ExecArgs) (info : StackInfo) (b : StackBuf) (off : Nat) : Prop where
  aligned : off % 16 = 0
  bound : off ≤ stackBytes
  words : ∃ argvAddrs envpAddrs randAddr execfnAddr,
    List.Forall₂ (b.Holds 0 stackBytes) argvAddrs args.argv ∧ List.Forall₂ (b.Holds 0 stackBytes) envpAddrs args.envp ∧
    b.view.BytesAt (stackBase + off)
      ((stackWords args info argvAddrs envpAddrs randAddr execfnAddr).flatMap fun w => Bytes.le64 (UInt64.ofNat w))

theorem length_flatMap_le64 (words : List Nat) :
    (words.flatMap fun w => Bytes.le64 (UInt64.ofNat w)).length = 8 * words.length := by
  induction words with
  | nil => rfl
  | cons w rest ih =>
    rw [List.flatMap_cons, List.length_append, ih, List.length_cons]
    simp [Bytes.le64]
    omega

/-- **The buffer.** Arguments that fit are written to the buffer in full, and nothing outside. -/
theorem fillStack_filled (h : args.Fits) (info : StackInfo) :
    (fillStack args info).1.outside = false ∧
      ∀ off, (fillStack args info).2 = some off → Filled args info (fillStack args info).1 off := by
  have hroom := h.room
  have hbytes : stackBytes < 2 ^ 64 := by decide
  have halign8 {v : Nat} (hv : v < 2 ^ 64) : alignDown v 8 = v / 8 * 8 := alignDown_two_pow (k := 3) (by norm_num) hv
  have halign16 {v : Nat} (hv : v < 2 ^ 64) : alignDown v 16 = v / 16 * 16 :=
    alignDown_two_pow (k := 4) (by norm_num) hv
  unfold fillStack
  rw [List.take_of_length_le h.argv, List.take_of_length_le h.envp]
  dsimp only
  rw [sub64_of_le (show args.execPath.length + 1 ≤ stackBytes - 16 by omega) (by omega)]
  have hrand : stackBytes - 16 + randomBytes.length ≤ stackBytes := by
    rw [show randomBytes.length = 16 from rfl]
    omega
  have hexec : stackBytes - 16 - (args.execPath.length + 1) + (args.execPath ++ [0]).length ≤ stackBytes := by
    rw [List.length_append, List.length_singleton]
    omega
  generalize hb₀ : ((⟨Bytes.zero, false⟩ : StackBuf).put (stackBytes - 16) randomBytes).put
    (stackBytes - 16 - (args.execPath.length + 1)) (args.execPath ++ [0]) = b₀
  have hout₀ : b₀.outside = false := by
    rw [← hb₀, StackBuf.outside_put hexec, StackBuf.outside_put hrand]
  clear hrand hexec
  generalize htop₀ : stackBytes - 16 - (args.execPath.length + 1) = top₀
  have hpush₁ := pushStrings_pushed args.envp b₀ (show stringsSize args.envp ≤ top₀ by omega) (by omega)
  generalize pushStrings args.envp b₀ top₀ = r₁ at hpush₁ ⊢
  obtain ⟨b₁, top₁, envpAddrs⟩ := r₁
  have hroom₁ := hpush₁.room
  dsimp only at hpush₁ hroom₁ ⊢
  have hpush₂ := pushStrings_pushed args.argv b₁ (show stringsSize args.argv ≤ top₁ by omega) (by omega)
  generalize pushStrings args.argv b₁ top₁ = r₂ at hpush₂ ⊢
  obtain ⟨b₂, top₂, argvAddrs⟩ := r₂
  have hroom₂ := hpush₂.room
  dsimp only at hpush₂ hroom₂ ⊢
  have hout₂ : b₂.outside = false := by rw [hpush₂.outside, hpush₁.outside, hout₀]
  have hwords : 8 * (args.argv.length + args.envp.length + 31) ≤ top₂ ∧ top₂ ≤ stackBytes := by omega
  rw [← stackWords]
  generalize stackAddr (stackBytes - 16) = randAddr
  generalize stackAddr top₀ = execfnAddr
  generalize hws : stackWords args info argvAddrs envpAddrs randAddr execfnAddr = words
  have hlen : words.length = args.argv.length + args.envp.length + 31 := by
    rw [← hws]
    simp [stackWords, auxv, hpush₁.strs.length_eq, hpush₂.strs.length_eq]
    omega
  have hdata := length_flatMap_le64 words
  have hlt : top₂ < 2 ^ 64 := hwords.2.trans_lt hbytes
  rw [halign8 hlt, sub64_of_le (by omega) ((Nat.div_mul_le_self ..).trans_lt hlt), halign16 (by omega)]
  generalize hoff : (top₂ / 8 * 8 - 8 * words.length) / 16 * 16 = off
  split
  · exact ⟨hout₂, fun _ hno => by cases hno⟩
  generalize hd : (words.flatMap fun w => Bytes.le64 (UInt64.ofNat w)) = data at hdata ⊢
  have hfit : off + data.length ≤ top₂ := by omega
  refine ⟨(StackBuf.outside_put (by omega)).trans hout₂, ?_⟩
  rintro _ ⟨⟩
  have hsame (x : Nat) (hx : stackBase + top₂ ≤ x) : (b₂.put off data).view x = b₂.view x :=
    StackBuf.view_put_of_ne (by omega) (.inr (by omega))
  refine ⟨by omega, by omega, argvAddrs, envpAddrs, randAddr, execfnAddr, ?_, ?_, ?_⟩
  · exact hpush₂.strs.imp fun addr str hstr => hstr.keep (by omega) (by omega) fun x hx _ => hsame x hx
  · exact hpush₁.strs.imp fun addr str hstr => hstr.keep (by omega) (by omega) fun x hx _ =>
      (hsame x (by omega)).trans (hpush₂.others x (.inr hx))
  · rw [hws, hd]
    exact StackBuf.bytesAt_put (by omega)

/-! ### The pages of the stack -/

/-- The part of the buffer that a page of the stack gets. -/
def stackSlice (buf : Bytes) (i : Nat) : Bytes := fun k => buf (stackBytes - (i + 1) * 4096 + k)

theorem vpn_stackPage (hi : i < userStackPages) : vpn (stackPage i) = 2 ^ 35 - 2 - i := by
  simp only [userStackPages] at hi
  simp only [vpn, stackPage, userStackTop, vmmPageSize]
  omega

/-- One table holds the entries of all pages of the stack. -/
theorem stackPage_table (hi : i < userStackPages) (hj : j < userStackPages) :
    vpn (stackPage i) / pageEntries = vpn (stackPage j) / pageEntries := by
  rw [vpn_stackPage hi, vpn_stackPage hj]
  simp only [userStackPages, pageEntries] at *
  omega

variable {boot : Nat → Prop} {root : Nat} {p₀ : Phys} {s : Supply} {space : AddressSpace} {env : LoadEnv} {d : ElfFile}
variable {phys : Nat}

theorem Loading.stackPage (h : Loading boot root p₀ s) (hroot : space.root = root)
    (hi : i < userStackPages) (halloc : s.allocPage = (s₁, phys)) (hphys : phys ≠ 0) (buf : Bytes) :
    let s' := (s₁.vmmMap space (stackPage i) phys stackFlags).1.changePage (pageIndex phys) fun _ =>
      pageWords (stackSlice buf i)
    Loading boot root p₀ s' ∧ PagePlaced root s s' (vpn (stackPage i)) (stackSlice buf i) := by
  obtain ⟨hv, haligned⟩ := stackPage_user hi
  have hmap := h.mapPage hroot hv haligned (by decide : stackFlags.testBit 0 = true) halloc hphys
    (pageWords (stackSlice buf i))
  rwa [show pageBytes (pageWords (stackSlice buf i)) = stackSlice buf i from funext (pageBytes_pageWords _)] at hmap

theorem mapStack_cons (buf : Bytes) (halloc : s.allocPage = (s₁, phys)) (hphys : phys ≠ 0)
    (i : Nat) (rest : List Nat) : mapStack space buf s (i :: rest) =
      mapStack space buf ((s₁.vmmMap space (stackPage i) phys stackFlags).1.changePage (pageIndex phys) fun _ =>
        pageWords (stackSlice buf i)) rest := by
  rw [mapStack, halloc]
  dsimp only
  rw [if_neg hphys]
  rfl

/-- A stack that is mapped got a page for each of its pages. -/
theorem allocPage_of_mapStack (hok : (mapStack space buf s (i :: rest)).2 = true) : s.allocPage.2 ≠ 0 := by
  intro hzero
  rw [mapStack] at hok
  generalize s.allocPage = r at hzero hok
  obtain ⟨s₁, phys⟩ := r
  dsimp only at hzero hok
  rw [if_pos hzero] at hok
  cases hok

/-- **The pages of the stack** are in their places when all are mapped: the first page may be lost for want of a
table, but then no page is left for the second one. -/
theorem mapStack_contents (hroot : space.root = root) (buf : Bytes) (l : List Nat) (hnodup : l.Nodup)
    (hl : ∀ i ∈ l, i < userStackPages ∧ userPage s.phys.mem root (vpn (stackPage i)) = none)
    (htable : (∃ j < userStackPages, userPage s.phys.mem root (vpn (stackPage j)) ≠ none) ∨
      s.Persistent ∧ 1 < l.length) (h : Loading boot root p₀ s) (hok : (mapStack space buf s l).2 = true) :
    ∀ i ∈ l, userPage (mapStack space buf s l).1.phys.mem root (vpn (stackPage i)) = some (stackSlice buf i) := by
  induction l generalizing s with
  | nil => exact fun _ hno => absurd hno List.not_mem_nil
  | cons i rest ih =>
  obtain ⟨hi, hnone⟩ := hl i List.mem_cons_self
  obtain ⟨hnotin, hrest⟩ := List.nodup_cons.mp hnodup
  have hphys := allocPage_of_mapStack hok
  rcases halloc : s.allocPage with ⟨s₁, phys⟩
  rw [halloc] at hphys
  obtain ⟨hload, hplaced⟩ := h.stackPage hroot hi halloc hphys buf
  rw [mapStack_cons buf halloc hphys] at hok ⊢
  generalize Supply.changePage _ _ _ = s' at hload hplaced hok ⊢
  cases hplaced with
  | lost _ hdry halone =>
    rcases htable with ⟨j, hj, hmapped⟩ | ⟨hs, hlength⟩
    · exact absurd (halone hnone _ (stackPage_user hj).1 (stackPage_table hj hi)) hmapped
    · cases rest with
      | nil => exact absurd hlength (by simp)
      | cons i' rest => exact absurd (hdry hnone hs).allocPage (allocPage_of_mapStack hok)
  | placed _ hset =>
  have hl' : ∀ i' ∈ rest, i' < userStackPages ∧ userPage s'.phys.mem root (vpn (stackPage i')) = none := by
    intro i' hi'
    obtain ⟨hlt, habsent⟩ := hl i' (List.mem_cons_of_mem _ hi')
    refine ⟨hlt, (hset.2 _ (stackPage_user hlt).1 ?_).trans habsent⟩
    rw [vpn_stackPage hlt, vpn_stackPage hi]
    have hne : i' ≠ i := fun heq => hnotin (heq ▸ hi')
    simp only [userStackPages] at hlt hi
    omega
  have hkeeps := (hload.mapStack hroot buf rest fun i' hi' => (hl' i' hi').1).2.2
  intro i' hi'
  rcases List.mem_cons.mp hi' with rfl | hi'
  · exact hkeeps.mapped _ (stackPage_user hi).1 _ hset.1
  · exact ih hrest hl' (.inl ⟨i, hi, by rw [hset.1]; simp⟩) hload hok i' hi'

/-! ### The stack of an image -/

/-- No page of the program and its interpreter is a page of the stack. -/
structure StackFree (env : LoadEnv) (d : ElfFile) : Prop where
  program : ∀ ph ∈ d.phdrs, ph.pType = ptLoad → ∀ vaddr ∈ ph.pages d.loadBase, ∀ i < userStackPages,
    vpn vaddr ≠ vpn (stackPage i)
  interp : ∀ d', interpFile env d = some d' → ∀ ph ∈ d'.phdrs, ph.pType = ptLoad →
    ∀ vaddr ∈ ph.pages d.interpBase, ∀ i < userStackPages, vpn vaddr ≠ vpn (stackPage i)

theorem StackFree.loadFiles (h : StackFree env d) (hi : i < userStackPages) :
    Image.loadFiles env d (fun _ => none) (vpn (stackPage i)) = none := by
  have hprogram : Image.loadSegments d d.loadBase (fun _ => none) d.phdrs (vpn (stackPage i)) = none :=
    Image.loadSegments_of_ne _ _ fun ph hph hload vaddr hvaddr => h.program ph hph hload vaddr hvaddr i hi
  unfold Image.loadFiles
  cases hfile : interpFile env d with
  | none => exact hprogram
  | some d' =>
    refine Eq.trans ?_ hprogram
    exact Image.loadSegments_of_ne _ _ fun ph hph hload vaddr hvaddr => h.interp d' hfile ph hph hload vaddr hvaddr i hi

/-- An image whose stack holds what was written to the buffer. -/
structure StackLoaded (args : ExecArgs) (info : StackInfo) (reply : LoadReply) (rsp : Nat) (b : StackBuf) (off : Nat) :
    Prop where
  fill : fillStack args info = (b, some off)
  rsp : rsp = stackAddr off
  outside : reply.outside = b.outside
  view : ∀ x c, b.view x = some c → userByte reply.supply.phys reply.proc.addressSpace x = some c

theorem stackBase_eq : stackBase = 0x7ffffffbf000 := by decide

theorem exists_stackPage (hlo : stackBase ≤ x) (hhi : x < userStackTop) :
    ∃ i < userStackPages, vpn x = vpn (stackPage i) ∧ stackBytes - (i + 1) * 4096 + x % 4096 = x - stackBase := by
  rw [stackBase_eq] at hlo ⊢
  simp only [userStackTop] at hhi
  have hlt : (0x7ffffffff000 - 1 - x) / 4096 < userStackPages := by
    simp only [userStackPages]
    omega
  refine ⟨(0x7ffffffff000 - 1 - x) / 4096, hlt, ?_, ?_⟩
  · rw [vpn_stackPage hlt]
    simp only [vpn, vmmPageSize]
    omega
  · rw [show stackBytes = 262144 by decide]
    omega

theorem userByte_of_view (h : ∀ i < userStackPages, userPage p.mem space.root
    (vpn (stackPage i)) = some (stackSlice b.bytes i)) {c : UInt8} (hx : b.view x = some c) :
    userByte p space x = some c := by
  unfold StackBuf.view at hx
  by_cases hrange : stackBase ≤ x ∧ x < userStackTop
  · rw [if_pos hrange, Option.some.injEq] at hx
    obtain ⟨i, hlt, hvpn, hoff⟩ := exists_stackPage hrange.1 hrange.2
    rw [userByte_eq, hvpn, h i hlt, Option.map_some, ← hx]
    exact congrArg (fun k => some (b.bytes k)) hoff
  · rw [if_neg hrange] at hx
    cases hx

theorem Loaded.stackLoaded {proc : Process} {reply : LoadReply} {s₂ : Supply} {interpBase entry rsp : Nat}
    (h : Loaded env s proc d args reply s₁ s₂ space interpBase entry rsp) (hready : LoadReady s.phys)
    (huser : LoadsUserHalf env d) (hfree : StackFree env d) (hs : s.Persistent) :
    ∃ b off, StackLoaded args ⟨phdrAddr d, d.ePhnum, interpBase, add64 d.loadBase d.eEntry⟩ reply rsp b off := by
  obtain ⟨s₁', o, hcreate, -, hnew⟩ := hready.create
  rw [h.create] at hcreate
  cases hcreate
  obtain ⟨hloading, -, hempty, -⟩ := hnew space rfl
  have hloads := Loads.loadImage hloading rfl huser
  have hs₁ := (Supply.later_vmmCreateAddressSpace h.create).persistent hs
  have hholds := hloads.image (by rw [h.image]; rfl) hs₁ (fun _ => none) (.inr hempty)
  have hs₂ := hloads.later.persistent hs₁
  rcases hholds with hdry | hholds
  · exact absurd hdry (not_dry_of_setupUserStack h.stack h.rsp_ne)
  have habsent : ∀ i < userStackPages, userPage (loadImage env space d s₁).1.phys.mem space.root (vpn (stackPage i)) =
      none := fun i hi => (hholds _ (stackPage_user hi).1).trans (hfree.loadFiles hi)
  have hstack := h.stack
  have hrsp := h.rsp_ne
  unfold setupUserStack at hstack
  split at hstack
  · exact absurd (Prod.mk.inj (Prod.mk.inj hstack).2).2.symm hrsp
  split at hstack
  · exact absurd (Prod.mk.inj (Prod.mk.inj hstack).2).2.symm hrsp
  rename_i b off hfill
  have hcontents := mapStack_contents rfl b.bytes (List.range userStackPages) List.nodup_range
    (fun i hi => ⟨List.mem_range.mp hi, habsent i (List.mem_range.mp hi)⟩) (.inr ⟨hs₂, by decide⟩) hloads.loading
  split at hstack
  · exact absurd (Prod.mk.inj (Prod.mk.inj hstack).2).2.symm hrsp
  rename_i s₃ heq
  rw [heq] at hcontents
  obtain ⟨rfl, hout⟩ := Prod.mk.inj hstack
  obtain ⟨hout, hrsp'⟩ := Prod.mk.inj hout
  refine ⟨b, off, hfill, hrsp'.symm, hout.symm, fun x c hx => ?_⟩
  rw [h.proc]
  refine userByte_of_view (fun i hi => ?_) hx
  rw [h.mem]
  exact hcontents rfl i (List.mem_range.mpr hi)

end Litenix
