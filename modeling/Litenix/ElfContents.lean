import Litenix.ElfIsolation

/-! What a program finds in memory after it was loaded. The pages of the new space hold the image of the file,
segment over segment, unless the load ran out of pages; and then the next allocation fails, and the load with
it. The loader does not look at the result of `vmm_map`, so this needs that allocations do not succeed again
after one has failed. -/

namespace Litenix

open Lib Function

/-! ### Bytes of an image -/

/-- A byte of an image; missing pages count as zero. -/
def Image.byteAt (im : Image) (x : Nat) : UInt8 := (im (vpn x)).getD Bytes.zero (x % 4096)

variable {d : ElfFile} {base x : Nat} {ph : Phdr}
variable {space : AddressSpace} {env : LoadEnv} {k v vaddr : Nat} {s₁ : Supply}

section

variable (haligned : pageAligned vaddr = true) (hv : vaddr < 2 ^ 48) (hx : x < 2 ^ 48)

include haligned hv hx

theorem vpn_eq_iff : vpn vaddr = vpn x ↔ vaddr ≤ x ∧ x < vaddr + 4096 := by
  rw [pageAligned_iff] at haligned
  simp only [vpn, vmmPageSize]
  omega

theorem Image.byteAt_put (im : Image) : (im.put (vpn vaddr) (segmentBytes d ph base vaddr)).byteAt x =
      if vpn vaddr = vpn x ∧ ph.start base ≤ x ∧ x < add64 (ph.start base) ph.pFilesz then
        d.mem (ph.pOffset + (x - ph.start base)) else im.byteAt x := by
  by_cases hpage : vpn vaddr = vpn x
  · have hrange := (vpn_eq_iff haligned hv hx).mp hpage
    have hoff : vaddr + x % 4096 = x := by
      rw [pageAligned_iff] at haligned
      omega
    rw [Image.byteAt, Image.put, hpage, update_self, Option.getD_some, segmentBytes, hoff]
    simp only [Nat.mod_lt x (show 0 < 4096 by norm_num), true_and]
    rfl
  · rw [if_neg fun h => hpage h.1, Image.byteAt, Image.put, update_of_ne (Ne.symm hpage)]
    rfl

end

theorem Image.byteAt_loadPages (hx : x < 2 ^ 48) (pages : List Nat)
    (hpages : ∀ vaddr ∈ pages, pageAligned vaddr = true ∧ vaddr < 2 ^ 48) (im : Image) :
    (im.loadPages d base ph pages).byteAt x =
      if (∃ vaddr ∈ pages, vpn vaddr = vpn x) ∧ ph.start base ≤ x ∧ x < add64 (ph.start base) ph.pFilesz then
        d.mem (ph.pOffset + (x - ph.start base)) else im.byteAt x := by
  induction pages generalizing im with
  | nil => simp [Image.loadPages]
  | cons vaddr rest ih =>
  obtain ⟨haligned, hv⟩ := hpages vaddr List.mem_cons_self
  have hrest := ih (fun v hv => hpages v (List.mem_cons_of_mem _ hv))
    (im.put (vpn vaddr) (segmentBytes d ph base vaddr))
  rw [Image.byteAt_put haligned hv hx] at hrest
  refine Eq.trans hrest ?_
  by_cases hfile : ph.start base ≤ x ∧ x < add64 (ph.start base) ph.pFilesz
  · simp only [hfile, and_self, and_true, List.exists_mem_cons_iff]
    by_cases hhere : vpn vaddr = vpn x
    · simp [hhere]
    · simp [hhere]
  · simp [hfile]

theorem Image.isSome_loadPages (im : Image) (pages : List Nat) (v : Nat) :
    ((im.loadPages d base ph pages) v).isSome = true ↔ (im v).isSome = true ∨ ∃ vaddr ∈ pages, vpn vaddr = v := by
  induction pages generalizing im with
  | nil => simp [Image.loadPages]
  | cons vaddr rest ih =>
    refine (ih (im.put (vpn vaddr) (segmentBytes d ph base vaddr))).trans ?_
    rw [List.exists_mem_cons_iff]
    by_cases hhere : vpn vaddr = v
    · simp [Image.put, hhere]
    · simp [Image.put, hhere, update_of_ne (Ne.symm hhere)]

theorem Image.loadPages_of_ne (im : Image) (pages : List Nat) (h : ∀ vaddr ∈ pages, vpn vaddr ≠ v) :
    im.loadPages d base ph pages v = im v := by
  induction pages generalizing im with
  | nil => rfl
  | cons vaddr rest ih =>
    refine (ih _ fun v hv => h v (List.mem_cons_of_mem _ hv)).trans ?_
    exact update_of_ne (Ne.symm (h vaddr List.mem_cons_self)) _ _

/-! ### Segments in the user half -/

/-- A segment that the loader is asked to support. -/
structure Phdr.Fits (ph : Phdr) (base : Nat) : Prop where
  user : base + ph.pVaddr + ph.pMemsz ≤ 2 ^ 47
  filesz : ph.pFilesz ≤ ph.pMemsz

section

variable (h : ph.Fits base)

include h

theorem Phdr.Fits.start_eq : ph.start base = base + ph.pVaddr :=
  add64_of_lt (by have := h.user; omega)

theorem Phdr.Fits.pageEnd_eq : ph.pageEnd base = (base + ph.pVaddr + ph.pMemsz + 4095) / 4096 * 4096 := by
  have := h.user
  rw [Phdr.pageEnd, h.start_eq, add64_of_lt (by omega), pageAlignUp_eq]
  omega

theorem Phdr.Fits.page_lt (hvaddr : vaddr ∈ ph.pages base) : vaddr < 2 ^ 47 := by
  have hlt := (Phdr.mem_pages hvaddr).2.2.1
  have := h.user
  rw [h.pageEnd_eq] at hlt
  omega

theorem Phdr.Fits.inUserHalf : ph.InUserHalf base := by
  intro vaddr hvaddr
  have := h.page_lt hvaddr
  rw [← vpn_lt_userPages_iff]
  simp only [vpn, vmmPageSize, userPages]
  omega

theorem Phdr.Fits.exists_page (hk : k < ph.pMemsz) :
    ∃ vaddr ∈ ph.pages base, vpn vaddr = vpn (base + ph.pVaddr + k) := by
  have huser := h.user
  have hdown : pageAlignDown (ph.start base) = (base + ph.pVaddr) / 4096 * 4096 := by
    rw [h.start_eq, pageAlignDown_eq]
    omega
  refine ⟨pageAlignDown (ph.start base) + ((base + ph.pVaddr + k) / 4096 - (base + ph.pVaddr) / 4096) * 4096, ?_, ?_⟩
  · refine mem_pageAddrs_of_lt ?_
    rw [hdown, h.pageEnd_eq]
    omega
  · rw [hdown]
    simp only [vpn, vmmPageSize]
    omega

theorem Phdr.Fits.byteAt (hx : x < 2 ^ 48) (im : Image) : (im.loadPages d base ph (ph.pages base)).byteAt x =
      if base + ph.pVaddr ≤ x ∧ x < base + ph.pVaddr + ph.pFilesz then d.mem (ph.pOffset + (x - (base + ph.pVaddr)))
      else im.byteAt x := by
  have huser := h.user
  have hfilesz := h.filesz
  rw [Image.byteAt_loadPages hx _ fun vaddr hvaddr =>
      ⟨(Phdr.mem_pages hvaddr).1, (h.page_lt hvaddr).trans (by norm_num)⟩,
    h.start_eq, add64_of_lt (by omega)]
  by_cases hfile : base + ph.pVaddr ≤ x ∧ x < base + ph.pVaddr + ph.pFilesz
  · have hpage := h.exists_page (k := x - (base + ph.pVaddr)) (by omega)
    rw [show base + ph.pVaddr + (x - (base + ph.pVaddr)) = x by omega] at hpage
    rw [if_pos ⟨hpage, hfile⟩, if_pos hfile]
  · rw [if_neg fun hc => hfile hc.2, if_neg hfile]

end

theorem Image.loadSegments_append (d : ElfFile) (base : Nat) (im : Image) (l₁ l₂ : List Phdr) :
    im.loadSegments d base (l₁ ++ l₂) = (im.loadSegments d base l₁).loadSegments d base l₂ := List.foldl_append ..

theorem Image.loadSegments_cons (d : ElfFile) (base : Nat) (im : Image) (ph : Phdr) (l : List Phdr) :
    im.loadSegments d base (ph :: l) =
      (if ph.pType = ptLoad then im.loadPages d base ph (ph.pages base) else im).loadSegments d base l := rfl

/-- Segments whose bytes in the file do not reach an address leave its byte. -/
theorem Image.byteAt_loadSegments_of_outside (hx : x < 2 ^ 48) (phs : List Phdr)
    (hfits : ∀ ph ∈ phs, ph.pType = ptLoad → ph.Fits base)
    (hout : ∀ ph ∈ phs, ph.pType = ptLoad → ¬(base + ph.pVaddr ≤ x ∧ x < base + ph.pVaddr + ph.pFilesz)) (im : Image) :
    (im.loadSegments d base phs).byteAt x = im.byteAt x := by
  induction phs generalizing im with
  | nil => rfl
  | cons ph rest ih =>
    rw [Image.loadSegments_cons, ih (fun ph hph => hfits ph (List.mem_cons_of_mem _ hph))
      fun ph hph => hout ph (List.mem_cons_of_mem _ hph)]
    split
    · rename_i hload
      rw [(hfits ph List.mem_cons_self hload).byteAt hx, if_neg (hout ph List.mem_cons_self hload)]
    · rfl

theorem Image.isSome_loadSegments (im : Image) (phs : List Phdr) (h : (im v).isSome = true) :
    (im.loadSegments d base phs v).isSome = true := by
  induction phs generalizing im with
  | nil => exact h
  | cons ph rest ih =>
    rw [Image.loadSegments_cons]
    refine ih _ ?_
    split
    · exact (Image.isSome_loadPages ..).mpr (.inl h)
    · exact h

theorem Image.loadSegments_of_ne (im : Image) (phs : List Phdr)
    (h : ∀ ph ∈ phs, ph.pType = ptLoad → ∀ vaddr ∈ ph.pages base, vpn vaddr ≠ v) :
    im.loadSegments d base phs v = im v := by
  induction phs generalizing im with
  | nil => rfl
  | cons ph rest ih =>
    rw [Image.loadSegments_cons, ih _ fun ph hph => h ph (List.mem_cons_of_mem _ hph)]
    split
    · rename_i hload
      exact Image.loadPages_of_ne _ _ (h ph List.mem_cons_self hload)
    · rfl

/-- The address ranges of two segments have no address in common. -/
def Phdr.Apart (a b : Phdr) : Prop := a.pVaddr + a.pMemsz ≤ b.pVaddr ∨ b.pVaddr + b.pMemsz ≤ a.pVaddr

/-- **The bytes of a segment** among segments that lie apart. -/
theorem Image.byteAt_loadSegments (phs : List Phdr) (hfits : ∀ ph ∈ phs, ph.pType = ptLoad → ph.Fits base)
    (hapart : phs.Pairwise fun a b => a.pType = ptLoad → b.pType = ptLoad → a.Apart b) (hph : ph ∈ phs)
    (hload : ph.pType = ptLoad) (hk : k < ph.pMemsz) (im : Image) :
    (im.loadSegments d base phs (vpn (base + ph.pVaddr + k))).isSome = true ∧
      (im.loadSegments d base phs).byteAt (base + ph.pVaddr + k) =
        if k < ph.pFilesz then d.mem (ph.pOffset + k) else im.byteAt (base + ph.pVaddr + k) := by
  have hfit := hfits ph hph hload
  have hx : base + ph.pVaddr + k < 2 ^ 48 := by
    have := hfit.user
    omega
  obtain ⟨l₁, l₂, rfl⟩ := List.append_of_mem hph
  obtain ⟨-, hpair, hbefore⟩ := List.pairwise_append.mp hapart
  obtain ⟨hafter, -⟩ := List.pairwise_cons.mp hpair
  -- no other segment reaches the address
  have hout : ∀ ph' : Phdr, ph'.Fits base → ph'.Apart ph ∨ ph.Apart ph' →
      ¬(base + ph'.pVaddr ≤ base + ph.pVaddr + k ∧ base + ph.pVaddr + k < base + ph'.pVaddr + ph'.pFilesz) := by
    intro ph' hfit' hdisjoint
    have := hfit'.filesz
    simp only [Phdr.Apart] at hdisjoint
    omega
  have hfits₁ : ∀ ph' ∈ l₁, ph'.pType = ptLoad → ph'.Fits base := fun ph' h => hfits ph' (List.mem_append_left _ h)
  have hfits₂ : ∀ ph' ∈ l₂, ph'.pType = ptLoad → ph'.Fits base :=
    fun ph' h => hfits ph' (List.mem_append_right _ (List.mem_cons_of_mem _ h))
  rw [Image.loadSegments_append, Image.loadSegments_cons, if_pos hload]
  constructor
  · exact Image.isSome_loadSegments _ _ ((Image.isSome_loadPages ..).mpr (.inr (hfit.exists_page hk)))
  rw [Image.byteAt_loadSegments_of_outside hx l₂ hfits₂ fun ph' h hl =>
      hout ph' (hfits₂ ph' h hl) (.inr (hafter ph' h hload hl)),
    hfit.byteAt hx, Image.byteAt_loadSegments_of_outside hx l₁ hfits₁ fun ph' h hl =>
      hout ph' (hfits₁ ph' h hl) (.inl (hbefore ph' h ph List.mem_cons_self hl hload))]
  by_cases hfile : k < ph.pFilesz
  · rw [if_pos (by omega), if_pos hfile]
    congr 1
    omega
  · rw [if_neg (by omega), if_neg hfile]

/-! ### Memory after a load -/

/-- The byte that a program reads at an address, if the address is mapped. -/
def userByte (p : Phys) (space : AddressSpace) (virt : Nat) : Option UInt8 :=
  (vmmVirtToPhys p space virt).map fun phys => pageBytes (p.mem (pageIndex phys)) (phys % 4096)

theorem userByte_eq (p : Phys) (space : AddressSpace) (virt : Nat) :
    userByte p space virt = (userPage p.mem space.root (vpn virt)).map fun page => page (virt % 4096) := by
  have hpte := presentPte_of_pte p.mem space.root (alignDown virt vmmPageSize)
  rw [vpn_alignDown] at hpte
  unfold userByte vmmVirtToPhys userPage
  rw [← hpte]
  cases presentPte p.mem space.root (alignDown virt vmmPageSize) with
  | none => rfl
  | some x =>
  obtain ⟨pt, i, e⟩ := x
  simp only [Option.map_some, land_pageOffsetMask]
  have hindex : pageIndex (entryPhys e + virt % 4096) = entryIndex e := by
    rw [entryPhys_eq_pageAddr, pageIndex, pageAddr, pmmPageSize]
    omega
  have hoff : (entryPhys e + virt % 4096) % 4096 = virt % 4096 := by
    rw [entryPhys_eq_pageAddr, pageAddr, pmmPageSize]
    omega
  rw [hindex, hoff]

/-- A file whose segments the loader is asked to support. -/
structure Loadable (d : ElfFile) : Prop where
  size : d.size < 2 ^ 64
  fits : ∀ ph ∈ d.phdrs, ph.pType = ptLoad → ph.Fits d.loadBase
  inFile : ∀ ph ∈ d.phdrs, ph.pType = ptLoad → ph.pOffset + ph.pFilesz ≤ d.size
  apart : d.phdrs.Pairwise fun a b => a.pType = ptLoad → b.pType = ptLoad → a.Apart b

/-- The interpreter lies in the user half and shares no page with the program. -/
structure InterpApart (env : LoadEnv) (d : ElfFile) : Prop where
  user : ∀ d', interpFile env d = some d' → d'.InUserHalf d.interpBase
  apart : ∀ d', interpFile env d = some d' → ∀ ph' ∈ d'.phdrs, ph'.pType = ptLoad →
    ∀ vaddr' ∈ ph'.pages d.interpBase, ∀ ph ∈ d.phdrs, ph.pType = ptLoad →
      ∀ vaddr ∈ ph.pages d.loadBase, vpn vaddr' ≠ vpn vaddr

/-- Memory holds the segments of the program: the bytes of the file, then zeros. -/
def HoldsSegments (d : ElfFile) (p : Phys) (space : AddressSpace) : Prop :=
  ∀ ph ∈ d.phdrs, ph.pType = ptLoad → ∀ k < ph.pMemsz, userByte p space (d.loadBase + ph.pVaddr + k) =
    some (if k < ph.pFilesz then d.bytes (ph.pOffset + k) else 0)

theorem Loadable.loadsUserHalf (h : Loadable d) (hinterp : InterpApart env d) : LoadsUserHalf env d :=
  ⟨fun ph hph hload => (h.fits ph hph hload).inUserHalf, hinterp.user⟩

theorem Loadable.byteAt_loadFiles (h : Loadable d) (hinterp : InterpApart env d) (hph : ph ∈ d.phdrs)
    (hload : ph.pType = ptLoad) (hk : k < ph.pMemsz) :
    (Image.loadFiles env d (fun _ => none) (vpn (d.loadBase + ph.pVaddr + k))).map
        (fun page => page ((d.loadBase + ph.pVaddr + k) % 4096)) =
      some (if k < ph.pFilesz then d.bytes (ph.pOffset + k) else 0) := by
  obtain ⟨hsome, hbyte⟩ := Image.byteAt_loadSegments d.phdrs h.fits h.apart hph hload hk (d := d) fun _ => none
  have hsame : Image.loadFiles env d (fun _ => none) (vpn (d.loadBase + ph.pVaddr + k)) =
      Image.loadSegments d d.loadBase (fun _ => none) d.phdrs (vpn (d.loadBase + ph.pVaddr + k)) := by
    unfold Image.loadFiles
    cases hfile : interpFile env d with
    | none => rfl
    | some d' =>
      refine Image.loadSegments_of_ne _ _ fun ph' hph' hload' vaddr' hvaddr' => ?_
      obtain ⟨vaddr, hvaddr, hpage⟩ := (h.fits ph hph hload).exists_page hk
      rw [← hpage]
      exact hinterp.apart d' hfile ph' hph' hload' vaddr' hvaddr' ph hph hload vaddr hvaddr
  rw [hsame]
  obtain ⟨page, hpage⟩ := Option.isSome_iff_exists.mp hsome
  rw [Image.byteAt, hpage, Option.getD_some] at hbyte
  rw [hpage, Option.map_some, hbyte]
  congr 1
  split
  · have := h.inFile ph hph hload
    have := h.size
    exact congrArg d.bytes (Nat.mod_eq_of_lt (by omega))
  · rfl

variable {s s₂ : Supply} {args : ExecArgs} {rsp : Nat}

theorem Supply.Dry.allocPage (h : s.Dry) : s.allocPage.2 = 0 := by
  unfold Supply.allocPage
  split
  · rfl
  rename_i hfails
  rcases h with hyes | hnone
  · exact absurd hyes hfails
  rcases s.phys.pmm.allocBelowIndex_cases s.phys.pmm.totalPages with ⟨halloc, -⟩ | ⟨i, hi, havail, -⟩
  · simp only [Phys.allocPage, pmmAllocPage, halloc, if_true]
  · rw [hnone i hi] at havail
    cases havail

/-- The stack needs a page, so the load fails when there is none. -/
theorem not_dry_of_setupUserStack (h : setupUserStack env space args info s = (s₂, outside, rsp)) (hrsp : rsp ≠ 0) :
    ¬s.Dry := by
  intro hdry
  have hmap : ∀ buf : Bytes, (mapStack space buf s (List.range userStackPages)).2 = false := by
    intro buf
    have halloc := hdry.allocPage
    rw [show List.range userStackPages = 0 :: (List.range 63).map (· + 1) by decide, mapStack]
    generalize s.allocPage = r at halloc
    obtain ⟨s', phys⟩ := r
    dsimp only at halloc ⊢
    rw [if_pos halloc]
  unfold setupUserStack at h
  split at h
  · cases h
    exact hrsp rfl
  split at h
  · cases h
    exact hrsp rfl
  rename_i b rspOffset _
  have hno := hmap b.bytes
  split at h
  · cases h
    exact hrsp rfl
  · rename_i heq
    rw [heq] at hno
    cases hno

theorem HoldsSegments.mapped (h : HoldsSegments d p space) (hph : ph ∈ d.phdrs)
    (hload : ph.pType = ptLoad) (hk : k < ph.pMemsz) (hx : d.loadBase + ph.pVaddr + k = x) :
    userPage p.mem space.root (vpn x) ≠ none := by
  intro hnone
  have hbyte := h ph hph hload k hk
  rw [hx, userByte_eq, hnone] at hbyte
  cases hbyte

/-- What the stack leaves of the program and its interpreter. -/
theorem Loaded.keepsPages {proc : Process} {reply : LoadReply} {interpBase entry : Nat}
    (h : Loaded env s proc d args reply s₁ s₂ space interpBase entry rsp) (hready : LoadReady s.phys)
    (huser : LoadsUserHalf env d) :
    KeepsPages space.root (loadImage env space d s₁).1.phys.mem reply.supply.phys.mem := by
  obtain ⟨s₁', o, hcreate, -, hnew⟩ := hready.create
  rw [h.create] at hcreate
  cases hcreate
  have hkeeps := ((Loads.loadImage (hnew space rfl).1 rfl huser).loading.setupUserStack rfl env args
    ⟨phdrAddr d, d.ePhnum, interpBase, add64 d.loadBase d.eEntry⟩).2
  rwa [h.stack, ← h.mem] at hkeeps

theorem InterpApart.of_static (hno : (interpFile env d).isNone = true) : InterpApart env d :=
  ⟨fun d' hd' => (by rw [hd'] at hno; cases hno), fun d' hd' => (by rw [hd'] at hno; cases hno)⟩

theorem smallProgram_phdrs : smallProgram.phdrs = [⟨ptLoad, 5, 0, 0x400000, 120, 200⟩] := by decide +kernel

theorem smallProgram_loadBase : smallProgram.loadBase = 0 := by decide +kernel

theorem smallProgram_loadable : Loadable smallProgram := by
  have hsize : smallProgram.size = 120 := by decide +kernel
  refine ⟨by rw [hsize]; norm_num, ?_, ?_, ?_⟩
  · rw [smallProgram_phdrs, smallProgram_loadBase]
    intro ph hph _
    rw [List.mem_singleton] at hph
    subst hph
    exact ⟨by norm_num, by norm_num⟩
  · rw [smallProgram_phdrs, hsize]
    intro ph hph _
    rw [List.mem_singleton] at hph
    subst hph
    norm_num
  · rw [smallProgram_phdrs]
    exact List.pairwise_singleton ..

/-- The fourth allocation fails: that of the first table for the segment. -/
def fourthFails : Supply := ⟨loadPhys, fun n => n == 3⟩

/-- A test of the state after the segments of the program. -/
def imageCheck (env : LoadEnv) (s : Supply) (d : ElfFile) (check : Supply → AddressSpace → Bool) : Bool :=
  match s.vmmCreateAddressSpace with
  | .ok (s, some space) => check (loadImage env space d s).1 space
  | _ => false

theorem imageCheck_sound (hcreate : s.vmmCreateAddressSpace = .ok (s₁, some space))
    (h : imageCheck env s d check = true) : check (loadImage env space d s₁).1 space = true := by
  rwa [imageCheck, hcreate] at h

theorem fourthFails_unmapped (h : fourthFails.vmmCreateAddressSpace = .ok (s₁, some space)) :
    userPage (loadImage loadEnv space smallProgram s₁).1.phys.mem space.root (vpn 0x400000) = none := by
  have hnone := imageCheck_sound h (show imageCheck loadEnv fourthFails smallProgram
    (fun s space => (vmmVirtToPhys s.phys space 0x400000).isNone) = true by decide +kernel)
  have haligned : pageAligned 0x400000 = true := by decide +kernel
  rw [vmmVirtToPhys_eq_pte _ _ haligned, Option.isNone_map, Option.isNone_iff_eq_none] at hnone
  exact userPage_eq_none.mpr hnone

end Litenix
