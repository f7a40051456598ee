import Litenix.Lib.Bytes
import Litenix.Lib.Linked

/-! A memory of bytes with numbers in it, and lists that are linked through it: the word at a node is the
address of the next one, `0` at the end. What a write leaves alone is said by `SameOutside`, what a value
depends on by `Same`. -/

namespace Litenix.Lib

namespace Bytes

variable {l : List Nat} {head node : Nat}

/-- The 64-bit word at an address. -/
def addr (c : Bytes) (off : Nat) : Nat := (c.u64 off).toNat

def setU16 (c : Bytes) (off v : Nat) : Bytes := c.put off (le16 v)

def setU32 (c : Bytes) (off v : Nat) : Bytes := c.put off (le32 v)

def setAddr (c : Bytes) (off v : Nat) : Bytes := c.put off (le64 (UInt64.ofNat v))

/-- `memset` -/
def fill (c : Bytes) (off len : Nat) (byte : UInt8) : Bytes := fun k =>
  if off ≤ k ∧ k < off + len then byte else c k

/-- `memcpy` -/
def copy (c : Bytes) (dst src len : Nat) : Bytes := fun k =>
  if dst ≤ k ∧ k < dst + len then c (src + (k - dst)) else c k

def Same (c c' : Bytes) (off len : Nat) : Prop := ∀ k, off ≤ k → k < off + len → c' k = c k

def SameOutside (c c' : Bytes) (off len : Nat) : Prop := ∀ k, k < off ∨ off + len ≤ k → c' k = c k

variable {c c' c'' : Bytes} {off len off' len' v : Nat} {nodes : List Nat}

theorem Same.refl (c : Bytes) (off len : Nat) : Same c c off len := fun _ _ _ => rfl

theorem Same.trans (h : Same c c' off len) (h' : Same c' c'' off len) : Same c c'' off len :=
  fun k hlo hhi => (h' k hlo hhi).trans (h k hlo hhi)

theorem Same.mono (h : Same c c' off len) (hlo : off ≤ off') (hhi : off' + len' ≤ off + len) : Same c c' off' len' :=
  fun k hlo' hhi' => h k (by omega) (by omega)

section

variable (h : SameOutside c c' off len)

include h

theorem SameOutside.trans (h' : SameOutside c' c'' off len) : SameOutside c c'' off len :=
  fun k hk => (h' k hk).trans (h k hk)

theorem SameOutside.mono (hlo : off' ≤ off) (hhi : off + len ≤ off' + len') : SameOutside c c' off' len' :=
  fun k hk => h k (by omega)

theorem SameOutside.same (hapart : off' + len' ≤ off ∨ off + len ≤ off') : Same c c' off' len' :=
  fun k hlo hhi => h k (by omega)

end

theorem sameOutside_put (c : Bytes) (off : Nat) (bytes : List UInt8) : SameOutside c (c.put off bytes) off bytes.length
  | _, .inl hk => put_of_lt c off hk
  | _, .inr hk => put_of_ge c off hk

theorem sameOutside_setU16 (c : Bytes) (off v : Nat) : SameOutside c (c.setU16 off v) off 2 :=
  sameOutside_put c off (le16 v)

theorem sameOutside_setU32 (c : Bytes) (off v : Nat) : SameOutside c (c.setU32 off v) off 4 :=
  sameOutside_put c off (le32 v)

theorem sameOutside_setAddr (c : Bytes) (off v : Nat) : SameOutside c (c.setAddr off v) off 8 :=
  sameOutside_put c off (le64 (UInt64.ofNat v))

theorem sameOutside_fill (c : Bytes) (off len : Nat) (byte : UInt8) : SameOutside c (c.fill off len byte) off len :=
  fun _ hk => if_neg (by omega)

theorem sameOutside_copy (c : Bytes) (dst src len : Nat) : SameOutside c (c.copy dst src len) dst len :=
  fun _ hk => if_neg (by omega)

theorem copy_add (c : Bytes) (dst src : Nat) {i : Nat} (h : i < len) : c.copy dst src len (dst + i) = c (src + i) := by
  rw [copy, if_pos ⟨by omega, by omega⟩, Nat.add_sub_cancel_left]

theorem Same.u16 (h : Same c c' off 2) : c'.u16 off = c.u16 off := u16_congr h

theorem Same.addr (h : Same c c' off 8) : c'.addr off = c.addr off := congrArg UInt64.toNat (u64_congr h)

theorem addr_lt (c : Bytes) (off : Nat) : c.addr off < 2 ^ 64 := UInt64.toNat_lt _

theorem addr_setAddr (c : Bytes) (off : Nat) (h : v < 2 ^ 64) : (c.setAddr off v).addr off = v := by
  have hword : (c.setAddr off v).u64 off = UInt64.ofNat v :=
    u64_of_le64 fun k hk => put_add c off (show k < (le64 (UInt64.ofNat v)).length from hk)
  rw [addr, hword, UInt64.toNat_ofNat_of_lt' h]

theorem u16_setU16 (c : Bytes) (off v : Nat) : (c.setU16 off v).u16 off = v % 65536 := by
  have h0 : c.setU16 off v off = UInt8.ofNat v := put_add c off (show 0 < (le16 v).length from Nat.zero_lt_two)
  have h1 : c.setU16 off v (off + 1) = UInt8.ofNat (v / 256) := put_add c off (show 1 < (le16 v).length from Nat.one_lt_two)
  rw [u16, h0, h1, UInt8.toNat_ofNat', UInt8.toNat_ofNat']
  omega

theorem u16_of_addr (c : Bytes) (off : Nat) :
    c.u16 off = c.addr off % 65536 ∧ c.u16 (off + 2) = c.addr off / 65536 % 65536 := by
  have hbyte : ∀ k, (c k).toNat < 256 := fun k => UInt8.toNat_lt (c k)
  have h0 := hbyte off
  have h1 := hbyte (off + 1)
  have h2 := hbyte (off + 2)
  have h3 := hbyte (off + 3)
  have h4 := hbyte (off + 4)
  have h5 := hbyte (off + 5)
  have h6 := hbyte (off + 6)
  have h7 := hbyte (off + 7)
  simp only [addr, u64, u32, u16, UInt64.toNat_ofNat', Nat.add_assoc, Nat.reduceAdd]
  omega

/-! ### Linked lists -/

/-- The node that the word at an address points to. -/
def link (c : Bytes) (node : Nat) : Option Nat := if c.addr node = 0 then none else some (c.addr node)

theorem Same.link (h : Same c c' off 8) : c'.link off = c.link off := by
  rw [Bytes.link, Bytes.link, h.addr]

theorem link_of_addr (h : c.addr off = node) (hnode : node ≠ 0) : c.link off = some node := by
  rw [link, h, if_neg hnode]

theorem link_eq_some (h : c.link off = some node) : c.addr off = node ∧ node ≠ 0 := by
  unfold link at h
  split at h
  · cases h
  · rename_i hne
    cases h
    exact ⟨rfl, hne⟩

theorem addr_of_link_none (h : c.link off = none) : c.addr off = 0 := by
  unfold link at h
  split at h
  · assumption
  · cases h

/-- A node is put in front of the list that starts at `head`. -/
def pushLink (c : Bytes) (head node : Nat) : Bytes := (c.setAddr node (c.addr head)).setAddr head node

theorem addr_pushLink (h : node + 8 ≤ head ∨ head + 8 ≤ node) (hnode : node < 2 ^ 64) :
    (c.pushLink head node).addr head = node ∧ (c.pushLink head node).addr node = c.addr head := by
  refine ⟨addr_setAddr _ _ hnode, ?_⟩
  rw [pushLink, ((sameOutside_setAddr _ head node).same h).addr, addr_setAddr _ _ (addr_lt c head)]

theorem same_pushLink (hnode : off + len ≤ node ∨ node + 8 ≤ off)
    (hhead : off + len ≤ head ∨ head + 8 ≤ off) : Same c (c.pushLink head node) off len :=
  ((sameOutside_setAddr c node _).same hnode).trans ((sameOutside_setAddr _ head node).same hhead)

theorem seg_pushLink (h : Seg (link c) (link c head) l none)
    (hapart : node + 8 ≤ head ∨ head + 8 ≤ node) (hnode : node ≠ 0) (hlt : node < 2 ^ 64)
    (hl : ∀ x ∈ l, (x + 8 ≤ node ∨ node + 8 ≤ x) ∧ (x + 8 ≤ head ∨ head + 8 ≤ x)) :
    Seg (link (c.pushLink head node)) (link (c.pushLink head node) head) (node :: l) none := by
  obtain ⟨hfirst, hsecond⟩ := addr_pushLink (c := c) hapart hlt
  refine ⟨link_of_addr hfirst hnode, ?_⟩
  rw [link, hsecond]
  exact h.congr fun x hx => (same_pushLink (hl x hx).1 (hl x hx).2).link

theorem same_foldl_pushLink (hnodes : ∀ x ∈ nodes, off + len ≤ x ∨ x + 8 ≤ off)
    (hhead : off + len ≤ head ∨ head + 8 ≤ off) : Same c (nodes.foldl (fun c x => c.pushLink head x) c) off len := by
  induction nodes generalizing c with
  | nil => exact .refl c off len
  | cons x nodes ih =>
    rw [List.foldl_cons]
    exact (same_pushLink (hnodes x List.mem_cons_self) hhead).trans
      (ih fun y hy => hnodes y (List.mem_cons_of_mem _ hy))

theorem seg_foldl_pushLink (h : Seg (link c) (link c head) l none)
    (hnodes : ∀ x ∈ nodes, x ≠ 0 ∧ x < 2 ^ 64 ∧ (x + 8 ≤ head ∨ head + 8 ≤ x))
    (hl : ∀ x ∈ l, x + 8 ≤ head ∨ head + 8 ≤ x) (hapart : ∀ x ∈ nodes, ∀ y ∈ l, y + 8 ≤ x ∨ x + 8 ≤ y)
    (hpair : nodes.Pairwise fun x y => x + 8 ≤ y ∨ y + 8 ≤ x) :
    Seg (link (nodes.foldl (fun c x => c.pushLink head x) c))
      (link (nodes.foldl (fun c x => c.pushLink head x) c) head) (nodes.reverse ++ l) none := by
  induction nodes generalizing c l with
  | nil => exact h
  | cons x nodes ih =>
    obtain ⟨⟨hne, hlt, hhead⟩, hnodes⟩ := List.forall_mem_cons.mp hnodes
    obtain ⟨hfirst, hapart⟩ := List.forall_mem_cons.mp hapart
    obtain ⟨hx, hpair⟩ := List.pairwise_cons.mp hpair
    have hseg := seg_pushLink h hhead hne hlt fun y hy => ⟨hfirst y hy, hl y hy⟩
    rw [List.foldl_cons, List.reverse_cons, List.append_assoc]
    exact ih hseg hnodes (List.forall_mem_cons.mpr ⟨hhead, hl⟩)
      (fun y hy => List.forall_mem_cons.mpr ⟨hx y hy, hapart y hy⟩) hpair

theorem seg_pop (h : Seg (link c) (link c head) (node :: l) none) (hl : ∀ x ∈ l, x + 8 ≤ head ∨ head + 8 ≤ x) :
    Seg (link (c.setAddr head (c.addr node))) (link (c.setAddr head (c.addr node)) head) l none := by
  have hhead : link (c.setAddr head (c.addr node)) head = link c node := by
    rw [link, link, addr_setAddr _ _ (addr_lt c node)]
  rw [hhead]
  exact h.2.congr fun x hx => ((sameOutside_setAddr c head _).same (hl x hx)).link

end Bytes

end Litenix.Lib
