import Litenix.Lib.Run

/-! The replies that `dhcpcd` takes (`dhcp_parse_reply`, `parse_reply`). A datagram is a list of bytes, and a read behind
its end is a fault. No datagram leads to one. But the cookie is compared as a number of the machine, which is
little-endian: what is taken has its bytes in another order than the protocol, so no reply of a server is. -/

namespace Litenix.Dhcp

inductive Fault where
  | readBehind

def read (d : List UInt8) (i n : Nat) : Except Fault (List UInt8) :=
  if i + n ≤ d.length then .ok ((d.drop i).take n) else .error .readBehind

/-- The number in the byte order of the machine. -/
def host (bytes : List UInt8) : Nat := bytes.foldr (fun b n => b.toNat + 256 * n) 0

/-- The number as the shifts of the option values build it. -/
def network (bytes : List UInt8) : Nat := bytes.foldl (fun n b => 256 * n + b.toNat) 0

/-- A value with a flag `has_` is `some` when the flag is set. -/
structure Lease where
  yourIp : List UInt8
  msgType : Nat := 0
  serverId : Option (List UInt8) := none
  subnetMask : Option (List UInt8) := none
  router : Option (List UInt8) := none
  dns : Option (List UInt8) := none
  leaseSeconds : Nat := 0
  t1Seconds : Nat := 0
  t2Seconds : Nat := 0
  hostname : Option (List UInt8) := none
  domain : Option (List UInt8) := none

/-- The cases of the `switch` that read `n` bytes of the value if its length is right. -/
def store (d : List UInt8) (i : Nat) (l : Lease) (right : Bool) (n : Nat) (set : List UInt8 → Lease) : Except Fault Lease :=
  if right then (read d i n).map set else .ok l

/-- The codes are `DHCP_OPT_MSG_TYPE`, `SERVER_ID`, `SUBNET_MASK`, `ROUTER`, `DNS`, `LEASE_TIME`, `RENEWAL`, `REBIND`,
`HOSTNAME` and `DOMAIN_NAME`, in this order. -/
def storeOption (d : List UInt8) (i len : Nat) (l : Lease) : Nat → Except Fault Lease
  | 53 => store d i l (1 ≤ len) 1 fun v => { l with msgType := host v }
  | 54 => store d i l (len = 4) 4 fun v => { l with serverId := some v }
  | 1 => store d i l (len = 4) 4 fun v => { l with subnetMask := some v }
  | 3 => store d i l (4 ≤ len) 4 fun v => { l with router := some v }
  | 6 => store d i l (4 ≤ len) 4 fun v => { l with dns := some v }
  | 51 => store d i l (len = 4) 4 fun v => { l with leaseSeconds := network v }
  | 58 => store d i l (len = 4) 4 fun v => { l with t1Seconds := network v }
  | 59 => store d i l (len = 4) 4 fun v => { l with t2Seconds := network v }
  | 12 => store d i l (len < 64) len fun v => { l with hostname := some v }
  | 15 => store d i l (len < 64) len fun v => { l with domain := some v }
  | _ => .ok l

/-- The loop of `dhcp_parse_reply` over the options, which start at `opts`. -/
def parseOptions (d : List UInt8) (opts optsLen i : Nat) (l : Lease) : Except Fault Lease :=
  if i < optsLen then do
    let code ← read d (opts + i) 1
    if host code = 255 then return l
    if i + 1 ≥ optsLen then return l
    let len ← read d (opts + i + 1) 1
    if i + 2 + host len > optsLen then return l
    let l ← storeOption d (opts + i + 2) (host len) l (host code)
    parseOptions d opts optsLen (i + 2 + host len) l
  else return l
termination_by optsLen - i

/-- The result is `none` for `-1`. -/
def dhcpParseReply (d : List UInt8) (opts optsLen expectedXid : Nat) : Except Fault (Option Lease) := do
  if d.length < 240 then return none
  let op ← read d 0 1
  if host op ≠ 2 then return none
  let magic ← read d 236 4
  if host magic ≠ 0x63825363 then return none
  let xid ← read d 4 4
  if host xid ≠ expectedXid then return none
  let yiaddr ← read d 16 4
  let lease ← parseOptions d opts optsLen 0 { yourIp := yiaddr }
  return some lease

/-- A `struct dhcp_packet` has 552 bytes, the options from 240 on. -/
def parseReply (d : List UInt8) (expectedXid : Nat) : Except Fault (Option Lease) :=
  if d.length < 552 then .ok none
  else if d.length - 240 = 0 then .ok none
  else dhcpParseReply d 240 (d.length - 240) expectedXid

variable {d : List UInt8} {i n opts optsLen xid : Nat} {l : Lease}

theorem read_ok (h : i + n ≤ d.length) : read d i n = .ok ((d.drop i).take n) := if_pos h

theorem storeOption_ok (h : i + len ≤ d.length) (l : Lease) (code : Nat) :
    ∃ l', storeOption d i len l code = .ok l' := by
  have hstore (right : Bool) (n : Nat) (set) (hn : right = true → n ≤ len) : ∃ l', store d i l right n set = .ok l' := by
    unfold store
    split
    · rename_i hright
      rw [read_ok (by have := hn hright; omega)]
      exact ⟨_, rfl⟩
    · exact ⟨l, rfl⟩
  unfold storeOption
  split <;> first | exact ⟨l, rfl⟩ | exact hstore _ _ _ (by grind)

/-- An option is only read when its value ends in the datagram. -/
theorem parseOptions_ok (h : opts + optsLen ≤ d.length) (i : Nat) (l : Lease) :
    ∃ l', parseOptions d opts optsLen i l = .ok l' := by
  rw [parseOptions]
  split
  case isFalse => exact ⟨l, rfl⟩
  rw [read_ok (by omega)]
  dsimp only [bind, Except.bind]
  split
  · exact ⟨l, rfl⟩
  split
  · exact ⟨l, rfl⟩
  rw [read_ok (by omega)]
  dsimp only
  split
  · exact ⟨l, rfl⟩
  generalize host ((d.drop (opts + i + 1)).take 1) = len at *
  obtain ⟨l', hl'⟩ := storeOption_ok (show opts + i + 2 + len ≤ d.length by omega) l (host _)
  rw [hl']
  exact parseOptions_ok h (i + 2 + len) l'
termination_by optsLen - i

/-! ### The format -/

inductive Item where
  | pad
  | option (code : UInt8) (value : List UInt8)

def Item.bytes : Item → List UInt8
  | pad => [0]
  | option code value => code :: .ofNat value.length :: value

def Item.Valid : Item → Prop
  | pad => True
  | option code value => code ≠ 0 ∧ code ≠ 255 ∧ value.length < 256

/-- A BOOTREPLY: the header, the cookie, any options and the end. -/
def WellFormed (xid : Nat) (d : List UInt8) : Prop :=
  ∃ header, ∃ items : List Item, d = header ++ [99, 130, 83, 99] ++ items.flatMap Item.bytes ++ [255] ∧ header.length = 236 ∧
    header.take 1 = [2] ∧ host ((header.drop 4).take 4) = xid ∧ d.length ≤ 552 ∧ ∀ item ∈ items, item.Valid

theorem WellFormed.cookie (h : WellFormed xid d) : (d.drop 236).take 4 = [99, 130, 83, 99] := by
  obtain ⟨header, items, rfl, hlen, -⟩ := h
  simp [hlen]

theorem host_eq_magic (h : bytes.length = 4) : host bytes = 0x63825363 ↔ bytes = [99, 83, 130, 99] := by
  match bytes, h with
  | [a, b, c, e], _ =>
    have := a.toNat_lt
    have := b.toNat_lt
    have := c.toNat_lt
    have := e.toNat_lt
    simp only [host, List.foldr_cons, List.foldr_nil, List.cons.injEq, and_true, ← UInt8.toNat_inj]
    change _ ↔ a.toNat = 99 ∧ b.toNat = 83 ∧ c.toNat = 130 ∧ e.toNat = 99
    omega

/-- **What `dhcpcd` takes.** No datagram makes `parse_reply` read behind its end. It returns 0 exactly for a datagram of the
full size with the bytes of the cookie in the order 99, 83, 130, 99, and so for no well-formed reply. -/
theorem parse_reply_accepts_iff (d : List UInt8) (xid : Nat) :
    ∃ r, parseReply d xid = .ok r ∧
      (r.isSome ↔ 552 ≤ d.length ∧ host (d.take 1) = 2 ∧ (d.drop 236).take 4 = [99, 83, 130, 99] ∧
        host ((d.drop 4).take 4) = xid) ∧
      (WellFormed xid d → r = none) := by
  unfold parseReply
  split
  · exact ⟨none, rfl, by simp; omega, fun _ => rfl⟩
  rename_i hlen
  have hmagic := host_eq_magic (show ((d.drop 236).take 4).length = 4 by simp; omega)
  obtain ⟨l, hl⟩ := parseOptions_ok (show 240 + (d.length - 240) ≤ d.length by omega) 0
    { yourIp := (d.drop 16).take 4 }
  rw [if_neg (by omega), dhcpParseReply, if_neg (by omega), read_ok (by omega), read_ok (by omega), read_ok (by omega),
    read_ok (by omega)]
  dsimp only [bind, Except.bind]
  rw [hl, List.drop_zero]
  split
  · exact ⟨none, rfl, by simp_all, fun _ => rfl⟩
  split
  · exact ⟨none, rfl, by simp_all, fun _ => rfl⟩
  split
  · exact ⟨none, rfl, by simp_all, fun _ => rfl⟩
  refine ⟨some l, rfl, ?_, fun hwf => ?_⟩
  · simp_all
  · have := hwf.cookie
    simp_all

/-- An acknowledgement with one option, padded to the full size. -/
def ackReply : List UInt8 :=
  ([2, 1, 6, 0, 7, 0, 0, 0] ++ List.replicate 228 0) ++ [99, 130, 83, 99] ++
    (Item.option 53 [5] :: List.replicate 308 .pad).flatMap Item.bytes ++ [255]

set_option maxRecDepth 4000 in
theorem ack_refused : WellFormed 7 ackReply ∧ parseReply ackReply 7 = .ok none := by
  refine ⟨⟨_, _, rfl, by rfl, by rfl, by rfl, by decide, fun item hitem => ?_⟩, rfl⟩
  rcases List.mem_cons.mp hitem with rfl | hitem
  · simp [Item.Valid]
  · rw [List.eq_of_mem_replicate hitem]
    trivial

end Litenix.Dhcp
