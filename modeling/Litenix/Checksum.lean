import Litenix.Tcp

/-! The Internet checksum (`net.c`) and the packets that carry it. A segment is sent without a checksum when the buffer
for its pseudo header cannot be allocated. -/

namespace Litenix

/-- Addition of 16-bit numbers with the carry added back in. -/
def onesAdd (a b : Nat) : Nat := if a + b < 65536 then a + b else a + b - 65535

/-- The ones-complement sum of RFC 1071 over the little-endian words; an odd last byte is padded with zero. -/
def onesSum : List UInt8 → Nat
  | lo :: hi :: rest => onesAdd (lo.toNat + 256 * hi.toNat) (onesSum rest)
  | [last] => last.toNat
  | [] => 0

/-- The header that `net_ipv4_send` builds, with a given checksum. -/
def ipv4Fields (destIp : Ip) (proto : UInt8) (len ipId csum : UInt16) : List UInt8 :=
  let srcIp : Ip := if destIp.b0 = 127 then ⟨127, 0, 0, 1⟩ else myIp
  [0x45, 0] ++ store16 (swap16 (20 + len)) ++ store16 (swap16 ipId) ++ [0, 0, 64, proto] ++ store16 csum ++
    (srcIp.bytes ++ destIp.bytes)

def ipv4Header (destIp : Ip) (proto : UInt8) (len ipId : UInt16) : List UInt8 :=
  ipv4Fields destIp proto len ipId (ipChecksum (ipv4Fields destIp proto len ipId 0))

/-- A segment of `net_tcp_send_segment` behind its pseudo header. -/
def tcpWithPseudo (sock : Socket) (flags : UInt8) (payload : List UInt8) (checksummed : Bool) : List UInt8 :=
  let srcIp : Ip := if sock.remoteIp.b0 = 127 then ⟨127, 0, 0, 1⟩ else myIp
  srcIp.bytes ++ sock.remoteIp.bytes ++ [0, ipProtoTcp] ++ store16 (swap16 (.ofNat (20 + payload.length))) ++
    tcpPacket sock flags payload checksummed

/-- The number from 1 to 65535 that is left of a sum when its carries are added back in. -/
def residue (sum : Nat) : Nat := if sum = 0 then 0 else (sum - 1) % 65535 + 1

theorem residue_le (sum : Nat) : residue sum ≤ 65535 := by
  unfold residue
  split <;> omega

theorem foldCarries_eq (h : sum < 2 ^ 32) : foldCarries 3 sum = residue sum := by
  simp only [foldCarries, Nat.shiftRight_eq_div_pow, residue]
  split_ifs <;> omega

theorem onesSum_eq (data : List UInt8) : onesSum data = residue (wordSum data) := by
  fun_induction onesSum data with
  | case1 lo hi rest ih =>
    have hlo := lo.toNat_lt
    have hhi := hi.toNat_lt
    rw [wordSum, ih, onesAdd]
    unfold residue
    split_ifs <;> omega
  | case2 last =>
    have hlast := last.toNat_lt
    rw [wordSum, residue]
    split <;> omega
  | case3 => rfl

theorem wordSum_le (data : List UInt8) : wordSum data ≤ 65535 * ((data.length + 1) / 2) := by
  fun_induction wordSum data with
  | case1 lo hi rest ih =>
    have hlo := lo.toNat_lt
    have hhi := hi.toNat_lt
    simp only [List.length_cons]
    omega
  | case2 last =>
    have hlast := last.toNat_lt
    simp only [List.length_singleton]
    omega
  | case3 => exact Nat.zero_le _

theorem wordSum_append (post : List UInt8) (heven : pre.length % 2 = 0) :
    wordSum (pre ++ post) = wordSum pre + wordSum post := by
  fun_induction wordSum pre with
  | case1 lo hi rest ih =>
    simp only [List.length_cons] at heven
    rw [List.cons_append, List.cons_append, wordSum, ih (by omega)]
    omega
  | case2 last => cases heven
  | case3 => rw [List.nil_append, Nat.zero_add]

theorem ipChecksum_toNat (h : data.length ≤ 131070) : (ipChecksum data).toNat = 65535 - residue (wordSum data) := by
  have hsum := wordSum_le data
  have hle := residue_le (wordSum data)
  rw [ipChecksum, Nat.mod_eq_of_lt (by omega), foldCarries_eq (by omega), UInt16.toNat_not,
    UInt16.toNat_ofNat_of_lt' (by simp [UInt16.size]; omega)]
  simp [UInt16.size]

theorem wordSum_store16 (v : UInt16) (post : List UInt8) : wordSum (store16 v ++ post) = v.toNat + wordSum post := by
  have hv := v.toNat_lt
  simp [store16, wordSum, Nat.shiftRight_eq_div_pow]
  omega

/-- A string verifies once its checksum is stored in a field that was zero. -/
theorem ipChecksum_stored (heven : pre.length % 2 = 0) (hlen : (pre ++ [0, 0] ++ post).length ≤ 131070) :
    ipChecksum (pre ++ store16 (ipChecksum (pre ++ [0, 0] ++ post)) ++ post) = 0 := by
  have hblank : wordSum (pre ++ [0, 0] ++ post) = wordSum pre + wordSum post := by
    rw [List.append_assoc, wordSum_append _ heven]
    simp [wordSum]
  have hcsum := ipChecksum_toNat hlen
  apply UInt16.toNat_inj.mp
  rw [ipChecksum_toNat (by simpa [store16] using hlen), List.append_assoc, wordSum_append _ heven, wordSum_store16,
    hcsum, hblank]
  simp only [residue]
  split_ifs <;> simp <;> omega

end Litenix
