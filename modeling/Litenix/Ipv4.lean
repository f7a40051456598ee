import Litenix.Tcp

/-! The IPv4 receive path (`ipv4.c`, `icmp.c`, `udp.c`, `tcp.c`). A received packet is memory from a
pointer on, of which the first `len` bytes are the packet. The header's own length fields decide
which range of this memory is handed to the protocols. The range lies in the packet exactly when
these fields agree with `len`; the code does not check the total length. -/

namespace Litenix

open Lib

variable {off : Nat}

/-! ### `net_icmp_receive` -/

/-- The bytes of an echo reply: the request with its type and its checksum replaced. -/
def icmpReply (request : List UInt8) : List UInt8 :=
  let blank := 0 :: request.tail.take 1 ++ [0, 0] ++ request.drop 4
  0 :: request.tail.take 1 ++ store16 (ipChecksum blank) ++ request.drop 4

def netIcmpReceive (n : Net) (srcIp : Ip) (data : Bytes) (len : Nat) : Net :=
  if len < 8 then n
  else if data 0 = 8 then
    if len > 1600 then n
    else n.send srcIp ipProtoIcmp (icmpReply (slice data 0 len))
  else n

/-! ### `net_udp_receive` -/

def udpLen (data : Bytes) : Nat := (swap16 (load16 data 4)).toNat

/-- Store a datagram with its source and length, if it fits. -/
def udpStore (srcIp : Ip) (srcPort : UInt16) (payload : List UInt8) (sock : Socket) : Socket :=
  if sock.rx.free > 8 + payload.length + 1 then
    { sock with rx := sock.rx.pushAll (srcIp.bytes ++ store16 srcPort ++
        store16 (.ofNat payload.length) ++ payload) }
  else sock

def netUdpReceive (n : Net) (srcIp : Ip) (data : Bytes) (len : Nat) : Net :=
  if len < 8 then n
  else if len < udpLen data || udpLen data < 8 then n
  else
    let destPort := swap16 (load16 data 2)
    match (List.finRange maxSockets).find? fun i =>
        (n.sockets i).valid && (n.sockets i).type = .udp && (n.sockets i).localPort = destPort with
    | none => n
    | some i => n.modify i (udpStore srcIp (swap16 (load16 data 0)) (slice data 8 (udpLen data - 8)))

/-! ### `net_ipv4_receive` -/

/-- The header length in bytes. -/
def ihlOf (data : Bytes) : Nat := ((data 0 &&& 0x0F) * 4).toNat

/-- The total length field. -/
def totalLen (data : Bytes) : Nat := (swap16 (load16 data 2)).toNat

/-- The length of the payload, a `uint16_t`. -/
def payloadLen (data : Bytes) : Nat := (totalLen data + 65536 - ihlOf data) % 65536

/-- The packet is long enough for its header and meant for this host. -/
def ipv4Accepts (data : Bytes) (len : Nat) : Bool :=
  let dest := Ip.load data 16
  !(len < 20) && !(len < ihlOf data) && !(dest ≠ myIp && dest.b0 ≠ 127 && dest.b3 ≠ 255)

def netIpv4Receive (n : Net) (data : Bytes) (len : Nat) : Net :=
  if ipv4Accepts data len then
    let srcIp := Ip.load data 12
    let payload : Bytes := fun k => data (ihlOf data + k)
    if data 9 = ipProtoIcmp then netIcmpReceive n srcIp payload (payloadLen data)
    else if data 9 = ipProtoUdp then netUdpReceive n srcIp payload (payloadLen data)
    else if data 9 = ipProtoTcp then netTcpReceive n srcIp payload (payloadLen data)
    else n
  else n

/-! ### What is read lies in the packet -/

/-- The packet reaches one of the three protocols. -/
def Dispatched (data : Bytes) (len : Nat) : Prop :=
  ipv4Accepts data len = true ∧ (data 9 = ipProtoIcmp ∨ data 9 = ipProtoUdp ∨ data 9 = ipProtoTcp)

instance (data : Bytes) (len : Nat) : Decidable (Dispatched data len) := by
  unfold Dispatched
  infer_instance

/-- The range that `netTcpReceive` takes as payload, in the packet. -/
def tcpPayloadRange (data : Bytes) : Nat × Nat :=
  let payload : Bytes := fun k => data (ihlOf data + k)
  (ihlOf data + tcpHeaderLen payload, ihlOf data + payloadLen data)

/-- The ranges of a packet that are handed on lie in it, and what the packet leads to does not
depend on memory outside of it. -/
structure ReadsInside (data : Bytes) (len : Nat) : Prop where
  payload : Dispatched data len → 20 ≤ ihlOf data ∧ ihlOf data + payloadLen data ≤ len
  tcp : Dispatched data len → data 9 = ipProtoTcp → 20 ≤ payloadLen data →
    tcpHeaderLen (fun k => data (ihlOf data + k)) ≤ payloadLen data →
    20 ≤ (tcpPayloadRange data).1 ∧ (tcpPayloadRange data).2 ≤ len
  others : ∀ n other, (∀ k < len, other k = data k) → netIpv4Receive n other len = netIpv4Receive n data len

/-- The header's own lengths agree with the length of the packet. -/
def HeaderConsistent (data : Bytes) (len : Nat) : Prop :=
  20 ≤ ihlOf data ∧ ihlOf data ≤ totalLen data ∧ totalLen data ≤ len

instance (data : Bytes) (len : Nat) : Decidable (HeaderConsistent data len) := by
  unfold HeaderConsistent
  infer_instance

theorem totalLen_lt (data : Bytes) : totalLen data < 65536 := (swap16 (load16 data 2)).toNat_lt

/-- The payload length wraps around unless the header is no longer than the packet says. -/
theorem payload_inside_iff (hlen : len < 65536) :
    ihlOf data + payloadLen data ≤ len ↔ ihlOf data ≤ totalLen data ∧ totalLen data ≤ len := by
  have := totalLen_lt data
  unfold payloadLen
  omega

theorem slice_congr
    (h : ∀ k, off ≤ k → k < off + len → other k = data k) : slice other off len = slice data off len := by
  apply List.map_congr_left
  intro k hk
  have := List.mem_range.mp hk
  exact h _ (by omega) (by omega)

section Congr

variable {data other : Bytes} {len : Nat}

section

variable (h : ∀ k < len, other k = data k)

include h

theorem load16_congr (hoff : off + 2 ≤ len) : load16 other off = load16 data off := by
  simp only [load16, h off (by omega), h (off + 1) (by omega)]

theorem load32_congr (hoff : off + 4 ≤ len) : load32 other off = load32 data off := by
  simp only [load32, h off (by omega), h (off + 1) (by omega), h (off + 2) (by omega), h (off + 3) (by omega)]

theorem Ip.load_congr (hoff : off + 4 ≤ len) : Ip.load other off = Ip.load data off := by
  simp only [Ip.load, h off (by omega), h (off + 1) (by omega), h (off + 2) (by omega), h (off + 3) (by omega)]

theorem netIcmpReceive_congr (n : Net) (srcIp : Ip) :
    netIcmpReceive n srcIp other len = netIcmpReceive n srcIp data len := by
  unfold netIcmpReceive
  split
  · rfl
  · have hslice : slice other 0 len = slice data 0 len := slice_congr fun k _ hk => h k (by omega)
    rw [h 0 (by omega), hslice]

theorem netUdpReceive_congr (n : Net) (srcIp : Ip) :
    netUdpReceive n srcIp other len = netUdpReceive n srcIp data len := by
  unfold netUdpReceive
  split
  · rfl
  have hudp : udpLen other = udpLen data := by
    unfold udpLen
    rw [load16_congr h (by omega)]
  rw [hudp, load16_congr h (by omega), load16_congr h (by omega)]
  split
  · rfl
  · rename_i hbad
    simp only [Bool.or_eq_true, decide_eq_true_eq, not_or] at hbad
    rw [slice_congr fun k _ hk => h k (by omega)]

theorem netTcpReceive_congr (n : Net) (srcIp : Ip) :
    netTcpReceive n srcIp other len = netTcpReceive n srcIp data len := by
  unfold netTcpReceive
  split
  · rfl
  have hheader : tcpHeaderLen other = tcpHeaderLen data := by
    unfold tcpHeaderLen
    rw [h 12 (by omega)]
  have hhdr : tcpHdrOf other = tcpHdrOf data := by
    unfold tcpHdrOf
    rw [load16_congr h (by omega), load16_congr h (by omega), load32_congr h (by omega),
      load32_congr h (by omega), h 13 (by omega)]
  rw [hheader, hhdr]
  split
  · rfl
  · rw [slice_congr fun k _ hk => h k (by omega)]

theorem ipv4Accepts_congr : ipv4Accepts other len = ipv4Accepts data len := by
  unfold ipv4Accepts
  by_cases hshort : len < 20
  · simp [hshort]
  have hihl : ihlOf other = ihlOf data := by
    unfold ihlOf
    rw [h 0 (by omega)]
  rw [hihl, Ip.load_congr h (by omega)]

theorem netIpv4Receive_congr (n : Net) (hinside : Dispatched data len → ihlOf data + payloadLen data ≤ len) :
    netIpv4Receive n other len = netIpv4Receive n data len := by
  unfold netIpv4Receive
  rw [ipv4Accepts_congr h]
  split
  · rename_i haccepts
    have hlong : 20 ≤ len := by
      simp only [ipv4Accepts, Bool.and_eq_true, Bool.not_eq_true', decide_eq_false_iff_not] at haccepts
      omega
    have hihl : ihlOf other = ihlOf data := by
      unfold ihlOf
      rw [h 0 (by omega)]
    have hpayload : payloadLen other = payloadLen data := by
      unfold payloadLen totalLen
      rw [hihl, load16_congr h (by omega)]
    rw [Ip.load_congr h (by omega), h 9 (by omega), hihl, hpayload]
    have hrest (hproto : data 9 = ipProtoIcmp ∨ data 9 = ipProtoUdp ∨ data 9 = ipProtoTcp) :
        ∀ k < payloadLen data, other (ihlOf data + k) = data (ihlOf data + k) := by
      intro k hk
      have := hinside ⟨haccepts, hproto⟩
      exact h _ (by omega)
    split_ifs with hicmp hudp htcp
    · exact netIcmpReceive_congr (hrest (.inl hicmp)) n _
    · exact netUdpReceive_congr (hrest (.inr (.inl hudp))) n _
    · exact netTcpReceive_congr (hrest (.inr (.inr htcp))) n _
    · rfl
  · rfl

end

end Congr

/-- A ping of 28 bytes whose header gives a total length of 40, in front of other memory. -/
def longPing (beyond : UInt8) : Bytes := fun k =>
  ([0x45, 0, 0, 40, 0, 0, 0, 0, 64, 1, 0, 0, 10, 0, 2, 2, 10, 0, 2, 15, 8, 0, 0, 0, 0, 0, 0, 0] : List UInt8).getD
    k beyond

end Litenix
