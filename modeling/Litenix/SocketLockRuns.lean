import Litenix.SocketLock

/-! Runs that keep the lock of the socket table. A send that leaves for another host at once can be made with the
lock; without it only a segment for this host that some socket claims goes wrong, because the answer is sent
with the lock and comes back. -/

namespace Litenix

open Lib

/-! ### Executions without a fault -/

/-- The destination is another host whose hardware address is known. -/
def Direct (arp : List Ip) (ip : Ip) : Bool := !isLocal ip && arpResolve arp ip

/-- The execution ends without a fault and without the lock. -/
def Goes (x : Except LockFault LockHost) : Prop := ∃ h, x = .ok h ∧ h.held = false

section Goes

variable {h : LockHost} {d : Datagram} {n : Net} {x : Except LockFault LockHost} {f : LockHost → Except LockFault LockHost}
variable {i : SockId}
variable {data : Bytes}
variable {srcIp : Ip}

theorem Goes.bind (hx : Goes x) (hf : ∀ h, h.held = false → Goes (f h)) : Goes (x >>= f) := by
  obtain ⟨h, rfl, hfree⟩ := hx
  exact hf h hfree

section

variable (hfree : h.held = false)

include hfree

theorem goes_ok : Goes (.ok h) := ⟨h, rfl, hfree⟩

theorem goes_sleep : Goes h.sleep := by
  simp only [LockHost.sleep, hfree]
  exact goes_ok hfree

theorem locked_eq (g : Net → Net) : h.locked g = .ok { h with net := g h.net } := by
  obtain ⟨net, arp, held, buffers⟩ := h
  obtain rfl : held = false := hfree
  rfl

theorem goes_locked (g : Net → Net) : Goes (h.locked g) := by
  rw [locked_eq hfree]
  exact goes_ok hfree

theorem goes_arpWait (ip : Ip) (retries : Nat) : Goes (arpWait ip retries h) := by
  induction retries generalizing h with
  | zero => exact goes_ok hfree
  | succ retries ih =>
    rw [arpWait]
    split
    · exact goes_ok hfree
    · exact (goes_sleep hfree).bind fun h hfree => ih hfree

end

theorem ipBuffer_snd (h : LockHost) : ∃ b, h.ipBuffer.2 = { h with ipBuffers := b } := by
  unfold LockHost.ipBuffer
  split
  · exact ⟨h.ipBuffers, rfl⟩
  · exact ⟨_, rfl⟩

/-- A packet to another host leaves at once, with or without the lock. -/
theorem ipv4Send_direct (depth : Nat) (hd : Direct h.arp d.destIp = true) :
    ∃ b, ipv4Send (depth + 1) h d = .ok { h with ipBuffers := b } := by
  obtain ⟨b, hb⟩ := ipBuffer_snd h
  simp only [Direct, Bool.and_eq_true, Bool.not_eq_true'] at hd
  refine ⟨b, ?_⟩
  rw [ipv4Send, hb]
  split
  · rfl
  · rw [if_neg (by simp [hd.1]), arpWait, if_pos hd.2]

theorem sendAll_direct (depth : Nat) {net : Net}
    (hsent : ∃ ds, net.sent = ds ++ h.net.sent ∧ ∀ d ∈ ds, Direct h.arp d.destIp = true) :
    ∃ b, sendAll (ipv4Send (depth + 1)) h net = .ok { h with net := net, ipBuffers := b } := by
  have hfold : ∀ (ds : List Datagram) (h : LockHost), (∀ d ∈ ds, Direct h.arp d.destIp = true) →
      ∃ b, ds.foldlM (ipv4Send (depth + 1)) h = .ok { h with ipBuffers := b } := by
    intro ds
    induction ds with
    | nil => exact fun h _ => ⟨h.ipBuffers, rfl⟩
    | cons d ds ih =>
      intro h hds
      obtain ⟨b, hb⟩ := ipv4Send_direct depth (hds d List.mem_cons_self)
      obtain ⟨b', hb'⟩ := ih { h with ipBuffers := b } fun d hd => hds d (List.mem_cons_of_mem _ hd)
      refine ⟨b', ?_⟩
      rw [List.foldlM_cons, hb]
      exact hb'
  obtain ⟨ds, hds, hdirect⟩ := hsent
  have hnew : newSends h.net net = ds.reverse := by
    rw [newSends, hds, List.length_append, Nat.add_sub_cancel, List.take_left']
    rfl
  rw [sendAll, hnew]
  exact hfold ds.reverse { h with net := net } fun d hd => hdirect d (List.mem_reverse.mp hd)

theorem goes_lockedSends (depth : Nat) (hfree : h.held = false) {g : Net → Net}
    (hsent : ∃ ds, (g h.net).sent = ds ++ h.net.sent ∧ ∀ d ∈ ds, Direct h.arp d.destIp = true) :
    Goes (lockedSends (ipv4Send (depth + 1)) h g) := by
  obtain ⟨b, hb⟩ := sendAll_direct (h := { h with held := true }) depth hsent
  refine ⟨{ h with net := g h.net, held := false, ipBuffers := b }, ?_, rfl⟩
  simp only [lockedSends, LockHost.acquire, hfree, Bool.false_eq_true, if_false]
  change (sendAll (ipv4Send (depth + 1)) { h with held := true } (g h.net) >>= fun h => pure h.release) = _
  rw [hb]
  rfl

theorem goes_udpReceive (hfree : h.held = false) (srcIp : Ip) (data : Bytes) (len : Nat) :
    Goes (udpReceive h srcIp data len) := by
  unfold udpReceive
  split
  · exact goes_ok hfree
  · exact goes_locked hfree _

/-- No socket takes a segment. -/
def Net.Unclaimed (n : Net) (srcIp : Ip) (hdr : TcpHdr) : Prop :=
  (tcpLookup n srcIp hdr).sock = none ∧ (tcpLookup n srcIp hdr).listener = none

theorem goes_tcpReceive (depth : Nat) (hfree : h.held = false) (len : Nat)
    (hcond : 20 ≤ len → h.net.Unclaimed srcIp (tcpHdrOf data) ∨ Direct h.arp srcIp = true) :
    Goes (tcpReceive (ipv4Send (depth + 1)) h srcIp data len) := by
  unfold tcpReceive
  split
  · exact goes_ok hfree
  apply goes_lockedSends depth hfree
  rcases hcond (by omega) with ⟨hsock, hlistener⟩ | hdirect
  · have hnone : tcpLookup h.net srcIp (tcpHdrOf data) = ⟨none, none⟩ := by
      generalize tcpLookup h.net srcIp (tcpHdrOf data) = found at hsock hlistener
      cases found
      simp_all
    rw [netTcpReceive_of_none hnone]
    exact ⟨[], rfl, nofun⟩
  · exact netTcpReceive_sent (fun ip => Direct h.arp ip = true) hdirect h.net data len

/-- Without the lock only a delivery to this host can go wrong. -/
theorem goes_ipv4Send (depth : Nat) (hfree : h.held = false)
    (hlocal : isLocal d.destIp = true → ∀ b, Goes (protoReceive (ipv4Send depth) { h with ipBuffers := b }
      (loopSource d.destIp) (fun k => d.payload.getD k 0) d.payload.length d.proto)) :
    Goes (ipv4Send (depth + 1) h d) := by
  obtain ⟨b, hb⟩ := ipBuffer_snd h
  rw [ipv4Send, hb]
  split
  · exact goes_ok hfree
  split
  · rename_i hhere
    split
    · exact goes_ok hfree
    · exact hlocal hhere b
  · exact goes_arpWait (h := { h with ipBuffers := b }) hfree _ 5

section Proto

variable (send : LockHost → Datagram → Except LockFault LockHost) (h : LockHost) (srcIp : Ip) (data : Bytes) (len : Nat)

theorem protoReceive_icmp : protoReceive send h srcIp data len ipProtoIcmp = icmpReceive send h srcIp data len :=
  if_pos rfl

theorem protoReceive_udp : protoReceive send h srcIp data len ipProtoUdp = udpReceive h srcIp data len := by
  rw [protoReceive, if_neg (by decide), if_pos rfl]

theorem protoReceive_tcp : protoReceive send h srcIp data len ipProtoTcp = tcpReceive send h srcIp data len := by
  rw [protoReceive, if_neg (by decide), if_neg (by decide), if_pos rfl]

end Proto

theorem sendAll_self (send : LockHost → Datagram → Except LockFault LockHost) (h : LockHost) :
    sendAll send h h.net = .ok h := by
  simp [sendAll, newSends]
  rfl

theorem goes_icmpReceive_other (hfree : h.held = false)
    {len : Nat} (hother : data 0 ≠ 8) : Goes (icmpReceive send h srcIp data len) := by
  have hnone : netIcmpReceive h.net srcIp data len = h.net := by
    unfold netIcmpReceive
    rw [if_neg hother, ite_self]
  rw [icmpReceive, hnone, sendAll_self]
  exact goes_ok hfree

/-- An echo request is answered; the answer is no request. -/
theorem goes_icmpReceive (depth : Nat) (hfree : h.held = false) (srcIp : Ip) (data : Bytes) (len : Nat) :
    Goes (icmpReceive (ipv4Send (depth + 1)) h srcIp data len) := by
  by_cases hecho : data 0 = 8 ∧ 8 ≤ len ∧ len ≤ 1600
  · obtain ⟨htype, hmin, hmax⟩ := hecho
    have hreply : netIcmpReceive h.net srcIp data len =
        h.net.send srcIp ipProtoIcmp (icmpReply (slice data 0 len)) := by
      rw [netIcmpReceive, if_neg (by omega), if_pos htype, if_neg (by omega)]
    have hone (net : Net) (d : Datagram) : newSends net (net.send d.destIp d.proto d.payload) = [d] := by
      simp [newSends, Net.send]
    rw [icmpReceive, hreply, sendAll, hone h.net ⟨srcIp, ipProtoIcmp, icmpReply (slice data 0 len)⟩, List.foldlM_cons]
    refine Goes.bind (goes_ipv4Send depth hfree fun _ b => ?_) fun h hfree => goes_ok hfree
    rw [protoReceive_icmp]
    apply goes_icmpReceive_other
    · exact hfree
    · simp [icmpReply]
  have hnone : netIcmpReceive h.net srcIp data len = h.net := by
    unfold netIcmpReceive
    split
    · rfl
    split
    · rename_i hmin htype
      exact if_pos (Nat.lt_of_not_le fun hmax => hecho ⟨htype, by omega, hmax⟩)
    · rfl
  rw [icmpReceive, hnone, sendAll_self]
  exact goes_ok hfree

/-! ### Segments that come back -/

/-- The ports in the segments of a socket. -/
def Socket.portsHdr (s : Socket) : TcpHdr := ⟨s.localPort, s.remotePort, 0, 0, 0⟩

/-- The segments of a socket to this host are claimed by no socket. -/
def Net.Quiet (n : Net) (i : SockId) : Prop :=
  isLocal (n.sockets i).remoteIp = true →
    n.Unclaimed (loopSource (n.sockets i).remoteIp) (n.sockets i).portsHdr

theorem tcpPacket_ports (s : Socket) (flags : UInt8) (payload : List UInt8) (checksummed : Bool)
    (hlen : 20 ≤ (tcpPacket s flags payload checksummed).length) :
    (tcpHdrOf fun k => (tcpPacket s flags payload checksummed).getD k 0).srcPort = s.localPort ∧
      (tcpHdrOf fun k => (tcpPacket s flags payload checksummed).getD k 0).destPort = s.remotePort := by
  obtain ⟨rest, m, hpacket⟩ : ∃ rest m, tcpPacket s flags payload checksummed =
      (store16 (swap16 s.localPort) ++ (store16 (swap16 s.remotePort) ++ rest)).take m := by
    unfold tcpPacket
    exact ⟨_, _, rfl⟩
  rw [hpacket] at hlen ⊢
  have hm : 20 ≤ m := by
    rw [List.length_take] at hlen
    omega
  have hbyte (k : Nat) (hk : k < 4) :
      ((store16 (swap16 s.localPort) ++ (store16 (swap16 s.remotePort) ++ rest)).take m).getD k 0 =
        (store16 (swap16 s.localPort) ++ store16 (swap16 s.remotePort)).getD k 0 := by
    rw [List.getD_eq_getElem?_getD, List.getD_eq_getElem?_getD, List.getElem?_take_of_lt (by omega)]
    interval_cases k <;> rfl
  constructor
  · simp only [tcpHdrOf]
    rw [load16_store16 (v := swap16 s.localPort), swap16_swap16]
    intro k hk
    rw [hbyte _ (by omega)]
    interval_cases k <;> rfl
  · simp only [tcpHdrOf]
    rw [load16_store16 (v := swap16 s.remotePort), swap16_swap16]
    intro k hk
    rw [hbyte _ (by omega)]
    interval_cases k <;> rfl

theorem goes_sendSegment (hfree : h.held = false) (hquiet : h.net.Quiet i) (flags : UInt8)
    (payload : List UInt8) : Goes (sendSegment h i flags payload) := by
  unfold sendSegment
  dsimp only
  split
  · exact goes_ok hfree
  refine Goes.bind (goes_ipv4Send 2 hfree fun hlocal b => ?_) fun h hfree => goes_ok hfree
  rw [protoReceive_tcp]
  apply goes_tcpReceive 1
  · exact hfree
  refine fun hlen => .inl ?_
  have hports := tcpPacket_ports _ _ _ _ hlen
  have hlookup := hquiet hlocal
  unfold Net.Unclaimed at hlookup ⊢
  rw [tcpLookup_congr (n := h.net) (fun j => ?_) (show _ = (h.net.sockets i).portsHdr.srcPort from hports.1) hports.2]
  · exact hlookup
  · simp only [Net.send_sockets, Net.kmalloc_sockets]
    exact .refl _

theorem goes_udpSend (hfree : h.held = false) (i : SockId) (destIp : Ip) (destPort : UInt16) (payload : List UInt8) :
    Goes (netUdpSend h i destIp destPort payload) := by
  unfold netUdpSend
  split
  · exact goes_ok hfree
  refine goes_ipv4Send 2 hfree fun _ b => ?_
  rw [protoReceive_udp]
  apply goes_udpReceive
  exact hfree

theorem goes_connectWait (hfree : h.held = false) (i : SockId) : Goes (connectWait h i) := by
  refine (goes_locked hfree id).bind fun h hfree => ?_
  split
  · exact goes_locked hfree _
  · exact goes_sleep hfree

theorem quiet_of_sameKey {n' : Net} (hquiet : n.Quiet i)
    (hsame : ∀ j, SameKey (n.sockets j) (n'.sockets j)) : n'.Quiet i := by
  intro hlocal
  rw [(hsame i).remoteIp] at hlocal ⊢
  have hunclaimed := hquiet hlocal
  unfold Net.Unclaimed at hunclaimed ⊢
  rwa [tcpLookup_congr hsame (show _ = (n.sockets i).portsHdr.srcPort from (hsame i).ports.1) (hsame i).ports.2]

theorem sameKey_modify (n : Net) (i : SockId) {f : Socket → Socket} (hf : SameKey (n.sockets i) (f (n.sockets i)))
    (j : SockId) : SameKey (n.sockets j) ((n.modify i f).sockets j) := by
  exact Net.modify_ind j hf fun _ => .refl _

theorem goes_closeFin (hfree : h.held = false)
    (hquiet : (h.net.sockets i).type = .tcp → (h.net.sockets i).sendsFin = true → h.net.Quiet i) :
    Goes (closeFin h i) := by
  have hfin {state : TcpState} (htype : (h.net.sockets i).type = .tcp) (hsends : (h.net.sockets i).sendsFin = true)
      (hstate : (h.net.sockets i).tcpState ≠ .listen) (hnew : state ≠ .listen) :
      Goes (do
        let h ← sendSegment (h.modify i fun s => { s with tcpState := state }) i (tcpFin ||| tcpAck) []
        h.sleep) := by
    have hkey := sameKey_modify h.net i (f := fun s => { s with tcpState := state })
      ⟨rfl, rfl, ⟨rfl, rfl⟩, rfl, by simp [hstate, hnew]⟩
    have hsent := goes_sendSegment (h := h.modify i fun s => { s with tcpState := state }) hfree
      (quiet_of_sameKey (hquiet htype hsends) hkey) (tcpFin ||| tcpAck) []
    exact hsent.bind fun h hfree => goes_sleep hfree
  unfold closeFin
  split
  · exact goes_ok hfree
  rename_i htype
  split <;> rename_i hstate
  · exact hfin (not_not.mp htype) (by simp [Socket.sendsFin, hstate]) (by simp [hstate]) (by decide)
  · exact hfin (not_not.mp htype) (by simp [Socket.sendsFin, hstate]) (by simp [hstate]) (by decide)
  · exact hfin (not_not.mp htype) (by simp [Socket.sendsFin, hstate]) (by simp [hstate]) (by decide)
  · exact goes_ok hfree

end Goes

/-! ### Runs -/

/-- What a step needs: the segments that it sends with the lock go to other hosts whose hardware addresses are
known, and those that it sends to this host without the lock are claimed by no socket. -/
def LockCond (h : LockHost) : LockOp → Prop
  | .packet data _ => data 9 = ipProtoTcp →
      h.net.Unclaimed (Ip.load data 12) (tcpHdrOf fun k => data (ihlOf data + k)) ∨ Direct h.arp (Ip.load data 12) = true
  | .tick now => ∀ i, (h.net.sockets i).due now = true → Direct h.arp (h.net.sockets i).remoteIp = true
  | .connect i ip port ephemeral => (h.net.sockets i).type = .tcp → (connecting h.net i ip port ephemeral).Quiet i
  | .write i _ => (h.net.sockets i).type = .tcp → h.net.Quiet i
  | .sendto i _ _ => (h.net.sockets i).type = .tcp → h.net.Quiet i
  | .shutdown i how => (h.net.sockets i).type = .tcp → how ≠ .rd → (h.net.sockets i).sendsFin = true →
      Direct h.arp (h.net.sockets i).remoteIp = true
  | .close i => (h.net.sockets i).type = .tcp → (h.net.sockets i).sendsFin = true → h.net.Quiet i
  | _ => True

/-- **One step.** -/
theorem lockStep_goes (hfree : h.held = false) {op : LockOp} (hcond : LockCond h op) : Goes (lockStep h op) := by
  cases op <;> rw [lockStep]
  case packet data len =>
    split
    · rw [protoReceive]
      split
      · exact goes_icmpReceive 2 hfree _ _ _
      split
      · exact goes_udpReceive hfree _ _ _
      split
      · exact goes_tcpReceive 2 hfree _ fun _ => hcond ‹_›
      · exact goes_ok hfree
    · exact goes_ok hfree
  case arp entries => exact goes_ok (h := { h with arp := entries }) hfree
  case tick now =>
    apply goes_lockedSends 2 hfree
    exact (talks_tick (P := fun ip => Direct h.arp ip = true) (n := { h.net with now }) hcond).sent
  case socket type =>
    exact goes_locked hfree _
  case bind i port =>
    exact goes_locked hfree _
  case listen i =>
    split
    · exact goes_ok hfree
    · exact goes_locked hfree _
  case accept i =>
    split
    · exact goes_ok hfree
    refine (goes_locked hfree _).bind fun h hfree => ?_
    split
    · exact goes_sleep hfree
    · exact goes_ok hfree
  case connect i ip port ephemeral =>
    split
    · exact goes_locked hfree _
    rename_i htype
    rw [locked_eq hfree]
    have hsent := goes_sendSegment (h := { h with net := connecting h.net i ip port ephemeral }) hfree
      (hcond (not_not.mp htype)) tcpSyn []
    exact hsent.bind fun h hfree => goes_connectWait hfree i
  case connectWait i => exact goes_connectWait hfree i
  case write i buf =>
    split
    · split
      · exact goes_ok hfree
      · exact goes_sendSegment hfree (hcond ‹_›) _ _
    split
    · exact goes_ok hfree
    · exact goes_udpSend hfree _ _ _ _
  case sendto i dest buf =>
    have hbuffer : ({ h with net := h.net.kmalloc.2 } : LockHost).held = false := hfree
    split
    · exact goes_ok hfree
    split
    · exact goes_ok hbuffer
    split
    · split
      · exact goes_ok hbuffer
      · exact goes_udpSend hbuffer _ _ _ _
    split
    · exact goes_ok hbuffer
    split
    · refine goes_sendSegment hbuffer ?_ _ _
      refine quiet_of_sameKey (hcond ‹_›) fun j => ?_
      rw [Net.kmalloc_sockets]
      exact .refl _
    · exact goes_udpSend hbuffer _ _ _ _
  case read i count =>
    split
    · split
      · exact goes_sleep hfree
      · rename_i net _ _
        exact goes_ok (h := { h with net := net }) hfree
    split
    · split
      · exact goes_ok hfree
      · exact goes_sleep hfree
    · exact goes_ok (h := h.modify i udpRead) hfree
  case recvfrom i count =>
    dsimp only
    split
    · split
      · exact goes_sleep hfree
      · rename_i net _ _
        exact goes_ok (h := { h with net := net }) hfree
    split
    · exact goes_sleep hfree
    split
    · exact goes_ok (h := { h with net := h.net.kmalloc.2 }) hfree
    · exact goes_ok (h := { h with net := h.net.kmalloc.2 }.modify i udpRead) hfree
  case shutdown i how =>
    split
    · exact goes_ok hfree
    split
    · exact goes_lockedSends 2 hfree (talks_shutdown (P := fun ip => Direct h.arp ip = true) (hcond ‹_›)).sent
    · exact goes_locked hfree _
  case close i =>
    have hkey := sameKey_modify h.net i
      (f := fun s => { s with closed := true, shutdownRead := true, shutdownWrite := true })
      ⟨rfl, rfl, ⟨rfl, rfl⟩, rfl, .rfl⟩
    apply goes_closeFin
    · exact hfree
    intro htype hfin
    refine quiet_of_sameKey (hcond ?_ ?_) hkey
    · simpa [LockHost.modify] using htype
    · simpa [LockHost.modify, Socket.sendsFin] using hfin
  case release i =>
    exact goes_locked hfree _

/-- No step of the run takes the lock that it holds, and none sleeps with it. -/
def LockKept (h : LockHost) (ops : List LockOp) : Prop :=
  run lockStep h ops ≠ .error .reacquired ∧ run lockStep h ops ≠ .error .sleptHeld

instance (n : Net) (srcIp : Ip) (hdr : TcpHdr) : Decidable (n.Unclaimed srcIp hdr) := inferInstanceAs (Decidable (_ ∧ _))

instance (n : Net) (i : SockId) : Decidable (n.Quiet i) := inferInstanceAs (Decidable (_ → _))

instance (h : LockHost) (op : LockOp) : Decidable (LockCond h op) :=
  match op with
  | .packet _ _ | .connect _ _ _ _ | .write _ _ | .sendto _ _ _ => inferInstanceAs (Decidable (_ → _))
  | .tick _ => inferInstanceAs (Decidable (∀ _, _ → _))
  | .shutdown _ _ => inferInstanceAs (Decidable (_ → _ → _ → _))
  | .close _ => inferInstanceAs (Decidable (_ → _ → _))
  | .arp _ | .socket _ | .bind _ _ | .listen _ | .accept _ | .connectWait _ | .read _ _ | .recvfrom _ _ | .release _ =>
    inferInstanceAs (Decidable True)

/-- A TCP segment without payload in a packet to this host. -/
def wireSegment (srcIp : Ip) (segment : Bytes) : Bytes := fun k =>
  ([0x45, 0, 0, 40, 0, 0, 0, 0, 64, ipProtoTcp, 0, 0] ++ srcIp.bytes ++ myIp.bytes ++ slice segment 0 20).getD k 0

/-- No socket, and nothing known about other hosts. -/
def bootLock : LockHost := ⟨emptyNet, [], false, []⟩

/-- A server on port 80. -/
def serverCalls : List LockOp := [.socket .tcp, .bind 0 80, .listen 0]

/-- A client whose hardware address is known connects, is served and goes. -/
def servedCalls : List LockOp := .arp [peerIp] :: serverCalls ++ [
  .packet (wireSegment peerIp synBytes) 40,
  .packet (wireSegment peerIp (tcpBytes 5000 80 1 1001 tcpAck [])) 40,
  .accept 0, .write 1 [1, 2, 3], .tick 200, .shutdown 1 .wr, .read 1 10, .close 1, .release 1]

/-- The fault of an execution. -/
def faultOf : Except LockFault LockHost → Option LockFault
  | .ok _ => none
  | .error e => some e

/-- A connection over the loopback address. -/
def loopCalls : List LockOp := serverCalls ++ [.socket .tcp, .connect 1 ⟨127, 0, 0, 1⟩ 80 49152]

/-- A client whose hardware address is not known: the answer to its SYN sleeps with the lock held. -/
example : faultOf (run lockStep bootLock (serverCalls ++ [.packet (wireSegment peerIp synBytes) 40])) =
    some .sleptHeld := by decide +kernel

end Litenix
