import Litenix.Ipv4
import Litenix.TcpRetransmit

/-! The lock of the socket table. It is held over the whole of `net_tcp_receive`, `net_tcp_timer_tick` and the
body of `sys_shutdown`, and these send segments. `net_ipv4_send` gives a packet for this host to the receive path
at once, which takes the lock again, and it sleeps while the ARP table has no entry for the destination. An
execution stops with a fault where it takes the lock that it holds or sleeps with it.

A delivery with the lock held faults or leaves the table as it is; so the segments that a locked part sends are
sent here one after the other when the part is done. Calls on `AF_UNIX` sockets take the lock only to allocate
their slots and are left out. -/

namespace Litenix

open Lib

variable {f : Socket → Socket}

inductive LockFault
  /-- `socket_table_lock` is acquired by its holder. -/
  | reacquired
  /-- The holder of the lock sleeps. -/
  | sleptHeld
  /-- More calls of `net_ipv4_send` inside each other than the model follows. -/
  | tooDeep
deriving DecidableEq

structure LockHost where
  net : Net
  /-- The addresses with an entry in the ARP table. -/
  arp : List Ip
  held : Bool
  /-- Outcomes of the calls of `kmalloc` in `net_ipv4_send`; when the list is used up they succeed. -/
  ipBuffers : List Bool

namespace LockHost

variable (h : LockHost)

def acquire : Except LockFault LockHost := if h.held then .error .reacquired else .ok { h with held := true }

def release : LockHost := { h with held := false }

/-- `task_sleep_ticks`, `wait_queue_sleep`, `schedule`. -/
def sleep : Except LockFault LockHost := if h.held then .error .sleptHeld else .ok h

def ipBuffer : Bool × LockHost :=
  match h.ipBuffers with
  | [] => (true, h)
  | ok :: rest => (ok, { h with ipBuffers := rest })

def modify (i : SockId) (f : Socket → Socket) : LockHost := { h with net := h.net.modify i f }

/-- A part of a call that only holds the lock for a change of the table. -/
def locked (f : Net → Net) : Except LockFault LockHost := do
  let h ← h.acquire
  return { h with net := f h.net }.release

end LockHost

/-! ### `net_ipv4_send` and the receive path -/

def arpResolve (arp : List Ip) (ip : Ip) : Bool := ip = ⟨255, 255, 255, 255⟩ || arp.contains ip

/-- The loop that waits for an ARP reply. -/
def arpWait (ip : Ip) : Nat → LockHost → Except LockFault LockHost
  | 0, h => .ok h
  | retries + 1, h =>
    if arpResolve h.arp ip then .ok h
    else do
      let h ← h.sleep
      arpWait ip retries h

/-- A destination that `net_ipv4_send` gives to the receive path. -/
def isLocal (ip : Ip) : Bool := ip.b0 = 127 || ip = myIp

/-- The source address of a packet to a local address. -/
def loopSource (destIp : Ip) : Ip := if destIp.b0 = 127 then ⟨127, 0, 0, 1⟩ else myIp

/-- The datagrams that lead from one state to another, oldest first. -/
def newSends (n n' : Net) : List Datagram := (n'.sent.take (n'.sent.length - n.sent.length)).reverse

section Receive

variable (send : LockHost → Datagram → Except LockFault LockHost) (h : LockHost) (srcIp : Ip) (data : Bytes) (len : Nat)

/-- Go over to another table and send what it takes to get there. -/
def sendAll (net : Net) : Except LockFault LockHost := (newSends h.net net).foldlM send { h with net := net }

/-- A part that sends with the lock held. -/
def lockedSends (f : Net → Net) : Except LockFault LockHost := do
  let h ← h.acquire
  let h ← sendAll send h (f h.net)
  return h.release

def tcpReceive : Except LockFault LockHost :=
  if len < 20 ∨ len < tcpHeaderLen data then .ok h
  else lockedSends send h fun n => netTcpReceive n srcIp data len

def udpReceive : Except LockFault LockHost :=
  if len < 8 ∨ len < udpLen data ∨ udpLen data < 8 then .ok h
  else h.locked fun n => netUdpReceive n srcIp data len

def icmpReceive : Except LockFault LockHost := sendAll send h (netIcmpReceive h.net srcIp data len)

def protoReceive (proto : UInt8) : Except LockFault LockHost :=
  if proto = ipProtoIcmp then icmpReceive send h srcIp data len
  else if proto = ipProtoUdp then udpReceive h srcIp data len
  else if proto = ipProtoTcp then tcpReceive send h srcIp data len
  else .ok h

end Receive

/-- `net_ipv4_send`, with the number of calls that may nest. -/
def ipv4Send : Nat → LockHost → Datagram → Except LockFault LockHost
  | 0, _, _ => .error .tooDeep
  | depth + 1, h, d =>
    let buffer := h.ipBuffer
    if !buffer.1 then .ok buffer.2
    else if isLocal d.destIp then
      -- the length of the packet is a `uint16_t`
      if 20 + d.payload.length ≥ 65536 then .ok buffer.2
      else
        protoReceive (ipv4Send depth) buffer.2 (loopSource d.destIp) (fun k => d.payload.getD k 0) d.payload.length
          d.proto
    else arpWait d.destIp 5 buffer.2

/-- A call from outside the receive path. -/
def netIpv4Send : LockHost → Datagram → Except LockFault LockHost := ipv4Send 3

/-- `net_tcp_send_segment` by a caller that does not hold the lock. -/
def sendSegment (h : LockHost) (i : SockId) (flags : UInt8) (payload : List UInt8) : Except LockFault LockHost :=
  let payload := payload.take (payload.length % 65536)
  let packet := h.net.kmalloc
  if !packet.1 then .ok { h with net := packet.2 }
  else do
    let checksum := packet.2.kmalloc
    let d : Datagram :=
      ⟨(h.net.sockets i).remoteIp, ipProtoTcp, tcpPacket (h.net.sockets i) flags payload checksum.1⟩
    let h ← netIpv4Send { h with net := checksum.2.send d.destIp d.proto d.payload } d
    return h.modify i (segmentSent h.net.now flags payload.length)

/-- `net_udp_send`. -/
def udpPacket (localPort destPort : UInt16) (payload : List UInt8) : List UInt8 :=
  store16 (swap16 localPort) ++ store16 (swap16 destPort) ++ store16 (swap16 (.ofNat (8 + payload.length))) ++ [0, 0] ++
    payload

def netUdpSend (h : LockHost) (i : SockId) (destIp : Ip) (destPort : UInt16) (payload : List UInt8) :
    Except LockFault LockHost :=
  if 8 + payload.length > 1600 then .ok h
  else
    let d : Datagram := ⟨destIp, ipProtoUdp, udpPacket (h.net.sockets i).localPort destPort payload⟩
    netIpv4Send { h with net := h.net.send d.destIp d.proto d.payload } d

/-! ### The calls -/

inductive LockOp
  /-- A packet from the wire. -/
  | packet (data : Bytes) (len : UInt16)
  /-- The ARP table changes. -/
  | arp (entries : List Ip)
  | tick (now : Nat)
  | socket (type : SocketType)
  | bind (i : SockId) (port : UInt16)
  | listen (i : SockId)
  | accept (i : SockId)
  /-- The last argument is `next_ephemeral_port`. -/
  | connect (i : SockId) (ip : Ip) (port ephemeral : UInt16)
  /-- `sys_connect` looks again whether the connection is established. -/
  | connectWait (i : SockId)
  | write (i : SockId) (buf : List UInt8)
  | sendto (i : SockId) (dest : Option (Ip × UInt16)) (buf : List UInt8)
  | read (i : SockId) (count : Nat)
  | recvfrom (i : SockId) (count : Nat)
  | shutdown (i : SockId) (how : ShutHow)
  | close (i : SockId)
  /-- The end of `socket_close`. -/
  | release (i : SockId)

/-- The state with which `sys_connect` sends its SYN. -/
def connecting (n : Net) (i : SockId) (ip : Ip) (port ephemeral : UInt16) : Net :=
  n.modify i fun s => { s with
    remotePort := port
    remoteIp := ip
    localPort := if s.bound then s.localPort else ephemeral
    bound := true
    tcpState := .synSent
    sndNxt := 1000
    rcvNxt := 0 }

def connectWait (h : LockHost) (i : SockId) : Except LockFault LockHost := do
  let h ← h.locked id
  if (h.net.sockets i).tcpState = .established then h.locked fun n => n.modify i fun s => { s with connected := true }
  else h.sleep

/-- Take a datagram out of the buffer of a UDP socket. -/
def udpRead (s : Socket) : Socket :=
  let byte (k : Nat) : Nat := (s.rx.buf ((s.rx.readPtr + k) % s.rx.size)).toNat
  { s with rx := { s.rx with readPtr := (s.rx.readPtr + 8 + (byte 6 + 256 * byte 7)) % s.rx.size } }

/-- The FIN of `socket_close`, and the wait for the end of the connection. -/
def closeFin (h : LockHost) (i : SockId) : Except LockFault LockHost :=
  let fin (state : TcpState) : Except LockFault LockHost := do
    let h ← sendSegment (h.modify i fun s => { s with tcpState := state }) i (tcpFin ||| tcpAck) []
    h.sleep
  if (h.net.sockets i).type ≠ .tcp then .ok h
  else
    match (h.net.sockets i).tcpState with
    | .established | .synReceived => fin .finWait1
    | .closeWait => fin .lastAck
    | _ => .ok h

def lockStep (h : LockHost) : LockOp → Except LockFault LockHost
  | .packet data len =>
    if ipv4Accepts data len.toNat then
      protoReceive netIpv4Send h (Ip.load data 12) (fun k => data (ihlOf data + k)) (payloadLen data) (data 9)
    else .ok h
  | .arp entries => .ok { h with arp := entries }
  | .tick now => lockedSends netIpv4Send h fun n => netTcpTimerTick { n with now }
  | .socket type =>
    h.locked fun n =>
      match (List.finRange maxSockets).find? fun i => !(n.sockets i).valid with
      | none => n
      | some c => n.setSlot c (allocatedSocket .inet type)
  | .bind i port => h.locked fun n => n.modify i fun s => { s with localPort := port, bound := true }
  | .listen i => if (h.net.sockets i).type ≠ .tcp then .ok h else h.locked fun n => sysListen n i
  | .accept i =>
    if (h.net.sockets i).type ≠ .tcp then .ok h
    else do
      let empty := (h.net.sockets i).acceptQueue.isEmpty
      let h ← h.locked fun n => n.modify i fun s => { s with acceptQueue := s.acceptQueue.tail }
      if empty then h.sleep else return h
  | .connect i ip port ephemeral =>
    if (h.net.sockets i).type ≠ .tcp then
      h.locked fun n => n.modify i fun s => { s with remotePort := port, remoteIp := ip, connected := true }
    else do
      let h ← h.locked fun n => connecting n i ip port ephemeral
      let h ← sendSegment h i tcpSyn []
      connectWait h i
  | .connectWait i => connectWait h i
  | .write i buf =>
    let s := h.net.sockets i
    if s.type = .tcp then
      if s.shutdownWrite || s.tcpState ≠ .established then .ok h else sendSegment h i (tcpAck ||| tcpPsh) buf
    else if !s.connected then .ok h
    else netUdpSend h i s.remoteIp s.remotePort (buf.take (buf.length % 65536))
  | .sendto i dest buf =>
    let s := h.net.sockets i
    let buf := buf.take 1400
    let buffer := h.net.kmalloc
    if s.shutdownWrite then .ok h
    else if !buffer.1 then .ok { h with net := buffer.2 }
    else
      let h := { h with net := buffer.2 }
      match dest with
      | some (ip, port) => if s.type = .tcp then .ok h else netUdpSend h i ip port buf
      | none =>
        if !s.connected then .ok h
        else if s.type = .tcp then sendSegment h i (tcpAck ||| tcpPsh) buf
        else netUdpSend h i s.remoteIp s.remotePort buf
  | .read i count =>
    let s := h.net.sockets i
    if s.type = .tcp then
      match socketRead h.net i count with
      | (.sleep, _) => h.sleep
      | (_, net) => .ok { h with net }
    else if s.rx.readPtr = s.rx.writePtr then if s.shutdownRead then .ok h else h.sleep
    else .ok (h.modify i udpRead)
  | .recvfrom i count =>
    let s := h.net.sockets i
    if s.type = .tcp then
      match sysRecvfrom h.net i count with
      | (.sleep, _) => h.sleep
      | (_, net) => .ok { h with net }
    else if s.rx.readPtr = s.rx.writePtr then h.sleep
    else
      let buffer := h.net.kmalloc
      if !buffer.1 then .ok { h with net := buffer.2 } else .ok ({ h with net := buffer.2 }.modify i udpRead)
  | .shutdown i how =>
    let s := h.net.sockets i
    if !s.connected && s.tcpState ≠ .listen then .ok h
    else if s.type = .tcp then lockedSends netIpv4Send h fun n => sysShutdown n i how
    else h.locked fun n => n.modify i fun s => { s with
      shutdownRead := s.shutdownRead || how ≠ .wr, shutdownWrite := s.shutdownWrite || how ≠ .rd }
  | .close i =>
    closeFin (h.modify i fun s => { s with closed := true, shutdownRead := true, shutdownWrite := true }) i
  | .release i => h.locked fun n => socketRelease n i

/-! ### Where the segments go -/

/-- The sockets keep their peers, and every datagram sent goes to a permitted address. -/
structure Talks (P : Ip → Prop) (n n' : Net) : Prop where
  remote : ∀ j, (n'.sockets j).remoteIp = (n.sockets j).remoteIp
  sent : ∃ ds, n'.sent = ds ++ n.sent ∧ ∀ d ∈ ds, P d.destIp

section Talks

variable {P : Ip → Prop} {n n' n'' : Net} {i : SockId}

theorem Talks.refl (n : Net) : Talks P n n := ⟨fun _ => rfl, [], rfl, nofun⟩

theorem Talks.trans (h : Talks P n n') (h' : Talks P n' n'') : Talks P n n'' := by
  obtain ⟨ds, hds, hP⟩ := h.sent
  obtain ⟨ds', hds', hP'⟩ := h'.sent
  refine ⟨fun j => (h'.remote j).trans (h.remote j), ds' ++ ds, by rw [hds', hds, List.append_assoc], fun d hd => ?_⟩
  exact (List.mem_append.mp hd).elim (hP' d) (hP d)

theorem talks_modify (n : Net) (i : SockId) (hf : ∀ s, (f s).remoteIp = s.remoteIp) : Talks P n (n.modify i f) := by
  exact ⟨fun j => Net.modify_ind j (hf _) fun _ => rfl, [], rfl, nofun⟩

theorem talks_send (flags : UInt8) (payload : List UInt8) (hP : P (n.sockets i).remoteIp) :
    Talks P n (netTcpSendSegment n i flags payload) := by
  refine ⟨fun j => ?_, ?_⟩
  · obtain ⟨next, time, count, hsocket⟩ := netTcpSendSegment_socket n i flags payload j
    rw [hsocket]
  · rcases netTcpSendSegment_sent n i flags payload with hsame | ⟨checksummed, hsent⟩
    · exact ⟨[], hsame, nofun⟩
    · exact ⟨[_], hsent, fun d hd => by rwa [List.mem_singleton.mp hd]⟩

theorem talks_modify_send (hf : ∀ s, (f s).remoteIp = s.remoteIp) {flags : UInt8}
    {payload : List UInt8} (hP : P (n.sockets i).remoteIp) :
    Talks P n (netTcpSendSegment (n.modify i f) i flags payload) := by
  refine (talks_modify n i hf).trans (talks_send _ _ ?_)
  rwa [Net.modify_same, hf]

theorem talks_takeFin (hf : ∀ s, (f s).remoteIp = s.remoteIp) (hP : P (n.sockets i).remoteIp) :
    Talks P n (tcpTakeFin n i f) := by
  refine Talks.trans (talks_modify_send ?_ hP) (talks_modify _ i hf)
  exact fun _ => rfl

theorem talks_handshake (hdr : TcpHdr) (hP : P (n.sockets i).remoteIp) : Talks P n (tcpHandshake n i hdr) := by
  unfold tcpHandshake
  split
  · split
    · refine talks_modify_send ?_ hP
      exact fun _ => rfl
    · exact .refl n
  · split
    · have hopened : Talks P n (n.modify i fun s =>
          { s with sndUna := hdr.ack, tcpState := .established, connected := true }) := by
        refine talks_modify n i ?_
        exact fun _ => rfl
      dsimp only
      split
      · exact hopened
      split
      · refine hopened.trans (talks_modify _ _ ?_)
        exact fun _ => rfl
      · exact hopened
    · exact .refl n
  · exact .refl n

section

variable (hdr : TcpHdr) (bytes : List UInt8) (hP : P (n.sockets i).remoteIp)

include hdr bytes hP

theorem talks_payload : Talks P n (tcpPayload n i hdr bytes) := by
  unfold tcpPayload
  dsimp only
  split_ifs
  · exact .refl n
  · refine talks_modify_send ?_ hP
    exact fun _ => rfl
  · exact .refl n
  · exact talks_send _ _ hP
  · exact .refl n

theorem talks_connected : Talks P n (tcpConnected n i hdr bytes) := by
  have hfin {m : Net} (hm : Talks P n m) (f : Socket → Socket) (hf : ∀ s, (f s).remoteIp = s.remoteIp) :
      Talks P n (if hdr.fin then tcpTakeFin m i f else m) := by
    split
    · exact hm.trans (talks_takeFin hf (by rwa [hm.remote]))
    · exact hm
  have hack (f : Socket → Socket) (hf : ∀ s, (f s).remoteIp = s.remoteIp) :
      Talks P n (if hdr.hasAck then n.modify i f else n) := by
    split
    · exact talks_modify n i hf
    · exact .refl n
  unfold tcpConnected
  split
  · have hacked := hack (fun s => { s with sndUna := hdr.ack }) fun _ => rfl
    exact hfin (hacked.trans (talks_payload hdr bytes (by rwa [hacked.remote]))) _ fun _ => rfl
  · exact hfin (hack (fun s => { s with sndUna := hdr.ack, tcpState := .finWait2 }) fun _ => rfl) _ fun _ => rfl
  · exact hfin (.refl n) _ fun _ => rfl
  · exact hack (fun s => { s with sndUna := hdr.ack, tcpState := .closed, closed := true }) fun _ => rfl
  · split
    · exact talks_send _ _ hP
    · exact .refl n
  · exact .refl n

theorem talks_segment : Talks P n (tcpSegment n i hdr bytes) := by
  unfold tcpSegment
  split
  · refine talks_modify n i ?_
    exact fun _ => rfl
  have htaken : Talks P n (n.modify i (tcpTakeAck n.now hdr)) := by
    refine talks_modify n i fun s => ?_
    unfold tcpTakeAck
    split <;> rfl
  have hshaken := htaken.trans (talks_handshake hdr (by rwa [htaken.remote]))
  exact hshaken.trans (talks_connected hdr bytes (by rwa [hshaken.remote]))

end

/-- The states in which `sys_shutdown` and `socket_close` send a FIN. -/
def Socket.sendsFin (s : Socket) : Bool :=
  s.tcpState = .established || s.tcpState = .synReceived || s.tcpState = .closeWait

theorem talks_sendFin (hP : (n.sockets i).sendsFin = true → P (n.sockets i).remoteIp) : Talks P n (tcpSendFin n i) := by
  have hsend (state : TcpState) (hfin : (n.sockets i).sendsFin = true) : Talks P n (netTcpSendSegment
      (n.modify i fun s => { s with tcpState := state }) i (tcpFin ||| tcpAck) []) :=
    talks_modify_send (f := fun s => { s with tcpState := state }) (fun _ => rfl) (hP hfin)
  unfold tcpSendFin
  split <;> rename_i hstate
  · exact hsend _ (by simp [Socket.sendsFin, hstate])
  · exact hsend _ (by simp [Socket.sendsFin, hstate])
  · exact hsend _ (by simp [Socket.sendsFin, hstate])
  · exact .refl n

theorem talks_shutdown (hP : how ≠ .rd → (n.sockets i).sendsFin = true → P (n.sockets i).remoteIp) :
    Talks P n (sysShutdown n i how) := by
  have hflag (b : Prop) [Decidable b] {m : Net} (f : Socket → Socket) (hf : ∀ s, (f s).remoteIp = s.remoteIp) :
      Talks P m (if b then m.modify i f else m) := by
    split
    · exact talks_modify m i hf
    · exact .refl m
  unfold sysShutdown
  dsimp only
  split
  · exact .refl n
  have hread := hflag (how ≠ .wr) (m := n) (fun s => { s with shutdownRead := true }) fun _ => rfl
  have hstate : ((if how ≠ .wr then n.modify i fun s => { s with shutdownRead := true } else n).sockets i).tcpState =
      (n.sockets i).tcpState := by
    split
    · rw [Net.modify_same]
    · rfl
  generalize (if how ≠ .wr then n.modify i fun s => { s with shutdownRead := true } else n) = m at hread hstate ⊢
  split
  · rename_i hrd
    have hwrite := hread.trans (talks_modify m i (f := fun s => { s with shutdownWrite := true }) fun _ => rfl)
    refine hwrite.trans (talks_sendFin fun hfin => ?_)
    rw [hwrite.remote]
    refine hP hrd ?_
    rwa [Net.modify_same, Socket.sendsFin, hstate] at hfin
  · exact hread

theorem talks_timerStep (hP : (n.sockets i).due n.now = true → P (n.sockets i).remoteIp) :
    Talks P n (tcpTimerStep n i) := by
  unfold tcpTimerStep
  dsimp only
  split_ifs with htimer hopen
  · have hP := hP (by simp only [Socket.due, htimer, Bool.true_and, decide_eq_true_eq]; exact hopen)
    have hresend (flags : UInt8) : Talks P n ((netTcpSendSegment
        (n.modify i fun s => { s with sndNxt := s.sndUna }) i flags []).modify i fun t =>
          { t with sndNxt := (n.sockets i).sndNxt }) :=
      (talks_modify_send (f := fun s => { s with sndNxt := s.sndUna }) (fun _ => rfl) hP).trans
        (talks_modify _ i (f := fun t => { t with sndNxt := (n.sockets i).sndNxt }) fun _ => rfl)
    have hsent : Talks P n (tcpRetransmit n i) := by
      unfold tcpRetransmit
      dsimp only
      split
      · exact hresend _
      · exact talks_send _ _ hP
      · exact talks_send _ _ hP
      · exact hresend _
      · exact hresend _
      · exact .refl n
    refine hsent.trans (talks_modify _ i fun s => ?_)
    unfold tcpBackoff
    dsimp only
    split <;> rfl
  · exact talks_modify n i (f := fun s => { s with rtxTime := 0, rtxCount := 0 }) fun _ => rfl
  · exact .refl n

/-- The timer sends to the peers of the sockets that were due before it started: it has not touched the socket of
an iteration before that iteration. -/
theorem talks_tick (hP : ∀ i, (n.sockets i).due n.now = true → P (n.sockets i).remoteIp) :
    Talks P n (netTcpTimerTick n) := by
  have hloop : ∀ (l : List SockId) (m : Net), l.Nodup → m.now = n.now → (∀ i ∈ l, m.sockets i = n.sockets i) →
      Talks P m (l.foldl tcpTimerStep m) := by
    intro l
    induction l with
    | nil => exact fun m _ _ _ => .refl m
    | cons i rest ih =>
    intro m hnodup hnow hsame
    obtain ⟨hi, hrest⟩ := List.nodup_cons.mp hnodup
    have hstep : Talks P m (tcpTimerStep m i) := by
      apply talks_timerStep
      rw [hsame i List.mem_cons_self, hnow]
      exact hP i
    refine hstep.trans (ih _ hrest ((tcpTimerStep_now m i).trans hnow) fun j hj => ?_)
    have hji : j ≠ i := fun heq => hi (heq ▸ hj)
    rw [tcpTimerStep_of_ne m hji]
    exact hsame j (List.mem_cons_of_mem _ hj)
  rw [netTcpTimerTick]
  exact hloop _ n (List.nodup_finRange _) rfl fun _ _ => rfl

end Talks

/-! ### What a segment from an address makes the host send -/

section Lookup

variable {n n' : Net} {srcIp : Ip} {hdr hdr' : TcpHdr}

theorem tcpLookup_remote (h : (tcpLookup n srcIp hdr).sock = some i) : (n.sockets i).remoteIp = srcIp := by
  have hinv : ∀ i, (tcpLookup n srcIp hdr).sock = some i → (n.sockets i).remoteIp = srcIp := by
    apply foldl_inv (fun found : TcpLookup => ∀ i, found.sock = some i → (n.sockets i).remoteIp = srcIp)
    · exact nofun
    intro found k _ hfound
    unfold tcpLookupStep
    dsimp only
    split_ifs with hsome hport hlisten hpeer
    · exact hfound
    · exact hfound
    · intro i hi
      cases hi
      simp only [Bool.and_eq_true, decide_eq_true_eq] at hpeer
      exact hpeer.2
    · exact hfound
    · exact hfound
  exact hinv i h

/-- What the search reads of a socket. -/
structure SameKey (s t : Socket) : Prop where
  valid : t.valid = s.valid
  type : t.type = s.type
  ports : t.localPort = s.localPort ∧ t.remotePort = s.remotePort
  remoteIp : t.remoteIp = s.remoteIp
  listens : t.tcpState = .listen ↔ s.tcpState = .listen

theorem SameKey.refl (s : Socket) : SameKey s s := ⟨rfl, rfl, ⟨rfl, rfl⟩, rfl, .rfl⟩

theorem tcpLookup_congr (hsame : ∀ i, SameKey (n.sockets i) (n'.sockets i)) (hsrc : hdr'.srcPort = hdr.srcPort)
    (hdest : hdr'.destPort = hdr.destPort) : tcpLookup n' srcIp hdr' = tcpLookup n srcIp hdr := by
  have hstep : tcpLookupStep n' srcIp hdr' = tcpLookupStep n srcIp hdr := by
    funext found i
    simp only [tcpLookupStep, (hsame i).valid, (hsame i).type, (hsame i).ports, (hsame i).remoteIp, (hsame i).listens,
      hsrc, hdest]
  rw [tcpLookup, tcpLookup, hstep]

theorem netTcpReceive_sent (P : Ip → Prop) (hP : P srcIp) (n : Net) (data : Bytes) (len : Nat) :
    ∃ ds, (netTcpReceive n srcIp data len).sent = ds ++ n.sent ∧ ∀ d ∈ ds, P d.destIp := by
  have hnone : ∃ ds, n.sent = ds ++ n.sent ∧ ∀ d ∈ ds, P d.destIp := ⟨[], rfl, nofun⟩
  have hsend {m : Net} {c : SockId} {flags : UInt8} (hm : m.sent = n.sent) (hc : P (m.sockets c).remoteIp) :
      ∃ ds, (netTcpSendSegment m c flags []).sent = ds ++ n.sent ∧ ∀ d ∈ ds, P d.destIp := by
    obtain ⟨ds, hds, hd⟩ := (talks_send flags [] hc).sent
    exact ⟨ds, hds.trans (congrArg (ds ++ ·) hm), hd⟩
  rw [netTcpReceive]
  split
  · exact hnone
  split
  · exact hnone
  generalize slice data _ _ = bytes
  rcases hlookup : tcpLookup n srcIp (tcpHdrOf data) with ⟨_ | i, listener⟩
  · cases listener with
    | none =>
      rw [tcpInput_of_none bytes hlookup]
      exact hnone
    | some l =>
    rw [tcpInput_of_listener bytes hlookup, tcpListen]
    split
    · split
      · exact hnone
      dsimp only
      split
      · exact ⟨[], n.kmalloc_sent, nofun⟩
      -- the child's peer is the source of the segment
      apply hsend
      · exact n.kmalloc_sent
      · rw [Net.modify_same, Net.modify_same]
        exact hP
    · exact hnone
  · rw [tcpInput_of_sock bytes hlookup]
    refine (talks_segment _ bytes ?_).sent
    rw [tcpLookup_remote (congrArg TcpLookup.sock hlookup)]
    exact hP

theorem netTcpReceive_of_none (h : tcpLookup n srcIp (tcpHdrOf data) = ⟨none, none⟩) (len : Nat) :
    netTcpReceive n srcIp data len = n := by
  rw [netTcpReceive, tcpInput_of_none _ h]
  simp

end Lookup

end Litenix
