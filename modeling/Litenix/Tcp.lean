import Litenix.Lib.Run
import Litenix.Sockets

/-! TCP (`tcp.c`) and the socket calls that use it (`socket.c`): sending a segment, receiving one,
the retransmission timer, reading, writing, connecting and shutting down. A call that would sleep
is modelled by its wait condition: it changes nothing and is tried again. -/

namespace Litenix

open Lib

def tcpFin : UInt8 := 0x01
def tcpSyn : UInt8 := 0x02
def tcpRst : UInt8 := 0x04
def tcpPsh : UInt8 := 0x08
def tcpAck : UInt8 := 0x10

/-- The fields of `struct tcp_hdr` that are read on receipt, in host order. -/
structure TcpHdr where
  srcPort : UInt16
  destPort : UInt16
  seq : BitVec 32
  ack : BitVec 32
  flags : UInt8

namespace TcpHdr

variable (hdr : TcpHdr)

def fin : Bool := hdr.flags &&& tcpFin != 0
def syn : Bool := hdr.flags &&& tcpSyn != 0
def rst : Bool := hdr.flags &&& tcpRst != 0
def hasAck : Bool := hdr.flags &&& tcpAck != 0

end TcpHdr

/-! ### `net_tcp_send_segment` -/

/-- The segment as it is sent: the header, with the checksum over the pseudo header when the
buffer for it can be allocated, and the payload. -/
def tcpPacket (sock : Socket) (flags : UInt8) (payload : List UInt8) (checksummed : Bool) : List UInt8 :=
  let tcpLen := UInt16.ofNat (20 + payload.length)
  let fields := store16 (swap16 sock.localPort) ++ store16 (swap16 sock.remotePort) ++
    store32 (swap32 sock.sndNxt) ++ store32 (swap32 sock.rcvNxt) ++ [(5 : UInt8) <<< 4, flags] ++ store16 (swap16 4096)
  let srcIp : Ip := if sock.remoteIp.b0 = 127 then ⟨127, 0, 0, 1⟩ else myIp
  let phdr := srcIp.bytes ++ sock.remoteIp.bytes ++ [0, ipProtoTcp] ++ store16 (swap16 tcpLen)
  let csum := if checksummed then
      ipChecksum (phdr ++ (fields ++ [0, 0, 0, 0] ++ payload).take tcpLen.toNat)
    else 0
  (fields ++ store16 csum ++ [0, 0] ++ payload).take tcpLen.toNat

/-- By how much a segment advances `snd_nxt`. -/
def segmentLen (flags : UInt8) (len : Nat) : Nat :=
  (if flags &&& (tcpSyn ||| tcpFin) != 0 then 1 else 0) + len

/-- The bookkeeping after a segment of `len` bytes has been sent. -/
def segmentSent (now : Nat) (flags : UInt8) (len : Nat) (sock : Socket) : Socket :=
  let sock := { sock with sndNxt := sock.sndNxt + .ofNat 32 (segmentLen flags len) }
  if segmentLen flags len ≠ 0 ∧ sock.rtxTime = 0 then { sock with rtxTime := now + 100, rtxCount := 0 }
  else sock

/-- `len` is a `uint16_t`: of a longer buffer only the low 16 bits of its length are sent. -/
def netTcpSendSegment (n : Net) (i : SockId) (flags : UInt8) (payload : List UInt8) : Net :=
  let payload := payload.take (payload.length % 65536)
  let packet := n.kmalloc
  if !packet.1 then packet.2
  else
    let checksum := packet.2.kmalloc
    let sent := checksum.2.send (n.sockets i).remoteIp ipProtoTcp
      (tcpPacket (n.sockets i) flags payload checksum.1)
    sent.modify i (segmentSent n.now flags payload.length)

/-! ### `net_tcp_receive` -/

structure TcpLookup where
  sock : Option SockId
  listener : Option SockId

/-- One iteration of the search for the socket of a segment. -/
def tcpLookupStep (n : Net) (srcIp : Ip) (hdr : TcpHdr) (found : TcpLookup) (i : SockId) : TcpLookup :=
  if found.sock.isSome then found
  else
    let s := n.sockets i
    if s.valid && s.type = .tcp && s.localPort = hdr.destPort then
      if s.tcpState = .listen then { found with listener := some i }
      else if s.remotePort = hdr.srcPort && s.remoteIp = srcIp then { found with sock := some i }
      else found
    else found

def tcpLookup (n : Net) (srcIp : Ip) (hdr : TcpHdr) : TcpLookup :=
  (List.finRange maxSockets).foldl (tcpLookupStep n srcIp hdr) ⟨none, none⟩

/-- A listening socket receives a SYN: the child socket. -/
def tcpListen (n : Net) (listener : SockId) (srcIp : Ip) (hdr : TcpHdr) : Net :=
  if hdr.syn && (n.sockets listener).acceptQueue.length < 8 then
    match (List.finRange maxSockets).find? fun i => !(n.sockets i).valid with
    | none => n
    | some child =>
      let buffer := n.kmalloc
      let n := buffer.2.modify child fun s => { s with
        valid := buffer.1
        type := .tcp
        localPort := (n.sockets listener).localPort
        remotePort := hdr.srcPort
        remoteIp := srcIp
        rx := { s.rx with size := 8192 } }
      if !buffer.1 then n
      else
        let n := n.modify child fun s => { s with
          rx := ⟨fun _ => 0, 8192, 0, 0⟩
          tcpState := .synReceived
          sndNxt := 1000
          rcvNxt := hdr.seq + 1
          sndUna := 1000
          parentListener := some listener
          bound := true
          connected := false
          closed := false }
        netTcpSendSegment n child (tcpSyn ||| tcpAck) []
  else n

/-- The acknowledgement, before the state machine looks at it. -/
def tcpTakeAck (now : Nat) (hdr : TcpHdr) (sock : Socket) : Socket :=
  if hdr.hasAck && hdr.ack > sock.sndUna then
    { sock with
      sndUna := hdr.ack
      rtxTime := if sock.sndNxt = hdr.ack then 0 else now + 100
      rtxCount := 0 }
  else sock

/-- The states `SYN_SENT` and `SYN_RECEIVED`. -/
def tcpHandshake (n : Net) (i : SockId) (hdr : TcpHdr) : Net :=
  match (n.sockets i).tcpState with
  | .synSent =>
    if hdr.syn && hdr.hasAck then
      let n := n.modify i fun s => { s with
        rcvNxt := hdr.seq + 1
        sndUna := hdr.ack
        tcpState := .established
        connected := true }
      netTcpSendSegment n i tcpAck []
    else n
  | .synReceived =>
    if hdr.hasAck then
      let n := n.modify i fun s => { s with
        sndUna := hdr.ack
        tcpState := .established
        connected := true }
      match (n.sockets i).parentListener with
      | none => n
      | some parent =>
        if (n.sockets parent).acceptQueue.length < 8 then
          n.modify parent fun s => { s with acceptQueue := s.acceptQueue ++ [i] }
        else n
    else n
  | _ => n

/-- The payload of a segment for an established connection. -/
def tcpPayload (n : Net) (i : SockId) (hdr : TcpHdr) (payload : List UInt8) : Net :=
  let s := n.sockets i
  if payload.length = 0 then n
  else if hdr.seq = s.rcvNxt then
    if s.rx.free > payload.length + 1 then
      let n := n.modify i fun s => { s with
        rx := s.rx.pushAll payload
        rcvNxt := s.rcvNxt + .ofNat 32 payload.length }
      netTcpSendSegment n i tcpAck []
    else n
  else if hdr.seq < s.rcvNxt then netTcpSendSegment n i tcpAck []
  else n

/-- A FIN: it is acknowledged and the socket changes as `f` says. -/
def tcpTakeFin (n : Net) (i : SockId) (f : Socket → Socket) : Net :=
  let n := n.modify i fun s => { s with rcvNxt := s.rcvNxt + 1 }
  (netTcpSendSegment n i tcpAck []).modify i f

/-- The states from `ESTABLISHED` on. -/
def tcpConnected (n : Net) (i : SockId) (hdr : TcpHdr) (payload : List UInt8) : Net :=
  match (n.sockets i).tcpState with
  | .established =>
    let n := if hdr.hasAck then n.modify i fun s => { s with sndUna := hdr.ack } else n
    let n := tcpPayload n i hdr payload
    if hdr.fin then tcpTakeFin n i fun s => { s with tcpState := .closeWait } else n
  | .finWait1 =>
    let n := if hdr.hasAck then n.modify i fun s => { s with sndUna := hdr.ack, tcpState := .finWait2 } else n
    if hdr.fin then tcpTakeFin n i fun s => { s with tcpState := .timeWait, closed := true } else n
  | .finWait2 =>
    if hdr.fin then tcpTakeFin n i fun s => { s with tcpState := .timeWait, closed := true } else n
  | .lastAck =>
    if hdr.hasAck then n.modify i fun s => { s with sndUna := hdr.ack, tcpState := .closed, closed := true }
    else n
  | .timeWait => if hdr.fin then netTcpSendSegment n i tcpAck [] else n
  | _ => n

/-- A segment for the socket `i`. -/
def tcpSegment (n : Net) (i : SockId) (hdr : TcpHdr) (payload : List UInt8) : Net :=
  if hdr.rst then
    n.modify i fun s => { s with tcpState := .closed, soError := 111, closed := true }
  else
    let n := n.modify i (tcpTakeAck n.now hdr)
    let n := tcpHandshake n i hdr
    tcpConnected n i hdr payload

def tcpInput (n : Net) (srcIp : Ip) (hdr : TcpHdr) (payload : List UInt8) : Net :=
  match tcpLookup n srcIp hdr with
  | ⟨some i, _⟩ => tcpSegment n i hdr payload
  | ⟨none, some listener⟩ => tcpListen n listener srcIp hdr
  | ⟨none, none⟩ => n

/-- `data_offset` in bytes. -/
def tcpHeaderLen (data : Bytes) : Nat := ((data 12 >>> 4) * 4).toNat

def tcpHdrOf (data : Bytes) : TcpHdr where
  srcPort := swap16 (load16 data 0)
  destPort := swap16 (load16 data 2)
  seq := swap32 (load32 data 4)
  ack := swap32 (load32 data 8)
  flags := data 13

def netTcpReceive (n : Net) (srcIp : Ip) (data : Bytes) (len : Nat) : Net :=
  if len < 20 then n
  else if len < tcpHeaderLen data then n
  else tcpInput n srcIp (tcpHdrOf data) (slice data (tcpHeaderLen data) (len - tcpHeaderLen data))

/-! ### `net_tcp_timer_tick` -/

/-- What the timer sends for the socket `i`; `snd_nxt` is put back after a retransmission. -/
def tcpRetransmit (n : Net) (i : SockId) : Net :=
  let s := n.sockets i
  let resend (flags : UInt8) : Net :=
    let n := n.modify i fun s => { s with sndNxt := s.sndUna }
    (netTcpSendSegment n i flags []).modify i fun t => { t with sndNxt := s.sndNxt }
  match s.tcpState with
  | .synSent => resend tcpSyn
  | .established | .closeWait => netTcpSendSegment n i tcpAck []
  | .finWait1 | .lastAck => resend (tcpFin ||| tcpAck)
  | _ => n

/-- The back-off after a time-out, or the end of the connection after the ninth. -/
def tcpBackoff (now : Nat) (sock : Socket) : Socket :=
  let count := sock.rtxCount + 1
  if count > 8 then
    { sock with rtxCount := count, tcpState := .closed, soError := 110, closed := true, rtxTime := 0 }
  else { sock with rtxCount := count, rtxTime := now + 100 * 2 ^ min count 4 }

def tcpTimerStep (n : Net) (i : SockId) : Net :=
  let s := n.sockets i
  if s.valid && s.type = .tcp && s.rtxTime ≠ 0 && n.now ≥ s.rtxTime then
    if s.sndNxt > s.sndUna then (tcpRetransmit n i).modify i (tcpBackoff n.now)
    else n.modify i fun s => { s with rtxTime := 0, rtxCount := 0 }
  else n

def netTcpTimerTick (n : Net) : Net := (List.finRange maxSockets).foldl tcpTimerStep n

/-! ### Socket calls -/

inductive ReadReply
  | sleep
  | eof
  | enomem
  | data (bytes : List UInt8)
deriving DecidableEq

/-- `socket_read` of a TCP socket. -/
def socketRead (n : Net) (i : SockId) (count : Nat) : ReadReply × Net :=
  let s := n.sockets i
  if s.rx.readPtr = s.rx.writePtr then
    if s.shutdownRead then (.eof, n)
    else if s.tcpState = .closed || s.tcpState = .closeWait || s.closed || s.shutdownWrite then (.eof, n)
    else (.sleep, n)
  else (.data (s.rx.popUpTo count).1, n.modify i fun s => { s with rx := (s.rx.popUpTo count).2 })

/-- `sys_recvfrom` of a TCP socket, up to the copy to the caller. It fails, with the data still
stored, when its buffer cannot be allocated. -/
def sysRecvfrom (n : Net) (i : SockId) (count : Nat) : ReadReply × Net :=
  let s := n.sockets i
  if s.rx.readPtr = s.rx.writePtr then
    if s.tcpState = .closed || s.tcpState = .closeWait || s.closed then (.eof, n)
    else (.sleep, n)
  else
    let buffer := n.kmalloc
    if !buffer.1 then (.enomem, buffer.2)
    else (.data (s.rx.popUpTo count).1,
      buffer.2.modify i fun s => { s with rx := (s.rx.popUpTo count).2 })

/-- `socket_write` of a TCP socket. -/
def socketWrite (n : Net) (i : SockId) (buf : List UInt8) : Net :=
  let s := n.sockets i
  if s.shutdownWrite then n
  else if s.tcpState ≠ .established then n
  else netTcpSendSegment n i (tcpAck ||| tcpPsh) buf

/-- `sys_sendto` of a TCP socket without a destination address. -/
def sysSendto (n : Net) (i : SockId) (buf : List UInt8) : Net :=
  let s := n.sockets i
  if s.shutdownWrite then n
  else
    let buffer := n.kmalloc
    if !buffer.1 then buffer.2
    else if !s.connected then buffer.2
    else netTcpSendSegment buffer.2 i (tcpAck ||| tcpPsh) (buf.take 1400)

/-- Send a FIN where the state asks for one: the part of `sys_shutdown` and `socket_close`. -/
def tcpSendFin (n : Net) (i : SockId) : Net :=
  match (n.sockets i).tcpState with
  | .established | .synReceived =>
    netTcpSendSegment (n.modify i fun s => { s with tcpState := .finWait1 }) i (tcpFin ||| tcpAck) []
  | .closeWait =>
    netTcpSendSegment (n.modify i fun s => { s with tcpState := .lastAck }) i (tcpFin ||| tcpAck) []
  | _ => n

inductive ShutHow
  | rd
  | wr
  | rdwr
deriving DecidableEq

/-- `sys_shutdown` of a TCP socket. -/
def sysShutdown (n : Net) (i : SockId) (how : ShutHow) : Net :=
  let s := n.sockets i
  if !s.connected && s.tcpState ≠ .listen then n
  else
    let n := if how ≠ .wr then n.modify i fun s => { s with shutdownRead := true } else n
    if how ≠ .rd then tcpSendFin (n.modify i fun s => { s with shutdownWrite := true }) i else n

/-- `sys_connect` of a bound TCP socket, up to its wait for the connection. -/
def sysConnect (n : Net) (i : SockId) (remoteIp : Ip) (remotePort : UInt16) : Net :=
  let n := n.modify i fun s => { s with
    remotePort := remotePort
    remoteIp := remoteIp
    tcpState := .synSent
    sndNxt := 1000
    rcvNxt := 0 }
  netTcpSendSegment n i tcpSyn []

/-- `sys_listen`. -/
def sysListen (n : Net) (i : SockId) : Net := n.modify i fun s => { s with tcpState := .listen }

/-- `socket_close` up to its wait for the end of the connection. -/
def socketClose (n : Net) (i : SockId) : Net :=
  let n := n.modify i fun s => { s with closed := true, shutdownRead := true, shutdownWrite := true }
  let n := match (n.sockets i).peer with
    | none => n
    | some peer => n.modify peer fun s => { s with peer := none }
  tcpSendFin n i

/-- `socket_close` after its wait. -/
def socketRelease (n : Net) (i : SockId) : Net := n.modify i fun s => { s with valid := false }

/-! ### What sending does to the sockets -/

section

variable (n : Net) (i : SockId) (flags : UInt8) (payload : List UInt8)

/-- A segment is sent, or the packet cannot be allocated. -/
theorem netTcpSendSegment_sockets :
    (netTcpSendSegment n i flags payload).sockets = n.sockets ∨
      (netTcpSendSegment n i flags payload).sockets = (n.modify i
        (segmentSent n.now flags (payload.length % 65536))).sockets := by
  unfold netTcpSendSegment
  dsimp only
  split
  · exact .inl (Net.kmalloc_sockets n)
  right
  have hlen : min (payload.length % 65536) payload.length = payload.length % 65536 :=
    Nat.min_eq_left (Nat.mod_le _ _)
  simp [Net.modify, hlen]

theorem netTcpSendSegment_of_ne (h : j ≠ i) : (netTcpSendSegment n i flags payload).sockets j = n.sockets j := by
  rcases netTcpSendSegment_sockets n i flags payload with hsame | hsent
  · rw [hsame]
  · rw [hsent, Net.modify_of_ne _ _ _ h]

/-- Only `snd_nxt` and the timer depend on whether a segment could be sent. -/
theorem netTcpSendSegment_socket (j : SockId) :
    ∃ next time count, (netTcpSendSegment n i flags payload).sockets j =
      { n.sockets j with sndNxt := next, rtxTime := time, rtxCount := count } := by
  by_cases hj : j = i
  · subst hj
    rcases netTcpSendSegment_sockets n j flags payload with hsame | hsent
    · exact ⟨_, _, _, by rw [hsame]⟩
    rw [hsent, Net.modify_same]
    unfold segmentSent
    dsimp only
    split <;> exact ⟨_, _, _, rfl⟩
  · exact ⟨_, _, _, by rw [netTcpSendSegment_of_ne n i flags payload hj]⟩

end

theorem segmentSent_zero (now : Nat) (sock : Socket) {flags : UInt8} (h : segmentLen flags 0 = 0) :
    segmentSent now flags 0 sock = sock := by
  simp [segmentSent, h]

@[simp]
theorem sendAck_sockets (n : Net) (i : SockId) : (netTcpSendSegment n i tcpAck []).sockets = n.sockets := by
  rcases netTcpSendSegment_sockets n i tcpAck [] with h | h
  · exact h
  rw [h]
  have hzero := segmentSent_zero n.now (n.sockets i) (show segmentLen tcpAck 0 = 0 from rfl)
  funext j
  exact Net.modify_ind j hzero fun _ => rfl

/-- A passive open leaves every slot but the first free one alone. -/
theorem tcpListen_other {n : Net} {c : SockId} (srcIp : Ip) (hdr : TcpHdr) (listener : SockId)
    (hfree : ((List.finRange maxSockets).find? fun i => !(n.sockets i).valid) ≠ some c) :
    (tcpListen n listener srcIp hdr).sockets c = n.sockets c := by
  unfold tcpListen
  split
  · split
    · rfl
    rename_i child hchild
    have hc : c ≠ child := by
      rintro rfl
      exact hfree hchild
    dsimp only
    split
    · rw [Net.modify_of_ne _ _ _ hc, Net.kmalloc_sockets]
    · rw [netTcpSendSegment_of_ne _ _ _ _ hc, Net.modify_of_ne _ _ _ hc, Net.modify_of_ne _ _ _ hc,
        Net.kmalloc_sockets]
  · rfl

theorem tcpRetransmit_socket (n : Net) (i j : SockId) :
    ∃ time count, (tcpRetransmit n i).sockets j = { n.sockets j with rtxTime := time, rtxCount := count } := by
  have hresend (flags : UInt8) : ∃ time count, ((netTcpSendSegment (n.modify i fun s => { s with sndNxt := s.sndUna })
      i flags []).modify i fun t => { t with sndNxt := (n.sockets i).sndNxt }).sockets j =
      { n.sockets j with rtxTime := time, rtxCount := count } := by
    by_cases hj : j = i
    · subst hj
      obtain ⟨next, time, count, hsocket⟩ := netTcpSendSegment_socket
        (n.modify j fun s => { s with sndNxt := s.sndUna }) j flags [] j
      exact ⟨time, count, by rw [Net.modify_same, hsocket, Net.modify_same]⟩
    · exact ⟨_, _, by rw [Net.modify_of_ne _ _ _ hj, netTcpSendSegment_of_ne _ _ _ _ hj, Net.modify_of_ne _ _ _ hj]⟩
  unfold tcpRetransmit
  dsimp only
  split
  · exact hresend _
  · exact ⟨_, _, by rw [sendAck_sockets]⟩
  · exact ⟨_, _, by rw [sendAck_sockets]⟩
  · exact hresend _
  · exact hresend _
  · exact ⟨_, _, rfl⟩

/-- What the timer leaves of a socket. -/
inductive Timed (s : Socket) : Socket → Prop
  | running (time count : Nat) : Timed s { s with rtxTime := time, rtxCount := count }
  | ended (count : Nat) :
      Timed s { s with rtxCount := count, tcpState := .closed, soError := 110, closed := true, rtxTime := 0 }

theorem Timed.sndNxt (h : Timed s t) : t.sndNxt = s.sndNxt := by
  cases h <;> rfl

theorem tcpTimerStep_socket (n : Net) (i j : SockId) : Timed (n.sockets j) ((tcpTimerStep n i).sockets j) := by
  obtain ⟨time, count, hsocket⟩ := tcpRetransmit_socket n i j
  have hbackoff (m : Net) (hm : m.sockets j = { n.sockets j with rtxTime := time, rtxCount := count }) :
      Timed (n.sockets j) ((m.modify i (tcpBackoff n.now)).sockets j) := by
    by_cases hj : j = i
    · subst hj
      rw [Net.modify_same, hm, tcpBackoff]
      split
      · exact .ended _
      · exact .running _ _
    · rw [Net.modify_of_ne _ _ _ hj, hm]
      exact .running _ _
  rw [tcpTimerStep]
  split_ifs
  · exact hbackoff _ hsocket
  · exact Net.modify_ind j (.running _ _) fun _ => .running _ _
  · exact .running _ _

/-! ### What a segment does to its socket -/

namespace Socket

def handshake (hdr : TcpHdr) (s : Socket) : Socket :=
  match s.tcpState with
  | .synSent =>
    if hdr.syn && hdr.hasAck then
      { s with rcvNxt := hdr.seq + 1, sndUna := hdr.ack, tcpState := .established, connected := true }
    else s
  | .synReceived =>
    if hdr.hasAck then { s with sndUna := hdr.ack, tcpState := .established, connected := true } else s
  | _ => s

/-- The payload is the next one and there is room for it. -/
def takesPayload (hdr : TcpHdr) (payload : List UInt8) (s : Socket) : Bool :=
  payload.length ≠ 0 && hdr.seq = s.rcvNxt && s.rx.free > payload.length + 1

def payload (hdr : TcpHdr) (payload : List UInt8) (s : Socket) : Socket :=
  if s.takesPayload hdr payload then
    { s with rx := s.rx.pushAll payload, rcvNxt := s.rcvNxt + .ofNat 32 payload.length }
  else s

def finish (hdr : TcpHdr) (f : Socket → Socket) (s : Socket) : Socket :=
  if hdr.fin then f { s with rcvNxt := s.rcvNxt + 1 } else s

/-- The acknowledgement in a state that takes it and goes on as `f` says. -/
def acked (hdr : TcpHdr) (f : Socket → Socket) (s : Socket) : Socket :=
  if hdr.hasAck then f { s with sndUna := hdr.ack } else s

def transfer (hdr : TcpHdr) (bytes : List UInt8) (s : Socket) : Socket :=
  match s.tcpState with
  | .established => ((s.acked hdr id).payload hdr bytes).finish hdr fun s => { s with tcpState := .closeWait }
  | .finWait1 =>
    (s.acked hdr fun s => { s with tcpState := .finWait2 }).finish hdr fun s =>
      { s with tcpState := .timeWait, closed := true }
  | .finWait2 => s.finish hdr fun s => { s with tcpState := .timeWait, closed := true }
  | .lastAck => s.acked hdr fun s => { s with tcpState := .closed, closed := true }
  | _ => s

/-- The whole effect of a segment on the socket it is for, its accept queue apart. -/
def segment (now : Nat) (hdr : TcpHdr) (bytes : List UInt8) (s : Socket) : Socket :=
  if hdr.rst then { s with tcpState := .closed, soError := 111, closed := true }
  else ((tcpTakeAck now hdr s).handshake hdr).transfer hdr bytes

end Socket

theorem tcpPayload_sockets (n : Net) (i : SockId) (hdr : TcpHdr) (bytes : List UInt8) :
    (tcpPayload n i hdr bytes).sockets = (n.modify i fun s => s.payload hdr bytes).sockets := by
  have hkeep : (n.sockets i).payload hdr bytes = n.sockets i →
      n.sockets = (n.modify i fun s => s.payload hdr bytes).sockets := by
    intro h
    simp [Net.modify, h]
  unfold tcpPayload
  dsimp only
  split_ifs with hempty hseq hroom hold
  · exact hkeep (by simp [Socket.payload, Socket.takesPayload, hempty])
  · simp [Net.modify, Socket.payload, Socket.takesPayload, hempty, hseq, hroom]
  · exact hkeep (by simp [Socket.payload, Socket.takesPayload, hroom])
  · rw [sendAck_sockets]
    exact hkeep (by simp [Socket.payload, Socket.takesPayload, hseq])
  · exact hkeep (by simp [Socket.payload, Socket.takesPayload, hseq])

theorem tcpTakeFin_sockets (n : Net) (i : SockId) (f : Socket → Socket) :
    (tcpTakeFin n i f).sockets = (n.modify i fun s => f { s with rcvNxt := s.rcvNxt + 1 }).sockets := by
  simp [tcpTakeFin, Net.modify]

theorem tcpConnected_sockets (n : Net) (i : SockId) (hdr : TcpHdr) (bytes : List UInt8) :
    (tcpConnected n i hdr bytes).sockets = (n.modify i fun s => s.transfer hdr bytes).sockets := by
  unfold tcpConnected
  split <;> rename_i hstate
  all_goals simp only [Net.modify, Socket.transfer, hstate]
  · cases hack : hdr.hasAck <;> cases hfin : hdr.fin <;>
      simp [tcpPayload_sockets, tcpTakeFin_sockets, Net.modify, Socket.finish, Socket.acked, hack, hfin, hstate]
  · cases hack : hdr.hasAck <;> cases hfin : hdr.fin <;>
      simp [tcpTakeFin_sockets, Net.modify, Socket.finish, Socket.acked, hack, hfin]
  · cases hfin : hdr.fin <;> simp [tcpTakeFin_sockets, Net.modify, Socket.finish, hfin]
  · cases hack : hdr.hasAck <;> simp [Socket.acked, hack]
  · cases hdr.fin <;> simp
  · rw [Function.update_eq_self_iff.mpr]
    cases h : (n.sockets i).tcpState <;> simp_all

def Socket.withQueue (s : Socket) (queue : List SockId) : Socket := { s with acceptQueue := queue }

/-- Equal apart from the accept queues. -/
def SameButQueues (sockets sockets' : SockId → Socket) : Prop :=
  ∀ j, ∃ queue, sockets' j = (sockets j).withQueue queue

theorem SameButQueues.refl (sockets : SockId → Socket) : SameButQueues sockets sockets := fun _ => ⟨_, rfl⟩

theorem tcpHandshake_sockets (n : Net) (i : SockId) (hdr : TcpHdr) :
    SameButQueues (n.modify i fun s => s.handshake hdr).sockets (tcpHandshake n i hdr).sockets := by
  have hkeep : (n.sockets i).handshake hdr = n.sockets i →
      SameButQueues (n.modify i fun s => s.handshake hdr).sockets n.sockets := by
    intro h
    have hsame : (n.modify i fun s => s.handshake hdr).sockets = n.sockets := by simp [Net.modify, h]
    rw [hsame]
    exact .refl _
  unfold tcpHandshake
  split <;> rename_i hstate
  · split
    · rename_i hflags
      rw [sendAck_sockets]
      simp only [Net.modify, Socket.handshake, hstate, hflags, if_true]
      exact .refl _
    · rename_i hflags
      exact hkeep (by simp [Socket.handshake, hstate, hflags])
  · split
    · rename_i hflags
      have hnew : (n.modify i fun s => s.handshake hdr).sockets = (n.modify i fun s =>
          { s with sndUna := hdr.ack, tcpState := .established, connected := true }).sockets := by
        simp [Net.modify, Socket.handshake, hstate, hflags]
      rw [hnew]
      dsimp only
      split
      · exact .refl _
      rename_i parent _
      split
      · -- only the parent's queue changes
        exact fun j => Net.modify_ind j ⟨_, rfl⟩ fun _ => ⟨_, rfl⟩
      · exact .refl _
    · rename_i hflags
      exact hkeep (by simp [Socket.handshake, hstate, hflags])
  · rename_i hno₁ hno₂
    refine hkeep ?_
    unfold Socket.handshake
    split
    · exact (hno₂ ‹_›).elim
    · exact (hstate ‹_›).elim
    · rfl

namespace Socket

variable (s : Socket) (queue : List SockId) (hdr : TcpHdr)

theorem payload_withQueue (bytes : List UInt8) :
    (s.withQueue queue).payload hdr bytes = (s.payload hdr bytes).withQueue queue := by
  unfold payload
  change (if s.takesPayload hdr bytes = true then _ else _) = _
  split <;> rfl

variable {f : Socket → Socket} (hf : ∀ t : Socket, f (t.withQueue queue) = (f t).withQueue queue)

include hf in
theorem finish_withQueue : (s.withQueue queue).finish hdr f = (s.finish hdr f).withQueue queue := by
  unfold finish
  split
  · exact hf { s with rcvNxt := s.rcvNxt + 1 }
  · rfl

include hf in
theorem acked_withQueue : (s.withQueue queue).acked hdr f = (s.acked hdr f).withQueue queue := by
  unfold acked
  split
  · exact hf { s with sndUna := hdr.ack }
  · rfl

theorem transfer_withQueue (bytes : List UInt8) :
    (s.withQueue queue).transfer hdr bytes = (s.transfer hdr bytes).withQueue queue := by
  have hstate : (s.withQueue queue).tcpState = s.tcpState := rfl
  unfold transfer
  rw [hstate]
  cases s.tcpState <;> dsimp only
  case established =>
    rw [acked_withQueue _ _ _ fun _ => rfl, payload_withQueue, finish_withQueue _ _ _ fun _ => rfl]
  case finWait1 => rw [acked_withQueue _ _ _ fun _ => rfl, finish_withQueue _ _ _ fun _ => rfl]
  case finWait2 => exact finish_withQueue _ _ _ fun _ => rfl
  case lastAck => exact acked_withQueue _ _ _ fun _ => rfl

end Socket

/-- **A segment for a socket.** It changes that socket as `Socket.segment` says, and apart from
that only accept queues. -/
theorem tcpSegment_sockets (n : Net) (i : SockId) (hdr : TcpHdr) (bytes : List UInt8) :
    SameButQueues (n.modify i fun s => s.segment n.now hdr bytes).sockets (tcpSegment n i hdr bytes).sockets := by
  unfold tcpSegment
  split
  · rename_i hrst
    have hsame : (n.modify i fun s => s.segment n.now hdr bytes).sockets = (n.modify i fun s =>
        { s with tcpState := .closed, soError := 111, closed := true }).sockets := by
      simp [Net.modify, Socket.segment, hrst]
    rw [hsame]
    exact .refl _
  rename_i hrst
  rw [tcpConnected_sockets]
  have hshake := tcpHandshake_sockets (n.modify i (tcpTakeAck n.now hdr)) i hdr
  intro j
  obtain ⟨queue, hqueue⟩ := hshake j
  by_cases hj : j = i
  · subst hj
    refine ⟨queue, ?_⟩
    rw [Net.modify_same] at hqueue ⊢
    rw [hqueue, Net.modify_same, Net.modify_same, Socket.transfer_withQueue, Socket.segment, if_neg hrst]
  · refine ⟨queue, ?_⟩
    rw [Net.modify_of_ne _ _ _ hj, Net.modify_of_ne _ _ _ hj, hqueue, Net.modify_of_ne _ _ _ hj,
      Net.modify_of_ne _ _ _ hj]

/-- What the search for the socket of a segment has found is of the right kind. -/
structure TcpLookup.Ok (n : Net) (found : TcpLookup) : Prop where
  sock : ∀ i, found.sock = some i →
    (n.sockets i).valid = true ∧ (n.sockets i).type = .tcp ∧ (n.sockets i).tcpState ≠ .listen
  listener : ∀ i, found.listener = some i →
    (n.sockets i).valid = true ∧ (n.sockets i).type = .tcp ∧ (n.sockets i).tcpState = .listen

theorem tcpLookup_ok (n : Net) (srcIp : Ip) (hdr : TcpHdr) : (tcpLookup n srcIp hdr).Ok n := by
  apply foldl_inv (fun found : TcpLookup => found.Ok n)
  · exact ⟨nofun, nofun⟩
  intro found k _ hfound
  unfold tcpLookupStep
  dsimp only
  split_ifs with hsome hport hlisten hpeer
  · exact hfound
  · simp only [Bool.and_eq_true, decide_eq_true_eq] at hport
    refine ⟨hfound.sock, fun i hi => ?_⟩
    cases hi
    exact ⟨hport.1.1, hport.1.2, hlisten⟩
  · simp only [Bool.and_eq_true, decide_eq_true_eq] at hport
    refine ⟨fun i hi => ?_, hfound.listener⟩
    cases hi
    exact ⟨hport.1.1, hport.1.2, hlisten⟩
  · exact hfound
  · exact hfound

theorem tcpLookup_some (h : (tcpLookup n srcIp hdr).sock = some i) :
    (n.sockets i).valid = true ∧ (n.sockets i).type = .tcp ∧ (n.sockets i).tcpState ≠ .listen :=
  (tcpLookup_ok n srcIp hdr).sock i h

section Input

variable {n : Net} {srcIp : Ip} {hdr : TcpHdr} (payload : List UInt8)

theorem tcpInput_of_sock (h : tcpLookup n srcIp hdr = ⟨some i, listener⟩) :
    tcpInput n srcIp hdr payload = tcpSegment n i hdr payload := by
  unfold tcpInput
  rw [h]

theorem tcpInput_of_listener (h : tcpLookup n srcIp hdr = ⟨none, some listener⟩) :
    tcpInput n srcIp hdr payload = tcpListen n listener srcIp hdr := by
  unfold tcpInput
  rw [h]

theorem tcpInput_of_none (h : tcpLookup n srcIp hdr = ⟨none, none⟩) : tcpInput n srcIp hdr payload = n := by
  unfold tcpInput
  rw [h]

end Input

end Litenix
