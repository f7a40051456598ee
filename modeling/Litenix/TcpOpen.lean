import Litenix.TcpWindow

/-! The two ways into a slot of the socket table. `socket_alloc_common` clears the whole slot. The passive
open of `net_tcp_receive` assigns fields one by one and takes over the others, with what the last socket
of the slot left in them: `socket_close` leaves both shutdown flags set. -/

namespace Litenix

open Lib

/-- The slot after `socket_alloc_common`. -/
def allocatedSocket (domain : SocketDomain) (type : SocketType) : Socket :=
  { freeSocket with valid := true, domain := domain, type := type, rx := ⟨fun _ => 0, 8192, 0, 0⟩ }

namespace Net

def setSlot (n : Net) (c : SockId) (s : Socket) : Net := n.modify c fun _ => s

variable (n : Net) (c : SockId) (s : Socket)

@[simp]
theorem setSlot_same : (n.setSlot c s).sockets c = s := n.modify_same c _

theorem setSlot_of_ne (h : j ≠ c) : (n.setSlot c s).sockets j = n.sockets j := n.modify_of_ne c _ h

end Net

namespace Socket

/-- The assignments of the passive open to the fields of the slot. -/
def passiveOpen (listener : SockId) (localPort : UInt16) (srcIp : Ip) (hdr : TcpHdr) (s : Socket) : Socket :=
  { s with
    valid := true
    type := .tcp
    localPort := localPort
    remotePort := hdr.srcPort
    remoteIp := srcIp
    rx := ⟨fun _ => 0, 8192, 0, 0⟩
    tcpState := .synReceived
    sndNxt := 1000
    rcvNxt := hdr.seq + 1
    sndUna := 1000
    parentListener := some listener
    bound := true
    connected := false
    closed := false }

/-- The child, after the SYN-ACK has been sent or could not be allocated. -/
def child (now : Nat) (sent : Bool) (listener : SockId) (localPort : UInt16) (srcIp : Ip) (hdr : TcpHdr) (s : Socket) :
    Socket :=
  let s := s.passiveOpen listener localPort srcIp hdr
  if sent then segmentSent now (tcpSyn ||| tcpAck) 0 s else s

/-- The fields on which the behaviour of a connection depends are equal. -/
structure SameBehaviour (s t : Socket) : Prop where
  domain : s.domain = t.domain
  peer : s.peer = t.peer
  shutdownRead : s.shutdownRead = t.shutdownRead
  shutdownWrite : s.shutdownWrite = t.shutdownWrite
  soError : s.soError = t.soError
  acceptCount : s.acceptQueue.length = t.acceptQueue.length
  rtxTime : s.rtxTime = t.rtxTime
  rtxCount : s.rtxCount = t.rtxCount
  connected : s.connected = t.connected
  closed : s.closed = t.closed
  ring : s.rx.readPtr = t.rx.readPtr ∧ s.rx.writePtr = t.rx.writePtr
  sequence : s.sndNxt = t.sndNxt ∧ s.rcvNxt = t.rcvNxt ∧ s.sndUna = t.sndUna
  tcpState : s.tcpState = t.tcpState

/-- The retransmission timer of the child: one that runs is kept, one that does not is started with the
SYN-ACK. -/
def childTimer (now : Nat) (sent : Bool) (s : Socket) : Nat × Nat :=
  if sent ∧ s.rtxTime = 0 then (now + 100, 0) else (s.rtxTime, s.rtxCount)

/-- Two slots hold the same in the fields that a passive open takes over. -/
structure SameLeftovers (now : Nat) (sent : Bool) (s t : Socket) : Prop where
  domain : s.domain = t.domain
  peer : s.peer = t.peer
  shutdownRead : s.shutdownRead = t.shutdownRead
  shutdownWrite : s.shutdownWrite = t.shutdownWrite
  soError : s.soError = t.soError
  acceptCount : s.acceptQueue.length = t.acceptQueue.length
  timer : s.childTimer now sent = t.childTimer now sent

variable (now : Nat) (sent : Bool) (listener : SockId) (localPort : UInt16) (srcIp : Ip) (hdr : TcpHdr)

/-- The child in terms of the slot: all fields but seven are assigned. -/
theorem child_eq (s : Socket) :
    s.child now sent listener localPort srcIp hdr =
      { s.passiveOpen listener localPort srcIp hdr with
        sndNxt := if sent then 1001 else 1000
        rtxTime := (s.childTimer now sent).1
        rtxCount := (s.childTimer now sent).2 } := by
  have hlen : segmentLen (tcpSyn ||| tcpAck) 0 = 1 := rfl
  cases sent with
  | false => simp [child, childTimer, passiveOpen]
  | true =>
    by_cases htime : s.rtxTime = 0
    · simp [child, childTimer, passiveOpen, segmentSent, hlen, htime]
    · simp [child, childTimer, passiveOpen, segmentSent, hlen, htime]

theorem sameBehaviour_child_iff (s t : Socket) :
    SameBehaviour (s.child now sent listener localPort srcIp hdr) (t.child now sent listener localPort srcIp hdr) ↔
      SameLeftovers now sent s t := by
  rw [child_eq, child_eq]
  constructor
  · intro h
    exact ⟨h.domain, h.peer, h.shutdownRead, h.shutdownWrite, h.soError, h.acceptCount, Prod.ext h.rtxTime h.rtxCount⟩
  · intro h
    exact ⟨h.domain, h.peer, h.shutdownRead, h.shutdownWrite, h.soError, h.acceptCount, congrArg Prod.fst h.timer,
      congrArg Prod.snd h.timer, rfl, rfl, ⟨rfl, rfl⟩, ⟨rfl, rfl, rfl⟩, rfl⟩

end Socket

/-! ### The receive path and a free slot -/

section FreeSlot

variable (n : Net) (c : SockId) (srcIp : Ip) (hdr : TcpHdr)

section

variable {s t : Socket} (hs : s.valid = false) (ht : t.valid = false)

include hs ht

/-- The search for the socket of a segment passes over free slots. -/
theorem tcpLookup_setSlot : tcpLookup (n.setSlot c s) srcIp hdr = tcpLookup (n.setSlot c t) srcIp hdr := by
  have hstep : tcpLookupStep (n.setSlot c s) srcIp hdr = tcpLookupStep (n.setSlot c t) srcIp hdr := by
    funext found i
    by_cases hi : i = c
    · subst hi
      simp [tcpLookupStep, hs, ht]
    · simp only [tcpLookupStep, n.setSlot_of_ne c _ hi]
  rw [tcpLookup, tcpLookup, hstep]

theorem firstFree_setSlot : ((List.finRange maxSockets).find? fun i => !((n.setSlot c s).sockets i).valid) =
      (List.finRange maxSockets).find? fun i => !((n.setSlot c t).sockets i).valid := by
  congr 1
  funext i
  by_cases hi : i = c
  · subst hi
    simp [hs, ht]
  · simp only [n.setSlot_of_ne c _ hi]

end

/-- The memory for the SYN-ACK is there: the allocation after that of the receive buffer. -/
def Net.synAckSent (n : Net) : Bool := n.kmalloc.2.kmalloc.1

theorem netTcpSendSegment_same (n : Net) (i : SockId) (flags : UInt8) :
    (netTcpSendSegment n i flags []).sockets i =
      if n.kmalloc.1 then segmentSent n.now flags 0 (n.sockets i) else n.sockets i := by
  cases hok : n.kmalloc.1 <;> simp [netTcpSendSegment, hok]

/-- **A passive open.** The listener, its port and what can be allocated say what becomes of the slot. -/
theorem tcpListen_slot {n : Net} {c : SockId} (listener : SockId)
    (hfree : ((List.finRange maxSockets).find? fun i => !(n.sockets i).valid) = some c)
    (hsyn : (hdr.syn && decide ((n.sockets listener).acceptQueue.length < 8)) = true) :
    (tcpListen n listener srcIp hdr).sockets c =
      if n.kmalloc.1 then (n.sockets c).child n.now n.synAckSent listener (n.sockets listener).localPort srcIp hdr
      else { n.sockets c with
        valid := false, type := .tcp, localPort := (n.sockets listener).localPort, remotePort := hdr.srcPort,
        remoteIp := srcIp, rx := { (n.sockets c).rx with size := 8192 } } := by
  rw [tcpListen, if_pos hsyn, hfree]
  cases hok : n.kmalloc.1 with
  | false => simp [hok]
  | true =>
    simp only [hok, Bool.not_true, Bool.false_eq_true, if_false, if_true]
    rw [netTcpSendSegment_same]
    simp [Socket.child, Socket.passiveOpen, Net.synAckSent]
    rfl

/-- What a part of the receive path does to a free slot: whether it opens it, and for which listener, does
not depend on the contents of the slot. -/
def SlotOutcome (input : Net → Net) : Prop :=
  (∀ s : Socket, s.valid = false → ((input (n.setSlot c s)).sockets c).valid = false) ∨
    ∃ listener localPort, ∀ s : Socket, s.valid = false →
      (input (n.setSlot c s)).sockets c = s.child n.now n.synAckSent listener localPort srcIp hdr

theorem synAckSent_setSlot (s : Socket) : (n.setSlot c s).synAckSent = n.synAckSent := by
  rw [Net.synAckSent, Net.setSlot, Net.modify_kmalloc_net, Net.modify_kmalloc, Net.synAckSent]

theorem tcpListen_outcome (hlistener : listener ≠ c) :
    SlotOutcome n c srcIp hdr fun n => tcpListen n listener srcIp hdr := by
  have hother (s : Socket) : (n.setSlot c s).sockets listener = n.sockets listener := n.setSlot_of_ne c s hlistener
  by_cases hsyn : (hdr.syn && decide ((n.sockets listener).acceptQueue.length < 8)) = true
  · have hfree {s : Socket} (hs : s.valid = false) := firstFree_setSlot n c hs (show freeSocket.valid = false from rfl)
    by_cases hc : ((List.finRange maxSockets).find? fun i => !((n.setSlot c freeSocket).sockets i).valid) = some c
    · have hslot {s : Socket} (hs : s.valid = false) :=
        tcpListen_slot srcIp hdr listener ((hfree hs).trans hc) (by rw [hother]; exact hsyn)
      cases hok : n.kmalloc.1 with
      | false =>
        left
        intro s hs
        rw [hslot hs, Net.setSlot, Net.modify_kmalloc, hok]
        rfl
      | true =>
        right
        refine ⟨listener, (n.sockets listener).localPort, fun s hs => ?_⟩
        rw [hslot hs, synAckSent_setSlot, hother, n.setSlot_same, Net.setSlot, Net.modify_kmalloc, hok]
        rfl
    · left
      intro s hs
      rw [tcpListen_other srcIp hdr listener (by rwa [hfree hs]), n.setSlot_same, hs]
  · left
    intro s hs
    dsimp only
    rw [tcpListen, hother, if_neg hsyn, n.setSlot_same, hs]

theorem tcpInput_outcome (payload : List UInt8) :
    SlotOutcome n c srcIp hdr fun n => tcpInput n srcIp hdr payload := by
  have hlookup {s : Socket} (hs : s.valid = false) :
      tcpLookup (n.setSlot c s) srcIp hdr = tcpLookup (n.setSlot c freeSocket) srcIp hdr :=
    tcpLookup_setSlot n c srcIp hdr hs rfl
  generalize tcpLookup (n.setSlot c freeSocket) srcIp hdr = found at hlookup
  rcases found with ⟨_ | i, listener⟩
  · cases listener with
    | none =>
      left
      intro s hs
      dsimp only
      rw [tcpInput_of_none payload (hlookup hs), n.setSlot_same, hs]
    | some listener =>
    have hlistener : listener ≠ c := by
      rintro rfl
      have hfound := hlookup (show freeSocket.valid = false from rfl)
      have hvalid := ((tcpLookup_ok (n.setSlot listener freeSocket) srcIp hdr).listener listener (by rw [hfound])).1
      rw [n.setSlot_same] at hvalid
      cases hvalid
    refine (tcpListen_outcome n c srcIp hdr hlistener).imp (fun h s hs => ?_) ?_
    · dsimp only
      rw [tcpInput_of_listener payload (hlookup hs)]
      exact h s hs
    rintro ⟨l, p, h⟩
    refine ⟨l, p, fun s hs => ?_⟩
    dsimp only
    rw [tcpInput_of_listener payload (hlookup hs)]
    exact h s hs
  -- a segment for another socket reaches the slot only through an accept queue
  left
  intro s hs
  have hvalid := (tcpLookup_some (show (tcpLookup (n.setSlot c s) srcIp hdr).sock = some i by rw [hlookup hs])).1
  have hi : c ≠ i := by
    rintro rfl
    rw [n.setSlot_same, hs] at hvalid
    cases hvalid
  obtain ⟨queue, hqueue⟩ := tcpSegment_sockets (n.setSlot c s) i hdr payload c
  dsimp only
  rw [tcpInput_of_sock payload (hlookup hs), hqueue, Net.modify_of_ne _ _ _ hi, n.setSlot_same]
  exact hs

theorem netTcpReceive_outcome (data : Bytes) (len : Nat) :
    SlotOutcome n c srcIp (tcpHdrOf data) fun n => netTcpReceive n srcIp data len := by
  by_cases hlen : len < 20 ∨ len < tcpHeaderLen data
  · left
    intro s hs
    have hdropped : netTcpReceive (n.setSlot c s) srcIp data len = n.setSlot c s := by
      rw [netTcpReceive]
      split
      · rfl
      · exact if_pos (hlen.resolve_left ‹_›)
    dsimp only
    rw [hdropped, n.setSlot_same, hs]
  · have hinput (m : Net) : netTcpReceive m srcIp data len =
        tcpInput m srcIp (tcpHdrOf data) (slice data (tcpHeaderLen data) (len - tcpHeaderLen data)) := by
      rw [netTcpReceive, if_neg fun h => hlen (.inl h), if_neg fun h => hlen (.inr h)]
    simpa only [hinput] using tcpInput_outcome n c srcIp (tcpHdrOf data) _

end FreeSlot

/-- **Slot history.** Two contents of the slot that a passive open takes give children that behave alike if
and only if they agree in the fields that the passive open does not assign. -/
theorem passive_open_forgets_iff (n : Net) (c : SockId) (s t : Socket) (srcIp : Ip) (data : Bytes) (len : Nat)
    (hs : s.valid = false) (ht : t.valid = false)
    (hopen : ((netTcpReceive (n.setSlot c s) srcIp data len).sockets c).valid = true) :
    Socket.SameBehaviour ((netTcpReceive (n.setSlot c s) srcIp data len).sockets c)
        ((netTcpReceive (n.setSlot c t) srcIp data len).sockets c) ↔
      Socket.SameLeftovers n.now n.synAckSent s t := by
  rcases netTcpReceive_outcome n c srcIp data len with hclosed | ⟨listener, localPort, hchild⟩
  · rw [hclosed s hs] at hopen
    cases hopen
  have hsc := hchild s hs
  have htc := hchild t ht
  rw [hsc, htc]
  exact Socket.sameBehaviour_child_iff ..

/-- A connection request for port 80. -/
def synBytes : Bytes := tcpBytes 5000 80 0 0 tcpSyn []

/-- The slot of a socket that was opened and closed. -/
def closedSlot : Socket :=
  (socketRelease (socketClose (emptyNet.setSlot 1 (allocatedSocket .inet .tcp)) 1) 1).sockets 1

theorem passive_open_clean_slots :
    Socket.SameBehaviour ((netTcpReceive (listeningNet.setSlot 1 freeSocket) peerIp synBytes 20).sockets 1)
        ((netTcpReceive (listeningNet.setSlot 1 { freeSocket with localPort := 7 }) peerIp synBytes 20).sockets 1) ↔
      Socket.SameLeftovers 0 listeningNet.synAckSent freeSocket { freeSocket with localPort := 7 } :=
  passive_open_forgets_iff listeningNet 1 freeSocket { freeSocket with localPort := 7 } peerIp synBytes 20 rfl rfl
    (by decide +kernel)

/-- In a slot whose last socket was closed, the child of a connection request is shut down for reading and
writing from the start. -/
theorem passive_open_inherits_shutdown :
    closedSlot.valid = false ∧
    ((netTcpReceive (listeningNet.setSlot 1 closedSlot) peerIp synBytes 20).sockets 1).valid = true ∧
    ¬ Socket.SameBehaviour ((netTcpReceive (listeningNet.setSlot 1 freeSocket) peerIp synBytes 20).sockets 1)
        ((netTcpReceive (listeningNet.setSlot 1 closedSlot) peerIp synBytes 20).sockets 1) := by
  refine ⟨by decide +kernel, by decide +kernel, fun h => ?_⟩
  exact absurd h.shutdownWrite (by decide +kernel)

end Litenix
