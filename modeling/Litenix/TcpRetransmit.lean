import Litenix.TcpOpen

/-! Retransmission (`net_tcp_timer_tick`). The timer builds the segment it sends from the state of the
socket alone. Here it is compared with what was really sent: a record of the first transmissions of
each connection is kept beside the sockets, and the segment that has to be repeated is the one that
holds the oldest sequence number not yet acknowledged. -/

namespace Litenix

open Lib Function

variable {outbox : List Segment} {payload : List UInt8} {s : Socket}

/-- A segment that takes up sequence numbers, as it was first sent. -/
structure Segment where
  seq : BitVec 32
  flags : UInt8
  payload : List UInt8
deriving DecidableEq

namespace Segment

variable (g : Segment)
variable {flags : UInt8}

def len : Nat := segmentLen g.flags g.payload.length

def syn : Bool := g.flags &&& tcpSyn != 0
def fin : Bool := g.flags &&& tcpFin != 0

/-- The packet has the sequence number, the SYN and FIN flags and the payload of the segment. -/
structure CarriedBy (d : Datagram) : Prop where
  seq : (tcpHdrOf fun k => d.payload.getD k 0).seq = g.seq
  syn : (tcpHdrOf fun k => d.payload.getD k 0).syn = g.syn
  fin : (tcpHdrOf fun k => d.payload.getD k 0).fin = g.fin
  payload : d.payload.drop 20 = g.payload

end Segment

/-- The segment that holds the oldest of the last `count` sequence numbers sent; newest first. -/
def earliest : List Segment → Nat → Option Segment
  | [], _ => none
  | g :: rest, count => if count ≤ g.len then some g else (earliest rest (count - g.len)).or (some g)

/-- How many sequence numbers are sent and not acknowledged. -/
def Socket.unacked (s : Socket) : Nat := (s.sndNxt - s.sndUna).toNat

/-! ### The record of first transmissions -/

structure Sent where
  net : Net
  /-- The segments of the present connection of a socket, newest first. -/
  outbox : SockId → List Segment

inductive SentOp
  | tcp (op : TcpOp)
  /-- `sys_socket` -/
  | socket (c : SockId) (type : SocketType)

/-- A segment was sent if `snd_nxt` has moved. -/
def recordSent (before after : Socket) (flags : UInt8) (payload : List UInt8) (outbox : List Segment) : List Segment :=
  if after.sndNxt = before.sndNxt then outbox else ⟨before.sndNxt, flags, payload⟩ :: outbox

/-- The first segment of a new connection, if it could be sent. -/
def recordOpened (after : Socket) (flags : UInt8) : List Segment :=
  if after.sndNxt = isn then [] else [⟨isn, flags, []⟩]

def recordOp (n n' : Net) (outbox : SockId → List Segment) (op : TcpOp) (j : SockId) : List Segment :=
  match op with
  | .connect i _ _ => if j = i then recordOpened (n'.sockets j) tcpSyn else outbox j
  | .segment _ _ _ =>
    if !(n.sockets j).valid && (n'.sockets j).valid then recordOpened (n'.sockets j) (tcpSyn ||| tcpAck) else outbox j
  | _ =>
    match op.sends with
    | some (i, flags, payload) =>
      if j = i then recordSent (n.sockets j) (n'.sockets j) flags payload (outbox j) else outbox j
    | none => outbox j

def sentOp (st : Sent) : SentOp → Sent
  | .tcp op => ⟨tcpOp st.net op, recordOp st.net (tcpOp st.net op) st.outbox op⟩
  | .socket c type =>
    if (st.net.sockets c).valid then st
    else ⟨st.net.setSlot c (allocatedSocket .inet type), update st.outbox c []⟩

def sentStep (st : Sent) (op : SentOp) : Except Empty Sent := .ok (sentOp st op)

/-! ### What a tick must send -/

/-- The sockets when the loop of the timer comes to the socket `i`. -/
def beforeTimer (n : Net) (i : SockId) : Net := ((List.finRange maxSockets).take i).foldl tcpTimerStep n

/-- At every socket with something unacknowledged the timer sends at most one packet, which repeats the
earliest such segment, and `snd_nxt` stays. -/
structure TickRepeats (n : Net) (outbox : SockId → List Segment) : Prop where
  packets : ∀ i g, earliest (outbox i) (n.sockets i).unacked = some g → (n.sockets i).unacked ≠ 0 →
    (tcpTimerStep (beforeTimer n i) i).sent = (beforeTimer n i).sent ∨
      ∃ d, (tcpTimerStep (beforeTimer n i) i).sent = d :: (beforeTimer n i).sent ∧ g.CarriedBy d
  sndNxt : ∀ i, ((netTcpTimerTick n).sockets i).sndNxt = (n.sockets i).sndNxt

def Repeats (st : Sent) (op : SentOp) : Prop :=
  ∀ now, op = .tcp (.tick now) → TickRepeats { st.net with now } st.outbox

/-! ### Contiguity of the record -/

/-- Each segment ends where the next one starts, the newest at `next`. -/
def Contiguous : List Segment → BitVec 32 → Prop
  | [], _ => True
  | g :: rest, next => g.seq + .ofNat 32 g.len = next ∧ Contiguous rest g.seq

def Recorded (st : Sent) : Prop := ∀ i, Contiguous (st.outbox i) (st.net.sockets i).sndNxt

/-! ### Packets -/

/-- A segment is handed to the network, or its packet cannot be allocated. -/
theorem netTcpSendSegment_sent (n : Net) (i : SockId) (flags : UInt8) (payload : List UInt8) :
    (netTcpSendSegment n i flags payload).sent = n.sent ∨
      ∃ checksummed, (netTcpSendSegment n i flags payload).sent =
        ⟨(n.sockets i).remoteIp, ipProtoTcp,
          tcpPacket (n.sockets i) flags (payload.take (payload.length % 65536)) checksummed⟩ :: n.sent := by
  unfold netTcpSendSegment
  dsimp only
  split
  · exact .inl (Net.kmalloc_sent n)
  · right
    exact ⟨n.kmalloc.2.kmalloc.1, by simp [Net.modify, Net.send]⟩

/-- A segment without payload can be read back from its packet. -/
theorem carriedBy_tcpPacket (s : Socket) (flags : UInt8) (checksummed : Bool) (destIp : Ip) :
    (⟨s.sndNxt, flags, []⟩ : Segment).CarriedBy ⟨destIp, ipProtoTcp, tcpPacket s flags [] checksummed⟩ := by
  obtain ⟨csum, hpacket⟩ : ∃ csum, tcpPacket s flags [] checksummed =
      store16 (swap16 s.localPort) ++ store16 (swap16 s.remotePort) ++ store32 (swap32 s.sndNxt) ++
        store32 (swap32 s.rcvNxt) ++ [(5 : UInt8) <<< 4, flags] ++ store16 (swap16 4096) ++ store16 csum ++ [0, 0] :=
    ⟨_, rfl⟩
  rw [hpacket]
  refine ⟨?_, rfl, rfl, rfl⟩
  have hload : load32 (fun k => (store16 (swap16 s.localPort) ++ store16 (swap16 s.remotePort) ++
      store32 (swap32 s.sndNxt) ++ store32 (swap32 s.rcvNxt) ++ [(5 : UInt8) <<< 4, flags] ++ store16 (swap16 4096) ++
      store16 csum ++ [0, 0]).getD k 0) 4 = swap32 s.sndNxt := by
    apply load32_store32
    intro k hk
    interval_cases k <;> rfl
  simp only [tcpHdrOf]
  rw [hload, swap32_swap32]

/-! ### What the timer does to the sockets -/

theorem tcpTimerStep_of_ne (n : Net) {j : SockId} (h : j ≠ i) : (tcpTimerStep n i).sockets j = n.sockets j := by
  have hretransmit : (tcpRetransmit n i).sockets j = n.sockets j := by
    unfold tcpRetransmit
    dsimp only
    split
    all_goals simp only [Net.modify_of_ne _ _ _ h, netTcpSendSegment_of_ne _ _ _ _ h]
  unfold tcpTimerStep
  dsimp only
  split_ifs
  · rw [Net.modify_of_ne _ _ _ h, hretransmit]
  · exact Net.modify_of_ne _ _ _ h
  · rfl

theorem beforeTimer_socket (n : Net) (i : SockId) : (beforeTimer n i).sockets i = n.sockets i := by
  refine foldl_inv (fun m : Net => m.sockets i = n.sockets i) rfl fun m j hj hm => ?_
  have hne : i ≠ j := by
    rintro rfl
    obtain ⟨k, hk, hki⟩ := List.mem_take_iff_getElem.1 hj
    rw [List.getElem_finRange] at hki
    have hval : k = i.val := congrArg Fin.val hki
    omega
  rw [tcpTimerStep_of_ne m hne, hm]

theorem tcpTick_sndNxt (n : Net) (i : SockId) : ((netTcpTimerTick n).sockets i).sndNxt = (n.sockets i).sndNxt := by
  rw [netTcpTimerTick]
  refine foldl_inv (fun m : Net => (m.sockets i).sndNxt = (n.sockets i).sndNxt) rfl fun m j _ hm => ?_
  exact (tcpTimerStep_socket m j i).sndNxt.trans hm

/-! ### A tick -/

/-- The timer of the socket has run out with something unacknowledged. -/
def Socket.due (now : Nat) (s : Socket) : Bool :=
  s.valid && s.type = .tcp && s.rtxTime ≠ 0 && decide (now ≥ s.rtxTime) && decide (s.sndNxt > s.sndUna)

/-- Nothing is unacknowledged but the last segment sent, which has no payload. -/
def Socket.Sole (s : Socket) (outbox : List Segment) (flags : UInt8) : Prop :=
  s.sndNxt = s.sndUna + 1 ∧ (outbox.head?.map fun g => (g.flags, g.payload)) = some (flags, [])

/-- What has to be unacknowledged when the timer runs out: the SYN alone in `SYN_SENT`, the FIN alone in
`FIN_WAIT_1` and `LAST_ACK`, and nothing in `ESTABLISHED` and `CLOSE_WAIT`. -/
def Socket.Repeatable (s : Socket) (outbox : List Segment) : Prop :=
  match s.tcpState with
  | .synSent => s.Sole outbox tcpSyn
  | .finWait1 | .lastAck => s.Sole outbox (tcpFin ||| tcpAck)
  | .established | .closeWait => False
  | _ => True

def TickCond (n : Net) (outbox : SockId → List Segment) : Prop :=
  ∀ i, (n.sockets i).due n.now = true → (n.sockets i).Repeatable (outbox i)

theorem Socket.Sole.earliest_eq (h : s.Sole outbox flags)
    (hlen : segmentLen flags 0 = 1) (hrecord : Contiguous outbox s.sndNxt) :
    earliest outbox s.unacked = some ⟨s.sndUna, flags, []⟩ := by
  obtain ⟨hnext, hhead⟩ := h
  rcases outbox with _ | ⟨⟨seq, _, _⟩, rest⟩
  · cases hhead
  cases hhead
  have hone : s.unacked = 1 := by
    rw [Socket.unacked, hnext]
    bv_omega
  have hseq : seq = s.sndUna := by
    have hend := hrecord.1
    rw [Segment.len, List.length_nil, hlen, hnext] at hend
    bv_omega
  rw [earliest, hone, Segment.len, List.length_nil, hlen, if_pos (Nat.le_refl 1), hseq]

theorem tcpTimerStep_now (n : Net) (i : SockId) : (tcpTimerStep n i).now = n.now := by
  have hsend (m : Net) (flags : UInt8) : (netTcpSendSegment m i flags []).now = m.now := by
    unfold netTcpSendSegment
    dsimp only
    split
    · exact Net.kmalloc_now m
    · simp [Net.send]
  unfold tcpTimerStep tcpRetransmit
  dsimp only
  split_ifs
  · split <;> simp [hsend]
  · rfl
  · rfl

theorem beforeTimer_now (n : Net) (i : SockId) : (beforeTimer n i).now = n.now :=
  foldl_inv (fun m : Net => m.now = n.now) rfl fun m j _ hm => (tcpTimerStep_now m j).trans hm

/-- **A tick.** Under the condition every packet of the timer repeats the earliest unacknowledged segment. -/
theorem tick_repeats {outbox : SockId → List Segment}
    (hrecord : ∀ i, Contiguous (outbox i) (n.sockets i).sndNxt) (hcond : TickCond n outbox) : TickRepeats n outbox := by
  refine ⟨fun i g hg _ => ?_, tcpTick_sndNxt n⟩
  have hsock := beforeTimer_socket n i
  have hnow := beforeTimer_now n i
  generalize beforeTimer n i = m at hsock hnow ⊢
  have hresend {flags : UInt8} (hlen : segmentLen flags 0 = 1) (hsole : (n.sockets i).Sole (outbox i) flags) :
      (netTcpSendSegment (m.modify i fun s => { s with sndNxt := s.sndUna }) i flags []).sent = m.sent ∨
        ∃ d, (netTcpSendSegment (m.modify i fun s => { s with sndNxt := s.sndUna }) i flags []).sent = d :: m.sent ∧
          g.CarriedBy d := by
    rw [hsole.earliest_eq hlen (hrecord i)] at hg
    cases hg
    rcases netTcpSendSegment_sent (m.modify i fun s => { s with sndNxt := s.sndUna }) i flags [] with hsame | ⟨ck, hsent⟩
    · exact .inl hsame
    · refine .inr ⟨_, hsent, ?_⟩
      rw [Net.modify_same, hsock]
      exact carriedBy_tcpPacket { n.sockets i with sndNxt := (n.sockets i).sndUna } flags ck _
  unfold tcpTimerStep
  dsimp only
  split_ifs with htimer hopen
  · have hrepeat : (n.sockets i).Repeatable (outbox i) := by
      apply hcond i
      simp only [hsock, hnow] at htimer hopen
      simp only [Socket.due, htimer, Bool.true_and, decide_eq_true_eq]
      exact hopen
    unfold tcpRetransmit
    dsimp only
    rw [Socket.Repeatable] at hrepeat
    rw [hsock]
    cases hstate : (n.sockets i).tcpState <;> rw [hstate] at hrepeat
    case synSent => exact hresend rfl hrepeat
    case finWait1 => exact hresend rfl hrepeat
    case lastAck => exact hresend rfl hrepeat
    case established => exact hrepeat.elim
    case closeWait => exact hrepeat.elim
    all_goals exact .inl rfl
  · exact .inl rfl
  · exact .inl rfl

/-! ### The record through a run -/

/-- Only the socket `i` may move its `snd_nxt`, by `len`. -/
structure NextMoves (n n' : Net) (i : SockId) (len : Nat) : Prop where
  others : ∀ j, j ≠ i → (n'.sockets j).sndNxt = (n.sockets j).sndNxt
  self : (n'.sockets i).sndNxt = (n.sockets i).sndNxt ∨ (n'.sockets i).sndNxt = (n.sockets i).sndNxt + .ofNat 32 len

def SameNext (n n' : Net) : Prop := ∀ j, (n'.sockets j).sndNxt = (n.sockets j).sndNxt

section Moves

variable {n n' n'' : Net} {i : SockId} {len : Nat}

theorem SameNext.moves (h : SameNext n n') : NextMoves n n' i len := ⟨fun j _ => h j, .inl (h i)⟩

theorem SameNext.trans_moves (h : SameNext n n') (h' : NextMoves n' n'' i len) : NextMoves n n'' i len where
  others j hj := (h'.others j hj).trans (h j)
  self := by
    rw [← h i]
    exact h'.self

theorem sameNext_modify (n : Net) (i : SockId) {f : Socket → Socket} (hf : ∀ s, (f s).sndNxt = s.sndNxt) :
    SameNext n (n.modify i f) := by
  exact fun j => Net.modify_ind j (hf _) fun _ => rfl

theorem netTcpSendSegment_moves (n : Net) (i : SockId) (flags : UInt8) (payload : List UInt8) :
    NextMoves n (netTcpSendSegment n i flags payload) i (segmentLen flags (payload.length % 65536)) := by
  refine ⟨fun j hj => by rw [netTcpSendSegment_of_ne _ _ _ _ hj], ?_⟩
  rcases netTcpSendSegment_sockets n i flags payload with hsame | hsent
  · exact .inl (by rw [hsame])
  · right
    rw [hsent, Net.modify_same, segmentSent_sndNxt]

/-- Each call that sends moves `snd_nxt` by the length of its segment. -/
theorem sends_moves (h : op.sends = some (i, flags, payload)) :
    NextMoves n (tcpOp n op) i (segmentLen flags payload.length) := by
  have hsends := tcpOp_sends n h
  generalize tcpOp n op = n' at hsends
  cases hsends with
  | quiet ht => exact SameNext.moves ht.sndNxt
  | sent buf hpayload ht =>
    rw [hpayload, List.length_take, Nat.min_eq_left (Nat.mod_le _ _)]
    exact SameNext.trans_moves ht.sndNxt (netTcpSendSegment_moves _ i flags buf)

end Moves

/-- A segment moves no `snd_nxt` but that of a socket it opens. -/
theorem netTcpReceive_sndNxt (n : Net) (srcIp : Ip) (data : Bytes) (len : Nat) (j : SockId) :
    ((netTcpReceive n srcIp data len).sockets j).sndNxt = (n.sockets j).sndNxt ∧
        ((netTcpReceive n srcIp data len).sockets j).valid = (n.sockets j).valid ∨
      (n.sockets j).valid = false ∧ ((netTcpReceive n srcIp data len).sockets j).valid = true ∧
        (((netTcpReceive n srcIp data len).sockets j).sndNxt = isn ∨
          ((netTcpReceive n srcIp data len).sockets j).sndNxt = isn + 1) := by
  unfold netTcpReceive
  split
  · exact .inl ⟨rfl, rfl⟩
  split
  · exact .inl ⟨rfl, rfl⟩
  generalize slice data _ _ = bytes
  generalize tcpHdrOf data = hdr
  unfold tcpInput
  split
  · rename_i i _ _
    left
    obtain ⟨queue, hqueue⟩ := tcpSegment_sockets n i hdr bytes j
    rw [hqueue]
    exact Net.modify_ind j (Socket.segment_frame n.now hdr bytes _) fun _ => ⟨rfl, rfl⟩
  · rename_i listener _
    by_cases hfree : ((List.finRange maxSockets).find? fun i => !(n.sockets i).valid) = some j
    · have hinvalid : (n.sockets j).valid = false := by simpa using List.find?_some hfree
      by_cases hsyn : (hdr.syn && decide ((n.sockets listener).acceptQueue.length < 8)) = true
      · rw [tcpListen_slot srcIp hdr listener hfree hsyn]
        split
        · right
          rw [Socket.child_eq]
          refine ⟨hinvalid, rfl, ?_⟩
          split
          · exact .inr rfl
          · exact .inl rfl
        · exact .inl ⟨rfl, hinvalid.symm⟩
      · rw [tcpListen, if_neg hsyn]
        exact .inl ⟨rfl, rfl⟩
    · rw [tcpListen_other srcIp hdr listener hfree]
      exact .inl ⟨rfl, rfl⟩
  · exact .inl ⟨rfl, rfl⟩

/-- An active open starts at the initial sequence number. -/
theorem sysConnect_sndNxt (n : Net) (i : SockId) (remoteIp : Ip) (remotePort : UInt16) :
    (((sysConnect n i remoteIp remotePort).sockets i).sndNxt = isn ∨
        ((sysConnect n i remoteIp remotePort).sockets i).sndNxt = isn + 1) ∧
      ∀ j, j ≠ i → ((sysConnect n i remoteIp remotePort).sockets j).sndNxt = (n.sockets j).sndNxt := by
  have hmoves := netTcpSendSegment_moves (n.modify i fun s => { s with
    remotePort := remotePort, remoteIp := remoteIp, tcpState := .synSent, sndNxt := 1000, rcvNxt := 0 }) i tcpSyn []
  refine ⟨?_, fun j hj => ?_⟩
  · have hself := hmoves.self
    rw [Net.modify_same] at hself
    exact hself
  · have hother := hmoves.others j hj
    rw [Net.modify_of_ne _ _ _ hj] at hother
    exact hother

theorem contiguous_recordOpened (hlen : segmentLen flags 0 = 1)
    (h : s.sndNxt = isn ∨ s.sndNxt = isn + 1) : Contiguous (recordOpened s flags) s.sndNxt := by
  rw [recordOpened]
  split
  · trivial
  rename_i hmoved
  refine ⟨?_, trivial⟩
  rw [Segment.len, List.length_nil, hlen, h.resolve_left hmoved]
  rfl

theorem contiguous_recordSent (h : Contiguous outbox before.sndNxt) (hmoves : after.sndNxt = before.sndNxt ∨
      after.sndNxt = before.sndNxt + .ofNat 32 (segmentLen flags payload.length)) :
    Contiguous (recordSent before after flags payload outbox) after.sndNxt := by
  rw [recordSent]
  split
  · rename_i hsame
    rw [hsame]
    exact h
  · rename_i hmoved
    exact ⟨(hmoves.resolve_left hmoved).symm, h⟩

/-- **One step.** The record stays contiguous. -/
theorem recorded_step (h : Recorded st) (op : SentOp) : Recorded (sentOp st op) := by
  cases op with
  | socket c type =>
    simp only [sentOp]
    split
    · exact h
    intro j
    by_cases hj : j = c
    · subst hj
      simp only [update_self]
      trivial
    · simp only [update_of_ne hj, st.net.setSlot_of_ne c _ hj]
      exact h j
  | tcp op =>
  intro j
  change Contiguous (recordOp st.net (tcpOp st.net op) st.outbox op j) ((tcpOp st.net op).sockets j).sndNxt
  have hsends {i : SockId} {flags : UInt8} {payload : List UInt8} (hop : op.sends = some (i, flags, payload)) :
      Contiguous (if j = i then recordSent (st.net.sockets j) ((tcpOp st.net op).sockets j) flags payload (st.outbox j)
        else st.outbox j) ((tcpOp st.net op).sockets j).sndNxt := by
    have hmoves : NextMoves st.net (tcpOp st.net op) i _ := sends_moves hop
    split
    · rename_i hj
      subst hj
      exact contiguous_recordSent (h j) hmoves.self
    · rename_i hj
      rw [hmoves.others j hj]
      exact h j
  have hkept (hsame : SameNext st.net (tcpOp st.net op)) :
      Contiguous (st.outbox j) ((tcpOp st.net op).sockets j).sndNxt := by
    rw [hsame j]
    exact h j
  cases op with
  | segment srcIp data len =>
    simp only [recordOp]
    rcases netTcpReceive_sndNxt st.net srcIp data len.toNat j with ⟨hnext, hvalid⟩ | ⟨hbefore, hafter, hnext⟩
    · have hopened : (!(st.net.sockets j).valid &&
          ((tcpOp st.net (.segment srcIp data len)).sockets j).valid) = false := by
        simp only [tcpOp, hvalid, Bool.not_and_self]
      rw [hopened, if_neg Bool.false_ne_true]
      simp only [tcpOp, hnext]
      exact h j
    · have hopened : (!(st.net.sockets j).valid &&
          ((tcpOp st.net (.segment srcIp data len)).sockets j).valid) = true := by
        simp only [tcpOp, hbefore, hafter, Bool.not_false, Bool.and_self]
      rw [hopened, if_pos rfl]
      exact contiguous_recordOpened rfl hnext
  | connect i remoteIp remotePort =>
    obtain ⟨hself, hothers⟩ := sysConnect_sndNxt st.net i remoteIp remotePort
    simp only [recordOp]
    split
    · rename_i hj
      subst hj
      exact contiguous_recordOpened rfl hself
    · rename_i hj
      simp only [tcpOp, hothers j hj]
      exact h j
  | write i buf => exact hsends rfl
  | sendto i buf => exact hsends rfl
  | shutdown i how => exact hsends rfl
  | close i => exact hsends rfl
  | release i =>
    apply hkept
    rw [tcpOp, socketRelease]
    apply sameNext_modify
    exact fun _ => rfl
  | listen i =>
    apply hkept
    rw [tcpOp, sysListen]
    apply sameNext_modify
    exact fun _ => rfl
  | tick now =>
    apply hkept
    intro j
    rw [tcpOp, tcpTick_sndNxt]

/-! ### Runs -/

/-- The condition of a step: the sockets whose timer runs out at a tick. -/
def SentCond (st : Sent) : SentOp → Prop
  | .tcp (.tick now) => TickCond { st.net with now } st.outbox
  | _ => True

/-- **Retransmission.** In every run in which the sockets are as the condition asks at each tick, every
packet that the timer sends repeats the earliest unacknowledged segment and leaves `snd_nxt` alone. -/
theorem retransmission_run {st : Sent} {ops : List SentOp} (h : Recorded st) (hcond : AllSteps sentStep SentCond st ops) :
    AllSteps sentStep (fun st op => Repeats st op) st ops := by
  have hstep (st : Sent) (op : SentOp) (st' : Sent) (hst : Recorded st) (hop : SentCond st op)
      (hok : sentStep st op = .ok st') : Recorded st' ∧ Repeats st op := by
    cases hok
    refine ⟨recorded_step hst op, fun now heq => ?_⟩
    subst heq
    exact tick_repeats hst hop
  refine (run_steps hstep h hcond).imp fun st op hgood => ?_
  exact (hgood (sentOp st op) rfl).2

instance (s : Socket) (outbox : List Segment) (flags : UInt8) : Decidable (s.Sole outbox flags) :=
  inferInstanceAs (Decidable (_ ∧ _))

instance (s : Socket) (outbox : List Segment) : Decidable (s.Repeatable outbox) := by
  unfold Socket.Repeatable
  split <;> infer_instance

instance (st : Sent) : (op : SentOp) → Decidable (SentCond st op)
  | .tcp (.tick _) => inferInstanceAs (Decidable (∀ _, _))
  | .tcp (.segment ..) | .tcp (.write ..) | .tcp (.sendto ..) | .tcp (.shutdown ..) | .tcp (.close ..)
  | .tcp (.release ..) | .tcp (.connect ..) | .tcp (.listen ..) | .socket .. => inferInstanceAs (Decidable True)

/-- A listening socket before the first connection. -/
def listeningSent : Sent := ⟨listeningNet, fun _ => []⟩

theorem recorded_listeningSent : Recorded listeningSent := fun _ => trivial

/-- A connection is opened and shut down, and the FIN is lost. -/
def lostFinOps : List SentOp := [
  .tcp (.segment peerIp (tcpBytes 5000 80 0 0 tcpSyn []) 20),
  .tcp (.segment peerIp (tcpBytes 5000 80 1 1001 tcpAck []) 20),
  .tcp (.shutdown 1 .wr),
  .tcp (.tick 200)]

theorem retransmission_run_lost_fin : Recorded listeningSent ∧
    AllSteps sentStep (fun st op => Repeats st op) listeningSent lostFinOps :=
  ⟨recorded_listeningSent, retransmission_run recorded_listeningSent (.of_decide (by decide +kernel))⟩

/-- A connection is opened, three bytes are written and lost. -/
def lostDataOps : List SentOp := [
  .tcp (.segment peerIp (tcpBytes 5000 80 0 0 tcpSyn []) 20),
  .tcp (.segment peerIp (tcpBytes 5000 80 1 1001 tcpAck []) 20),
  .tcp (.write 1 [1, 2, 3])]

def lostDataState : Sent := lostDataOps.foldl sentOp listeningSent

/-- The timer sends an empty segment with the number of the next byte where three bytes are lost. -/
theorem lost_data_not_repeated : Recorded listeningSent ∧
    ¬ AllSteps sentStep (fun st op => Repeats st op) listeningSent (lostDataOps ++ [.tcp (.tick 200)]) := by
  refine ⟨recorded_listeningSent, fun hall => ?_⟩
  have htick : TickRepeats { lostDataState.net with now := 200 } lostDataState.outbox :=
    (((hall.2 _ rfl).2 _ rfl).2 _ rfl).1 200 rfl
  have hearliest : earliest (lostDataState.outbox 1)
      (({ lostDataState.net with now := 200 } : Net).sockets 1).unacked =
      some ⟨1001, tcpAck ||| tcpPsh, [1, 2, 3]⟩ := by decide +kernel
  have hresent : ((tcpTimerStep (beforeTimer { lostDataState.net with now := 200 } 1) 1).sent.map fun d =>
      d.payload.drop 20) = [] :: (beforeTimer { lostDataState.net with now := 200 } 1).sent.map fun d =>
      d.payload.drop 20 := by decide +kernel
  rcases htick.packets 1 _ hearliest (by decide +kernel) with hnone | ⟨d, hsent, hcarried⟩
  · rw [hnone] at hresent
    exact absurd (congrArg List.length hresent) (by simp)
  · rw [hsent, List.map_cons, hcarried.payload] at hresent
    cases hresent

end Litenix
