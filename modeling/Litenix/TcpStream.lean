import Litenix.Tcp

/-! The byte stream of a TCP connection. The peer cuts one stream into segments, which arrive in any
order, more than once or not at all, while the application reads and shuts down its side. What the
reads return is a part of the stream from its start on. A FIN is taken without a look at its
sequence number, so the end of file is right only in runs where each FIN that is taken comes after
every byte before it. -/

namespace Litenix

open Lib

variable {f : Socket → Socket} {op : StreamOp}

/-! ### Steps -/

inductive StreamOp
  /-- A segment with the bytes from `off` on. -/
  | segment (off : Nat) (hdr : TcpHdr) (bytes : List UInt8)
  /-- `sys_read`; the copy to the caller succeeds or not. -/
  | read (count : Nat) (copyOk : Bool)
  | recv (count : Nat) (copyOk : Bool)
  | shutdown (how : ShutHow)

/-- The network, the bytes that reads have returned, and whether a FIN has been taken. -/
structure StreamState where
  net : Net
  returned : List UInt8
  finTaken : Bool

section Steps

variable (i : SockId)

/-- The socket is in a state in which it takes a FIN. -/
def Socket.awaitsFin (s : Socket) : Bool :=
  s.tcpState = .established || s.tcpState = .finWait1 || s.tcpState = .finWait2

/-- The FIN of the segment is taken. -/
def takesFin (hdr : TcpHdr) (s : Socket) : Bool := hdr.fin && !hdr.rst && s.awaitsFin

/-- The answer to a read. -/
def streamReply (st : StreamState) : StreamOp → Option (ReadReply × Net)
  | .read count _ => some (socketRead st.net i count)
  | .recv count _ => some (sysRecvfrom st.net i count)
  | _ => none

/-- The bytes that reach the caller. -/
def returnedBytes (copyOk : Bool) : ReadReply → List UInt8
  | .data bytes => if copyOk then bytes else []
  | _ => []

def afterRead (st : StreamState) (copyOk : Bool) (reply : ReadReply × Net) : StreamState :=
  { st with net := reply.2, returned := st.returned ++ returnedBytes copyOk reply.1 }

def streamOp (st : StreamState) : StreamOp → StreamState
  | .segment _ hdr bytes =>
    { st with
      net := tcpSegment st.net i hdr bytes
      finTaken := st.finTaken || takesFin hdr (st.net.sockets i) }
  | .read count copyOk => afterRead st copyOk (socketRead st.net i count)
  | .recv count copyOk => afterRead st copyOk (sysRecvfrom st.net i count)
  | .shutdown how => { st with net := sysShutdown st.net i how }

def streamStep (st : StreamState) (op : StreamOp) : Except Empty StreamState := .ok (streamOp i st op)

end Steps

/-! ### The stream -/

variable {i : SockId} {stream : List UInt8} {start : BitVec 32}

/-- The segment is cut from the stream: its bytes stand at `off`, its sequence number says so, and
its FIN follows the last byte. -/
structure CutFrom (stream : List UInt8) (start : BitVec 32) (off : Nat) (hdr : TcpHdr) (bytes : List UInt8) :
    Prop where
  part : bytes <+: stream.drop off
  inside : off ≤ stream.length
  seq : hdr.seq = start + .ofNat 32 off
  fin : hdr.fin = true → off + bytes.length = stream.length
  len : bytes.length < 65536

def StreamOp.Cut (stream : List UInt8) (start : BitVec 32) : StreamOp → Prop
  | .segment off hdr bytes => CutFrom stream start off hdr bytes
  | _ => True

/-- The socket is established and nothing has arrived yet. -/
structure StreamStart (i : SockId) (start : BitVec 32) (st : StreamState) : Prop where
  established : (st.net.sockets i).tcpState = .established
  ring : (st.net.sockets i).rx.Ok
  empty : (st.net.sockets i).rx.contents = []
  next : (st.net.sockets i).rcvNxt = start
  returned : st.returned = []
  fin : st.finTaken = false

/-- What reads may do: they return a part of the stream from its start on, and the end of file
after a FIN only when they have returned all of it. -/
def StreamGood (i : SockId) (stream : List UInt8) (st : StreamState) (op : StreamOp) (st' : StreamState) : Prop :=
  st'.returned <+: stream ∧
    (st.finTaken = true → ∀ reply, streamReply i st op = some reply → reply.1 = .eof → st.returned = stream)

/-- The stream is intact at every step of a run. -/
def StreamKept (i : SockId) (stream : List UInt8) (st : StreamState) (ops : List StreamOp) : Prop :=
  AllSteps (streamStep i) (fun st op => ∀ st', streamStep i st op = .ok st' → StreamGood i stream st op st') st ops

/-! ### The condition -/

/-- How much of the stream has been accepted. -/
def accepted (i : SockId) (st : StreamState) : Nat :=
  st.returned.length + (st.net.sockets i).rx.contents.length

/-- A FIN that is taken follows what has been accepted, its own payload included; segments are less
than the sequence space away; copies to the caller succeed. -/
def StreamCond (i : SockId) (st : StreamState) : StreamOp → Prop
  | .segment off hdr bytes =>
    let s := st.net.sockets i
    (off + bytes.length < accepted i st + 2 ^ 32 ∧ accepted i st < off + 2 ^ 32) ∧
      (takesFin hdr s = true → hdr.seq + .ofNat 32 bytes.length = s.rcvNxt ∨
        s.tcpState = .established ∧ s.takesPayload hdr bytes = true)
  | .read _ copyOk => copyOk = true
  | .recv _ copyOk => copyOk = true
  | .shutdown _ => True

/-- What is stored and what was returned is the accepted part of the stream. -/
structure StreamInv (i : SockId) (stream : List UInt8) (start : BitVec 32) (st : StreamState) : Prop where
  ring : (st.net.sockets i).rx.Ok
  stored : st.returned ++ (st.net.sockets i).rx.contents <+: stream
  opened : (st.net.sockets i).tcpState ≠ .synSent ∧ (st.net.sockets i).tcpState ≠ .synReceived
  next : st.finTaken = false → (st.net.sockets i).rcvNxt = start + .ofNat 32 (accepted i st)
  fin : st.finTaken = true → accepted i st = stream.length ∧ (st.net.sockets i).awaitsFin = false

theorem StreamStart.inv (h : StreamStart i start st) : StreamInv i stream start st where
  ring := h.ring
  stored := by simp [h.returned, h.empty]
  opened := by simp [h.established]
  next := fun _ => by simp [accepted, h.returned, h.empty, h.next]
  fin := fun hfin => by simp [h.fin] at hfin

/-! ### Reads and shutdown -/

section

variable (h : StreamInv i stream start st) {net' : Net}

include h

theorem StreamInv.returned : st.returned <+: stream :=
  (List.prefix_append _ _).trans h.stored

/-- A read that finds something returns the front of what is stored. -/
theorem StreamInv.afterPop (count : Nat)
    (hnet : net'.sockets i = { st.net.sockets i with rx := ((st.net.sockets i).rx.popUpTo count).2 }) :
    StreamInv i stream start
      (afterRead st true (.data ((st.net.sockets i).rx.popUpTo count).1, net')) := by
  have hsplit := RingBuf.popUpTo_append count h.ring
  have haccepted : accepted i (afterRead st true (.data ((st.net.sockets i).rx.popUpTo count).1, net')) =
      accepted i st := by
    simp only [accepted, afterRead, returnedBytes, hnet, if_true, ← hsplit, List.length_append]
    omega
  refine ⟨?_, ?_, ?_, ?_, ?_⟩
  · rw [afterRead, hnet]
    exact RingBuf.popUpTo_ok count h.ring
  · simp only [afterRead, returnedBytes, if_true, hnet, List.append_assoc]
    rw [hsplit]
    exact h.stored
  · rw [afterRead, hnet]
    exact h.opened
  · intro hfin
    rw [haccepted, afterRead, hnet]
    exact h.next hfin
  · intro hfin
    rw [haccepted, afterRead, hnet]
    exact h.fin hfin

theorem StreamInv.of_same
    (hrx : (net'.sockets i).rx = (st.net.sockets i).rx) (hnext : (net'.sockets i).rcvNxt = (st.net.sockets i).rcvNxt)
    (hopened : (net'.sockets i).tcpState ≠ .synSent ∧ (net'.sockets i).tcpState ≠ .synReceived)
    (hstate : (net'.sockets i).awaitsFin = true → (st.net.sockets i).awaitsFin = true) :
    StreamInv i stream start { st with net := net' } := by
  refine ⟨?_, ?_, hopened, ?_, ?_⟩
  · rw [hrx]
    exact h.ring
  · rw [hrx]
    exact h.stored
  · intro hfin
    rw [hnext, h.next hfin]
    simp only [accepted, hrx]
  intro hfin
  obtain ⟨hall, hnot⟩ := h.fin hfin
  simp only [accepted, hrx] at hall ⊢
  exact ⟨hall, Bool.eq_false_iff.mpr fun he => by simp [hstate he] at hnot⟩

theorem StreamInv.read (count : Nat) : StreamInv i stream start (streamOp i st (.read count true)) := by
  have hkeep : StreamInv i stream start { st with net := st.net } := h
  simp only [streamOp, socketRead]
  split_ifs
  · simpa [afterRead, returnedBytes] using hkeep
  · simpa [afterRead, returnedBytes] using hkeep
  · simpa [afterRead, returnedBytes] using hkeep
  · exact h.afterPop count (Net.modify_same ..)

theorem StreamInv.recv (count : Nat) : StreamInv i stream start (streamOp i st (.recv count true)) := by
  have hkeep : StreamInv i stream start { st with net := st.net } := h
  simp only [streamOp, sysRecvfrom]
  split_ifs
  · simpa [afterRead, returnedBytes] using hkeep
  · simpa [afterRead, returnedBytes] using hkeep
  · have hsame : StreamInv i stream start { st with net := st.net.kmalloc.2 } := by
      apply h.of_same <;> rw [Net.kmalloc_sockets]
      · exact h.opened
      · exact id
    simpa [afterRead, returnedBytes] using hsame
  · apply h.afterPop
    rw [Net.modify_same, Net.kmalloc_sockets]

end

/-- A read says end of file only when nothing is stored. -/
theorem empty_of_eof (h : (st.net.sockets i).rx.Ok) {reply : ReadReply × Net}
    (hreply : streamReply i st op = some reply) (heof : reply.1 = .eof) : (st.net.sockets i).rx.contents = [] := by
  rw [RingBuf.contents_eq_nil_iff h]
  cases op with
  | segment off hdr bytes => cases hreply
  | shutdown how => cases hreply
  | read count copyOk =>
    cases hreply
    unfold socketRead at heof
    dsimp only at heof
    split_ifs at heof <;> assumption
  | recv count copyOk =>
    cases hreply
    unfold sysRecvfrom at heof
    dsimp only at heof
    split_ifs at heof
    assumption

theorem StreamInv.shutdown (h : StreamInv i stream start st) (how : ShutHow) :
    StreamInv i stream start (streamOp i st (.shutdown how)) := by
  have hfin {n : Net} (hsocket : StreamInv i stream start { st with net := n }) :
      StreamInv i stream start { st with net := tcpSendFin n i } := by
    have hsend (state : TcpState) (hopened : state ≠ .synSent ∧ state ≠ .synReceived)
        (hawaits : Socket.awaitsFin { n.sockets i with tcpState := state } = true →
          (n.sockets i).awaitsFin = true) : StreamInv i stream start { st with
        net := netTcpSendSegment (n.modify i fun s => { s with tcpState := state }) i (tcpFin ||| tcpAck) [] } := by
      obtain ⟨next, time, count, hsent⟩ := netTcpSendSegment_socket
        (n.modify i fun s => { s with tcpState := state }) i (tcpFin ||| tcpAck) [] i
      rw [Net.modify_same] at hsent
      apply hsocket.of_same <;> rw [hsent]
      · exact hopened
      · exact hawaits
    unfold tcpSendFin
    split <;> rename_i hstate
    · exact hsend _ (by decide) fun _ => by simp [Socket.awaitsFin, hstate]
    · exact absurd hstate hsocket.opened.2
    · exact hsend _ (by decide) fun he => by simp [Socket.awaitsFin] at he
    · exact hsocket
  have hflag {n : Net} (hsocket : StreamInv i stream start { st with net := n }) (f : Socket → Socket)
      (hf : f (n.sockets i) = { n.sockets i with
        shutdownRead := (f (n.sockets i)).shutdownRead, shutdownWrite := (f (n.sockets i)).shutdownWrite }) :
      StreamInv i stream start { st with net := n.modify i f } := by
    apply hsocket.of_same <;> rw [Net.modify_same, hf]
    · exact hsocket.opened
    · exact id
  change StreamInv i stream start { st with net := sysShutdown st.net i how }
  unfold sysShutdown
  dsimp only
  split
  · exact h
  have hread : StreamInv i stream start { st with
      net := if how ≠ .wr then st.net.modify i fun s => { s with shutdownRead := true } else st.net } := by
    split
    · exact hflag h _ rfl
    · exact h
  split
  · exact hfin (hflag hread _ rfl)
  · exact hread

/-! ### Segments -/

/-- The payload of the segment is stored. -/
def getsPayload (hdr : TcpHdr) (bytes : List UInt8) (s : Socket) : Bool :=
  !hdr.rst && s.tcpState = .established && s.takesPayload hdr bytes

namespace Socket

variable {hdr : TcpHdr} {bytes : List UInt8} {s : Socket}

theorem payload_recv :
    (s.payload hdr bytes).rx = (if s.takesPayload hdr bytes then s.rx.pushAll bytes else s.rx) ∧
      (s.payload hdr bytes).rcvNxt =
        s.rcvNxt + .ofNat 32 (if s.takesPayload hdr bytes then bytes.length else 0) ∧
      (s.payload hdr bytes).tcpState = s.tcpState := by
  unfold payload
  split <;> simp

theorem transfer_awaitsFin : (s.transfer hdr bytes).awaitsFin = (s.awaitsFin && !hdr.fin) := by
  unfold transfer acked finish
  cases hstate : s.tcpState <;> cases hdr.hasAck <;> cases hdr.fin <;> simp [awaitsFin, payload_recv, hstate]

theorem transfer_opened (hopened : s.tcpState ≠ .synSent ∧ s.tcpState ≠ .synReceived) :
    (s.transfer hdr bytes).tcpState ≠ .synSent ∧ (s.transfer hdr bytes).tcpState ≠ .synReceived := by
  unfold transfer acked finish
  cases hstate : s.tcpState <;> cases hdr.hasAck <;> cases hdr.fin <;> simp_all [payload_recv]

/-- The payload is stored in the established state only, and a FIN takes one sequence number. -/
theorem transfer_recv :
    (s.transfer hdr bytes).rx =
      (if s.tcpState = .established ∧ s.takesPayload hdr bytes = true then s.rx.pushAll bytes else s.rx) ∧
    (s.transfer hdr bytes).rcvNxt = s.rcvNxt +
      .ofNat 32 (if s.tcpState = .established ∧ s.takesPayload hdr bytes = true then bytes.length else 0) +
        (if hdr.fin && s.awaitsFin then 1 else 0) := by
  unfold transfer acked finish
  cases hstate : s.tcpState <;> cases hdr.hasAck <;> cases hdr.fin <;>
    simp [awaitsFin, payload_recv, takesPayload, hstate]

variable (hdr bytes) in
/-- **The receiving side after a segment.** -/
theorem segment_recv (now : Nat) (hopened : s.tcpState ≠ .synSent ∧ s.tcpState ≠ .synReceived) :
    (s.segment now hdr bytes).rx = (if getsPayload hdr bytes s then s.rx.pushAll bytes else s.rx) ∧
    (s.segment now hdr bytes).rcvNxt = s.rcvNxt +
      .ofNat 32 (if getsPayload hdr bytes s then bytes.length else 0) + (if takesFin hdr s then 1 else 0) ∧
    ((s.segment now hdr bytes).tcpState ≠ .synSent ∧ (s.segment now hdr bytes).tcpState ≠ .synReceived) ∧
    (s.segment now hdr bytes).awaitsFin = (!hdr.rst && s.awaitsFin && !hdr.fin) := by
  unfold segment
  by_cases hrst : hdr.rst = true
  · simp [hrst, getsPayload, takesFin, awaitsFin]
  rw [if_neg hrst]
  have htake : ∃ una time count, tcpTakeAck now hdr s =
      { s with sndUna := una, rtxTime := time, rtxCount := count } := by
    unfold tcpTakeAck
    split <;> exact ⟨_, _, _, rfl⟩
  obtain ⟨una, time, count, htake⟩ := htake
  have hshake : (tcpTakeAck now hdr s).handshake hdr = tcpTakeAck now hdr s := by
    rw [htake]
    unfold handshake
    split
    · exact absurd ‹_› hopened.1
    · exact absurd ‹_› hopened.2
    · rfl
  have hrst : hdr.rst = false := by simpa using hrst
  rw [hshake, htake, transfer_recv.1, transfer_recv.2, transfer_awaitsFin]
  refine ⟨?_, ?_, transfer_opened hopened, ?_⟩
  · simp only [getsPayload, hrst, Bool.not_false, Bool.true_and, Bool.and_eq_true, decide_eq_true_eq]
    rfl
  · simp only [getsPayload, takesFin, hrst, Bool.not_false, Bool.true_and, Bool.and_true, Bool.and_eq_true,
      decide_eq_true_eq]
    rfl
  · rw [hrst]
    rfl

end Socket

theorem ofNat_inj_of_near (h : BitVec.ofNat 32 a = BitVec.ofNat 32 b) (hab : a < b + 2 ^ 32)
    (hba : b < a + 2 ^ 32) : a = b := by
  have hmod : a % 2 ^ 32 = b % 2 ^ 32 := by simpa using congrArg BitVec.toNat h
  omega

theorem RingBuf.used_add_lt {r : RingBuf UInt8} (h : r.Ok) {len : Nat} (hroom : r.free > len + 1) :
    r.used + len < r.size := by
  have := RingBuf.free_add_used h
  omega

section Segment

variable {st : StreamState} {off : Nat} {hdr : TcpHdr} {bytes : List UInt8}

theorem streamOp_segment_socket (i : SockId) (st : StreamState) (off : Nat) (hdr : TcpHdr) (bytes : List UInt8) :
    ∃ queue, (streamOp i st (.segment off hdr bytes)).net.sockets i =
    ((st.net.sockets i).segment st.net.now hdr bytes).withQueue queue := by
  obtain ⟨queue, hqueue⟩ := tcpSegment_sockets st.net i hdr bytes i
  refine ⟨queue, hqueue.trans ?_⟩
  rw [Net.modify_same]

section

variable (h : StreamInv i stream start st) (hcut : CutFrom stream start off hdr bytes) (hcond : StreamCond i st (.segment off hdr bytes))

include h hcut hcond

omit hcut hcond in
theorem StreamInv.not_fin (hawaits : (st.net.sockets i).awaitsFin = true) : st.finTaken = false := by
  rw [Bool.eq_false_iff]
  intro hfin
  cases hawaits.symm.trans (h.fin hfin).2

/-- A payload that is stored is the next part of the stream. -/
theorem StreamInv.nextPart (hgets : getsPayload hdr bytes (st.net.sockets i) = true) :
    off = accepted i st ∧ st.finTaken = false ∧ (st.net.sockets i).rx.used + bytes.length <
      (st.net.sockets i).rx.size := by
  simp only [getsPayload, Socket.takesPayload, Bool.and_eq_true, decide_eq_true_eq] at hgets
  obtain ⟨⟨-, hestablished⟩, ⟨-, hseq⟩, hroom⟩ := hgets
  have hfin := h.not_fin (by simp [Socket.awaitsFin, hestablished])
  refine ⟨?_, hfin, RingBuf.used_add_lt h.ring hroom⟩
  rw [hcut.seq, h.next hfin] at hseq
  obtain ⟨hnear, hbehind⟩ := hcond.1
  exact ofNat_inj_of_near (by simpa using hseq) (by omega) hbehind

/-- A FIN that is taken follows all of the stream. -/
theorem StreamInv.lastPart (htakes : takesFin hdr (st.net.sockets i) = true) :
    st.finTaken = false ∧ accepted i st +
      (if getsPayload hdr bytes (st.net.sockets i) then bytes.length else 0) = stream.length := by
  have htakes' := htakes
  simp only [takesFin, Bool.and_eq_true, Bool.not_eq_true'] at htakes'
  obtain ⟨⟨hfinflag, hrst⟩, hawaits⟩ := htakes'
  have hfin := h.not_fin hawaits
  refine ⟨hfin, ?_⟩
  have hend := hcut.fin hfinflag
  by_cases hgets : getsPayload hdr bytes (st.net.sockets i) = true
  · obtain ⟨hoff, -, -⟩ := h.nextPart hcut hcond hgets
    rw [if_pos hgets]
    omega
  rw [if_neg hgets, Nat.add_zero]
  rcases hcond.2 htakes with hseq | ⟨hestablished, hpayload⟩
  · rw [hcut.seq, h.next hfin, BitVec.add_assoc, ← BitVec.ofNat_add] at hseq
    have hprefix := h.stored.length_le
    rw [List.length_append] at hprefix
    have hle : accepted i st ≤ off + bytes.length := by
      rw [hend]
      exact hprefix
    obtain ⟨hnear, -⟩ := hcond.1
    have := ofNat_inj_of_near (by simpa using hseq) hnear (by omega)
    omega
  · simp [getsPayload, hrst, hestablished, hpayload] at hgets

/-- What is stored and returned after a segment. -/
theorem StreamInv.storedAfter :
    ((streamOp i st (.segment off hdr bytes)).net.sockets i).rx.Ok ∧
      st.returned ++ ((streamOp i st (.segment off hdr bytes)).net.sockets i).rx.contents <+: stream ∧
      accepted i (streamOp i st (.segment off hdr bytes)) =
        accepted i st + (if getsPayload hdr bytes (st.net.sockets i) then bytes.length else 0) := by
  obtain ⟨queue, hsocket⟩ := streamOp_segment_socket i st off hdr bytes
  have hrx : ((streamOp i st (.segment off hdr bytes)).net.sockets i).rx =
      if getsPayload hdr bytes (st.net.sockets i) then (st.net.sockets i).rx.pushAll bytes
      else (st.net.sockets i).rx := by
    rw [hsocket]
    exact (Socket.segment_recv hdr bytes st.net.now h.opened).1
  have hreturned : (streamOp i st (.segment off hdr bytes)).returned = st.returned := rfl
  unfold accepted
  rw [hrx, hreturned]
  by_cases hgets : getsPayload hdr bytes (st.net.sockets i) = true
  · obtain ⟨hoff, -, hroom⟩ := h.nextPart hcut hcond hgets
    simp only [hgets, if_true]
    rw [RingBuf.contents_pushAll h.ring hroom]
    refine ⟨RingBuf.pushAll_ok h.ring bytes, ?_, by simp only [List.length_append]; omega⟩
    obtain ⟨rest, hrest⟩ := h.stored
    obtain ⟨tail, htail⟩ := hcut.part
    have hdrop : stream.drop off = rest := by
      rw [← hrest, hoff, accepted, ← List.length_append, List.drop_left]
    refine ⟨tail, ?_⟩
    calc st.returned ++ ((st.net.sockets i).rx.contents ++ bytes) ++ tail
        = st.returned ++ (st.net.sockets i).rx.contents ++ (bytes ++ tail) := by simp
      _ = stream := by rw [htail, hdrop, hrest]
  · simp only [hgets]
    exact ⟨h.ring, h.stored, rfl⟩

theorem StreamInv.segment : StreamInv i stream start (streamOp i st (.segment off hdr bytes)) := by
  obtain ⟨hring, hstored, haccepted⟩ := h.storedAfter hcut hcond
  obtain ⟨queue, hsocket⟩ := streamOp_segment_socket i st off hdr bytes
  obtain ⟨-, hnext, hopened, hawaits⟩ := Socket.segment_recv hdr bytes st.net.now h.opened
  have hfinTaken : (streamOp i st (.segment off hdr bytes)).finTaken =
      (st.finTaken || takesFin hdr (st.net.sockets i)) := rfl
  refine ⟨hring, hstored, ?_, ?_, ?_⟩
  · rw [hsocket]
    exact hopened
  · intro hnot
    rw [hfinTaken, Bool.or_eq_false_iff] at hnot
    rw [haccepted, hsocket]
    refine hnext.trans ?_
    rw [h.next hnot.1, hnot.2, BitVec.add_assoc, BitVec.add_assoc]
    simp [BitVec.ofNat_add]
  intro hfin
  rw [hfinTaken, Bool.or_eq_true] at hfin
  rw [haccepted, hsocket]
  rcases hfin with hfin | htakes
  · obtain ⟨hall, hnot⟩ := h.fin hfin
    have hno : getsPayload hdr bytes (st.net.sockets i) ≠ true := fun hgets => by
      have := (h.nextPart hcut hcond hgets).2.1
      simp [hfin] at this
    refine ⟨by rw [if_neg hno]; exact hall, hawaits.trans ?_⟩
    simp [hnot]
  · obtain ⟨-, hall⟩ := h.lastPart hcut hcond htakes
    refine ⟨hall, hawaits.trans ?_⟩
    simp only [takesFin, Bool.and_eq_true] at htakes
    simp [htakes.1.1]

end

end Segment

/-! ### Runs -/

/-- **One step.** -/
theorem StreamInv.step (h : StreamInv i stream start st) (hcut : op.Cut stream start) (hcond : StreamCond i st op) :
    StreamInv i stream start (streamOp i st op) ∧ StreamGood i stream st op (streamOp i st op) := by
  have hinv : StreamInv i stream start (streamOp i st op) := by
    cases op with
    | segment off hdr bytes => exact h.segment hcut hcond
    | read count copyOk =>
      obtain rfl : copyOk = true := hcond
      exact h.read count
    | recv count copyOk =>
      obtain rfl : copyOk = true := hcond
      exact h.recv count
    | shutdown how => exact h.shutdown how
  refine ⟨hinv, hinv.returned, fun hfin reply hreply heof => ?_⟩
  -- nothing is stored and everything was accepted
  have hempty := empty_of_eof h.ring hreply heof
  have hall := (h.fin hfin).1
  rw [accepted, hempty, List.length_nil, Nat.add_zero] at hall
  exact h.returned.eq_of_length hall

/-- **The stream.** In a run whose segments are cut from the stream and whose steps meet the
condition, reads return the stream in order, and end of file after a FIN only at its end. -/
theorem tcp_stream_run {st : StreamState} (h : StreamStart i start st) {ops : List StreamOp}
    (hcut : ∀ op ∈ ops, op.Cut stream start) (hcond : AllSteps (streamStep i) (StreamCond i) st ops) :
    StreamKept i stream st ops := by
  have hboth := AllSteps.and_forall hcut hcond
  have hinv : StreamInv i stream start st := h.inv
  refine AllSteps.imp (fun m op hm m' hstep => (hm m' hstep).2) (run_steps (fun m op m' hm hop hstep => ?_) hinv hboth)
  cases hstep
  exact hm.step hop.1 hop.2

instance (off : Nat) (hdr : TcpHdr) (bytes : List UInt8) : Decidable (CutFrom stream start off hdr bytes) :=
  decidable_of_iff (bytes <+: stream.drop off ∧ off ≤ stream.length ∧ hdr.seq = start + .ofNat 32 off ∧
      (hdr.fin = true → off + bytes.length = stream.length) ∧ bytes.length < 65536)
    ⟨fun h => ⟨h.1, h.2.1, h.2.2.1, h.2.2.2.1, h.2.2.2.2⟩, fun h => ⟨h.part, h.inside, h.seq, h.fin, h.len⟩⟩

instance (op : StreamOp) : Decidable (op.Cut stream start) :=
  match op with
  | .segment off hdr bytes => inferInstanceAs (Decidable (CutFrom stream start off hdr bytes))
  | .read _ _ | .recv _ _ | .shutdown _ => inferInstanceAs (Decidable True)

instance (st : StreamState) (op : StreamOp) : Decidable (StreamCond i st op) :=
  match op with
  | .segment _ _ _ => inferInstanceAs (Decidable ((_ ∧ _) ∧ (_ → _ ∨ _ ∧ _)))
  | .read _ _ | .recv _ _ => inferInstanceAs (Decidable (_ = _))
  | .shutdown _ => inferInstanceAs (Decidable True)

/-- Socket 0 is connected and expects sequence number 1. -/
def connectedState : StreamState where
  net := emptyNet.modify 0 fun s => { s with
    valid := true
    type := .tcp
    localPort := 80
    remotePort := 5000
    rx := ⟨fun _ => 0, 8192, 0, 0⟩
    tcpState := .established
    rcvNxt := 1
    bound := true
    connected := true }
  returned := []
  finTaken := false

def segmentHdr (seq : BitVec 32) (flags : UInt8) : TcpHdr := ⟨5000, 80, seq, 0, flags⟩

/-- The stream of three bytes arrives out of order and with a duplicate. -/
def streamOps : List StreamOp := [
  .segment 1 (segmentHdr 2 tcpPsh) [2, 3],
  .segment 0 (segmentHdr 1 tcpPsh) [1, 2],
  .segment 0 (segmentHdr 1 tcpPsh) [1, 2],
  .read 10 true,
  .segment 2 (segmentHdr 3 tcpFin) [3],
  .recv 10 true,
  .read 10 true]

theorem tcp_stream_run_reordered : StreamKept 0 [1, 2, 3] connectedState streamOps ∧
    (streamOps.foldl (streamOp 0) connectedState).returned = [1, 2, 3] := by
  have hstart : StreamStart 0 1 connectedState :=
    ⟨by decide +kernel, ⟨by decide +kernel, by decide +kernel⟩, by decide +kernel, by decide +kernel, rfl, rfl⟩
  exact ⟨tcp_stream_run hstart (by decide +kernel) (.of_decide (by decide +kernel)), by decide +kernel⟩

/-- A FIN arrives before the three bytes that it follows. -/
def overtaken : StreamState := streamOp 0 connectedState (.segment 3 (segmentHdr 4 tcpFin) [])

/-- The FIN overtakes the three bytes before it: the next read reports the end of file, nothing
has been returned, and neither side was shut down. -/
theorem fin_overtakes_data :
    (¬ ∀ (i : SockId) (stream : List UInt8) (start : BitVec 32) (st : StreamState) (ops : List StreamOp),
      StreamStart i start st → (∀ op ∈ ops, op.Cut stream start) → StreamKept i stream st ops) ∧
    (socketRead overtaken.net 0 10).1 = .eof ∧ (overtaken.net.sockets 0).tcpState = .closeWait ∧
    (overtaken.net.sockets 0).shutdownRead = false ∧ (overtaken.net.sockets 0).shutdownWrite = false := by
  refine ⟨fun h => ?_, by decide +kernel, by decide +kernel⟩
  have hstart : StreamStart 0 1 connectedState :=
    ⟨by decide +kernel, ⟨by decide +kernel, by decide +kernel⟩, by decide +kernel, by decide +kernel, rfl, rfl⟩
  have hrun := h 0 [1, 2, 3] 1 connectedState [.segment 3 (segmentHdr 4 tcpFin) [], .read 10 true] hstart
    (by decide +kernel)
  have hgood := (hrun.2 _ rfl).1 _ rfl
  have hall := hgood.2 (by decide +kernel) _ rfl (by decide +kernel)
  cases hall

end Litenix
