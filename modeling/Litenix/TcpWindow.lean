import Litenix.Tcp

/-! The send window of TCP sockets. Every connection starts at the same initial sequence number, so
a sequence number has a position in its connection. The window is well formed when `snd_una` is
not behind `snd_nxt` in these positions. Acknowledgements are written to `snd_una` unchecked; runs
in which each one that is written lies in the window keep it well formed. -/

namespace Litenix

open Lib

variable {hdr : TcpHdr} {bytes buf payload : List UInt8} {n m : Net} {i : SockId} {f : Socket → Socket} {op : TcpOp}
variable {flags : UInt8}

/-- The initial sequence number, the same for connecting and accepted sockets. -/
def isn : BitVec 32 := 1000

/-- How far a sequence number is from the initial one. -/
def seqPos (x : BitVec 32) : Nat := (x - isn).toNat

def Socket.WindowOk (s : Socket) : Prop := seqPos s.sndUna ≤ seqPos s.sndNxt

/-! ### Steps -/

inductive TcpOp
  | segment (srcIp : Ip) (data : Bytes) (len : UInt16)
  | write (i : SockId) (buf : List UInt8)
  | sendto (i : SockId) (buf : List UInt8)
  | shutdown (i : SockId) (how : ShutHow)
  | close (i : SockId)
  | release (i : SockId)
  | connect (i : SockId) (remoteIp : Ip) (remotePort : UInt16)
  | listen (i : SockId)
  | tick (now : Nat)

def tcpOp (n : Net) : TcpOp → Net
  | .segment srcIp data len => netTcpReceive n srcIp data len.toNat
  | .write i buf => socketWrite n i buf
  | .sendto i buf => sysSendto n i buf
  | .shutdown i how => sysShutdown n i how
  | .close i => socketClose n i
  | .release i => socketRelease n i
  | .connect i remoteIp remotePort => sysConnect n i remoteIp remotePort
  | .listen i => sysListen n i
  | .tick now => netTcpTimerTick { n with now }

/-- What a call may send on the socket, as flags and payload. -/
def TcpOp.sends : TcpOp → Option (SockId × UInt8 × List UInt8)
  | .write i buf => some (i, tcpAck ||| tcpPsh, buf.take (buf.length % 65536))
  | .sendto i buf => some (i, tcpAck ||| tcpPsh, buf.take 1400)
  | .shutdown i _ | .close i => some (i, tcpFin ||| tcpAck, [])
  | _ => none

def tcpStep (n : Net) (op : TcpOp) : Except Empty Net := .ok (tcpOp n op)

/-- The socket that a segment is for. -/
def segmentSock (n : Net) (srcIp : Ip) (data : Bytes) : Option SockId :=
  (tcpLookup n srcIp (tcpHdrOf data)).sock

/-- What a step must do to the windows. -/
structure WindowStep (n : Net) (op : TcpOp) (n' : Net) : Prop where
  advances : ∀ i, (n.sockets i).valid = true → seqPos (n.sockets i).sndUna ≤ seqPos (n'.sockets i).sndUna
  beyond : ∀ srcIp data len i, op = .segment srcIp data len → segmentSock n srcIp data = some i →
    seqPos (n.sockets i).sndNxt < seqPos (tcpHdrOf data).ack → (n'.sockets i).sndUna = (n.sockets i).sndUna
  established : ∀ i, (n.sockets i).tcpState ≠ .established → (n'.sockets i).tcpState = .established →
    ∃ srcIp data len, op = .segment srcIp data len ∧ segmentSock n srcIp data = some i ∧
      (tcpHdrOf data).ack = (n.sockets i).sndNxt

/-- The windows of all sockets are well formed. -/
def WindowsOk (n : Net) : Prop := ∀ i, (n.sockets i).WindowOk

/-- The windows stay well formed at every step of a run, and every step treats them as it must. -/
def WindowsKept (n : Net) (ops : List TcpOp) : Prop :=
  AllSteps tcpStep (fun n op => ∀ n', tcpStep n op = .ok n' → WindowsOk n' ∧ WindowStep n op n') n ops

/-! ### Calls that send -/

/-- The window stays as it is, and no connection is established. -/
structure WindowSame (n m : Net) : Prop where
  sndUna : ∀ j, (m.sockets j).sndUna = (n.sockets j).sndUna
  sndNxt : ∀ j, (m.sockets j).sndNxt = (n.sockets j).sndNxt
  established : ∀ j, (m.sockets j).tcpState = .established → (n.sockets j).tcpState = .established

theorem WindowSame.refl (n : Net) : WindowSame n n := ⟨fun _ => rfl, fun _ => rfl, fun _ => id⟩

theorem WindowSame.modify (h : WindowSame n m) (hf : ∀ s, (f s).sndUna = s.sndUna ∧ (f s).sndNxt = s.sndNxt ∧
      ((f s).tcpState = .established → s.tcpState = .established)) : WindowSame n (m.modify i f) := by
  refine ⟨fun j => Net.modify_ind j ?_ fun _ => h.sndUna j, fun j => Net.modify_ind j ?_ fun _ => h.sndNxt j,
    fun j => Net.modify_ind j ?_ fun _ => h.established j⟩
  · exact (hf _).1.trans (h.sndUna i)
  · exact (hf _).2.1.trans (h.sndNxt i)
  · exact fun he => h.established i ((hf _).2.2 he)

/-- A call sends nothing or one segment. -/
inductive Sends (n : Net) (i : SockId) (flags : UInt8) (payload : List UInt8) : Net → Prop
  | quiet {m : Net} : WindowSame n m → Sends n i flags payload m
  | sent {m : Net} (buf : List UInt8) : payload = buf.take (buf.length % 65536) → WindowSame n m →
    Sends n i flags payload (netTcpSendSegment m i flags buf)

theorem WindowSame.sendFin (h : WindowSame n m) (i : SockId) : Sends n i (tcpFin ||| tcpAck) [] (tcpSendFin m i) := by
  unfold tcpSendFin
  split
  · exact .sent [] rfl (h.modify fun _ => ⟨rfl, rfl, fun he => by cases he⟩)
  · exact .sent [] rfl (h.modify fun _ => ⟨rfl, rfl, fun he => by cases he⟩)
  · exact .sent [] rfl (h.modify fun _ => ⟨rfl, rfl, fun he => by cases he⟩)
  · exact .quiet h

theorem tcpOp_sends (n : Net) (h : op.sends = some (i, flags, payload)) : Sends n i flags payload (tcpOp n op) := by
  have hrefl := WindowSame.refl n
  cases op <;> cases h <;> rw [tcpOp]
  case write buf =>
    unfold socketWrite
    dsimp only
    split_ifs
    · exact .quiet hrefl
    · exact .quiet hrefl
    · exact .sent buf rfl hrefl
  case sendto buf =>
    have hbuffer : WindowSame n n.kmalloc.2 := by constructor <;> simp
    unfold sysSendto
    dsimp only
    split_ifs
    · exact .quiet hrefl
    · exact .quiet hbuffer
    · exact .quiet hbuffer
    · refine .sent _ (List.take_of_length_le ?_).symm hbuffer
      rw [List.length_take, Nat.mod_eq_of_lt (by omega)]
  case shutdown how =>
    unfold sysShutdown
    dsimp only
    split
    · exact .quiet hrefl
    have hread : WindowSame n (if how ≠ .wr then n.modify i fun s => { s with shutdownRead := true } else n) := by
      split
      · exact hrefl.modify fun _ => by exact ⟨rfl, rfl, id⟩
      · exact hrefl
    split
    · exact (hread.modify fun _ => by exact ⟨rfl, rfl, id⟩).sendFin i
    · exact .quiet hread
  case close =>
    unfold socketClose
    refine WindowSame.sendFin ?_ i
    split
    · exact hrefl.modify fun _ => by exact ⟨rfl, rfl, id⟩
    · exact (hrefl.modify fun _ => by exact ⟨rfl, rfl, id⟩).modify fun _ => by exact ⟨rfl, rfl, id⟩

/-! ### When an acknowledgement is written -/

namespace Socket

/-- The segment completes a handshake. -/
def opens (hdr : TcpHdr) (s : Socket) : Bool :=
  match s.tcpState with
  | .synSent => hdr.syn && hdr.hasAck
  | .synReceived => hdr.hasAck
  | _ => false

/-- The acknowledgement number of the segment is written to `snd_una`. -/
def takesAck (hdr : TcpHdr) (s : Socket) : Bool :=
  !hdr.rst && hdr.hasAck &&
    (hdr.ack > s.sndUna || s.opens hdr || s.tcpState = .established || s.tcpState = .finWait1 ||
      s.tcpState = .lastAck)

theorem segment_frame (now : Nat) (hdr : TcpHdr) (bytes : List UInt8) (s : Socket) :
    (s.segment now hdr bytes).sndNxt = s.sndNxt ∧ (s.segment now hdr bytes).valid = s.valid := by
  have hack (s : Socket) : (tcpTakeAck now hdr s).sndNxt = s.sndNxt ∧ (tcpTakeAck now hdr s).valid = s.valid := by
    unfold tcpTakeAck
    split <;> exact ⟨rfl, rfl⟩
  have hshake (s : Socket) : (s.handshake hdr).sndNxt = s.sndNxt ∧ (s.handshake hdr).valid = s.valid := by
    unfold handshake
    split <;> (try split) <;> exact ⟨rfl, rfl⟩
  have htransfer (s : Socket) :
      (s.transfer hdr bytes).sndNxt = s.sndNxt ∧ (s.transfer hdr bytes).valid = s.valid := by
    unfold transfer acked finish payload
    split <;> (repeat' split) <;> exact ⟨rfl, rfl⟩
  unfold segment
  split
  · exact ⟨rfl, rfl⟩
  · rw [(htransfer _).1, (htransfer _).2, (hshake _).1, (hshake _).2, (hack _).1, (hack _).2]
    exact ⟨rfl, rfl⟩

theorem tcpTakeAck_tcpState (now : Nat) (hdr : TcpHdr) (s : Socket) :
    (tcpTakeAck now hdr s).tcpState = s.tcpState := by
  unfold tcpTakeAck
  split <;> rfl

theorem opens_tcpTakeAck (now : Nat) (hdr : TcpHdr) (s : Socket) : (tcpTakeAck now hdr s).opens hdr = s.opens hdr := by
  unfold opens
  rw [tcpTakeAck_tcpState]

variable {s : Socket}

theorem hasAck_of_opens (h : s.opens hdr = true) : hdr.hasAck = true := by
  unfold opens at h
  split at h <;> simp_all

theorem handshake_eq (hdr : TcpHdr) (s : Socket) :
    (s.handshake hdr).sndUna = (if s.opens hdr then hdr.ack else s.sndUna) ∧
      (s.handshake hdr).tcpState = (if s.opens hdr then .established else s.tcpState) := by
  unfold handshake opens
  split <;> rename_i hstate
  · split <;> simp_all
  · split <;> simp_all
  · split <;> simp_all

theorem transfer_sndUna (hdr : TcpHdr) (bytes : List UInt8) (s : Socket) :
    (s.transfer hdr bytes).sndUna = if hdr.hasAck && (s.tcpState = .established || s.tcpState = .finWait1 ||
      s.tcpState = .lastAck) then hdr.ack else s.sndUna := by
  have hpayload (s : Socket) : (s.payload hdr bytes).sndUna = s.sndUna := by
    unfold payload
    split <;> rfl
  unfold transfer acked finish
  cases hack : hdr.hasAck <;> cases hstate : s.tcpState <;> cases hfin : hdr.fin <;> simp [hpayload]

theorem transfer_established (h : (s.transfer hdr bytes).tcpState = .established) : s.tcpState = .established := by
  unfold transfer acked finish at h
  cases hstate : s.tcpState <;> cases hack : hdr.hasAck <;> cases hfin : hdr.fin <;> simp_all

/-- **The acknowledgement of a segment.** -/
theorem segment_sndUna (now : Nat) (hdr : TcpHdr) (bytes : List UInt8) (s : Socket) :
    (s.segment now hdr bytes).sndUna = if s.takesAck hdr then hdr.ack else s.sndUna := by
  unfold segment
  split
  · rename_i hrst
    simp [takesAck, hrst]
  rename_i hrst
  rw [transfer_sndUna, (handshake_eq hdr _).1, (handshake_eq hdr _).2, opens_tcpTakeAck, tcpTakeAck_tcpState]
  unfold takesAck
  by_cases hopen : s.opens hdr = true
  · simp [hopen, hasAck_of_opens hopen, hrst]
  · cases hack : hdr.hasAck
    · simp [hopen, tcpTakeAck, hack]
    · by_cases hnew : hdr.ack > s.sndUna <;> simp [hopen, tcpTakeAck, hack, hnew, hrst]

theorem segment_established (hbefore : s.tcpState ≠ .established)
    (h : (s.segment now hdr bytes).tcpState = .established) :
    s.opens hdr = true ∧ hdr.rst = false := by
  unfold segment at h
  split at h
  · cases h
  rename_i hrst
  have hstate := transfer_established h
  rw [(handshake_eq hdr _).2, tcpTakeAck_tcpState, opens_tcpTakeAck] at hstate
  split at hstate
  · rename_i hopen
    exact ⟨hopen, by simpa using hrst⟩
  · exact absurd hstate hbefore

/-- An acknowledgement that is written lies in the window, and one that completes a handshake
acknowledges everything sent. -/
def AckCond (hdr : TcpHdr) (s : Socket) : Prop :=
  s.takesAck hdr = true → seqPos s.sndUna ≤ seqPos hdr.ack ∧ seqPos hdr.ack ≤ seqPos s.sndNxt ∧
    (s.opens hdr = true → hdr.ack = s.sndNxt)

/-- So many sequence numbers can be sent before the positions wrap around. -/
def SendRoom (s : Socket) (count : Nat) : Prop := seqPos s.sndNxt + count < 2 ^ 32

instance (hdr : TcpHdr) (s : Socket) : Decidable (s.AckCond hdr) := inferInstanceAs (Decidable (_ → _ ∧ _ ∧ (_ → _)))

instance (s : Socket) (count : Nat) : Decidable (s.SendRoom count) := inferInstanceAs (Decidable (_ < _))

/-- A segment whose acknowledgement meets the condition keeps the window. -/
theorem WindowOk.segment (h : s.WindowOk) (hcond : s.AckCond hdr) (now : Nat) (bytes : List UInt8) :
    (s.segment now hdr bytes).WindowOk ∧ seqPos s.sndUna ≤ seqPos (s.segment now hdr bytes).sndUna := by
  unfold WindowOk at *
  rw [segment_sndUna, (segment_frame now hdr bytes s).1]
  split
  · rename_i htakes
    obtain ⟨hold, hnew, -⟩ := hcond htakes
    exact ⟨hnew, hold⟩
  · exact ⟨h, le_rfl⟩

end Socket

/-! ### Steps other than segments -/

/-- What such a step does to one socket. -/
structure WindowMove (s s' : Socket) : Prop where
  window : s'.WindowOk
  advances : seqPos s.sndUna ≤ seqPos s'.sndUna
  established : s'.tcpState = .established → s.tcpState = .established

def WindowMoves (n n' : Net) : Prop := ∀ i, WindowMove (n.sockets i) (n'.sockets i)

section Moves

variable {n n' n'' : Net} {s s' : Socket} {i : SockId}

theorem WindowMove.of_same (h : s.WindowOk) (huna : s'.sndUna = s.sndUna) (hnxt : s'.sndNxt = s.sndNxt)
    (hstate : s'.tcpState = .established → s.tcpState = .established) : WindowMove s s' := by
  refine ⟨?_, by rw [huna], hstate⟩
  unfold Socket.WindowOk at *
  rwa [huna, hnxt]

theorem WindowMoves.windowsOk (h : WindowMoves n n') : WindowsOk n' := fun i => (h i).window

theorem WindowMoves.trans (h : WindowMoves n n') (h' : WindowMoves n' n'') : WindowMoves n n'' := fun i =>
  ⟨(h' i).window, (h i).advances.trans (h' i).advances, fun he => (h i).established ((h' i).established he)⟩

theorem WindowsOk.modify (h : WindowsOk n)
    (hf : WindowMove (n.sockets i) (f (n.sockets i))) : WindowMoves n (n.modify i f) := by
  exact fun j => Net.modify_ind j hf fun _ => .of_same (h j) rfl rfl id

theorem seqPos_add (h : seqPos x + count < 2 ^ 32) : seqPos (x + .ofNat 32 count) = seqPos x + count := by
  unfold seqPos isn at *
  have hcount : (BitVec.ofNat 32 count).toNat = count := by
    rw [BitVec.toNat_ofNat]
    exact Nat.mod_eq_of_lt (by omega)
  generalize BitVec.ofNat 32 count = c at *
  bv_omega

theorem segmentSent_sndNxt (now : Nat) (flags : UInt8) (len : Nat) (s : Socket) :
    (segmentSent now flags len s).sndNxt = s.sndNxt + .ofNat 32 (segmentLen flags len) := by
  unfold segmentSent
  dsimp only
  split <;> rfl

section

variable (h : WindowsOk n)

include h

theorem WindowsOk.send (hroom : (n.sockets i).SendRoom (segmentLen flags (payload.length % 65536))) :
    WindowMoves n (netTcpSendSegment n i flags payload) := by
  intro j
  obtain ⟨next, time, count, hsocket⟩ := netTcpSendSegment_socket n i flags payload j
  refine ⟨?_, by rw [hsocket], fun he => by rwa [hsocket] at he⟩
  have huna : ((netTcpSendSegment n i flags payload).sockets j).sndUna = (n.sockets j).sndUna := by rw [hsocket]
  unfold Socket.WindowOk
  rw [huna]
  rcases netTcpSendSegment_sockets n i flags payload with hsame | hsent
  · rw [hsame]
    exact h j
  rw [hsent]
  refine Net.modify_ind j ?_ fun _ => h j
  rw [segmentSent_sndNxt, seqPos_add hroom]
  exact Nat.le_add_right_of_le (h i)

theorem WindowsOk.same (ht : WindowSame n m) : WindowMoves n m := fun j =>
  .of_same (h j) (ht.sndUna j) (ht.sndNxt j) (ht.established j)

/-- A call with room for what it sends. -/
theorem WindowsOk.sends (hsends : Sends n i flags payload n')
    (hroom : (n.sockets i).SendRoom (segmentLen flags payload.length)) : WindowMoves n n' := by
  cases hsends with
  | quiet ht => exact h.same ht
  | sent buf hpayload ht =>
    refine (h.same ht).trans ((h.same ht).windowsOk.send ?_)
    rw [hpayload, List.length_take, Nat.min_eq_left (Nat.mod_le _ _)] at hroom
    unfold Socket.SendRoom at *
    rwa [ht.sndNxt]

theorem WindowsOk.connect (remoteIp : Ip) (remotePort : UInt16)
    (huna : (n.sockets i).sndUna = isn) : WindowMoves n (sysConnect n i remoteIp remotePort) := by
  have hfirst : WindowMoves n (n.modify i fun s => { s with
      remotePort := remotePort, remoteIp := remoteIp, tcpState := .synSent, sndNxt := 1000, rcvNxt := 0 }) := by
    refine h.modify ⟨?_, le_rfl, fun he => by cases he⟩
    unfold Socket.WindowOk
    rw [huna]
    rfl
  refine hfirst.trans (hfirst.windowsOk.send ?_)
  rw [Net.modify_same]
  change seqPos 1000 + segmentLen tcpSyn 0 < 2 ^ 32
  decide

theorem WindowsOk.timerStep (i : SockId) : WindowMoves n (tcpTimerStep n i) := by
  intro j
  have htimed := tcpTimerStep_socket n i j
  generalize (tcpTimerStep n i).sockets j = t at htimed ⊢
  cases htimed with
  | running time count => exact .of_same (h j) rfl rfl id
  | ended count => exact .of_same (h j) rfl rfl fun he => by cases he

theorem WindowsOk.tick (now : Nat) : WindowMoves n (netTcpTimerTick { n with now }) := by
  have hstart : WindowMoves n { n with now } := fun i => .of_same (h i) rfl rfl id
  refine foldl_inv (fun m => WindowMoves n m) hstart fun m i _ hm => ?_
  exact hm.trans (hm.windowsOk.timerStep i)

end

end Moves

/-! ### Segments -/

section Segments

variable {n : Net}

theorem WindowsOk.segment (h : WindowsOk n) (hcond : (n.sockets i).AckCond hdr) (bytes : List UInt8) (j : SockId) :
    ((tcpSegment n i hdr bytes).sockets j).WindowOk ∧
      seqPos (n.sockets j).sndUna ≤ seqPos ((tcpSegment n i hdr bytes).sockets j).sndUna ∧
      (j ≠ i → ((tcpSegment n i hdr bytes).sockets j).tcpState = (n.sockets j).tcpState) := by
  obtain ⟨queue, hqueue⟩ := tcpSegment_sockets n i hdr bytes j
  rw [hqueue]
  refine Net.modify_ind j ?_ fun _ => ⟨h j, le_rfl, fun _ => rfl⟩
  obtain ⟨hwindow, hadvance⟩ := (h i).segment hcond n.now bytes
  exact ⟨hwindow, hadvance, fun hne => absurd rfl hne⟩

/-- A segment for a listening socket: only the child, which was not in use, changes. -/
theorem WindowsOk.listen (h : WindowsOk n) (srcIp : Ip) (listener : SockId) (hdr : TcpHdr) (j : SockId) :
    ((tcpListen n listener srcIp hdr).sockets j).WindowOk ∧
      ((n.sockets j).valid = true → ((tcpListen n listener srcIp hdr).sockets j).sndUna = (n.sockets j).sndUna) ∧
      (((tcpListen n listener srcIp hdr).sockets j).tcpState = .established →
        (n.sockets j).tcpState = .established) := by
  have hkeep : (n.sockets j).WindowOk ∧ ((n.sockets j).valid = true → (n.sockets j).sndUna = (n.sockets j).sndUna) ∧
      ((n.sockets j).tcpState = .established → (n.sockets j).tcpState = .established) := ⟨h j, fun _ => rfl, id⟩
  by_cases hchild : ((List.finRange maxSockets).find? fun i => !(n.sockets i).valid) = some j
  · have hfree : (n.sockets j).valid = false := by simpa using List.find?_some hchild
    unfold tcpListen
    split
    · rw [hchild]
      dsimp only
      split
      · rw [Net.modify_same, Net.kmalloc_sockets]
        exact ⟨h j, fun _ => rfl, id⟩
      obtain ⟨next, time, count, hsocket⟩ := netTcpSendSegment_socket _ j (tcpSyn ||| tcpAck) [] j
      rw [hsocket, Net.modify_same]
      refine ⟨?_, fun hvalid => absurd hvalid (by simp [hfree]), fun he => by cases he⟩
      change seqPos 1000 ≤ _
      exact Nat.zero_le _
    · exact hkeep
  · rw [tcpListen_other srcIp hdr listener hchild]
    exact hkeep

end Segments

/-! ### Runs -/

/-- The condition of a step, on its arguments and the sockets before it. -/
def WindowCond (n : Net) : TcpOp → Prop
  | .segment srcIp data _ => ∀ i, segmentSock n srcIp data = some i → (n.sockets i).AckCond (tcpHdrOf data)
  | .write i buf => (n.sockets i).SendRoom (buf.length % 65536)
  | .sendto i buf => (n.sockets i).SendRoom (min 1400 buf.length)
  | .shutdown i _ => (n.sockets i).SendRoom 1
  | .close i => (n.sockets i).SendRoom 1
  | .release _ => True
  | .connect i _ _ => (n.sockets i).sndUna = isn
  | .listen _ => True
  | .tick _ => True

theorem WindowMoves.step (h : WindowMoves n n')
    (hop : ∀ srcIp data len, op ≠ .segment srcIp data len) : WindowsOk n' ∧ WindowStep n op n' :=
  ⟨h.windowsOk, fun i _ => (h i).advances, fun srcIp data len _ heq => absurd heq (hop srcIp data len),
    fun i hbefore hafter => absurd ((h i).established hafter) hbefore⟩

theorem WindowsOk.segmentStep (h : WindowsOk n) {srcIp : Ip} {data : Bytes} {len : UInt16}
    (hcond : WindowCond n (.segment srcIp data len)) :
    WindowsOk (tcpOp n (.segment srcIp data len)) ∧
      WindowStep n (.segment srcIp data len) (tcpOp n (.segment srcIp data len)) := by
  -- the segment is dropped
  have hdrop : WindowsOk n ∧ WindowStep n (.segment srcIp data len) n :=
    ⟨h, fun _ _ => le_rfl, fun _ _ _ _ _ _ _ => rfl, fun _ hbefore hafter => absurd hafter hbefore⟩
  change WindowsOk (netTcpReceive n srcIp data len.toNat) ∧
    WindowStep n _ (netTcpReceive n srcIp data len.toNat)
  unfold netTcpReceive
  split
  · exact hdrop
  split
  · exact hdrop
  generalize slice data _ _ = bytes
  unfold tcpInput
  split
  · rename_i i _ hlookup
    have hsock : segmentSock n srcIp data = some i := congrArg TcpLookup.sock hlookup
    have hack := hcond i hsock
    have hsegment := h.segment hack bytes
    refine ⟨fun j => (hsegment j).1, fun j _ => (hsegment j).2.1, ?_, ?_⟩
    · intro srcIp' data' len' j heq hj hbeyond
      cases heq
      obtain rfl : i = j := Option.some.inj (hsock.symm.trans hj)
      obtain ⟨queue, hqueue⟩ := tcpSegment_sockets n i (tcpHdrOf data) bytes i
      have huna := Socket.segment_sndUna n.now (tcpHdrOf data) bytes (n.sockets i)
      rw [hqueue, Net.modify_same]
      refine huna.trans (if_neg fun htakes => ?_)
      have := (hack htakes).2.1
      omega
    intro j hbefore hafter
    by_cases hj : j = i
    · subst hj
      obtain ⟨queue, hqueue⟩ := tcpSegment_sockets n j (tcpHdrOf data) bytes j
      rw [hqueue, Net.modify_same] at hafter
      obtain ⟨hopens, hrst⟩ := Socket.segment_established hbefore hafter
      have htakes : (n.sockets j).takesAck (tcpHdrOf data) = true := by
        simp [Socket.takesAck, hrst, Socket.hasAck_of_opens hopens, hopens]
      exact ⟨srcIp, data, len, rfl, hsock, (hack htakes).2.2 hopens⟩
    · rw [(hsegment j).2.2 hj] at hafter
      exact absurd hafter hbefore
  · rename_i listener hlookup
    have hsock : segmentSock n srcIp data = none := congrArg TcpLookup.sock hlookup
    have hlisten := h.listen srcIp listener (tcpHdrOf data)
    refine ⟨fun j => (hlisten j).1, fun j hvalid => by rw [(hlisten j).2.1 hvalid], ?_, ?_⟩
    · intro srcIp' data' len' j heq hj
      cases heq
      rw [hsock] at hj
      cases hj
    · exact fun j hbefore hafter => absurd ((hlisten j).2.2 hafter) hbefore
  · exact hdrop

theorem WindowCond.room (h : WindowCond n op)
    (hsends : op.sends = some (i, flags, payload)) : (n.sockets i).SendRoom (segmentLen flags payload.length) := by
  cases op <;> cases hsends
  case write buf =>
    have hlen : segmentLen (tcpAck ||| tcpPsh) (buf.take (buf.length % 65536)).length = buf.length % 65536 :=
      (Nat.zero_add _).trans (by rw [List.length_take, Nat.min_eq_left (Nat.mod_le _ _)])
    rw [hlen]
    exact h
  case sendto buf =>
    have hlen : segmentLen (tcpAck ||| tcpPsh) (buf.take 1400).length = min 1400 buf.length :=
      (Nat.zero_add _).trans List.length_take
    rw [hlen]
    exact h
  all_goals exact h

/-- **One step.** -/
theorem WindowsOk.step (h : WindowsOk n) (hcond : WindowCond n op) :
    WindowsOk (tcpOp n op) ∧ WindowStep n op (tcpOp n op) := by
  cases op with
  | segment srcIp data len => exact h.segmentStep hcond
  | write i buf | sendto i buf | shutdown i how | close i =>
    exact (h.sends (tcpOp_sends n rfl) (hcond.room rfl)).step nofun
  | release i =>
    have hmoves : WindowMoves n (socketRelease n i) := h.modify (.of_same (h i) rfl rfl id)
    exact hmoves.step nofun
  | connect i remoteIp remotePort => exact (h.connect remoteIp remotePort hcond).step nofun
  | listen i =>
    have hmoves : WindowMoves n (sysListen n i) := h.modify (.of_same (h i) rfl rfl fun he => by cases he)
    exact hmoves.step nofun
  | tick now => exact (h.tick now).step nofun

/-- **Send windows.** In a run whose steps meet the condition every window stays well formed and
every step treats the windows as it must. -/
theorem tcp_window_run {n : Net} (h : WindowsOk n) {ops : List TcpOp}
    (hcond : AllSteps tcpStep WindowCond n ops) : WindowsKept n ops := by
  refine run_steps (fun m op m' hm hop hstep => ?_) h hcond
  cases hstep
  exact hm.step hop

/-! ### A handshake -/

instance (n : Net) : Decidable (WindowsOk n) :=
  inferInstanceAs (Decidable (∀ i, seqPos (n.sockets i).sndUna ≤ seqPos (n.sockets i).sndNxt))

instance (n : Net) (op : TcpOp) : Decidable (WindowCond n op) :=
  match op with
  | .segment srcIp data _ => inferInstanceAs (Decidable (∀ i, segmentSock n srcIp data = some i →
      (n.sockets i).AckCond (tcpHdrOf data)))
  | .write _ _ | .sendto _ _ | .shutdown _ _ | .close _ => inferInstanceAs (Decidable (Socket.SendRoom _ _))
  | .release _ | .listen _ | .tick _ => inferInstanceAs (Decidable True)
  | .connect _ _ _ => inferInstanceAs (Decidable (_ = _))

/-- The bytes of a segment. -/
def tcpBytes (srcPort destPort : UInt16) (seq ack : BitVec 32) (flags : UInt8) (payload : List UInt8) : Bytes :=
  fun k => (store16 (swap16 srcPort) ++ store16 (swap16 destPort) ++ store32 (swap32 seq) ++
    store32 (swap32 ack) ++ [0x50, flags] ++ store16 (swap16 4096) ++ [0, 0, 0, 0] ++ payload).getD k 0

/-- Socket 0 listens on port 80. -/
def listeningNet : Net := emptyNet.modify 0 fun s => { s with
  valid := true
  type := .tcp
  localPort := 80
  rx := ⟨fun _ => 0, 8192, 0, 0⟩
  tcpState := .listen
  bound := true }

def peerIp : Ip := ⟨10, 0, 2, 2⟩

/-- A connection is opened, three bytes are sent on it and acknowledged. -/
def handshakeOps : List TcpOp := [
  .segment peerIp (tcpBytes 5000 80 0 0 tcpSyn []) 20,
  .segment peerIp (tcpBytes 5000 80 1 1001 tcpAck []) 20,
  .write 1 [1, 2, 3],
  .segment peerIp (tcpBytes 5000 80 1 1004 tcpAck []) 20,
  .tick 100]

theorem tcp_window_run_handshake : WindowsKept listeningNet handshakeOps ∧
    ((handshakeOps.foldl tcpOp listeningNet).sockets 1).sndUna = 1004 := by
  exact ⟨tcp_window_run (by decide +kernel) (.of_decide (by decide +kernel)), by decide +kernel⟩

/-- The second segment acknowledges bytes that were never sent: the child is established with
`snd_una` beyond `snd_nxt`. -/
theorem ack_beyond_window : ¬ ∀ (n : Net) (ops : List TcpOp), WindowsOk n → WindowsKept n ops := by
  intro h
  have hrun := h listeningNet [.segment peerIp (tcpBytes 5000 80 0 0 tcpSyn []) 20,
    .segment peerIp (tcpBytes 5000 80 1 5000 tcpAck []) 20] (by decide +kernel)
  have hlast := ((hrun.2 _ rfl).1 _ rfl).1
  exact absurd hlast (by decide +kernel)

end Litenix
