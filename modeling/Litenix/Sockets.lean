import Litenix.Lib.Bytes
import Litenix.Lib.Ring
import Litenix.Lib.Table
import Mathlib.Data.UInt
import Mathlib.Tactic.IntervalCases

/-! Sockets and packets (`net.h`, `net.c`): the socket table, the byte order helpers, the Internet
checksum and what is handed to `net_ipv4_send`. Sequence numbers are 32-bit words. Wake-ups of
waiting tasks are not part of this state. -/

namespace Litenix

open Lib

/-! ### Bytes -/

def swap16 (v : UInt16) : UInt16 := v <<< 8 ||| v >>> 8

def swap32 (v : BitVec 32) : BitVec 32 :=
  (v &&& 0xFF000000#32) >>> 24 ||| (v &&& 0x00FF0000#32) >>> 8 |||
    (v &&& 0x0000FF00#32) <<< 8 ||| (v &&& 0x000000FF#32) <<< 24

def load16 (data : Bytes) (off : Nat) : UInt16 :=
  (data off).toUInt16 ||| (data (off + 1)).toUInt16 <<< 8

def load32 (data : Bytes) (off : Nat) : BitVec 32 :=
  (data (off + 3)).toBitVec ++ (data (off + 2)).toBitVec ++ (data (off + 1)).toBitVec ++ (data off).toBitVec

def store16 (v : UInt16) : List UInt8 := [v.toUInt8, (v >>> 8).toUInt8]

def store32 (v : BitVec 32) : List UInt8 :=
  [.ofBitVec (v.extractLsb' 0 8), .ofBitVec (v.extractLsb' 8 8), .ofBitVec (v.extractLsb' 16 8),
    .ofBitVec (v.extractLsb' 24 8)]

theorem swap32_swap32 (v : BitVec 32) : swap32 (swap32 v) = v := by
  ext i hi
  simp only [swap32]
  interval_cases i <;> simp

theorem swap16_swap16 (v : UInt16) : swap16 (swap16 v) = v := by
  apply UInt16.eq_of_toBitVec_eq
  ext i hi
  simp [swap16]
  grind

variable {data : Bytes} {off : Nat}

theorem load16_store16 (h : ∀ k < 2, data (off + k) = (store16 v).getD k 0) : load16 data off = v := by
  have h0 := h 0 (by omega)
  have h1 := h 1 (by omega)
  simp only [store16, Nat.add_zero, List.getD_cons_zero, List.getD_cons_succ] at h0 h1
  rw [load16, h0, h1]
  apply UInt16.toNat_inj.mp
  have hv := v.toNat_lt
  have hhigh : v.toNat / 256 < 256 := by omega
  have hshift : (v >>> 8).toNat = v.toNat / 256 := by simp [Nat.shiftRight_eq_div_pow]
  have hshl : (v.toNat / 256) <<< ((8 : UInt16).toNat % 16) % 2 ^ 16 = (v.toNat / 256) <<< 8 := by
    rw [show (8 : UInt16).toNat % 16 = 8 from rfl, Nat.shiftLeft_eq]
    exact Nat.mod_eq_of_lt (by omega)
  have hor := Nat.shiftLeft_add_eq_or_of_lt (show v.toNat % 2 ^ 8 < 2 ^ 8 from Nat.mod_lt _ (by decide)) (v.toNat / 256)
  simp only [UInt16.toNat_or, UInt16.toNat_shiftLeft, UInt8.toNat_toUInt16, UInt16.toNat_toUInt8, hshift]
  rw [Nat.mod_eq_of_lt hhigh, hshl, Nat.or_comm, ← hor, Nat.shiftLeft_eq]
  omega

theorem load32_store32 (h : ∀ k < 4, data (off + k) = (store32 v).getD k 0) : load32 data off = v := by
  have h0 := h 0 (by omega)
  have h1 := h 1 (by omega)
  have h2 := h 2 (by omega)
  have h3 := h 3 (by omega)
  simp only [store32, Nat.add_zero, List.getD_cons_zero, List.getD_cons_succ] at h0 h1 h2 h3
  rw [load32, h0, h1, h2, h3]
  apply BitVec.eq_of_getLsbD_eq
  intro i hi
  simp only [BitVec.getLsbD_append, BitVec.getLsbD_extractLsb']
  split_ifs <;> simp <;> grind

/-- The bytes `[off, off + len)`. -/
def slice (data : Bytes) (off len : Nat) : List UInt8 := (List.range len).map fun k => data (off + k)

structure Ip where
  b0 : UInt8
  b1 : UInt8
  b2 : UInt8
  b3 : UInt8
deriving DecidableEq

namespace Ip

def load (data : Bytes) (off : Nat) : Ip := ⟨data off, data (off + 1), data (off + 2), data (off + 3)⟩

def bytes (ip : Ip) : List UInt8 := [ip.b0, ip.b1, ip.b2, ip.b3]

end Ip

/-- `my_ip`. -/
def myIp : Ip := ⟨10, 0, 2, 15⟩

/-! ### `ip_checksum` -/

def wordSum : List UInt8 → Nat
  | lo :: hi :: rest => lo.toNat + 256 * hi.toNat + wordSum rest
  | [last] => last.toNat
  | [] => 0

/-- The loop that adds the carries back in; three rounds are enough for a 32-bit sum. -/
def foldCarries : Nat → Nat → Nat
  | 0, sum => sum
  | rounds + 1, sum => if sum >>> 16 = 0 then sum else foldCarries rounds (sum % 65536 + sum >>> 16)

def ipChecksum (data : List UInt8) : UInt16 := ~~~ UInt16.ofNat (foldCarries 3 (wordSum data % 2 ^ 32))

def ipProtoIcmp : UInt8 := 1
def ipProtoTcp : UInt8 := 6
def ipProtoUdp : UInt8 := 17

/-! ### The socket table -/

inductive SocketType
  | udp
  | tcp
deriving DecidableEq

/-- The address families; a cleared slot has none. -/
inductive SocketDomain
  | unspec
  | unix
  | inet
deriving DecidableEq

inductive TcpState
  | closed
  | listen
  | synSent
  | synReceived
  | established
  | finWait1
  | finWait2
  | closeWait
  | lastAck
  | timeWait
deriving DecidableEq

/-- `MAX_SOCKETS`. -/
abbrev maxSockets : Nat := 64

instance : NeZero maxSockets := ⟨by decide⟩

abbrev SockId := Fin maxSockets

structure Socket where
  valid : Bool
  domain : SocketDomain
  type : SocketType
  localPort : UInt16
  remotePort : UInt16
  remoteIp : Ip
  rx : RingBuf UInt8
  tcpState : TcpState
  sndNxt : BitVec 32
  rcvNxt : BitVec 32
  sndUna : BitVec 32
  rtxTime : Nat
  rtxCount : Nat
  parentListener : Option SockId
  acceptQueue : List SockId
  bound : Bool
  connected : Bool
  closed : Bool
  shutdownRead : Bool
  shutdownWrite : Bool
  soError : Nat
  peer : Option SockId

/-- A call of `net_ipv4_send`. -/
structure Datagram where
  destIp : Ip
  proto : UInt8
  payload : List UInt8
deriving DecidableEq

structure Net where
  sockets : SockId → Socket
  /-- `pit_ticks` -/
  now : Nat
  /-- Outcomes of the calls of `kmalloc` to come; when the list is used up they succeed. -/
  kmallocs : List Bool
  /-- Newest first. -/
  sent : List Datagram

/-- A slot that was never used. -/
def freeSocket : Socket where
  valid := false
  domain := .unspec
  type := .udp
  localPort := 0
  remotePort := 0
  remoteIp := ⟨0, 0, 0, 0⟩
  rx := ⟨fun _ => 0, 0, 0, 0⟩
  tcpState := .closed
  sndNxt := 0
  rcvNxt := 0
  sndUna := 0
  rtxTime := 0
  rtxCount := 0
  parentListener := none
  acceptQueue := []
  bound := false
  connected := false
  closed := false
  shutdownRead := false
  shutdownWrite := false
  soError := 0
  peer := none

/-- The socket table at boot. -/
def emptyNet : Net := ⟨fun _ => freeSocket, 0, [], []⟩

namespace Net

def kmalloc (n : Net) : Bool × Net :=
  match n.kmallocs with
  | [] => (true, n)
  | ok :: rest => (ok, { n with kmallocs := rest })

def send (n : Net) (destIp : Ip) (proto : UInt8) (payload : List UInt8) : Net :=
  { n with sent := ⟨destIp, proto, payload⟩ :: n.sent }

def modify (n : Net) (i : SockId) (f : Socket → Socket) : Net :=
  { n with sockets := Function.update n.sockets i (f (n.sockets i)) }

variable (n : Net) (i : SockId)

@[simp]
theorem kmalloc_sockets : n.kmalloc.2.sockets = n.sockets := by
  unfold kmalloc
  split <;> rfl

@[simp]
theorem kmalloc_sent : n.kmalloc.2.sent = n.sent := by
  unfold kmalloc
  split <;> rfl

@[simp]
theorem kmalloc_now : n.kmalloc.2.now = n.now := by
  unfold kmalloc
  split <;> rfl

@[simp]
theorem modify_kmalloc (f : Socket → Socket) : (n.modify i f).kmalloc.1 = n.kmalloc.1 := by
  unfold kmalloc modify
  dsimp only
  split <;> rfl

theorem modify_kmalloc_net (f : Socket → Socket) : (n.modify i f).kmalloc.2 = n.kmalloc.2.modify i f := by
  unfold kmalloc modify
  dsimp only
  split <;> rfl

@[simp]
theorem modify_now (f : Socket → Socket) : (n.modify i f).now = n.now := rfl

@[simp]
theorem send_sockets (destIp : Ip) (proto : UInt8) (payload : List UInt8) :
    (n.send destIp proto payload).sockets = n.sockets := rfl

@[simp]
theorem modify_same (f : Socket → Socket) : (n.modify i f).sockets i = f (n.sockets i) := by
  simp [modify]

theorem modify_of_ne (f : Socket → Socket) (h : j ≠ i) : (n.modify i f).sockets j = n.sockets j := by
  simp [modify, h]

variable {n i}

@[elab_as_elim]
theorem modify_ind {f : Socket → Socket} {motive : SockId → Socket → Prop} (j : SockId)
    (hself : motive i (f (n.sockets i))) (hother : j ≠ i → motive j (n.sockets j)) :
    motive j ((n.modify i f).sockets j) := by
  rw [modify]
  dsimp only
  exact update_ind j hself hother

end Net

end Litenix
