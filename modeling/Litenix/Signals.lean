import Litenix.PageTable
import Litenix.Lib.Bytes

/-! Signal delivery on the way out of a system call, and the return from a handler: `task_deliver_signals`
(`sched/task.c`), `sys_rt_sigreturn` (`sys/sys_process.c`), `syscall_dispatch` (`sys/syscall_table.c`)
and the exit path of `syscall_handler` (`syscall_stub.S`). The user memory is the view the running task
has of it, with the addresses that the kernel can read and write on its behalf; the current task is a
running user task with a process. -/

namespace Litenix.Signals

open Lib

variable {m out : Machine}
variable {call : Machine → Machine × UInt64} {hasFrame : Bool}

/-! ### User memory -/

structure UserMem where
  bytes : Bytes
  readable : Nat → Bool
  writable : Nat → Bool

def vmmIsUserAddress (virt : Nat) : Bool := virt < vmmKernelBase

def uaccessOk (ptr : UInt64) (len : Nat) : Bool :=
  if ptr = 0 then false
  else if len = 0 then true
  else
    let last := ptr.toNat + (len - 1)
    if 2 ^ 64 ≤ last then false else vmmIsUserAddress ptr.toNat && vmmIsUserAddress last

/-- The test of `vmm_validate_user_ptr_ex` for a length that is not 0: the bounds and every byte. -/
def accessible (allowed : Nat → Bool) (ptr : UInt64) (len : Nat) : Bool :=
  vmmUserBase ≤ ptr.toNat && ptr.toNat + (len - 1) ≤ vmmUserTop &&
    (List.range len).all fun i => allowed (ptr.toNat + i)

/-- The bytes that `copy_from_user` finds, from address `src` on. -/
def UserMem.copyFromUser (mem : UserMem) (src : UInt64) (len : Nat) : Option Bytes :=
  if uaccessOk src len && accessible mem.readable src len then some fun i => mem.bytes (src.toNat + i) else none

def UserMem.copyToUser (mem : UserMem) (dst : UInt64) (bytes : List UInt8) : Option UserMem :=
  if uaccessOk dst bytes.length && accessible mem.writable dst bytes.length then
    some { mem with bytes := mem.bytes.put dst.toNat bytes }
  else none

/-! ### The structures of `sys/signal.h` and `sys/syscall.h` -/

structure SyscallFrame where
  rax : UInt64
  rcx : UInt64
  rdi : UInt64
  rsi : UInt64
  rdx : UInt64
  r8 : UInt64
  r9 : UInt64
  r10 : UInt64
  r11 : UInt64
  rbx : UInt64
  rbp : UInt64
  r12 : UInt64
  r13 : UInt64
  r14 : UInt64
  r15 : UInt64
  userRsp : UInt64
  deriving DecidableEq, Repr

structure Sigaction where
  saHandler : UInt64
  saFlags : UInt64
  saRestorer : UInt64
  saMask : UInt64
  deriving DecidableEq, Repr

/-- The registers of `struct sigcontext_linux`; the segments are kept in one word. -/
structure Sigcontext where
  r8 : UInt64
  r9 : UInt64
  r10 : UInt64
  r11 : UInt64
  r12 : UInt64
  r13 : UInt64
  r14 : UInt64
  r15 : UInt64
  rdi : UInt64
  rsi : UInt64
  rbp : UInt64
  rbx : UInt64
  rdx : UInt64
  rax : UInt64
  rcx : UInt64
  rsp : UInt64
  rip : UInt64
  eflags : UInt64
  segments : UInt64
  deriving DecidableEq, Repr

structure Ucontext where
  ucMcontext : Sigcontext
  ucSigmask : UInt64
  deriving DecidableEq, Repr

def sigframeSize : Nat := 256
def infoOffset : UInt64 := 8
def ucOffset : UInt64 := 24
def ucontextSize : Nat := 232

/-- The words of `struct ucontext_linux` in memory: flags, link and stack take the first 40 bytes. -/
def Ucontext.read (c : Bytes) : Ucontext where
  ucMcontext :=
    { r8 := c.u64 40, r9 := c.u64 48, r10 := c.u64 56, r11 := c.u64 64, r12 := c.u64 72, r13 := c.u64 80,
      r14 := c.u64 88, r15 := c.u64 96, rdi := c.u64 104, rsi := c.u64 112, rbp := c.u64 120, rbx := c.u64 128,
      rdx := c.u64 136, rax := c.u64 144, rcx := c.u64 152, rsp := c.u64 160, rip := c.u64 168,
      eflags := c.u64 176, segments := c.u64 184 }
  ucSigmask := c.u64 224

/-- The words of `struct rt_sigframe` as the delivery fills them: the fields it does not set are 0. -/
def sigframeWords (restorer sig : UInt64) (uc : Ucontext) : List UInt64 :=
  let sc := uc.ucMcontext
  [restorer, sig, 0, 0, 0, 0, 0, 0,
    sc.r8, sc.r9, sc.r10, sc.r11, sc.r12, sc.r13, sc.r14, sc.r15, sc.rdi, sc.rsi, sc.rbp, sc.rbx, sc.rdx, sc.rax,
    sc.rcx, sc.rsp, sc.rip, sc.eflags, sc.segments, 0, 0, 0, 0, uc.ucSigmask]

/-- `USER_CODE_RPL3` in the first half-word and `USER_DATA_RPL3` in the last. -/
def userSegments : UInt64 := 0x001b000000000023

/-! ### Delivery -/

structure Task where
  signalPending : UInt64
  signalBlocked : UInt64
  sigactions : Nat → Sigaction

/-- What a system call works on: the current task, its memory and its register frame. -/
structure Machine where
  task : Task
  mem : UserMem
  frame : SyscallFrame

def sigBit (sig : Nat) : UInt64 := 1 <<< UInt64.ofNat sig

/-- `SIGKILL` and `SIGSTOP`. -/
def unblockable : UInt64 := sigBit 9 ||| sigBit 19

def sigDfl : UInt64 := 0
def sigIgn : UInt64 := 1

/-- `SIGCHLD`, `SIGURG` and `SIGWINCH`. -/
def ignoredByDefault (sig : Nat) : Bool := sig = 17 || sig = 23 || sig = 28

def Machine.clearPending (m : Machine) (sig : Nat) : Machine :=
  { m with task := { m.task with signalPending := m.task.signalPending &&& ~~~ sigBit sig } }

/-- The context that the delivery saves. -/
def Machine.context (m : Machine) : Ucontext where
  ucMcontext :=
    { r8 := m.frame.r8, r9 := m.frame.r9, r10 := m.frame.r10, r11 := m.frame.r11, r12 := m.frame.r12,
      r13 := m.frame.r13, r14 := m.frame.r14, r15 := m.frame.r15, rdi := m.frame.rdi, rsi := m.frame.rsi,
      rbp := m.frame.rbp, rbx := m.frame.rbx, rdx := m.frame.rdx, rax := m.frame.rax, rcx := m.frame.rcx,
      rsp := m.frame.userRsp, rip := m.frame.rcx, eflags := m.frame.r11, segments := userSegments }
  ucSigmask := m.task.signalBlocked

/-- The part of `task_deliver_signals` that starts a handler of the user. An error is the code with which
the task exits. -/
def startHandler (m : Machine) (sig : Nat) (act : Sigaction) : Except Int Machine :=
  let newRsp := (m.frame.userRsp - UInt64.ofNat sigframeSize) &&& ~~~ (15 : UInt64)
  if !uaccessOk newRsp sigframeSize then .error (-11)
  else
    let kframe := (sigframeWords act.saRestorer (UInt64.ofNat sig) m.context).flatMap Bytes.le64
    match m.mem.copyToUser newRsp kframe with
    | none => .error (-11)
    | some mem =>
      .ok
        { task := { m.task with
            signalBlocked := (m.task.signalBlocked ||| (act.saMask ||| sigBit sig)) &&& ~~~ unblockable }
          mem := mem
          frame := { m.frame with
            rcx := act.saHandler, userRsp := newRsp, rdi := UInt64.ofNat sig,
            rsi := newRsp + infoOffset, rdx := newRsp + ucOffset } }

/-- The loop of `task_deliver_signals` over the signals that are left. The interrupt path calls it without
a frame: then the handlers of the user wait. -/
def deliverLoop (hasFrame : Bool) (active : UInt64) : List Nat → Machine → Except Int Machine
  | [], m => .ok m
  | sig :: rest, m =>
    if active &&& sigBit sig = 0 then deliverLoop hasFrame active rest m
    else
      let act := m.task.sigactions sig
      if act.saHandler = sigIgn then deliverLoop hasFrame active rest (m.clearPending sig)
      else if act.saHandler = sigDfl then
        if ignoredByDefault sig then deliverLoop hasFrame active rest (m.clearPending sig)
        else .error (-sig)
      else if !hasFrame then deliverLoop hasFrame active rest m
      else startHandler (m.clearPending sig) sig act

def Task.active (task : Task) : UInt64 := task.signalPending &&& ~~~ task.signalBlocked

/-- The signals 1 to 63, in the order of the loop. -/
def signals : List Nat := List.range' 1 63

def taskDeliverSignals (hasFrame : Bool) (m : Machine) : Except Int Machine :=
  if m.task.active = 0 then .ok m else deliverLoop hasFrame m.task.active signals m

/-! ### The return from a handler -/

def efault : UInt64 := -14

/-- The context at the address that `sys_rt_sigreturn` takes from the stack pointer. -/
def Machine.savedContext (m : Machine) : Option Ucontext :=
  (m.mem.copyFromUser (m.frame.userRsp - 8 + ucOffset) ucontextSize).map Ucontext.read

/-- The frame and the mask are taken from the context as they are. -/
def sysRtSigreturn (m : Machine) : Machine × UInt64 :=
  match m.savedContext with
  | none => (m, efault)
  | some uc =>
    let sc := uc.ucMcontext
    ({ m with
        frame :=
          { rax := sc.rax, rcx := sc.rip, rdi := sc.rdi, rsi := sc.rsi, rdx := sc.rdx, r8 := sc.r8, r9 := sc.r9,
            r10 := sc.r10, r11 := sc.eflags, rbx := sc.rbx, rbp := sc.rbp, r12 := sc.r12, r13 := sc.r13,
            r14 := sc.r14, r15 := sc.r15, userRsp := sc.rsp }
        task := { m.task with signalBlocked := uc.ucSigmask } }, sc.rax)

/-- `syscall_dispatch` with the entry of its table for the number of the call. -/
def syscallDispatch (call : Machine → Machine × UInt64) (m : Machine) : Except Int (Machine × UInt64) :=
  let (m, ret) := call m
  (taskDeliverSignals true { m with frame := { m.frame with rax := ret } }).map fun m => (m, ret)

/-- The exit path of `syscall_handler` stores the result in the frame and pops it for `SYSRET`. -/
def syscallHandler (call : Machine → Machine × UInt64) (m : Machine) : Except Int Machine :=
  (syscallDispatch call m).map fun (m, ret) => { m with frame := { m.frame with rax := ret } }

/-! ### What `SYSRET` may load -/

/-- The flags with which a user task starts (`switch.S`): the interrupt flag and the bit that is always 1. -/
def userRflags : UInt64 := 0x202

/-- The bits a user program may change: CF, PF, AF, ZF, SF, TF, DF, OF, AC and ID. -/
def userBits : UInt64 := 0x240DD5

def FlagsOk (rflags : UInt64) : Prop := rflags &&& ~~~ userBits = userRflags

def AddressOk (addr : UInt64) : Prop := addr.toNat ≤ vmmUserTop

instance (rflags : UInt64) : Decidable (FlagsOk rflags) := inferInstanceAs (Decidable (_ = _))
instance (addr : UInt64) : Decidable (AddressOk addr) := inferInstanceAs (Decidable (_ ≤ _))

/-- The return address is one of the user half and the privileged and reserved flags are those of a user
task. -/
structure SyscallFrame.Safe (frame : SyscallFrame) : Prop where
  address : AddressOk frame.rcx
  flags : FlagsOk frame.r11

/-! ### What a delivery leaves of the frame -/

/-- A signal that the loop does not pass over. -/
def Task.takes (task : Task) (sig : Nat) : Bool :=
  let handler := (task.sigactions sig).saHandler
  handler ≠ sigIgn && !(handler = sigDfl && ignoredByDefault sig)

/-- The first pending signal that is neither blocked nor ignored. -/
def Task.next (task : Task) : Option Nat :=
  signals.find? fun sig => decide (task.active &&& sigBit sig ≠ 0) && task.takes sig

/-- The address to which the task goes on: that of a handler that is started first, or else the given
one. -/
def Task.resume (task : Task) (addr : UInt64) : UInt64 :=
  match task.next with
  | none => addr
  | some sig => (task.sigactions sig).saHandler

@[simp] theorem clearPending_takes (m : Machine) (sig other : Nat) :
    (m.clearPending sig).task.takes other = m.task.takes other := rfl

theorem startHandler_frame (h : startHandler m sig act = .ok out) :
    out.frame.rcx = act.saHandler ∧ out.frame.r11 = m.frame.r11 := by
  simp only [startHandler] at h
  split at h
  · cases h
  split at h
  · cases h
  · cases h
    exact ⟨rfl, rfl⟩

/-- Signals that are passed over leave the frame, the memory and the mask. -/
def Passed (m out : Machine) : Prop :=
  out.frame = m.frame ∧ out.mem = m.mem ∧ out.task.signalBlocked = m.task.signalBlocked

/-- A delivery has passed over signals, and then started the handler of one or none. -/
def Delivered (m out : Machine) : Option Nat → Prop
  | none => Passed m out
  | some sig => ∃ passed, Passed m passed ∧ startHandler passed sig (m.task.sigactions sig) = .ok out

@[simp] theorem clearPending_delivered (sig : Nat) (taken : Option Nat) :
    Delivered (m.clearPending sig) out taken ↔ Delivered m out taken := by
  cases taken <;> rfl

/-- **The loop.** A loop that returns has passed over the signals before the first one taken and started
the handler of that one, or it has taken none. -/
theorem deliverLoop_delivered {active : UInt64} :
    ∀ {sigs : List Nat} {m out : Machine}, deliverLoop hasFrame active sigs m = .ok out →
      Delivered m out (if hasFrame then
        sigs.find? fun sig => decide (active &&& sigBit sig ≠ 0) && m.task.takes sig else none) := by
  intro sigs
  induction sigs with
  | nil =>
    intro m out h
    cases h
    rw [List.find?_nil, ite_self]
    exact ⟨rfl, rfl, rfl⟩
  | cons sig rest ih =>
  intro m out h
  rw [deliverLoop] at h
  by_cases hactive : active &&& sigBit sig = 0
  · rw [if_pos hactive] at h
    simpa [hactive] using ih h
  rw [if_neg hactive] at h
  by_cases hign : (m.task.sigactions sig).saHandler = sigIgn
  · rw [if_pos hign] at h
    have htakes : m.task.takes sig = false := by simp [Task.takes, hign]
    simpa [htakes] using ih (m := m.clearPending sig) h
  rw [if_neg hign] at h
  by_cases hdfl : (m.task.sigactions sig).saHandler = sigDfl
  · rw [if_pos hdfl] at h
    cases hskip : ignoredByDefault sig with
    | false =>
      rw [hskip] at h
      cases h
    | true =>
      rw [hskip] at h
      have htakes : m.task.takes sig = false := by simp [Task.takes, hdfl, hskip]
      simpa [htakes] using ih (m := m.clearPending sig) h
  · rw [if_neg hdfl] at h
    have htakes : m.task.takes sig = true := by simp [Task.takes, hign, hdfl]
    cases hasFrame with
    | false => simpa using ih h
    | true =>
      have hstarted : Delivered m out (some sig) := ⟨m.clearPending sig, ⟨rfl, rfl, rfl⟩, h⟩
      simpa [hactive, htakes] using hstarted

theorem Task.next_of_idle {task : Task} (h : task.active = 0) : task.next = none := by
  simp [Task.next, h]

theorem taskDeliverSignals_delivered (h : taskDeliverSignals hasFrame m = .ok out) :
    Delivered m out (if hasFrame then m.task.next else none) := by
  rw [taskDeliverSignals] at h
  split at h
  · rename_i hidle
    cases h
    rw [Task.next_of_idle hidle, ite_self]
    exact ⟨rfl, rfl, rfl⟩
  · exact deliverLoop_delivered h

theorem taskDeliverSignals_frame (h : taskDeliverSignals true m = .ok out) :
    out.frame.r11 = m.frame.r11 ∧ out.frame.rcx = m.task.resume m.frame.rcx := by
  have hdelivered := taskDeliverSignals_delivered h
  rw [if_pos rfl] at hdelivered
  unfold Task.resume
  cases hnext : m.task.next with
  | none =>
    rw [hnext] at hdelivered
    rw [hdelivered.1]
    exact ⟨rfl, rfl⟩
  | some sig =>
    rw [hnext] at hdelivered
    obtain ⟨passed, hpassed, hstart⟩ := hdelivered
    obtain ⟨hrcx, hr11⟩ := startHandler_frame hstart
    exact ⟨hr11.trans (by rw [hpassed.1]), hrcx⟩

/-! ### The frame for `SYSRET` -/

/-- What the bytes on the stack and the state of the task have to be. The saved flags have no bit that is
not the user's, and the address at which the task goes on is in the user half: it is the saved one, or
that of a handler that the saved mask lets through. A context that cannot be read changes nothing. -/
def Machine.ReturnsSafely (m : Machine) : Prop :=
  match m.savedContext with
  | none => FlagsOk m.frame.r11 ∧ AddressOk (m.task.resume m.frame.rcx)
  | some uc =>
    FlagsOk uc.ucMcontext.eflags ∧
      AddressOk (({ m.task with signalBlocked := uc.ucSigmask } : Task).resume uc.ucMcontext.rip)

theorem syscallHandler_ok (h : syscallHandler call m = .ok out) :
    ∃ mid, taskDeliverSignals true
        { (call m).1 with frame := { (call m).1.frame with rax := (call m).2 } } = .ok mid ∧
      out = { mid with frame := { mid.frame with rax := (call m).2 } } := by
  simp only [syscallHandler, syscallDispatch] at h
  cases hdeliver : taskDeliverSignals true
      { (call m).1 with frame := { (call m).1.frame with rax := (call m).2 } } with
  | error code =>
    rw [hdeliver] at h
    cases h
  | ok mid =>
    rw [hdeliver] at h
    cases h
    exact ⟨mid, rfl, rfl⟩

/-- **Safe return.** For every content of memory and every state of the task, the frame with which
`rt_sigreturn` leaves the kernel is safe exactly when the saved context is. -/
theorem sigreturn_safe_iff (m out : Machine) (h : syscallHandler sysRtSigreturn m = .ok out) :
    out.frame.Safe ↔ m.ReturnsSafely := by
  obtain ⟨mid, hdeliver, rfl⟩ := syscallHandler_ok h
  obtain ⟨hr11, hrcx⟩ := taskDeliverSignals_frame hdeliver
  have hsafe : mid.frame.Safe ↔ FlagsOk mid.frame.r11 ∧ AddressOk mid.frame.rcx :=
    ⟨fun hsafe => ⟨hsafe.flags, hsafe.address⟩, fun hsafe => ⟨hsafe.2, hsafe.1⟩⟩
  have hpop : ({ mid.frame with rax := (sysRtSigreturn m).2 } : SyscallFrame).Safe ↔ mid.frame.Safe :=
    ⟨fun hsafe => ⟨hsafe.address, hsafe.flags⟩, fun hsafe => ⟨hsafe.address, hsafe.flags⟩⟩
  rw [hpop, hsafe, hr11, hrcx, Machine.ReturnsSafely, sysRtSigreturn]
  cases m.savedContext with
  | none => rfl
  | some uc => rfl

/-- A task with no signal pending, whose stack is filled with one byte. -/
def filledStack (byte : UInt8) : Machine where
  task := { signalPending := 0, signalBlocked := 0, sigactions := fun _ => ⟨0, 0, 0, 0⟩ }
  mem := { bytes := fun _ => byte, readable := fun _ => true, writable := fun _ => true }
  frame :=
    { rax := 15, rcx := 0x400000, rdi := 0, rsi := 0, rdx := 0, r8 := 0, r9 := 0, r10 := 0, r11 := 0x202, rbx := 0,
      rbp := 0, r12 := 0, r13 := 0, r14 := 0, r15 := 0, userRsp := 0x7fff0000 }

/-- A task that returns from a handler whose context is its own frame. -/
def ownContext : Machine :=
  { filledStack 0 with
    mem := { (filledStack 0).mem with
      bytes := Bytes.put (fun _ => 0) (0x7fff0000 - 8)
        ((sigframeWords 0 10 (filledStack 0).context).flatMap Bytes.le64) } }

theorem syscallHandler_idle (h : (call m).1.task.active = 0) :
    syscallHandler call m = .ok { (call m).1 with frame := { (call m).1.frame with rax := (call m).2 } } := by
  simp only [syscallHandler, syscallDispatch, taskDeliverSignals, h]
  rfl

theorem sigreturn_own_context :
    ∃ out, syscallHandler sysRtSigreturn ownContext = .ok out ∧ (out.frame.Safe ↔ ownContext.ReturnsSafely) ∧
      out.frame.Safe := by
  have hidle : (sysRtSigreturn ownContext).1.task.active = 0 := by decide +kernel
  have hrun := syscallHandler_idle hidle
  exact ⟨_, hrun, sigreturn_safe_iff _ _ hrun, by decide +kernel, by decide +kernel⟩

/-- A stack of bytes 255 gives the privileged flags and an address of the kernel. -/
theorem sigreturn_loads_any_frame :
    ¬ ∀ m out : Machine, m.frame.Safe → syscallHandler sysRtSigreturn m = .ok out → out.frame.Safe := by
  intro hall
  have hidle : (sysRtSigreturn (filledStack 255)).1.task.active = 0 := by decide +kernel
  have hsafe := hall (filledStack 255) _ ⟨by decide, by decide⟩ (syscallHandler_idle hidle)
  exact absurd hsafe.address (by decide +kernel)

end Litenix.Signals
