import Litenix.Signals

/-! The signal masks of all tasks. The writers of `signal_blocked` are `sys_rt_sigprocmask`, the delivery of a
signal and `sys_rt_sigreturn`; `task_fork` and `task_clone_thread` hand the mask on. User memory and the
register frame are inputs of every step, so that a run covers whatever the programs put there. A task that
exits leaves the table. -/

namespace Litenix.Signals

open Lib Function

variable {m out : Machine} {s : SignalState} {blocked a : UInt64}

def einval : UInt64 := -22

/-- `struct sigaction_linux` in memory. -/
def Sigaction.read (c : Bytes) : Sigaction := ⟨c.u64 0, c.u64 8, c.u64 16, c.u64 24⟩

def Sigaction.words (act : Sigaction) : List UInt64 := [act.saHandler, act.saFlags, act.saRestorer, act.saMask]

def sigactionSize : Nat := 32

/-- A copy to the user that a null pointer leaves out; `none` is a fault. -/
def Machine.copyOut (m : Machine) (ptr : UInt64) (words : List UInt64) : Option Machine :=
  if ptr = 0 then some m
  else (m.mem.copyToUser ptr (words.flatMap Bytes.le64)).map fun mem => { m with mem := mem }

def sysRtSigaction (m : Machine) : Machine × UInt64 :=
  let sig := m.frame.rdi.toUInt32.toInt32.toInt
  if sig ≤ 0 ∨ 64 ≤ sig ∨ m.frame.r10 ≠ 8 then (m, einval)
  else if sig = 9 ∨ sig = 19 then (m, einval)
  else
    match m.copyOut m.frame.rdx (m.task.sigactions sig.toNat).words with
    | none => (m, efault)
    | some m =>
      if m.frame.rsi = 0 then (m, 0)
      else
        match m.mem.copyFromUser m.frame.rsi sigactionSize with
        | none => (m, efault)
        | some c =>
          let actions := update m.task.sigactions sig.toNat (Sigaction.read c)
          ({ m with task := { m.task with sigactions := actions } }, 0)

/-- The new mask of `sys_rt_sigprocmask`, if `how` is one of its three values. -/
def maskHow (how : UInt32) (blocked newMask : UInt64) : Option UInt64 :=
  if how = 0 then some (blocked ||| newMask)
  else if how = 1 then some (blocked &&& ~~~ newMask)
  else if how = 2 then some newMask
  else none

def sysRtSigprocmask (m : Machine) : Machine × UInt64 :=
  if m.frame.r10 ≠ 8 then (m, einval)
  else
    match m.copyOut m.frame.rdx [m.task.signalBlocked] with
    | none => (m, efault)
    | some m =>
      if m.frame.rsi = 0 then (m, 0)
      else
        match m.mem.copyFromUser m.frame.rsi 8 with
        | none => (m, efault)
        | some c =>
          match maskHow m.frame.rdi.toUInt32 m.task.signalBlocked (c.u64 0 &&& ~~~ unblockable) with
          | none => (m, einval)
          | some mask => ({ m with task := { m.task with signalBlocked := mask } }, 0)

/-! ### All tasks -/

structure TaskSignals where
  pid : Nat
  pending : UInt64
  blocked : UInt64

/-- The tasks by their tid, and the signal actions of the processes by their pid. -/
structure SignalState where
  tasks : Nat → Option TaskSignals
  actions : Nat → Nat → Sigaction
  nextTid : Nat
  nextPid : Nat

namespace SignalState

variable (s : SignalState) (tid : Nat) (task : TaskSignals)

/-- The machine that runs a task. -/
def machine (mem : UserMem) (frame : SyscallFrame) : Machine where
  task := { signalPending := task.pending, signalBlocked := task.blocked, sigactions := s.actions task.pid }
  mem := mem
  frame := frame

def setTask (task : Option TaskSignals) : SignalState := { s with tasks := update s.tasks tid task }

/-- The state after a part of a system call. -/
def commit (m : Machine) : SignalState :=
  { s.setTask tid (some { task with pending := m.task.signalPending, blocked := m.task.signalBlocked }) with
    actions := update s.actions task.pid m.task.sigactions }

/-- A new task with the mask of its parent. -/
def addTask (pid : Nat) : SignalState :=
  { s.setTask s.nextTid (some ⟨pid, 0, task.blocked⟩) with nextTid := s.nextTid + 1 }

/-- `task_fork`, where all allocations succeed. -/
def fork : SignalState :=
  { s.addTask task s.nextPid with
    actions := update s.actions s.nextPid (s.actions task.pid), nextPid := s.nextPid + 1 }

/-- `task_send_signal`, but for waking the task. -/
def send (sig : Nat) : SignalState :=
  let handler := (s.actions task.pid sig).saHandler
  if sig = 0 ∨ 64 ≤ sig then s
  else if handler = sigIgn then s
  else if handler = sigDfl && ignoredByDefault sig then s
  else s.setTask tid (some { task with pending := task.pending ||| sigBit sig })

end SignalState

def cloneVm : UInt64 := 0x100
def cloneThread : UInt64 := 0x10000

/-- What the current task does, or what happens to it. The calls end with a delivery, which is a step of its
own; the interrupt path delivers without a frame. `made` is false when an allocation fails. -/
inductive SignalOp where
  | sigaction (mem : UserMem) (frame : SyscallFrame)
  | sigprocmask (mem : UserMem) (frame : SyscallFrame)
  | sigreturn (mem : UserMem) (frame : SyscallFrame)
  | deliver (hasFrame : Bool) (mem : UserMem) (frame : SyscallFrame)
  | fork (made : Bool)
  | clone (flags : UInt64) (made : Bool)
  | send (sig : Nat)

def taskStep (s : SignalState) (tid : Nat) (task : TaskSignals) : SignalOp → SignalState
  | .sigaction mem frame => s.commit tid task (sysRtSigaction (s.machine task mem frame)).1
  | .sigprocmask mem frame => s.commit tid task (sysRtSigprocmask (s.machine task mem frame)).1
  | .sigreturn mem frame => s.commit tid task (sysRtSigreturn (s.machine task mem frame)).1
  | .deliver hasFrame mem frame =>
    match taskDeliverSignals hasFrame (s.machine task mem frame) with
    | .ok m => s.commit tid task m
    | .error _ => s.setTask tid none
  | .fork made => if made then s.fork task else s
  | .clone flags made =>
    if !made then s
    else if flags &&& cloneVm = 0 ∧ flags &&& cloneThread = 0 then s.fork task
    else s.addTask task task.pid
  | .send sig => s.send tid task sig

/-- A step of the task `tid`; a task that does not exist does nothing. -/
def signalStep (s : SignalState) (step : Nat × SignalOp) : Except Empty SignalState :=
  match s.tasks step.1 with
  | none => .ok s
  | some task => .ok (taskStep s step.1 task step.2)

/-! ### The masks -/

def Unblocked (mask : UInt64) : Prop := mask &&& unblockable = 0

instance (mask : UInt64) : Decidable (Unblocked mask) := inferInstanceAs (Decidable (_ = _))

/-- No task blocks `SIGKILL` or `SIGSTOP`, so a pending `SIGKILL` is among the signals that the delivery looks
at. -/
structure KillHeard (s : SignalState) : Prop where
  unblocked : ∀ tid task, s.tasks tid = some task → Unblocked task.blocked
  active : ∀ tid task, s.tasks tid = some task → task.pending &&& sigBit 9 ≠ 0 → ∀ mem frame,
    (s.machine task mem frame).task.active &&& sigBit 9 ≠ 0

theorem Unblocked.active_kill (h : Unblocked blocked) (pending : UInt64) :
    pending &&& ~~~ blocked &&& sigBit 9 = pending &&& sigBit 9 := by
  have hkill : blocked &&& sigBit 9 = 0 := by
    have hbit : blocked &&& unblockable &&& sigBit 9 = 0 := by rw [h, UInt64.zero_and]
    rwa [UInt64.and_assoc, show unblockable &&& sigBit 9 = sigBit 9 by decide] at hbit
  rw [UInt64.and_assoc, uint64_not_and hkill]

theorem killHeard_iff : KillHeard s ↔ ∀ tid task, s.tasks tid = some task → Unblocked task.blocked := by
  constructor
  · exact fun h => h.unblocked
  intro h
  refine ⟨h, fun tid task htask hpending mem frame => ?_⟩
  have hactive := (h tid task htask).active_kill task.pending
  show task.pending &&& ~~~ task.blocked &&& sigBit 9 ≠ 0
  rwa [hactive]

theorem Unblocked.or (ha : Unblocked a) (hb : Unblocked b) : Unblocked (a ||| b) := by
  rw [Unblocked, uint64_or_and, ha, hb, UInt64.or_zero]

theorem Unblocked.and (ha : Unblocked a) (b : UInt64) : Unblocked (a &&& b) := by
  rw [Unblocked, UInt64.and_assoc, UInt64.and_comm b, ← UInt64.and_assoc, ha, UInt64.zero_and]

theorem unblocked_masked (a : UInt64) : Unblocked (a &&& ~~~ unblockable) := by
  rw [Unblocked, UInt64.and_assoc, UInt64.not_and_self, UInt64.and_zero]

/-! ### The writers -/

theorem copyOut_task (h : m.copyOut ptr words = some out) : out.task = m.task := by
  rw [Machine.copyOut] at h
  split at h
  · cases h
    rfl
  · obtain ⟨mem, _, rfl⟩ := Option.map_eq_some_iff.mp h
    rfl

theorem sysRtSigaction_blocked (m : Machine) : (sysRtSigaction m).1.task.signalBlocked = m.task.signalBlocked := by
  simp only [sysRtSigaction]
  split
  · rfl
  split
  · rfl
  split
  · rfl
  rename_i hout
  rw [← copyOut_task hout]
  split
  · rfl
  · split <;> rfl

theorem maskHow_unblocked (hblocked : Unblocked blocked)
    (hnew : Unblocked newMask) (h : maskHow how blocked newMask = some mask) : Unblocked mask := by
  simp only [maskHow] at h
  split at h
  · cases h
    exact hblocked.or hnew
  split at h
  · cases h
    exact hblocked.and _
  split at h
  · cases h
    exact hnew
  · cases h

theorem sysRtSigprocmask_unblocked (hm : Unblocked m.task.signalBlocked) :
    Unblocked (sysRtSigprocmask m).1.task.signalBlocked := by
  simp only [sysRtSigprocmask]
  split
  · exact hm
  split
  · exact hm
  rename_i hout
  rw [← copyOut_task hout] at hm
  split
  · exact hm
  split
  · exact hm
  split
  · exact hm
  · rename_i hhow
    exact maskHow_unblocked hm (unblocked_masked _) hhow

theorem startHandler_unblocked (h : startHandler m sig act = .ok out) : Unblocked out.task.signalBlocked := by
  simp only [startHandler] at h
  split at h
  · cases h
  split at h
  · cases h
  · cases h
    exact unblocked_masked _

theorem taskDeliverSignals_unblocked (hm : Unblocked m.task.signalBlocked)
    (h : taskDeliverSignals hasFrame m = .ok out) : Unblocked out.task.signalBlocked := by
  have hdelivered := taskDeliverSignals_delivered h
  cases hsig : if hasFrame then m.task.next else none with
  | none =>
    rw [hsig] at hdelivered
    rwa [hdelivered.2.2]
  | some sig =>
    rw [hsig] at hdelivered
    obtain ⟨_, -, hstart⟩ := hdelivered
    exact startHandler_unblocked hstart

/-! ### Steps and runs -/

/-- The one step that takes its mask from the user as it is: the saved mask has neither bit. -/
def SignalCond (s : SignalState) (step : Nat × SignalOp) : Prop :=
  match s.tasks step.1, step.2 with
  | some task, .sigreturn mem frame => ∀ uc ∈ (s.machine task mem frame).savedContext, Unblocked uc.ucSigmask
  | _, _ => True

instance (s : SignalState) (step : Nat × SignalOp) : Decidable (SignalCond s step) := by
  unfold SignalCond
  split <;> infer_instance

theorem KillHeard.setTask (hs : KillHeard s) (tid : Nat) (new : Option TaskSignals)
    (hnew : ∀ task, new = some task → Unblocked task.blocked) : KillHeard (s.setTask tid new) := by
  refine killHeard_iff.mpr fun other task htask => ?_
  simp only [SignalState.setTask, update_apply] at htask
  split at htask
  · exact hnew task htask
  · exact hs.unblocked other task htask

theorem KillHeard.congr (hs : KillHeard s) (htasks : t.tasks = s.tasks) : KillHeard t := by
  refine killHeard_iff.mpr fun tid task htask => ?_
  rw [htasks] at htask
  exact hs.unblocked tid task htask

theorem KillHeard.commit_iff (hs : KillHeard s) (tid : Nat) (task : TaskSignals) (m : Machine) :
    KillHeard (s.commit tid task m) ↔ Unblocked m.task.signalBlocked := by
  constructor
  · intro h
    exact h.unblocked tid { task with pending := m.task.signalPending, blocked := m.task.signalBlocked }
      (by simp [SignalState.commit, SignalState.setTask])
  intro hm
  refine (hs.setTask tid (some { task with
    pending := m.task.signalPending, blocked := m.task.signalBlocked }) ?_).congr rfl
  rintro _ ⟨⟩
  exact hm

section

variable {s : SignalState} {task : TaskSignals} (hs : KillHeard s) (htask : Unblocked task.blocked)

include hs htask

theorem KillHeard.addTask (pid : Nat) : KillHeard (s.addTask task pid) := by
  refine (hs.setTask s.nextTid (some ⟨pid, 0, task.blocked⟩) ?_).congr rfl
  rintro _ ⟨⟩
  exact htask

theorem KillHeard.fork : KillHeard (s.fork task) :=
  (hs.addTask htask s.nextPid).congr rfl

theorem KillHeard.send (tid sig : Nat) : KillHeard (s.send tid task sig) := by
  simp only [SignalState.send]
  split
  · exact hs
  split
  · exact hs
  · split
    · exact hs
    · exact hs.setTask tid _ (by rintro _ ⟨⟩; exact htask)

theorem KillHeard.sigreturn_iff (mem : UserMem) (frame : SyscallFrame) :
    KillHeard (s.commit tid task (sysRtSigreturn (s.machine task mem frame)).1) ↔
      ∀ uc ∈ (s.machine task mem frame).savedContext, Unblocked uc.ucSigmask := by
  rw [hs.commit_iff, sysRtSigreturn]
  cases (s.machine task mem frame).savedContext with
  | none => exact iff_of_true htask (fun _ h => absurd h (by simp))
  | some uc => simp

end

/-- **One step.** -/
theorem signalStep_iff (s : SignalState) (step : Nat × SignalOp) (hs : KillHeard s) :
    (∀ t, signalStep s step = .ok t → KillHeard t) ↔ SignalCond s step := by
  obtain ⟨tid, op⟩ := step
  simp only [signalStep, SignalCond]
  cases htask : s.tasks tid with
  | none => simpa using hs
  | some task =>
  have hmask := hs.unblocked tid task htask
  simp only [Except.ok.injEq, forall_eq']
  cases op with
  | sigaction mem frame =>
    refine iff_of_true ((hs.commit_iff _ _ _).mpr ?_) trivial
    rw [sysRtSigaction_blocked]
    exact hmask
  | sigprocmask mem frame =>
    exact iff_of_true ((hs.commit_iff _ _ _).mpr (sysRtSigprocmask_unblocked hmask)) trivial
  | sigreturn mem frame => exact hs.sigreturn_iff hmask mem frame
  | deliver hasFrame mem frame =>
    refine iff_of_true ?_ trivial
    simp only [taskStep]
    split
    · rename_i m hm
      exact (hs.commit_iff _ _ _).mpr (taskDeliverSignals_unblocked hmask hm)
    · exact hs.setTask tid _ (fun _ h => absurd h (by simp))
  | fork made =>
    refine iff_of_true ?_ trivial
    cases made with
    | false => exact hs
    | true => exact hs.fork hmask
  | clone flags made =>
    refine iff_of_true ?_ trivial
    simp only [taskStep]
    split
    · exact hs
    · split
      · exact hs.fork hmask
      · exact hs.addTask hmask _
  | send sig => exact iff_of_true (hs.send hmask tid sig) trivial

/-- **`SIGKILL` and `SIGSTOP` are never blocked.** From a state in which no task blocks them, every state of a
run is such a state exactly if the contexts that `rt_sigreturn` reads leave the two signals out of their
mask. -/
theorem kill_heard_iff (s : SignalState) (steps : List (Nat × SignalOp)) (hs : KillHeard s) :
    AllSteps signalStep (fun s step => ∀ t, signalStep s step = .ok t → KillHeard t) s steps ↔
      AllSteps signalStep SignalCond s steps :=
  allSteps_inv_iff signalStep_iff hs

/-- One process with one task and no handlers. -/
def oneTask : SignalState where
  tasks tid := if tid = 1 then some ⟨1, 0, 0⟩ else none
  actions _ _ := ⟨0, 0, 0, 0⟩
  nextTid := 2
  nextPid := 2

theorem oneTask_killHeard : KillHeard oneTask := by
  refine killHeard_iff.mpr fun tid task htask => ?_
  simp only [oneTask] at htask
  split at htask
  · cases htask
    rfl
  · cases htask

/-- A page of bytes 255 holds the mask of a `rt_sigprocmask`, and an action whose mask blocks all signals. -/
def callFrame (rdi r10 : UInt64) : SyscallFrame :=
  { (filledStack 255).frame with rdi := rdi, rsi := 0x10000, r10 := r10 }

/-- The task blocks what it may and unblocks it, sets a handler for signal 10, takes the signal, forks and starts
a thread in the handler, returns from it and is killed. -/
def handlerSteps : List (Nat × SignalOp) :=
  [(1, .sigprocmask (filledStack 255).mem (callFrame 2 8)),
    (1, .sigprocmask (filledStack 255).mem (callFrame 1 8)),
    (1, .sigaction (filledStack 255).mem (callFrame 10 8)),
    (1, .send 10),
    (1, .deliver true (filledStack 255).mem (callFrame 0 0)),
    (1, .fork true),
    (1, .clone 0x10100 true),
    (1, .sigreturn ownContext.mem ownContext.frame),
    (1, .send 9),
    (1, .deliver false ownContext.mem ownContext.frame)]

theorem handlerSteps_kill_heard :
    KillHeard oneTask ∧ AllSteps signalStep SignalCond oneTask handlerSteps ∧
      AllSteps signalStep (fun s step => ∀ t, signalStep s step = .ok t → KillHeard t) oneTask handlerSteps := by
  have hcond : AllSteps signalStep SignalCond oneTask handlerSteps := .of_decide (by decide +kernel)
  exact ⟨oneTask_killHeard, hcond, (kill_heard_iff _ _ oneTask_killHeard).mpr hcond⟩

/-- A stack of bytes 255 makes the task block every signal. -/
theorem sigreturn_blocks_kill :
    ¬ ∀ (s : SignalState) (steps : List (Nat × SignalOp)), KillHeard s →
      AllSteps signalStep (fun s step => ∀ t, signalStep s step = .ok t → KillHeard t) s steps := by
  intro hall
  have hrun := hall oneTask [(1, .sigreturn (filledStack 255).mem (filledStack 255).frame)] oneTask_killHeard
  have hcond := (signalStep_iff _ _ oneTask_killHeard).mp hrun.1
  exact absurd hcond (by decide +kernel)

end Litenix.Signals
