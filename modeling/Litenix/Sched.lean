import Litenix.Lib.Linked
import Litenix.Lib.Run
import Litenix.Lib.Table
import Mathlib.Data.UInt

/-! The scheduler (`scheduler.c`, `wait_queue.c`, `task.c`): tasks, wait queues, the list of timed
sleepers, futexes, signals, and the life of processes and threads. The links of the wait queues and
of the sleep list are kept apart from the other fields of a task; the run queue is a list of tasks.

A call that sleeps ends with a switch to another task. That task goes on where it was switched away
from, so a task records which clean-up it has still to do; the switch does it. -/

namespace Litenix.Sched

open Lib Function

abbrev TaskId := Nat
abbrev ProcId := Nat
abbrev WqId := Nat

inductive TaskState
  | ready
  | running
  | sleeping
  | zombie
deriving DecidableEq

/-- Where a task goes on when it is switched to. -/
inductive Resume
  | code
  | sleepLocked
  | sleepTimeout
  | sleepTicks
deriving DecidableEq

structure Task where
  allocated : Bool
  state : TaskState
  process : ProcId
  waitQueue : Option WqId
  sleepUntil : Nat
  sleepTimedOut : Bool
  futexUaddr : Nat
  clearChildTid : Nat
  priority : Int
  staticPriority : Int
  /-- `TASK_FLAG_IDLE` -/
  idle : Bool
  signalPending : Nat
  signalBlocked : Nat
  exitCode : Int
  resume : Resume
deriving DecidableEq

inductive Handler
  | dfl
  | ign
  | custom
deriving DecidableEq

structure Proc where
  allocated : Bool
  parent : Option ProcId
  children : List ProcId
  mainThread : Option TaskId
  exited : Bool
  exitCode : Int
  sigaction : Nat → Handler

structure WaitQueue where
  head : Option TaskId
  tail : Option TaskId
deriving DecidableEq

structure State where
  tasks : TaskId → Task
  waitNext : TaskId → Option TaskId
  sleepNext : TaskId → Option TaskId
  procs : ProcId → Proc
  queues : WqId → WaitQueue
  runqueue : List TaskId
  sleepHead : Option TaskId
  current : TaskId
  idleTask : TaskId
  /-- `pit_ticks` -/
  now : Nat
  nextTask : TaskId
  nextProc : ProcId

/-- `init_process`. -/
def initProcess : ProcId := 0

def reaperQueue : WqId := 0

namespace State

variable (s : State)

def modify (t : TaskId) (f : Task → Task) : State := { s with tasks := update s.tasks t (f (s.tasks t)) }

def modifyProc (p : ProcId) (f : Proc → Proc) : State :=
  { s with procs := update s.procs p (f (s.procs p)) }

def setWaitNext (t : TaskId) (next : Option TaskId) : State :=
  { s with waitNext := update s.waitNext t next }

def setSleepNext (t : TaskId) (next : Option TaskId) : State :=
  { s with sleepNext := update s.sleepNext t next }

def setQueue (q : WqId) (wq : WaitQueue) : State := { s with queues := update s.queues q wq }

def cur : Task := s.tasks s.current

/-- A bound on the length of the lists, for the loops over them. -/
def fuel : Nat := s.nextTask + 1

end State

/-! ### Run queue and sleep list -/

def schedAddTask (s : State) (t : TaskId) : State :=
  if t ∈ s.runqueue then s else { s with runqueue := s.runqueue ++ [t] }

def schedRemoveTask (s : State) (t : TaskId) : State :=
  if t = s.current then s else { s with runqueue := s.runqueue.erase t }

def schedAddSleeper (s : State) (t : TaskId) : State :=
  let pos := insertPos s.sleepNext (fun x => (s.tasks x).sleepUntil) (s.tasks t).sleepUntil s.fuel none s.sleepHead
  let s := s.setSleepNext t pos.2
  match pos.1 with
  | some prev => s.setSleepNext prev (some t)
  | none => { s with sleepHead := some t }

def schedRemoveSleeper (s : State) (t : TaskId) : State :=
  match findPrev s.sleepNext t s.fuel none s.sleepHead with
  | none => s
  | some none => { s with sleepHead := s.sleepNext t }
  | some (some prev) => s.setSleepNext prev (s.sleepNext t)

/-- One iteration of the loop of `sched_check_sleepers`, for the task at the head of the list. -/
def popSleeper (s : State) (t : TaskId) : State :=
  (({ s with sleepHead := s.sleepNext t } : State).setSleepNext t none).modify t fun task =>
    { task with
      sleepUntil := 0
      sleepTimedOut := true
      state := if task.state = .sleeping then .ready else task.state }

def checkSleepersLoop : Nat → State → State
  | 0, s => s
  | fuel + 1, s =>
    match s.sleepHead with
    | none => s
    | some t => if (s.tasks t).sleepUntil ≤ s.now then checkSleepersLoop fuel (popSleeper s t) else s

def schedCheckSleepers (s : State) : State := checkSleepersLoop s.fuel s

/-! ### `schedule` -/

structure Pick where
  best : Option TaskId
  bestPrio : Int
  pastPrev : Bool
  bestIsPastPrev : Bool

def pickStep (s : State) (prev : TaskId) (p : Pick) (cursor : TaskId) : Pick :=
  let task := s.tasks cursor
  if cursor = prev then { p with pastPrev := true }
  else if task.state = .ready ∧ !task.idle then
    if task.priority < p.bestPrio then
      { p with best := some cursor, bestPrio := task.priority, bestIsPastPrev := p.pastPrev }
    else if task.priority = p.bestPrio ∧ p.pastPrev ∧ !p.bestIsPastPrev then
      { p with best := some cursor, bestIsPastPrev := true }
    else p
  else p

def pickNextTask (s : State) (prev : TaskId) : Option TaskId :=
  if s.runqueue = [] then some s.idleTask
  else
    match (s.runqueue.foldl (pickStep s prev) ⟨none, 20, false, false⟩).best with
    | some best => some best
    | none => if (s.tasks s.idleTask).state ≠ .zombie then some s.idleTask else none

/-- `schedule` up to the switch of stacks. -/
def switchTo (s : State) (next : TaskId) : State :=
  let s' := s.modify s.current fun t => if t.state = .running then { t with state := .ready } else t
  let s'' := s'.modify next fun t => { t with
    state := .running
    priority := if t.priority ≠ t.staticPriority ∧ !t.idle then t.staticPriority else t.priority }
  { s'' with current := next }

def schedule (s : State) : State :=
  if s.runqueue = [] then s
  else
    match pickNextTask s s.current with
    | none => s
    | some next => if next = s.current then s else switchTo s next

/-! ### Wait queues -/

/-- Unlink a task from a queue, if it is found there. -/
def unlinkWait (s : State) (q : WqId) (t : TaskId) : State :=
  let wq := s.queues q
  match findPrev s.waitNext t s.fuel none wq.head with
  | none => s
  | some prev =>
    let tail := if wq.tail = some t then prev else wq.tail
    match prev with
    | none => s.setQueue q ⟨s.waitNext t, tail⟩
    | some p => (s.setWaitNext p (s.waitNext t)).setQueue q ⟨wq.head, tail⟩

/-- Unlink a task from the queue it waits on and clear its links. -/
def leaveQueue (s : State) (t : TaskId) : State :=
  match (s.tasks t).waitQueue with
  | none => s
  | some q => ((unlinkWait s q t).setWaitNext t none).modify t fun task => { task with waitQueue := none }

/-- What the current task does when it is switched back to. -/
def resumeCurrent (s : State) : State :=
  let self := s.current
  let s := match s.cur.resume with
    | .code => s
    | .sleepLocked => (s.setWaitNext self none).modify self fun t => { t with waitQueue := none }
    | .sleepTimeout =>
      let timedOut := s.cur.sleepTimedOut
      let s := s.modify self fun t => { t with sleepTimedOut := false }
      let s := match s.cur.waitQueue with
        | none => s
        | some q => if timedOut then unlinkWait s q self else s
      (s.setWaitNext self none).modify self fun t => { t with waitQueue := none, sleepUntil := 0 }
    | .sleepTicks =>
      (s.setSleepNext self none).modify self fun t => { t with sleepUntil := 0, sleepTimedOut := false }
  s.modify self fun t => { t with resume := .code }

/-- The current task calls `schedule` and has `r` to do when it comes back. -/
def switchAway (s : State) (r : Resume) : State :=
  resumeCurrent (schedule (s.modify s.current fun t => { t with resume := r }))

/-- Put the current task at the end of a queue. -/
def enqueueCurrent (s : State) (q : WqId) : State :=
  let self := s.current
  let wq := s.queues q
  let s := match wq.tail with
    | some last => (s.setWaitNext last (some self)).setQueue q ⟨wq.head, some self⟩
    | none => s.setQueue q ⟨some self, some self⟩
  (s.setWaitNext self none).modify self fun t => { t with
    state := .sleeping
    waitQueue := some q
    sleepTimedOut := false }

def waitQueueSleepLocked (s : State) (q : WqId) : State := switchAway (enqueueCurrent s q) .sleepLocked

def waitQueueSleepTimeout (s : State) (q : WqId) (ticks : UInt64) : State :=
  if ticks = 0 then s
  else
    let s := enqueueCurrent s q
    let s := if ticks.toNat ≠ 2 ^ 64 - 1 then
        let s := s.modify s.current fun t => { t with sleepUntil := (s.now + ticks.toNat) % 2 ^ 64 }
        schedAddSleeper s s.current
      else s.modify s.current fun t => { t with sleepUntil := 0 }
    switchAway s .sleepTimeout

/-- Make a sleeping task ready: the common part of the wake-ups. -/
def wakeSleeper (s : State) (t : TaskId) : State :=
  if (s.tasks t).state = .sleeping then
    let s := if (s.tasks t).sleepUntil ≠ 0 then schedRemoveSleeper s t else s
    schedAddTask (s.modify t fun task => { task with
      sleepUntil := 0
      sleepTimedOut := false
      state := .ready }) t
  else s

def waitQueueWakeOne (s : State) (q : WqId) : State :=
  let wq := s.queues q
  match wq.head with
  | none => s
  | some t =>
    let rest := s.waitNext t
    let s := s.setQueue q ⟨rest, if rest = none then none else wq.tail⟩
    wakeSleeper ((s.setWaitNext t none).modify t fun task => { task with waitQueue := none }) t

def wakeAllLoop : Nat → Option TaskId → State → State
  | 0, _, s => s
  | _ + 1, none, s => s
  | fuel + 1, some t, s =>
    let next := s.waitNext t
    wakeAllLoop fuel next
      (wakeSleeper ((s.setWaitNext t none).modify t fun task => { task with waitQueue := none }) t)

def waitQueueWakeAll (s : State) (q : WqId) : State :=
  (wakeAllLoop s.fuel (s.queues q).head s).setQueue q ⟨none, none⟩

/-! ### Timed sleep and futexes -/

def taskSleepTicks (s : State) (ticks : UInt64) : State :=
  if ticks = 0 then s
  else
    let s := s.modify s.current fun t => { t with
      sleepUntil := (s.now + ticks.toNat) % 2 ^ 64
      state := .sleeping
      sleepTimedOut := false }
    switchAway (schedAddSleeper s s.current) .sleepTicks

/-- `FUTEX_WAIT` after its checks. -/
def futexWait (s : State) (uaddr : Nat) : State :=
  switchAway (s.modify s.current fun t => { t with state := .sleeping, futexUaddr := uaddr }) .code

/-- One iteration of `futex_wake_address`, with the number of tasks woken so far. -/
def futexWakeStep (uaddr : Nat) (val : Int) (r : State × Nat × Bool) (t : TaskId) : State × Nat × Bool :=
  if r.2.2 then r
  else if (r.1.tasks t).state = .sleeping ∧ (r.1.tasks t).futexUaddr = uaddr then
    (r.1.modify t fun task => { task with state := .ready, futexUaddr := 0 }, r.2.1 + 1,
      decide (((r.2.1 + 1 : Nat) : Int) ≥ val))
  else r

def futexWakeAddress (s : State) (uaddr : Nat) (val : Int) : State :=
  if uaddr = 0 then s else (s.runqueue.foldl (futexWakeStep uaddr val) (s, 0, false)).1

/-! ### Signals, exit and reaping -/

/-- The signal is ignored by the process of the task. -/
def signalIgnored (s : State) (t : TaskId) (sig : Nat) : Bool :=
  match (s.procs (s.tasks t).process).sigaction sig with
  | .ign => true
  | .dfl => sig = 17 || sig = 23 || sig = 28
  | .custom => false

def taskSendSignal (s : State) (t : TaskId) (sig : Nat) : State :=
  if sig = 0 ∨ 64 ≤ sig then s
  else if signalIgnored s t sig then s
  else
    let s := s.modify t fun task => { task with signalPending := task.signalPending ||| 1 <<< sig }
    if (s.tasks t).state = .sleeping ∧ (s.tasks t).signalBlocked &&& 1 <<< sig = 0 then
      wakeSleeper (leaveQueue s t) t
    else s

/-- `process_reparent_children`. -/
def processReparentChildren (s : State) (p : ProcId) : State :=
  if p = initProcess then s
  else
    let children := (s.procs p).children
    let s := s.modifyProc p fun proc => { proc with children := [] }
    let s := children.foldl (fun s c => s.modifyProc c fun proc => { proc with parent := some initProcess }) s
    s.modifyProc initProcess fun proc => { proc with children := children.reverse ++ proc.children }

def taskKill (s : State) (t : TaskId) : State :=
  if t = s.current then s
  else if (s.tasks t).state = .zombie then s
  else
    let s := if (s.tasks t).sleepUntil ≠ 0 then schedRemoveSleeper s t else s
    let s := s.modify t fun task => { task with
      sleepUntil := 0
      sleepTimedOut := false
      state := .zombie
      exitCode := -1 }
    let p := (s.tasks t).process
    let s := if (s.procs p).mainThread = some t then
        processReparentChildren (s.modifyProc p fun proc => { proc with exited := true, exitCode := -1 }) p
      else s
    waitQueueWakeAll (leaveQueue s t) reaperQueue

/-- One task of the process that `sched_exit_group` ends. -/
def endTask (code : Int) (s : State) (t : TaskId) : State :=
  s.modify t fun task => { task with state := .zombie, exitCode := code }

/-- The loop of `sched_exit_group` over the sleep list. -/
def exitSleepersLoop (p : ProcId) (code : Int) : Nat → Option TaskId → Option TaskId → State → State
  | 0, _, _, s => s
  | _ + 1, _, none, s => s
  | fuel + 1, prev, some t, s =>
    let next := s.sleepNext t
    if (s.tasks t).process = p ∧ t ≠ s.current then
      let s := endTask code s t
      let s := match prev with
        | some x => s.setSleepNext x next
        | none => { s with sleepHead := next }
      exitSleepersLoop p code fuel prev next s
    else exitSleepersLoop p code fuel (some t) next s

def schedExitGroup (s : State) (p : ProcId) (code : Int) : State :=
  let ends (t : TaskId) : Bool := (s.tasks t).process = p ∧ t ≠ s.current
  let s' := (s.runqueue.filter ends).foldl (endTask code) s
  let s'' := { s' with runqueue := s.runqueue.filter fun t => !ends t }
  exitSleepersLoop p code s''.fuel none s''.sleepHead s''

/-- The bookkeeping of `task_exit` when the main thread is gone. -/
def endProcess (s : State) (p : ProcId) (code : Int) : State :=
  let s := processReparentChildren (s.modifyProc p fun proc => { proc with exited := true, exitCode := code }) p
  match (s.procs p).parent with
  | none => s
  | some parent =>
    match (s.procs parent).mainThread with
    | none => s
    | some main => taskSendSignal s main 17

inductive Stop
  /-- `schedule` returned in `task_exit`. -/
  | scheduleReturned
  /-- A task that does not exist. -/
  | badPointer
deriving DecidableEq

/-- `task_exit`; `copyOk` says whether `clear_child_tid` can be written. -/
def taskExit (s : State) (code : Int) (copyOk : Bool) : Except Stop State :=
  let s := if s.cur.clearChildTid ≠ 0 ∧ copyOk then futexWakeAddress s s.cur.clearChildTid 1 else s
  let s := s.modify s.current fun t => { t with state := .zombie, exitCode := code }
  let p := s.cur.process
  let alive : Bool := match (s.procs p).mainThread with
    | none => false
    | some main => decide ((s.tasks main).state ≠ .zombie)
  let s := if alive then s else endProcess s p code
  let s := waitQueueWakeAll s reaperQueue
  let s' := schedule s
  if s'.current = s.current then .error .scheduleReturned else .ok (resumeCurrent s')

/-- `sys_exit_group`. -/
def sysExitGroup (s : State) (code : Int) (copyOk : Bool) : Except Stop State :=
  taskExit (schedExitGroup s s.cur.process code) code copyOk

/-- The first child of the current process that `pid` selects and that `test` accepts the main
thread of. Process `p` has the pid `p + 1`. -/
def findChild (s : State) (pid : Nat) (test : Task → Bool) : Option TaskId :=
  (s.procs s.cur.process).children.findSome? fun child =>
    if pid = 0 ∨ child + 1 = pid then (s.procs child).mainThread.filter fun main => test (s.tasks main) else none

def findZombieChild (s : State) (pid : Nat) : Option TaskId := findChild s pid fun task => task.state = .zombie

def hasUnfinishedChild (s : State) (pid : Nat) : Bool := (findChild s pid fun _ => true).isSome

/-- `reap_zombie`: the task and its process are freed. -/
def reapZombie (s : State) (zombie : TaskId) : State :=
  let child := (s.tasks zombie).process
  let s := s.modifyProc s.cur.process fun proc => { proc with children := proc.children.erase child }
  let s := schedRemoveTask s zombie
  let s := s.modify zombie fun task => { task with allocated := false }
  s.modifyProc child fun proc => { proc with allocated := false }

def taskWait (s : State) (pid : Nat) : State :=
  match findZombieChild s pid with
  | some zombie => reapZombie s zombie
  | none => if hasUnfinishedChild s pid then waitQueueSleepLocked s reaperQueue else s

def taskWaitAny (s : State) : State :=
  match findZombieChild s 0 with
  | some zombie => reapZombie s zombie
  | none => if (s.procs s.cur.process).children = [] then s else waitQueueSleepLocked s reaperQueue

def taskWaitNohang (s : State) (pid : Nat) : State :=
  match findZombieChild s pid with
  | some zombie => reapZombie s zombie
  | none => s

def taskJoin (s : State) (tid : TaskId) : State :=
  if tid = s.current then s
  else
    match s.runqueue.find? fun t => t = tid && (s.tasks t).process = s.cur.process with
    | none => s
    | some target =>
      if (s.tasks target).state = .zombie then
        (schedRemoveTask s target).modify target fun task => { task with allocated := false }
      else waitQueueSleepLocked s reaperQueue

/-- The task that `task_fork` and `task_clone_thread` create. -/
def newTask (s : State) (p : ProcId) (clearChildTid : Nat) : Task where
  allocated := true
  state := .ready
  process := p
  waitQueue := none
  sleepUntil := 0
  sleepTimedOut := false
  futexUaddr := 0
  clearChildTid := clearChildTid
  priority := s.cur.priority
  staticPriority := s.cur.staticPriority
  idle := false
  signalPending := 0
  signalBlocked := s.cur.signalBlocked
  exitCode := 0
  resume := .code

/-- Create a task of the process `p`. -/
def addTask (s : State) (p : ProcId) (clearChildTid : Nat) : State :=
  let t := s.nextTask
  let s' : State := { s with nextTask := t + 1 }
  schedAddTask (((s'.setWaitNext t none).setSleepNext t none).modify t fun _ => newTask s p clearChildTid) t

inductive ForkOutcome
  | noProcess
  | noTask
  | created
deriving DecidableEq

def taskFork (s : State) (outcome : ForkOutcome) : State :=
  let parent := s.cur.process
  let child := s.nextProc
  match outcome with
  | .noProcess => s
  | .noTask => { s with nextProc := child + 1 }
  | .created =>
    let main := s.nextTask
    let s' : State := { s with nextProc := child + 1 }
    let s'' := s'.modifyProc child fun _ =>
      ⟨true, some parent, [], some main, false, 0, (s.procs parent).sigaction⟩
    addTask (s''.modifyProc parent fun proc => { proc with children := child :: proc.children }) child 0

def taskCloneThread (s : State) (ok : Bool) (clearChildTid : Nat) : State :=
  if ok then addTask s s.cur.process clearChildTid else s

/-- `task_set_priority`. -/
def taskSetPriority (s : State) (t : TaskId) (priority : Int) : State :=
  let priority := max (-20) (min 19 priority)
  s.modify t fun task => { task with priority := priority, staticPriority := priority }

/-! ### The machine -/

inductive Op
  | sleep (q : WqId)
  | sleepTimeout (q : WqId) (ticks : UInt64)
  | sleepTicks (ticks : UInt64)
  | futexWait (uaddr : Nat)
  | futexWake (uaddr : Nat) (val : Int)
  | wakeOne (q : WqId)
  | wakeAll (q : WqId)
  | signal (t : TaskId) (sig : Nat)
  | kill (t : TaskId)
  | exit (code : Int) (copyOk : Bool)
  | exitGroup (code : Int) (copyOk : Bool)
  | tick
  | yield
  | setPriority (t : TaskId) (priority : Int)
  | fork (outcome : ForkOutcome)
  | clone (ok : Bool) (clearChildTid : Nat)
  | wait (pid : Nat)
  | waitAny
  | waitNohang (pid : Nat)
  | join (tid : TaskId)

/-- A step of the current task, or a timer tick. -/
def step (s : State) : Op → Except Stop State
  | .sleep q => .ok (waitQueueSleepLocked s q)
  | .sleepTimeout q ticks => .ok (waitQueueSleepTimeout s q ticks)
  | .sleepTicks ticks => .ok (taskSleepTicks s ticks)
  | .futexWait uaddr => .ok (futexWait s uaddr)
  | .futexWake uaddr val => .ok (futexWakeAddress s uaddr val)
  | .wakeOne q => .ok (waitQueueWakeOne s q)
  | .wakeAll q => .ok (waitQueueWakeAll s q)
  | .signal t sig => if (s.tasks t).allocated then .ok (taskSendSignal s t sig) else .error .badPointer
  | .kill t => if (s.tasks t).allocated then .ok (taskKill s t) else .error .badPointer
  | .exit code copyOk => taskExit s code copyOk
  | .exitGroup code copyOk => sysExitGroup s code copyOk
  | .tick => .ok (schedCheckSleepers { s with now := s.now + 1 })
  | .yield => .ok (switchAway s .code)
  | .setPriority t priority => if (s.tasks t).allocated then .ok (taskSetPriority s t priority) else .error .badPointer
  | .fork outcome => .ok (taskFork s outcome)
  | .clone ok clearChildTid => .ok (taskCloneThread s ok clearChildTid)
  | .wait pid => .ok (taskWait s pid)
  | .waitAny => .ok (taskWaitAny s)
  | .waitNohang pid => .ok (taskWaitNohang s pid)
  | .join tid => .ok (taskJoin s tid)

end Litenix.Sched
