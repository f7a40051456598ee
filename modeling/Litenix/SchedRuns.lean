import Litenix.SchedExit

/-! Runs of the scheduler. One condition on the state before a step covers the two kinds of lists:
where it holds, every wait queue and the sleep list keep the tasks that they should contain. -/

namespace Litenix.Sched

open Lib

variable {s s' : State}

/-! ### The condition -/

/-- A step that keeps the lists: a call that sleeps or ends finds a ready task to switch to, its
deadline is not 0, a futex wake finds futex waiters only, and no thread ended by `exit_group` is on
a wait queue. -/
def ListsCond (s : State) : Op → Prop
  | .sleep _ | .futexWait _ => CanSwitch s
  | .sleepTimeout _ ticks =>
    ticks ≠ 0 → CanSwitch s ∧ (ticks.toNat ≠ 2 ^ 64 - 1 → (s.now + ticks.toNat) % 2 ^ 64 ≠ 0)
  | .sleepTicks ticks => ticks ≠ 0 → CanSwitch s ∧ (s.now + ticks.toNat) % 2 ^ 64 ≠ 0
  | .futexWake uaddr _ => uaddr ≠ 0 → FutexOk s uaddr
  | .exit _ copyOk => CanSwitch s ∧ (s.cur.clearChildTid ≠ 0 → copyOk = true → FutexOk s s.cur.clearChildTid)
  | .exitGroup _ copyOk => ExitGroupOk s ∧ CanSwitchOut s ∧
      (s.cur.clearChildTid ≠ 0 → copyOk = true → FutexOk s s.cur.clearChildTid)
  | .yield => YieldOk s
  | .wait pid => findZombieChild s pid = none → CanSwitch s
  | .waitAny => findZombieChild s 0 = none → CanSwitch s
  | .join tid => (s.tasks tid).state ≠ .zombie → CanSwitch s
  | .wakeOne _ | .wakeAll _ | .signal _ _ | .kill _ | .tick | .setPriority _ _ | .fork _ | .clone _ _ |
    .waitNohang _ => True

/-! ### The remaining steps -/

section

variable (h : ListsOk s)

include h

theorem taskSetPriority_inv (t : TaskId) (priority : Int) : ListsOk (taskSetPriority s t priority) := by
  unfold taskSetPriority
  exact h.modify_alike ⟨rfl, rfl, rfl, rfl, rfl, rfl⟩

theorem taskFork_inv (outcome : ForkOutcome) : ListsOk (taskFork s outcome) := by
  cases outcome with
  | noProcess => exact h
  | noTask => exact h.congr rfl rfl rfl rfl rfl rfl rfl
  | created =>
    refine addTask_inv ?_ _ 0
    exact h.congr rfl rfl rfl rfl rfl rfl rfl

theorem taskWait_inv (hcond : findZombieChild s pid = none → CanSwitch s) : ListsOk (taskWait s pid) := by
  unfold taskWait
  cases hfind : findZombieChild s pid with
  | some zombie => exact reapZombie_inv h (findZombieChild_zombie hfind)
  | none =>
    dsimp only
    split
    · exact waitQueueSleepLocked_inv h (hcond hfind) _
    · exact h

theorem taskWaitAny_inv (hcond : findZombieChild s 0 = none → CanSwitch s) : ListsOk (taskWaitAny s) := by
  unfold taskWaitAny
  cases hfind : findZombieChild s 0 with
  | some zombie => exact reapZombie_inv h (findZombieChild_zombie hfind)
  | none =>
    dsimp only
    split
    · exact h
    · exact waitQueueSleepLocked_inv h (hcond hfind) _

theorem taskWaitNohang_inv (pid : Nat) : ListsOk (taskWaitNohang s pid) := by
  unfold taskWaitNohang
  cases hfind : findZombieChild s pid with
  | some zombie => exact reapZombie_inv h (findZombieChild_zombie hfind)
  | none => exact h

theorem taskJoin_inv (hcond : (s.tasks tid).state ≠ .zombie → CanSwitch s) : ListsOk (taskJoin s tid) := by
  unfold taskJoin
  split
  · exact h
  split
  · exact h
  rename_i target hfind
  obtain rfl : target = tid := by
    have := List.find?_some hfind
    simp only [Bool.and_eq_true, decide_eq_true_eq] at this
    exact this.1
  split
  · rename_i hzombie
    obtain ⟨rq, heq⟩ := schedRemoveTask_eq s target
    rw [heq]
    have hinv : ListsOk { s with runqueue := rq } := h.congr rfl rfl rfl rfl rfl rfl rfl
    exact hinv.freed hzombie
  · rename_i hzombie
    exact waitQueueSleepLocked_inv h (hcond hzombie) _

end

/-- A step that takes a pointer to a task fails unless the task exists. -/
theorem guarded_ok {valid : Bool} {r : State}
    (h : (if valid then .ok r else .error .badPointer : Except Stop State) = .ok s') : s' = r := by
  cases valid with
  | true => exact (Except.ok.inj h).symm
  | false => cases h

/-- **One step.** -/
theorem listsOk_step (h : ListsOk s) {op : Op} (hcond : ListsCond s op) (hstep : step s op = .ok s') : ListsOk s' := by
  cases op with
  | sleep q =>
    cases hstep
    exact waitQueueSleepLocked_inv h hcond q
  | sleepTimeout q ticks =>
    cases hstep
    by_cases hticks : ticks = 0
    · rwa [waitQueueSleepTimeout, if_pos hticks]
    · exact waitQueueSleepTimeout_inv h (hcond hticks).1 q ticks fun _ => (hcond hticks).2
  | sleepTicks ticks =>
    cases hstep
    by_cases hticks : ticks = 0
    · rwa [taskSleepTicks, if_pos hticks]
    · exact taskSleepTicks_inv h (hcond hticks).1 ticks fun _ => (hcond hticks).2
  | futexWait uaddr =>
    cases hstep
    exact futexWait_inv h hcond uaddr
  | futexWake uaddr val =>
    cases hstep
    exact (futexWakeAddress_inv h nofun val hcond).1
  | wakeOne q =>
    cases hstep
    exact (waitQueueWakeOne_inv h nofun).1
  | wakeAll q =>
    cases hstep
    exact (waitQueueWakeAll_inv h nofun).1
  | signal t sig =>
    obtain rfl := guarded_ok hstep
    exact (taskSendSignal_inv h nofun t sig).1
  | kill t =>
    obtain rfl := guarded_ok hstep
    exact taskKill_inv h t
  | exit code copyOk => exact taskExit_inv h hcond.1 hcond.2 hstep
  | exitGroup code copyOk => exact sysExitGroup_inv h hcond.1 hcond.2.1 hcond.2.2 hstep
  | tick =>
    cases hstep
    exact (tick_inv h nofun).1
  | yield =>
    cases hstep
    exact yield_inv h hcond
  | setPriority t priority =>
    obtain rfl := guarded_ok hstep
    exact taskSetPriority_inv h t priority
  | fork outcome =>
    cases hstep
    exact taskFork_inv h outcome
  | clone ok tid =>
    cases hstep
    unfold taskCloneThread
    split
    · exact addTask_inv h _ tid
    · exact h
  | wait pid =>
    cases hstep
    exact taskWait_inv h hcond
  | waitAny =>
    cases hstep
    exact taskWaitAny_inv h hcond
  | waitNohang pid =>
    cases hstep
    exact taskWaitNohang_inv h pid
  | join tid =>
    cases hstep
    exact taskJoin_inv h hcond

theorem listsOk_run (h : ListsOk s) (hcond : AllSteps step ListsCond s ops)
    (hrun : run step s ops = .ok s') : ListsOk s' :=
  run_inv (fun _ _ _ hm hop hstep => listsOk_step hm hop hstep) h hcond hrun

/-! ### Wait queues -/

/-- Each queue is a duplicate-free list from its head to its tail that contains the tasks sleeping on
it, and neither a freed nor a running task. -/
def QueuesOk (s : State) : Prop :=
  ∀ q, ∃ l, Seg s.waitNext (s.queues q).head l none ∧ l.Nodup ∧ (s.queues q).tail = l.getLast? ∧
    (∀ t, (s.tasks t).state = .sleeping → (s.tasks t).waitQueue = some q → t ∈ l) ∧
    ∀ t ∈ l, (s.tasks t).allocated = true ∧ (s.tasks t).state ≠ .running

theorem Inv.queuesOk (h : ListsOk s) : QueuesOk s := by
  obtain ⟨W, L, hlists⟩ := h.lists
  refine fun q => ⟨W q, hlists.queue q, hlists.queueNodup q, hlists.tail q, ?_, fun t ht => ?_⟩
  · exact fun t _ hq => (hlists.onQueue q t).mpr hq
  have hq := hlists.waiting ht
  have hne : t ≠ s.current := by
    rintro rfl
    exact hq h.cur.waitQueue
  have hok := h.others t hne
  refine ⟨hok.live ?_, hok.notRunning⟩
  rcases hok.waiting hq with hwaits | hwaits <;> rw [hwaits.1] <;> nofun

/-- **Wait queues.** Every run whose steps meet the condition keeps the wait queues intact. -/
theorem wait_queues_run {ops : List Op} (h : ListsOk s) (hcond : AllSteps step ListsCond s ops)
    (hrun : run step s ops = .ok s') : QueuesOk s' :=
  (listsOk_run h hcond hrun).queuesOk

instance (s : State) : Decidable (CanSwitch s) :=
  inferInstanceAs (Decidable ((∃ t ∈ s.runqueue, t ≠ s.current ∧ (s.tasks t).state = .ready ∧
    (s.tasks t).idle = false ∧ (s.tasks t).priority < 20) ∨ _ ∧ _ ∧ _))

instance (s : State) : Decidable (YieldOk s) :=
  inferInstanceAs (Decidable ((∃ t ∈ s.runqueue, t ≠ s.current ∧ (s.tasks t).state = .ready ∧
    (s.tasks t).idle = false ∧ (s.tasks t).priority < 20) ∨ _))

instance (s : State) : Decidable (CanSwitchOut s) :=
  inferInstanceAs (Decidable ((∃ t ∈ s.runqueue, (t ≠ s.current ∧ (s.tasks t).state = .ready ∧
    (s.tasks t).idle = false ∧ (s.tasks t).priority < 20) ∧ (s.tasks t).process ≠ s.cur.process) ∨
      (∃ t ∈ s.runqueue, ends s t = false) ∧ _))

instance (s : State) (uaddr : Nat) : Decidable (FutexOk s uaddr) :=
  inferInstanceAs (Decidable (∀ t ∈ s.runqueue, _ → _ → _ ∧ _))

instance (s : State) : Decidable (ExitGroupOk s) :=
  inferInstanceAs (Decidable (∀ t < s.nextTask, _ → _ → _))

instance (s : State) (op : Op) : Decidable (ListsCond s op) :=
  match op with
  | .sleep _ | .futexWait _ => inferInstanceAs (Decidable (CanSwitch s))
  | .sleepTimeout _ _ => inferInstanceAs (Decidable (_ → CanSwitch s ∧ (_ → _)))
  | .sleepTicks _ => inferInstanceAs (Decidable (_ → CanSwitch s ∧ _))
  | .futexWake uaddr _ => inferInstanceAs (Decidable (_ → FutexOk s uaddr))
  | .exit _ _ => inferInstanceAs (Decidable (CanSwitch s ∧ (_ → _ → FutexOk s s.cur.clearChildTid)))
  | .exitGroup _ _ =>
    inferInstanceAs (Decidable (ExitGroupOk s ∧ CanSwitchOut s ∧ (_ → _ → FutexOk s s.cur.clearChildTid)))
  | .yield => inferInstanceAs (Decidable (YieldOk s))
  | .wait pid => inferInstanceAs (Decidable (findZombieChild s pid = none → CanSwitch s))
  | .waitAny => inferInstanceAs (Decidable (findZombieChild s 0 = none → CanSwitch s))
  | .join _ => inferInstanceAs (Decidable (_ → CanSwitch s))
  | .wakeOne _ | .wakeAll _ | .signal _ _ | .kill _ | .tick | .setPriority _ _ | .fork _ | .clone _ _ |
    .waitNohang _ => inferInstanceAs (Decidable True)

/-- The task `t` of a machine with the idle task 0 and `n` threads of `init_process`, of which the
first runs. -/
def startTask (n : Nat) (t : TaskId) : Task where
  allocated := decide (t ≤ n)
  state := if t = 1 then .running else if t ≤ n then .ready else .zombie
  process := if t = 0 then 1 else initProcess
  waitQueue := none
  sleepUntil := 0
  sleepTimedOut := false
  futexUaddr := 0
  clearChildTid := 0
  priority := 0
  staticPriority := 0
  idle := decide (t = 0)
  signalPending := 0
  signalBlocked := 0
  exitCode := 0
  resume := .code

def startState (n : Nat) : State where
  tasks := startTask n
  waitNext _ := none
  sleepNext _ := none
  procs p := ⟨decide (p < 2), none, [], if p = initProcess then some 1 else if p = 1 then some 0 else none, false, 0,
    fun _ => .dfl⟩
  queues _ := ⟨none, none⟩
  runqueue := List.range (n + 1)
  sleepHead := none
  current := 1
  idleTask := 0
  now := 0
  nextTask := n + 1
  nextProc := 2

theorem startState_ok (hn : 1 ≤ n) : ListsOk (startState n) := by
  refine ⟨⟨fun _ => [], [], ?_⟩, fun t ht => ?_, ?_⟩
  · refine ⟨fun _ => rfl, fun _ => rfl, fun _ => List.nodup_nil, fun q t => ?_, rfl, List.nodup_nil, List.Pairwise.nil,
      fun t => ?_, fun t ht => ?_⟩
    · exact iff_of_false List.not_mem_nil nofun
    · exact iff_of_false List.not_mem_nil fun htimed => htimed.2 rfl
    rcases ht with hallocated | hq | hstate
    · exact Nat.lt_succ_of_le (of_decide_eq_true hallocated)
    · exact absurd rfl hq
    simp only [startState, startTask] at hstate
    split at hstate
    · cases hstate
    split at hstate <;> cases hstate
  · have ht1 : t ≠ 1 := ht
    have hstate : ((startState n).tasks t).state = if t ≤ n then .ready else .zombie := if_neg ht1
    refine ⟨?_, fun hlive => ?_, fun hq => absurd rfl hq, fun huntil => absurd rfl huntil, ?_⟩
    · rw [hstate]
      split <;> nofun
    · by_cases hle : t ≤ n
      · exact decide_eq_true hle
      · rw [hstate, if_neg hle] at hlive
        exact absurd rfl hlive
    · exact fun htimed => absurd rfl htimed.2
  · exact ⟨rfl, decide_eq_true hn, rfl, rfl⟩

/-- Three threads sleep on a queue, with and without deadline, and are woken, by a signal, a tick and
the queue itself. -/
def queueOps : List Op := [.sleep 5, .sleepTimeout 5 2, .sleep 5, .signal 1 10, .tick, .tick, .wakeOne 5, .yield, .yield]

theorem wait_queues_run_mixed : ListsOk (startState 3) ∧
    ∃ s', run step (startState 3) queueOps = .ok s' ∧ QueuesOk s' := by
  have hstart : ListsOk (startState 3) := startState_ok (by decide)
  exact ⟨hstart, _, rfl, wait_queues_run hstart (.of_decide (by decide +kernel) : AllSteps step ListsCond _ queueOps) rfl⟩

/-- The idle task waits on a queue, and a thread behind it; the idle task is picked although it is
asleep and clears its own link. -/
def idleWaitsOps : List Op := [.sleep 5, .wakeOne 5, .sleep 5, .sleep 5]

theorem idle_task_breaks_queue : ListsOk (startState 1) ∧
    ∃ s', run step (startState 1) idleWaitsOps = .ok s' ∧ ¬ QueuesOk s' := by
  refine ⟨startState_ok (by decide), _, rfl, fun h => ?_⟩
  obtain ⟨l, hseg, -, -, hall, -⟩ := h 5
  -- the thread is behind the idle task, whose link is gone
  have hl : l = [0] := hseg.unique (seg_singleton.mpr ⟨by decide +kernel, by decide +kernel⟩)
  have hmem := hall 1 (by decide +kernel) (by decide +kernel)
  simp [hl] at hmem

/-! ### Timed sleepers -/

/-- The sleep list is duplicate-free, sorted and contains every task that sleeps with a deadline; and
a tick makes those ready whose deadline has come. -/
structure SleepersOk (s : State) : Prop where
  list : ∃ l, Seg s.sleepNext s.sleepHead l none ∧ l.Nodup ∧
    (l.Pairwise fun x y => (s.tasks x).sleepUntil ≤ (s.tasks y).sleepUntil) ∧
    ∀ t, (s.tasks t).state = .sleeping → (s.tasks t).sleepUntil ≠ 0 → t ∈ l
  tick : ∀ t, (s.tasks t).state = .sleeping → (s.tasks t).sleepUntil ≠ 0 → (s.tasks t).sleepUntil ≤ s.now + 1 →
    ((schedCheckSleepers { s with now := s.now + 1 }).tasks t).state = .ready

theorem Inv.sleepersOk (h : ListsOk s) : SleepersOk s := by
  obtain ⟨W, L, hlists⟩ := h.lists
  refine ⟨⟨L, hlists.sleepers, hlists.sleepersNodup, hlists.sorted, ?_⟩, ?_⟩
  · exact fun t hstate huntil => (hlists.onList t).mpr ⟨hstate, huntil⟩
  · exact fun t hstate huntil => (tick_inv h nofun).2 t ⟨hstate, huntil⟩

/-- **Timed sleepers.** Every run whose steps meet the condition loses none. -/
theorem timed_sleepers_run {ops : List Op} (h : ListsOk s) (hcond : AllSteps step ListsCond s ops)
    (hrun : run step s ops = .ok s') : SleepersOk s' :=
  (listsOk_run h hcond hrun).sleepersOk

/-- Deadlines out of order, a futex wait among them, and an early wake-up by a signal. -/
def sleeperOps : List Op :=
  [.sleepTicks 10, .sleepTicks 4, .futexWait 64, .futexWake 64 1, .signal 2 10, .tick, .yield, .sleepTicks 7]

theorem timed_sleepers_run_mixed : ListsOk (startState 4) ∧
    ∃ s', run step (startState 4) sleeperOps = .ok s' ∧ SleepersOk s' := by
  have hstart : ListsOk (startState 4) := startState_ok (by decide)
  exact ⟨hstart, _, rfl,
    timed_sleepers_run hstart (.of_decide (by decide +kernel) : AllSteps step ListsCond _ sleeperOps) rfl⟩

/-- A signal ends a futex wait without clearing `futex_uaddr`; the next `FUTEX_WAKE` on the address
ends the thread's timed sleep, and the thread cuts the sleep list behind itself. -/
def staleFutexOps : List Op :=
  [.futexWait 64, .signal 1 10, .yield, .yield, .sleepTicks 10, .sleepTicks 20, .futexWake 64 1, .yield]

theorem stale_futex_loses_sleeper : ListsOk (startState 3) ∧
    ∃ s', run step (startState 3) staleFutexOps = .ok s' ∧ ¬ SleepersOk s' := by
  refine ⟨startState_ok (by decide), _, rfl, fun h => ?_⟩
  obtain ⟨l, hseg, -, -, hall⟩ := h.list
  have hl : l = [1] := hseg.unique (seg_singleton.mpr ⟨by decide +kernel, by decide +kernel⟩)
  have hmem := hall 2 (by decide +kernel) (by decide +kernel)
  simp [hl] at hmem

/-! ### Processes -/

namespace State

@[simp]
theorem modifyProc_same (s : State) (p : ProcId) (f : Proc → Proc) : (s.modifyProc p f).procs p = f (s.procs p) := by
  simp [modifyProc]

theorem modifyProc_of_ne (s : State) {p q : ProcId} (f : Proc → Proc) (h : q ≠ p) :
    (s.modifyProc p f).procs q = s.procs q := by
  simp [modifyProc, h]

end State

end Litenix.Sched
