import Litenix.SchedRuns

/-! The status word of `sys_wait4`. A thread leaves its exit code behind, the negative signal number if a signal ended
it, and the parent is told the code of the main thread. -/

namespace Litenix.Sched

open Lib Function

variable {s s' : State} {t : TaskId} {f : Task → Task}

/-- The call that ends a thread: `sys_exit`, `sys_exit_group`, or the delivery of a signal with its default action. -/
inductive Ending
  | exit (status : Int)
  | exitGroup (status : Int)
  | signal (sig : Fin 64)

namespace Ending

def code : Ending → Int
  | exit status | exitGroup status => status
  | signal sig => -sig

def run (s : State) (copyOk : Bool) : Ending → Except Stop State
  | exitGroup status => sysExitGroup s status copyOk
  | e => taskExit s e.code copyOk

/-- `WIFEXITED` with the status, or `WIFSIGNALED` with the signal. -/
def Tells (word : Int) : Ending → Prop
  | exit status | exitGroup status => word % 128 = 0 ∧ word / 256 % 256 = status % 256
  | signal sig => word % 128 ≠ 0 ∧ word % 128 ≠ 127 ∧ word % 128 = sig

/-- The main thread's code means the same: a negative code is taken for a signal, unless it is a multiple of 128. -/
def Means (code : Int) : Ending → Prop
  | exit status | exitGroup status => 0 ≤ code ∧ code % 256 = status % 256 ∨
      code < 0 ∧ code % 128 = 0 ∧ status % 256 = 0
  | signal sig => code < 0 ∧ sig.val ≠ 0 ∧ -code % 128 = sig

/-- The call ends the whole process. -/
def isGroup : Ending → Bool
  | exitGroup _ => true
  | _ => false

end Ending

/-- The word for the exit code of the main thread. -/
def waitStatus (code : Int) : Int := if code < 0 then -code % 128 else code % 256 * 256

theorem waitStatus_tells_iff (code : Int) (e : Ending) : e.Tells (waitStatus code) ↔ e.Means code := by
  unfold waitStatus
  cases e with
  | exit status | exitGroup status =>
    simp only [Ending.Tells, Ending.Means]
    split_ifs <;> omega
  | signal sig =>
    have hsig := sig.isLt
    simp only [Ending.Tells, Ending.Means]
    split_ifs <;> omega

/-! ### Exit codes -/

def State.codes (s : State) (t : TaskId) : Int := (s.tasks t).exitCode

theorem codes_modify (hf : ∀ task, (f task).exitCode = task.exitCode) : (s.modify t f).codes = s.codes := by
  funext x
  unfold State.codes
  exact State.modify_ind x (hf _) fun _ => rfl

theorem wakeSleeper_codes (s : State) (t : TaskId) : (wakeSleeper s t).codes = s.codes := by
  funext x
  unfold State.codes
  obtain ⟨_, _, _, heq, -⟩ := wakeSleeper_eq s t
  rw [heq]
  dsimp only
  refine update_ind x ?_ fun _ => rfl
  split <;> rfl

theorem wakeAllLoop_codes (fuel : Nat) : ∀ (head : Option TaskId) (s : State), (wakeAllLoop fuel head s).codes = s.codes := by
  induction fuel with
  | zero => exact fun _ _ => rfl
  | succ fuel ih =>
    intro head s
    cases head with
    | none => rfl
    | some t =>
      rw [wakeAllLoop, ih, wakeSleeper_codes]
      exact Eq.trans (codes_modify fun _ => rfl) rfl

theorem taskSendSignal_codes (s : State) (t : TaskId) (sig : Nat) : (taskSendSignal s t sig).codes = s.codes := by
  obtain ⟨_, _, _, _, _, task, heq, -, -, hcode⟩ := taskSendSignal_frame s t sig
  rw [heq]
  funext x
  dsimp only [State.codes]
  exact update_ind x hcode fun _ => rfl

theorem futexWakeAddress_codes (s : State) (uaddr : Nat) (val : Int) :
    (futexWakeAddress s uaddr val).current = s.current ∧ (futexWakeAddress s uaddr val).codes = s.codes := by
  unfold futexWakeAddress
  split
  · exact ⟨rfl, rfl⟩
  refine foldl_inv (fun r : State × Nat × Bool => r.1.current = s.current ∧ r.1.codes = s.codes) ⟨rfl, rfl⟩
    fun r t _ hr => ?_
  unfold futexWakeStep
  split_ifs
  · exact hr
  · rw [← hr.2]
    exact ⟨hr.1, codes_modify (f := fun task => { task with state := .ready, futexUaddr := 0 }) fun _ => rfl⟩
  · exact hr

theorem endProcess_codes (s : State) (p : ProcId) (code : Int) : (endProcess s p code).codes = s.codes := by
  obtain ⟨procs, heq⟩ := processReparentChildren_eq
    (s.modifyProc p fun proc => { proc with exited := true, exitCode := code }) p
  unfold endProcess
  dsimp only
  rw [heq]
  split
  · rfl
  split
  · rfl
  · exact taskSendSignal_codes _ _ 17

theorem schedule_codes (s : State) : (schedule s).codes = s.codes := by
  have hleft : ∀ task : Task, task.preempted.exitCode = task.exitCode := fun task => by
    unfold Task.preempted
    split <;> rfl
  unfold schedule
  split
  · rfl
  split
  · rfl
  split
  · rfl
  · rename_i next _ _
    exact Eq.trans (codes_modify (t := next) (f := Task.started) fun _ => rfl) (codes_modify hleft)

theorem resumeCurrent_codes (s : State) : (resumeCurrent s).codes = s.codes := by
  unfold resumeCurrent
  refine Eq.trans (codes_modify fun _ => rfl) ?_
  split
  · rfl
  · exact Eq.trans (codes_modify fun _ => rfl) rfl
  · have hcleared : (s.modify s.current fun t => { t with sleepTimedOut := false }).codes = s.codes :=
      codes_modify fun _ => rfl
    refine Eq.trans (codes_modify fun _ => rfl) (Eq.trans ?_ hcleared)
    split
    · rfl
    rename_i q _
    split_ifs
    · obtain ⟨_, _, heq⟩ := unlinkWait_frame (s.modify s.current fun t => { t with sleepTimedOut := false }) q s.current
      rw [heq]
      rfl
    · rfl
  · exact Eq.trans (codes_modify fun _ => rfl) rfl

theorem exitSwitch_codes (h : exitSwitch s = .ok s') : s'.codes = s.codes := by
  unfold exitSwitch at h
  split at h
  · cases h
  · cases h
    exact (resumeCurrent_codes _).trans (schedule_codes s)

theorem taskExit_code (h : taskExit s code copyOk = .ok s') (t : TaskId) :
    (s'.tasks t).exitCode = if t = s.current then code else (s.tasks t).exitCode := by
  have hfutex : (exitFutex s copyOk).current = s.current ∧ (exitFutex s copyOk).codes = s.codes := by
    unfold exitFutex
    split
    · exact futexWakeAddress_codes s _ 1
    · exact ⟨rfl, rfl⟩
  have hprocess (r : State) : (exitProcess r code).codes = r.codes := by
    unfold exitProcess
    dsimp only
    split_ifs
    · rfl
    · exact endProcess_codes r _ code
  rw [taskExit_eq] at h
  have hcodes := (exitSwitch_codes h).trans ((wakeAllLoop_codes _ _ _).trans (hprocess _))
  refine (congrFun hcodes t).trans ?_
  unfold State.codes
  rw [hfutex.1]
  split_ifs with ht
  · rw [ht, State.modify_tasks_same]
    rfl
  · rw [State.modify_tasks_of_ne _ _ ht]
    exact congrFun hfutex.2 t

theorem exitSleepersLoop_code (p : ProcId) (code : Int) (fuel : Nat) : ∀ (prev cursor : Option TaskId) (s : State),
    (exitSleepersLoop p code fuel prev cursor s).current = s.current ∧ ∀ t, (s.tasks t).exitCode = code →
      ((exitSleepersLoop p code fuel prev cursor s).tasks t).exitCode = code := by
  induction fuel with
  | zero => exact fun _ _ _ => ⟨rfl, fun _ h => h⟩
  | succ fuel ih =>
  intro prev cursor s
  cases cursor with
  | none => exact ⟨rfl, fun _ h => h⟩
  | some x =>
  have hended (t : TaskId) (h : (s.tasks t).exitCode = code) : ((endTask code s x).tasks t).exitCode = code := by
    rw [endTask]
    exact State.modify_ind t rfl fun _ => h
  unfold exitSleepersLoop
  split
  · cases prev with
    | none => exact ⟨(ih _ _ _).1, fun t h => (ih _ _ _).2 t (hended t h)⟩
    | some y => exact ⟨(ih _ _ _).1, fun t h => (ih _ _ _).2 t (hended t h)⟩
  · exact ih _ _ s

theorem schedExitGroup_code (s : State) (code : Int) :
    (schedExitGroup s s.cur.process code).current = s.current ∧ ∀ t ∈ s.runqueue, ends s t = true →
      ((schedExitGroup s s.cur.process code).tasks t).exitCode = code := by
  have hfold : (s.runqueue.filter (ends s)).foldl (endTask code) s = _ := foldl_endTask code _ s
  unfold schedExitGroup
  obtain ⟨hcurrent, hcode⟩ := exitSleepersLoop_code s.cur.process code _ none _
    { (s.runqueue.filter (ends s)).foldl (endTask code) s with runqueue := s.runqueue.filter fun t => !ends s t }
  refine ⟨hcurrent.trans (by rw [hfold]), fun t ht hends => hcode t ?_⟩
  rw [hfold]
  simp [ht, hends, Task.ended]

/-- **Wait status.** The parent is told how the process ended exactly if the code of the main thread says so. -/
theorem wait_status_iff (s s' : State) (e : Ending) (copyOk : Bool) (main : TaskId) (hrun : e.run s copyOk = .ok s')
    (hprocess : (s.tasks main).process = s.cur.process) (hlisted : main ≠ s.current → main ∈ s.runqueue) :
    e.Tells (waitStatus (s'.tasks main).exitCode) ↔
      e.Means (if main = s.current ∨ e.isGroup = true then e.code else (s.tasks main).exitCode) := by
  rw [waitStatus_tells_iff]
  suffices h : (s'.tasks main).exitCode = if main = s.current ∨ e.isGroup = true then e.code else (s.tasks main).exitCode by
    rw [h]
  cases e with
  | exit status | signal status => simpa [Ending.isGroup] using taskExit_code hrun main
  | exitGroup status =>
    obtain ⟨hcurrent, hcode⟩ := schedExitGroup_code s status
    rw [taskExit_code hrun main, hcurrent]
    by_cases hmain : main = s.current
    · rw [if_pos hmain, if_pos (.inl hmain)]
      rfl
    · rw [if_neg hmain, if_pos (.inr rfl)]
      exact hcode main (hlisted hmain) (by simp [ends, hprocess, hmain])

/-- All threads of the process are gone. -/
def Ended (s : State) (p : ProcId) : Prop :=
  ∀ t < s.nextTask, (s.tasks t).process = p → (s.tasks t).state = .zombie

theorem wait_status_exit_one : ∃ s', Ending.run (startState 1) true (.exit 1) = .ok s' ∧
    ((Ending.exit 1).Tells (waitStatus (s'.tasks 1).exitCode) ↔ (Ending.exit 1).Means 1) :=
  ⟨_, rfl, wait_status_iff (startState 1) _ (.exit 1) true 1 rfl rfl fun h => absurd rfl h⟩

/-- `exit(-1)` is reported as a death by signal 1. -/
theorem exit_reported_as_signal : ¬ ∀ (s s' : State) (e : Ending) (copyOk : Bool) (main : TaskId), ListsOk s →
    e.run s copyOk = .ok s' → Ended s' s.cur.process → (s'.procs s.cur.process).mainThread = some main →
      e.Tells (waitStatus (s'.tasks main).exitCode) := by
  intro h
  have htells := h (startState 1) _ (.exit (-1)) true 1 (startState_ok (by decide)) rfl ?_ rfl
  · have hword : waitStatus (-1) % 128 = 0 := htells.1
    exact absurd hword (by decide)
  · show ∀ t < 2, _
    decide

end Litenix.Sched
