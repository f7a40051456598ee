import Litenix.SchedRuns

/-! Waits for I/O events (`select`, `pselect6`, `epoll_wait`) and futexes. A wake-up reaches the tasks that are asleep;
one that has looked and is not asleep yet misses it. -/

namespace Litenix.Sched

open Lib Function

variable {s : State} {t : TaskId} {q : WqId}

/-! ### I/O events -/

/-- `io_event_wq`. -/
def ioEventQueue : WqId := 1

def ioEventNotify (s : State) : State := waitQueueWakeAll s ioEventQueue

theorem wakeAllLoop_state (rest : List TaskId) : ∀ {fuel : Nat} {head : Option TaskId} {s : State},
    rest.length ≤ fuel → Seg s.waitNext head rest none → rest.Nodup → ∀ x, ((wakeAllLoop fuel head s).tasks x).state =
      if x ∈ rest ∧ (s.tasks x).state = .sleeping then .ready else (s.tasks x).state := by
  induction rest with
  | nil =>
    rintro fuel head s - rfl - x
    cases fuel <;> simp [wakeAllLoop]
  | cons t rest ih =>
  rintro (_ | fuel) head s hfuel ⟨rfl, hseg⟩ hnodup x
  · simp at hfuel
  obtain ⟨next, sleepHead, rq, heq, -⟩ :=
    wakeSleeper_eq ((s.setWaitNext t none).modify t fun task => { task with waitQueue := none }) t
  obtain ⟨ht, hrest⟩ := List.nodup_cons.mp hnodup
  have hkeep : ∀ y ∈ rest, (wakeSleeper ((s.setWaitNext t none).modify t fun task => { task with waitQueue := none })
      t).waitNext y = s.waitNext y := by
    intro y hy
    rw [heq]
    exact update_of_ne (ne_of_mem_of_not_mem hy ht) _ _
  rw [wakeAllLoop, ih (by simpa using hfuel) (hseg.congr hkeep) hrest, heq]
  by_cases hx : x = t
  · simp only [hx, update_self]
    split_ifs <;> simp_all [State.setWaitNext]
  · simp [State.modify, State.setWaitNext, hx]

theorem waitQueueWakeAll_state (h : ListsOk s) (q : WqId) (t : TaskId) : ((waitQueueWakeAll s q).tasks t).state =
    if (s.tasks t).waitQueue = some q ∧ (s.tasks t).state = .sleeping then .ready else (s.tasks t).state := by
  obtain ⟨W, L, hlists⟩ := h.lists
  have hloop := wakeAllLoop_state (W q) (Nat.le_of_lt (hlists.queue_length q)) (hlists.queue q) (hlists.queueNodup q) t
  simp only [hlists.onQueue] at hloop
  exact hloop

def Task.waitsAt (uaddr : Nat) (task : Task) : Bool := task.state = .sleeping ∧ task.futexUaddr = uaddr

def Task.futexWoken (task : Task) : Task := { task with state := .ready, futexUaddr := 0 }

/-- The tasks that wait at an address, of any process, in the order of the run queue. -/
def waiters (s : State) (uaddr : Nat) : List TaskId := s.runqueue.filter fun t => (s.tasks t).waitsAt uaddr

/-- The loop stops after this many tasks. -/
def futexLimit (val : Int) : Nat := max 1 val.toNat

theorem futexFold_tasks (l : List TaskId) : ∀ (r : State × Nat × Bool), l.Nodup →
    r.2.2 = decide (futexLimit val ≤ r.2.1) → ∀ x, (l.foldl (futexWakeStep uaddr val) r).1.tasks x =
      if x ∈ (l.filter fun t => (r.1.tasks t).waitsAt uaddr).take (futexLimit val - r.2.1) then (r.1.tasks x).futexWoken
      else r.1.tasks x := by
  induction l with
  | nil => simp
  | cons t l ih =>
  rintro ⟨s, count, stop⟩ hnodup hstop x
  obtain ⟨ht, hl⟩ := List.nodup_cons.mp hnodup
  dsimp only at hstop ⊢
  rw [List.foldl_cons]
  by_cases hdone : futexLimit val ≤ count
  · have hstep : futexWakeStep uaddr val (s, count, stop) t = (s, count, stop) := if_pos (by simp [hstop, hdone])
    rw [hstep, ih _ hl hstop]
    simp [Nat.sub_eq_zero_of_le hdone]
  have hrun : stop = false := by simp [hstop, hdone]
  by_cases hwaits : (s.tasks t).waitsAt uaddr = true
  · have hstep : futexWakeStep uaddr val (s, count, stop) t =
        (s.modify t Task.futexWoken, count + 1, decide (((count + 1 : Nat) : Int) ≥ val)) := by
      rw [futexWakeStep, if_neg (by simp [hrun]), if_pos (by simpa [Task.waitsAt] using hwaits)]
      rfl
    have hothers (y : TaskId) (hy : y ∈ l) : (s.modify t Task.futexWoken).tasks y = s.tasks y :=
      s.modify_tasks_of_ne _ (ne_of_mem_of_not_mem hy ht)
    rw [hstep, ih _ hl (decide_eq_decide.mpr (by dsimp only [futexLimit]; omega))]
    rw [List.filter_congr fun y hy => by rw [hothers y hy], List.filter_cons, if_pos hwaits,
      show futexLimit val - count = futexLimit val - (count + 1) + 1 by omega, List.take_succ_cons]
    by_cases hx : x = t
    · have hnot : t ∉ (l.filter fun t => (s.tasks t).waitsAt uaddr).take (futexLimit val - (count + 1)) :=
        fun hmem => ht (List.mem_of_mem_filter (List.mem_of_mem_take hmem))
      simp [hx, hnot]
    · simp [State.modify, hx]
  · have hstep : futexWakeStep uaddr val (s, count, stop) t = (s, count, stop) := by
      rw [futexWakeStep, if_neg (by simp [hrun]), if_neg (by simpa [Task.waitsAt] using hwaits)]
    rw [hstep, ih _ hl hstop, List.filter_cons, if_neg hwaits]

/-- The waiters that the loop reaches; `sys_futex` passes their number on as an `int`. -/
def reached (s : State) (uaddr : Nat) (n : UInt32) : List TaskId :=
  (waiters s uaddr).take (futexLimit n.toInt32.toInt)

/-- The task is a thread of the caller's process. -/
def own (s : State) (t : TaskId) : Bool := (s.tasks t).process = s.cur.process

def futexWake (s : State) (uaddr : Nat) (n : UInt32) : State := futexWakeAddress s uaddr n.toInt32.toInt

/-- Of the threads of the caller's process that wait, `n` or all are made ready; no other task changes. -/
def WakesExactly (s : State) (uaddr : Nat) (n : UInt32) : Prop :=
  ∃ W : List TaskId, W.Nodup ∧ (∀ t ∈ W, t ∈ waiters s uaddr ∧ own s t = true) ∧
    W.length = min n.toNat ((waiters s uaddr).countP (own s)) ∧
    ∀ t, (futexWake s uaddr n).tasks t = if t ∈ W then (s.tasks t).futexWoken else s.tasks t

end Litenix.Sched
