import Litenix.SchedSwitch

/-! The life of tasks, as far as the lists see it: creation, `task_kill`, `sched_exit_group`,
`task_exit`, and the release of a task by its parent or by a join. -/

namespace Litenix.Sched

open Lib Function

variable {s s' : State} {W : WqId → List TaskId} {L : List TaskId} {t : TaskId} {p : ProcId} {st : TaskState}
variable {copyOk : Bool} {code : Int}

/-! ### Processes -/

theorem Inv.congr (h : Inv st s) (hwait : s'.waitNext = s.waitNext) (hqueues : s'.queues = s.queues)
    (hsleep : s'.sleepNext = s.sleepNext) (hhead : s'.sleepHead = s.sleepHead) (hnext : s'.nextTask = s.nextTask)
    (htasks : s'.tasks = s.tasks) (hcurrent : s'.current = s.current) : Inv st s' where
  lists := by
    obtain ⟨W, L, hlists⟩ := h.lists
    exact ⟨W, L, hlists.congr hwait hqueues hsleep hhead hnext htasks⟩
  others x hx := by
    rw [htasks]
    exact h.others x (hcurrent ▸ hx)
  cur := by
    rw [State.cur, htasks, hcurrent]
    exact h.cur

theorem Inv.setProcs (h : Inv st s) (procs : ProcId → Proc) : Kept st s { s with procs := procs } :=
  ⟨h.congr rfl rfl rfl rfl rfl rfl rfl, rfl, fun _ h => h, rfl, fun _ h => h, fun _ h => ⟨h, rfl, rfl⟩⟩

theorem processReparentChildren_eq (s : State) (p : ProcId) :
    ∃ procs, processReparentChildren s p = { s with procs := procs } := by
  have hfold (l : List ProcId) : ∀ procs, ∃ procs',
      l.foldl (fun s c => s.modifyProc c fun proc => { proc with parent := some initProcess })
        ({ s with procs := procs } : State) = { s with procs := procs' } := by
    induction l with
    | nil => exact fun procs => ⟨procs, rfl⟩
    | cons c l ih => exact fun procs => ih _
  unfold processReparentChildren
  split
  · exact ⟨s.procs, rfl⟩
  obtain ⟨procs, heq⟩ := hfold (s.procs p).children
    (update s.procs p { s.procs p with children := [] })
  refine ⟨update procs initProcess
    { procs initProcess with children := (s.procs p).children.reverse ++ (procs initProcess).children }, ?_⟩
  dsimp only [State.modifyProc]
  dsimp only [State.modifyProc] at heq
  rw [heq]

theorem endProcess_inv (h : Inv st s) (hst : st ≠ .sleeping) (p : ProcId) (code : Int) :
    Kept st s (endProcess s p code) := by
  unfold endProcess
  obtain ⟨procs, heq⟩ := processReparentChildren_eq
    (s.modifyProc p fun proc => { proc with exited := true, exitCode := code }) p
  dsimp only
  rw [heq]
  have hended := h.setProcs procs
  split
  · exact hended
  split
  · exact hended
  · exact hended.trans (taskSendSignal_inv hended.inv hst _ 17)

/-! ### `task_kill` -/

theorem TaskOk.zombie (hstate : task.state = .zombie) (hq : task.waitQueue = none) : TaskOk task where
  notRunning := by
    rw [hstate]
    exact nofun
  live hne := absurd hstate hne
  waiting hq' := absurd hq hq'
  timed _ := .inr hstate
  deadline _ hq' := absurd hq hq'

/-- The killed task, before it leaves its queue. -/
def Task.killed (task : Task) : Task :=
  { task with sleepUntil := 0, sleepTimedOut := false, state := .zombie, exitCode := -1 }

/-- What `task_kill` does to the process. -/
def killProcess (s : State) (t : TaskId) : State :=
  let p := (s.tasks t).process
  if (s.procs p).mainThread = some t then
    processReparentChildren (s.modifyProc p fun proc => { proc with exited := true, exitCode := -1 }) p
  else s

theorem killProcess_eq (s : State) (t : TaskId) : ∃ procs, killProcess s t = { s with procs := procs } := by
  unfold killProcess
  dsimp only
  split
  · exact processReparentChildren_eq _ _
  · exact ⟨s.procs, rfl⟩

theorem taskKill_eq (ht : t ≠ s.current) (hzombie : (s.tasks t).state ≠ .zombie) : taskKill s t =
    waitQueueWakeAll (leaveQueue (killProcess ((if (s.tasks t).sleepUntil ≠ 0 then schedRemoveSleeper s t else s).modify
      t Task.killed) t) t) reaperQueue := by
  unfold taskKill
  rw [if_neg ht, if_neg hzombie]
  rfl

theorem taskKill_inv (h : ListsOk s) (t : TaskId) : ListsOk (taskKill s t) := by
  by_cases ht : t = s.current
  · rwa [taskKill, if_pos ht]
  by_cases hzombie : (s.tasks t).state = .zombie
  · rwa [taskKill, if_neg ht, if_pos hzombie]
  obtain ⟨W, L, hlists⟩ := h.lists
  have htimed : (s.tasks t).state = .sleeping ∨ (s.tasks t).sleepUntil = 0 := by
    by_cases huntil : (s.tasks t).sleepUntil = 0
    · exact .inr huntil
    · exact .inl (((h.others t ht).timed huntil).resolve_right hzombie)
  obtain ⟨next, head, heq, hseg⟩ := removeIfTimed_eq s t
  rw [taskKill_eq ht hzombie, heq]
  have hkilled : Lists (({ s with sleepNext := next, sleepHead := head } : State).modify t Task.killed) W
      (L.erase t) := by
    refine hlists.unsleep (hseg hlists htimed) rfl (Task.not_timed_of_state nofun) fun hinUse => ?_
    exact .inl ((h.others t ht).live hzombie)
  have htasks : (({ s with sleepNext := next, sleepHead := head } : State).modify t Task.killed).tasks =
      update s.tasks t (s.tasks t).killed := rfl
  have hcurrent : (({ s with sleepNext := next, sleepHead := head } : State).modify t Task.killed).current =
      s.current := rfl
  generalize ({ s with sleepNext := next, sleepHead := head } : State).modify t Task.killed = r at *
  obtain ⟨procs, hprocs⟩ := killProcess_eq r t
  have hended : Lists { r with procs := procs } W (L.erase t) := hkilled.congr rfl rfl rfl rfl rfl rfl
  obtain ⟨W', hleft⟩ := hended.leaveQueue t
  obtain ⟨next', queues', hleave⟩ := leaveQueue_frame { r with procs := procs } t
  rw [hprocs]
  suffices hinv : ListsOk (leaveQueue { r with procs := procs } t) from (waitQueueWakeAll_inv hinv nofun).inv
  rw [hleave] at hleft ⊢
  have hzombie : TaskOk { (s.tasks t).killed with waitQueue := none } := .zombie rfl rfl
  refine h.of_task ⟨W', _, hleft⟩ hcurrent ?_ ht hzombie
  dsimp only
  rw [htasks, update_idem, update_self]

/-! ### `sched_exit_group` -/

/-- The task as `sched_exit_group` leaves it. -/
def Task.ended (code : Int) (task : Task) : Task := { task with state := .zombie, exitCode := code }

theorem foldl_endTask (code : Int) : ∀ (l : List TaskId) (s : State), l.foldl (endTask code) s =
    { s with tasks := fun x => if x ∈ l then (s.tasks x).ended code else s.tasks x } := by
  intro l
  induction l with
  | nil => simp
  | cons t l ih =>
  intro s
  rw [List.foldl_cons, ih]
  congr 1
  funext x
  by_cases hx : x = t
  · subst hx
    simp [endTask, Task.ended]
  · rw [endTask, s.modify_tasks_of_ne _ hx]
    simp [hx]

/-- The loop over the sleep list. Its tasks up to `prev` stay; of the rest, those that end are
unlinked. -/
theorem exitSleepersLoop_eq (code : Int) (ends : TaskId → Bool) : ∀ (rest front : List TaskId) (fuel : Nat) (s : State),
    Seg s.sleepNext s.sleepHead (front ++ rest) none → (front ++ rest).Nodup → rest.length ≤ fuel →
    (∀ x, ends x = true ↔ (s.tasks x).process = p ∧ x ≠ s.current) →
    ∃ next head, exitSleepersLoop p code fuel front.getLast? rest.head? s =
      { s with
        sleepNext := next
        sleepHead := head
        tasks := fun x => if x ∈ rest ∧ ends x then (s.tasks x).ended code else s.tasks x } ∧
      Seg next head (front ++ rest.filter fun x => !ends x) none := by
  intro rest
  induction rest with
  | nil =>
    intro front fuel s hseg _ _ _
    have hloop : exitSleepersLoop p code fuel front.getLast? ([] : List TaskId).head? s = s := by cases fuel <;> rfl
    rw [hloop]
    refine ⟨s.sleepNext, s.sleepHead, ?_, hseg⟩
    simp
  | cons t rest ih =>
  intro front fuel s hseg hnodup hfuel hends
  cases fuel with
  | zero => simp at hfuel
  | succ fuel =>
  have hnext : s.sleepNext t = rest.head? := by
    obtain ⟨b, -, -, hrest⟩ := seg_append.mp hseg
    exact hrest.head_eq
  have hparts := List.nodup_append.mp hnodup
  have ht : t ∉ rest := (List.nodup_cons.mp hparts.2.1).1
  rw [List.head?_cons, exitSleepersLoop]
  by_cases hend : (s.tasks t).process = p ∧ t ≠ s.current
  · -- the task is unlinked; the front part stays
    rw [if_pos hend, hnext]
    have hendt : ends t = true := (hends t).mpr hend
    have hnodup' : (front ++ rest).Nodup :=
      hnodup.sublist (List.Sublist.append_left (List.sublist_cons_self t rest) front)
    have htasks (x : TaskId) : (s.modify t (Task.ended code)).tasks x =
        if x = t then (s.tasks x).ended code else s.tasks x := by
      exact State.modify_ind x (if_pos rfl).symm fun hx => (if_neg hx).symm
    have hends' (x : TaskId) : ends x = true ↔
        ((s.modify t (Task.ended code)).tasks x).process = p ∧ x ≠ s.current := by
      rw [hends, htasks]
      split <;> rfl
    have hfilter : (t :: rest).filter (fun x => !ends x) = rest.filter fun x => !ends x := by
      simp [hendt]
    have hresult : (fun x => if x ∈ t :: rest ∧ ends x then (s.tasks x).ended code else s.tasks x) =
        fun x => if x ∈ rest ∧ ends x then ((s.modify t (Task.ended code)).tasks x).ended code
          else (s.modify t (Task.ended code)).tasks x := by
      funext x
      rw [htasks]
      by_cases hx : x = t
      · subst hx
        simp [hendt, ht]
      · simp [hx]
    rw [hfilter, hresult]
    have hunlinked := hseg.unlink hnodup
    obtain ⟨next, head, heq, hseg'⟩ := ih front fuel
      { s.modify t (Task.ended code) with
        sleepNext := unlinked s.sleepNext front.getLast? t
        sleepHead := unlinkedHead s.sleepNext s.sleepHead front.getLast? t } hunlinked hnodup' (by simpa using hfuel) hends'
    refine ⟨next, head, heq ▸ ?_, hseg'⟩
    rw [← hnext]
    cases front.getLast? <;> rfl
  rw [if_neg hend, hnext]
  have hendt : ends t = false := by
    rw [← Bool.not_eq_true, hends]
    exact hend
  obtain ⟨next, head, heq, hseg'⟩ := ih (front ++ [t]) fuel s (by simpa using hseg) (by simpa using hnodup)
    (by simpa using hfuel) hends
  rw [List.getLast?_concat] at heq
  refine ⟨next, head, ?_, ?_⟩
  · rw [heq]
    congr 1
    funext x
    by_cases hx : x = t
    · subst hx
      simp [hendt]
    · simp [hx]
  · simpa [hendt] using hseg'

/-- No other thread of the process is on a wait queue. -/
def ExitGroupOk (s : State) : Prop :=
  ∀ t < s.nextTask, t ≠ s.current → (s.tasks t).process = s.cur.process → (s.tasks t).waitQueue = none

/-- A task of the current process other than the current one. -/
def ends (s : State) (t : TaskId) : Bool := (s.tasks t).process = s.cur.process ∧ t ≠ s.current

/-- The tasks after `sched_exit_group`: those of the process are gone that the run queue or the sleep
list contained. -/
theorem schedExitGroup_eq (h : Lists s W L) (code : Int) : ∃ next head,
    schedExitGroup s s.cur.process code =
      { s with
        sleepNext := next
        sleepHead := head
        runqueue := s.runqueue.filter fun t => !ends s t
        tasks := fun x => if (x ∈ s.runqueue ∨ x ∈ L) ∧ ends s x then (s.tasks x).ended code else s.tasks x } ∧
      Seg next head (L.filter fun x => !ends s x) none := by
  have hfirst : (s.runqueue.filter (ends s)).foldl (endTask code) s = _ := foldl_endTask code _ s
  have hprocess (x : TaskId) : (if x ∈ s.runqueue.filter (ends s) then (s.tasks x).ended code else s.tasks x).process =
      (s.tasks x).process := by
    split <;> rfl
  obtain ⟨next, head, heq, hseg⟩ := exitSleepersLoop_eq (p := s.cur.process) code (ends s) L [] s.fuel
    { s with
      runqueue := s.runqueue.filter fun t => !ends s t
      tasks := fun x => if x ∈ s.runqueue.filter (ends s) then (s.tasks x).ended code else s.tasks x }
    h.sleepers h.sleepersNodup (Nat.le_of_lt h.sleepers_length)
    (fun x => by
      rw [hprocess]
      simp [ends])
  refine ⟨next, head, ?_, hseg⟩
  have hunfold : schedExitGroup s s.cur.process code =
      (fun r : State => exitSleepersLoop s.cur.process code r.fuel none r.sleepHead r)
        { (s.runqueue.filter (ends s)).foldl (endTask code) s with
          runqueue := s.runqueue.filter fun t => !ends s t } := rfl
  rw [hunfold, hfirst]
  rw [← h.sleepers.head_eq] at heq
  refine heq.trans ?_
  congr 1
  funext x
  by_cases hend : ends s x = true
  · by_cases hrq : x ∈ s.runqueue
    · by_cases hL : x ∈ L <;> simp [hend, hrq, hL, Task.ended]
    · simp [hend, hrq]
  · simp [hend]

theorem Lists.exitGroup (h : Lists s W L) (code : Int) :
    Lists (schedExitGroup s s.cur.process code) W (L.filter fun x => !ends s x) := by
  obtain ⟨next, head, heq, hseg⟩ := schedExitGroup_eq h code
  rw [heq]
  -- a task that still has a deadline has not ended
  have htimed (x : TaskId) : (if (x ∈ s.runqueue ∨ x ∈ L) ∧ ends s x then (s.tasks x).ended code else s.tasks x).Timed ↔
      (s.tasks x).Timed ∧ ends s x = false := by
    by_cases hend : ends s x = true
    · rw [hend]
      refine iff_of_false ?_ (fun hx => absurd hx.2 (by simp))
      split
      · exact Task.not_timed_of_state nofun
      · rename_i hnot
        exact fun ht => hnot ⟨.inr ((h.onList x).mpr ht), rfl⟩
    · rw [if_neg fun hx => hend hx.2]
      simp [hend]
  constructor
  case queue => exact h.queue
  case tail => exact h.tail
  case queueNodup => exact h.queueNodup
  case onQueue =>
    intro q x
    rw [h.onQueue]
    dsimp only
    split <;> rfl
  case sleepers => exact hseg
  case sleepersNodup => exact h.sleepersNodup.filter _
  case sorted =>
    refine (h.sorted.sublist List.filter_sublist).imp fun {x y} hle => ?_
    have huntil (z : TaskId) : (if (z ∈ s.runqueue ∨ z ∈ L) ∧ ends s z then (s.tasks z).ended code
        else s.tasks z).sleepUntil = (s.tasks z).sleepUntil := by split <;> rfl
    rw [huntil, huntil]
    exact hle
  case onList =>
    intro x
    rw [List.mem_filter, h.onList]
    exact (and_congr_right fun _ => by simp).trans (htimed x).symm
  case bound =>
    intro x hx
    refine h.bound x ?_
    dsimp only at hx
    split at hx
    · exact hx.imp_right fun hx => hx.imp_right nofun
    · exact hx

theorem schedExitGroup_inv (h : ListsOk s) (hok : ExitGroupOk s) (code : Int) :
    ListsOk (schedExitGroup s s.cur.process code) := by
  obtain ⟨W, L, hlists⟩ := h.lists
  have hended := hlists.exitGroup code
  obtain ⟨next, head, heq, -⟩ := schedExitGroup_eq hlists code
  rw [heq] at hended ⊢
  refine ⟨⟨W, _, hended⟩, fun x hx => ?_, ?_⟩
  · dsimp only at hx ⊢
    split
    · rename_i hend
      have hprocess : (s.tasks x).process = s.cur.process ∧ x ≠ s.current := by simpa [ends] using hend.2
      refine TaskOk.zombie rfl ?_
      by_contra hq
      exact hq (hok x (hlists.bound x (.inr (.inl hq))) hx hprocess.1)
    · exact h.others x hx
  · rw [State.cur]
    dsimp only
    rw [if_neg (by simp [ends])]
    exact h.cur

/-! ### `task_exit` -/

/-- The wake-up of joiners through `clear_child_tid`. -/
def exitFutex (s : State) (copyOk : Bool) : State :=
  if s.cur.clearChildTid ≠ 0 ∧ copyOk then futexWakeAddress s s.cur.clearChildTid 1 else s

/-- The current task, now gone, ends its process when the main thread is gone. -/
def exitProcess (s : State) (code : Int) : State :=
  let p := s.cur.process
  let alive : Bool := match (s.procs p).mainThread with
    | none => false
    | some main => decide ((s.tasks main).state ≠ .zombie)
  if alive then s else endProcess s p code

/-- The last switch of a task. -/
def exitSwitch (s : State) : Except Stop State :=
  if (schedule s).current = s.current then .error .scheduleReturned else .ok (resumeCurrent (schedule s))

theorem taskExit_eq (s : State) (code : Int) (copyOk : Bool) : taskExit s code copyOk =
    exitSwitch (waitQueueWakeAll (exitProcess ((exitFutex s copyOk).modify (exitFutex s copyOk).current
      (Task.ended code)) code) reaperQueue) := rfl

theorem exitFutex_inv (h : ListsOk s)
    (hfutex : s.cur.clearChildTid ≠ 0 → copyOk = true → FutexOk s s.cur.clearChildTid) :
    Kept .running s (exitFutex s copyOk) := by
  unfold exitFutex
  split
  · rename_i htid
    exact futexWakeAddress_inv h nofun 1 fun _ => hfutex htid.1 htid.2
  · exact .refl h

theorem exitProcess_inv (h : Inv st s) (hst : st ≠ .sleeping) (code : Int) : Kept st s (exitProcess s code) := by
  have hcases (alive : Bool) : Kept st s (if alive then s else endProcess s s.cur.process code) := by
    split
    · exact .refl h
    · exact endProcess_inv h hst _ code
  exact hcases _

theorem exitSwitch_inv (h : Inv .zombie s) (hswitch : CanSwitch s) (hok : exitSwitch s = .ok s') : ListsOk s' := by
  obtain ⟨W, L, hlists⟩ := h.lists
  obtain ⟨next, hne, hready, heq⟩ := schedule_switch hswitch
  unfold exitSwitch at hok
  split at hok
  · cases hok
  injection hok with hok
  rw [← hok, heq]
  refine switchTo_inv hlists h.others ?_ hne hready
  rw [Task.preempted, if_neg (by rw [h.cur.state]; decide)]
  exact TaskOk.zombie h.cur.state h.cur.waitQueue

theorem Inv.ended (h : ListsOk s) (code : Int) : Inv .zombie (s.modify s.current (Task.ended code)) := by
  obtain ⟨W, L, hlists⟩ := h.lists
  refine Inv.of_cur s ⟨W, L, hlists.modify rfl ?_⟩ rfl rfl h.others
    ⟨rfl, h.cur.allocated, h.cur.waitQueue, h.cur.sleepUntil⟩
  refine Task.Same.of_not (fun htimed => htimed.2 h.cur.sleepUntil) (Task.not_timed_of_state nofun) ?_
  exact fun _ => .inl h.cur.allocated

theorem taskExit_inv (h : ListsOk s) (hswitch : CanSwitch s)
    (hfutex : s.cur.clearChildTid ≠ 0 → copyOk = true → FutexOk s s.cur.clearChildTid)
    (hok : taskExit s code copyOk = .ok s') : ListsOk s' := by
  rw [taskExit_eq] at hok
  obtain ⟨hwoken, hkeeps⟩ := exitFutex_inv h hfutex
  generalize exitFutex s copyOk = r at *
  have hgone := hwoken.ended code
  have hswitch' : CanSwitch (r.modify r.current (Task.ended code)) :=
    (hswitch.of_keeps hkeeps).of_others rfl rfl rfl fun x hx => r.modify_tasks_of_ne _ hx
  have hended := exitProcess_inv hgone nofun code
  have hreaped := hended.trans (waitQueueWakeAll_inv (q := reaperQueue) hended.inv nofun)
  exact exitSwitch_inv hreaped.inv (hswitch'.of_keeps hreaped.keeps) hok

/-- What `exit_group` leaves to switch to: a task of another process. -/
def CanSwitchOut (s : State) : Prop :=
  (∃ t ∈ s.runqueue, Candidate s t ∧ (s.tasks t).process ≠ s.cur.process) ∨
    ((∃ t ∈ s.runqueue, ends s t = false) ∧ s.idleTask ≠ s.current ∧ (s.tasks s.idleTask).state = .ready ∧
      (s.tasks s.idleTask).process ≠ s.cur.process)

theorem sysExitGroup_inv (h : ListsOk s) (hgroup : ExitGroupOk s) (hswitch : CanSwitchOut s)
    (hfutex : s.cur.clearChildTid ≠ 0 → copyOk = true → FutexOk s s.cur.clearChildTid)
    (hok : sysExitGroup s code copyOk = .ok s') : ListsOk s' := by
  obtain ⟨W, L, hlists⟩ := h.lists
  have hended := schedExitGroup_inv h hgroup code
  unfold sysExitGroup at hok
  obtain ⟨next, head, heq, -⟩ := schedExitGroup_eq hlists code
  rw [heq] at hended hok
  have hother (x : TaskId) (hx : (s.tasks x).process ≠ s.cur.process) :
      (if (x ∈ s.runqueue ∨ x ∈ L) ∧ ends s x then (s.tasks x).ended code else s.tasks x) = s.tasks x := by
    rw [if_neg]
    simp [ends, hx]
  have hself : (if (s.current ∈ s.runqueue ∨ s.current ∈ L) ∧ ends s s.current then (s.tasks s.current).ended code
      else s.tasks s.current) = s.cur := by
    rw [if_neg (by simp [ends])]
    rfl
  refine taskExit_inv hended ?_ (fun htid hcopy => ?_) hok
  · rcases hswitch with ⟨t, hrq, ⟨hne, hcandidate⟩, hprocess⟩ | ⟨⟨t, hrq, hstays⟩, hne, hready, hprocess⟩
    · refine .inl ⟨t, List.mem_filter.mpr ⟨hrq, by simp [ends, hprocess]⟩, hne, ?_⟩
      dsimp only
      rwa [hother t hprocess]
    · refine .inr ⟨List.ne_nil_of_mem (List.mem_filter.mpr ⟨hrq, by rw [hstays]; rfl⟩), hne, ?_⟩
      dsimp only
      rwa [hother _ hprocess]
  rw [State.cur] at htid ⊢
  dsimp only at htid ⊢
  rw [hself] at htid ⊢
  intro x hx
  dsimp only at hx ⊢
  split
  · exact fun hstate => by cases hstate
  · exact hfutex htid hcopy x (List.mem_filter.mp hx).1

/-! ### Release and creation -/

theorem Inv.freed (h : ListsOk s) (ht : (s.tasks t).state = .zombie) :
    ListsOk (s.modify t fun task => { task with allocated := false }) := by
  have hne : t ≠ s.current := h.ne_current (by rw [ht]; nofun)
  obtain ⟨W, L, hlists⟩ := h.lists
  have hq : (s.tasks t).waitQueue = none := by
    by_contra hq
    rcases (h.others t hne).waiting hq with hwaits | hwaits <;> rw [ht] at hwaits <;> cases hwaits.1
  refine h.of_task ⟨W, L, hlists.modify rfl ⟨Iff.rfl, fun _ => rfl, fun hinUse => .inr ?_⟩⟩ rfl rfl hne (.zombie ht hq)
  exact hinUse.resolve_left nofun

theorem schedRemoveTask_eq (s : State) (t : TaskId) : ∃ rq, schedRemoveTask s t = { s with runqueue := rq } := by
  unfold schedRemoveTask
  split
  · exact ⟨s.runqueue, rfl⟩
  · exact ⟨_, rfl⟩

theorem reapZombie_inv (h : ListsOk s) (ht : (s.tasks t).state = .zombie) : ListsOk (reapZombie s t) := by
  unfold reapZombie
  dsimp only
  obtain ⟨rq, heq⟩ := schedRemoveTask_eq (s.modifyProc s.cur.process fun proc =>
    { proc with children := proc.children.erase (s.tasks t).process }) t
  rw [heq]
  have hinv : ListsOk { (s.modifyProc s.cur.process fun proc =>
      { proc with children := proc.children.erase (s.tasks t).process }) with runqueue := rq } :=
    h.congr rfl rfl rfl rfl rfl rfl rfl
  exact (Inv.freed hinv (t := t) ht).congr rfl rfl rfl rfl rfl rfl rfl

theorem findZombieChild_zombie (h : findZombieChild s pid = some t) : (s.tasks t).state = .zombie := by
  obtain ⟨child, -, hchild⟩ := List.exists_of_findSome?_eq_some h
  split at hchild
  · simpa using (Option.filter_eq_some_iff.mp hchild).2
  · cases hchild

theorem addTask_eq (s : State) (p : ProcId) (tid : Nat) : ∃ rq, addTask s p tid =
    { s with
      nextTask := s.nextTask + 1
      waitNext := update s.waitNext s.nextTask none
      sleepNext := update s.sleepNext s.nextTask none
      tasks := update s.tasks s.nextTask (newTask s p tid)
      runqueue := rq } := by
  obtain ⟨rq, heq, -⟩ := schedAddTask_eq _ s.nextTask
  exact ⟨rq, heq⟩

theorem Lists.addTask (h : Lists s W L) (p : ProcId) (tid : Nat) : Lists (addTask s p tid) W L := by
  have hfresh : ¬ (s.tasks s.nextTask).InUse := fun hinUse => absurd (h.bound _ hinUse) (Nat.lt_irrefl _)
  have hq : (s.tasks s.nextTask).waitQueue = none := by
    by_contra hq
    exact hfresh (.inr (.inl hq))
  have htimed : ¬ (s.tasks s.nextTask).Timed := fun htimed => hfresh (.inr (.inr htimed.1))
  have hlinks := (h.setWaitNext hq none).setSleepNext (t := s.nextTask) htimed none
  obtain ⟨rq, heq⟩ := addTask_eq s p tid
  rw [heq]
  constructor
  case queue => exact hlinks.queue
  case tail => exact h.tail
  case queueNodup => exact h.queueNodup
  case onQueue =>
    intro q x
    dsimp only
    rw [h.onQueue, update_apply]
    split
    · rename_i hx
      rw [hx, hq]
      rfl
    · rfl
  case sleepers => exact hlinks.sleepers
  case sleepersNodup => exact h.sleepersNodup
  case sorted =>
    have hold (x : TaskId) (hx : x ∈ L) : x ≠ s.nextTask := fun heq => htimed (heq ▸ (h.onList x).mp hx)
    refine h.sorted.imp_of_mem fun {x y} hx hy hle => ?_
    dsimp only
    rwa [update_of_ne (hold x hx), update_of_ne (hold y hy)]
  case onList =>
    intro x
    dsimp only
    rw [h.onList, update_apply]
    split
    · rename_i hx
      rw [hx]
      exact iff_of_false htimed (Task.not_timed_of_state nofun)
    · rfl
  case bound =>
    intro x hx
    dsimp only at hx
    rw [update_apply] at hx
    split at hx
    · rename_i heq
      rw [heq]
      exact Nat.lt_succ_self _
    · exact Nat.lt_succ_of_lt (h.bound x hx)

theorem addTask_inv (h : ListsOk s) (p : ProcId) (tid : Nat) : ListsOk (addTask s p tid) := by
  obtain ⟨W, L, hlists⟩ := h.lists
  have hne : s.current ≠ s.nextTask := Nat.ne_of_lt (hlists.bound _ (.inl h.cur.allocated))
  have hadded := hlists.addTask p tid
  obtain ⟨rq, heq⟩ := addTask_eq s p tid
  rw [heq] at hadded ⊢
  exact h.of_task ⟨W, L, hadded⟩ rfl rfl hne.symm (.of_off nofun (fun _ => rfl) rfl rfl)

end Litenix.Sched
