import Litenix.SchedWake

/-! Switching. `schedule` takes a ready task if there is one; only the idle task is taken without a
look at its state. A call that sleeps puts the current task on its lists and switches away from it,
and the task that comes back takes itself off what it is still on. -/

namespace Litenix.Sched

open Lib Function

variable {s s' : State} {W : WqId → List TaskId} {L : List TaskId} {t next : TaskId} {q : WqId} {st : TaskState}
variable {task : Task} {r : Resume}

/-! ### The choice of `pick_next_task` -/

/-- The task can be picked. -/
def Candidate (s : State) (t : TaskId) : Prop :=
  t ≠ s.current ∧ (s.tasks t).state = .ready ∧ (s.tasks t).idle = false ∧ (s.tasks t).priority < 20

/-- `schedule` finds a ready task to switch to: one of the run queue, or the idle task. -/
def CanSwitch (s : State) : Prop :=
  (∃ t ∈ s.runqueue, Candidate s t) ∨ (s.runqueue ≠ [] ∧ s.idleTask ≠ s.current ∧ (s.tasks s.idleTask).state = .ready)

/-- `schedule` does not fall back to a sleeping idle task. -/
def YieldOk (s : State) : Prop := (∃ t ∈ s.runqueue, Candidate s t) ∨ (s.tasks s.idleTask).state ≠ .sleeping

theorem CanSwitch.of_keeps (h : CanSwitch s) (hkeeps : Keeps s s') : CanSwitch s' := by
  rcases h with ⟨t, hrq, hne, hready, hidle, hprio⟩ | ⟨hrq, hne, hready⟩
  · obtain ⟨hready', hidle', hprio'⟩ := hkeeps.ready t hready
    exact .inl ⟨t, hkeeps.runqueue t hrq, hkeeps.current ▸ hne, hready', hidle'.trans hidle, hprio' ▸ hprio⟩
  obtain ⟨x, hx⟩ := List.exists_mem_of_ne_nil _ hrq
  refine .inr ⟨List.ne_nil_of_mem (hkeeps.runqueue x hx), ?_, ?_⟩
  · rwa [hkeeps.current, hkeeps.idleTask]
  · rw [hkeeps.idleTask]
    exact (hkeeps.ready _ hready).1

/-- What is known of the best task so far. -/
structure Pick.Ok (s : State) (p : Pick) : Prop where
  best : ∀ b, p.best = some b → b ≠ s.current ∧ (s.tasks b).state = .ready
  prio : p.best = none → p.bestPrio = 20

/-- **One task of the run queue.** -/
theorem pickStep_ok {p : Pick} (h : p.Ok s) (t : TaskId) : (pickStep s s.current p t).Ok s ∧
    ((pickStep s s.current p t).best = none → p.best = none ∧ ¬ Candidate s t) := by
  unfold pickStep
  dsimp only
  split
  · rename_i heq
    exact ⟨⟨h.best, h.prio⟩, fun hnone => ⟨hnone, fun hc => hc.1 heq⟩⟩
  rename_i hne
  split
  · rename_i hready
    have hbest : ∀ b, some t = some b → b ≠ s.current ∧ (s.tasks b).state = .ready := by
      intro b hb
      cases hb
      exact ⟨hne, hready.1⟩
    split
    · exact ⟨⟨hbest, nofun⟩, nofun⟩
    split
    · exact ⟨⟨hbest, nofun⟩, nofun⟩
    rename_i hprio _
    refine ⟨h, fun hnone => ⟨hnone, fun hc => hprio ?_⟩⟩
    rw [h.prio hnone]
    exact hc.2.2.2
  · rename_i hready
    refine ⟨h, fun hnone => ⟨hnone, fun hc => hready ⟨hc.2.1, ?_⟩⟩⟩
    rw [hc.2.2.1]
    rfl

theorem pickFold_ok : ∀ (l : List TaskId) (p : Pick), p.Ok s → (l.foldl (pickStep s s.current) p).Ok s ∧
    ((l.foldl (pickStep s s.current) p).best = none → p.best = none ∧ ∀ t ∈ l, ¬ Candidate s t) := by
  intro l
  induction l with
  | nil => exact fun p h => ⟨h, fun hnone => ⟨hnone, nofun⟩⟩
  | cons t l ih =>
    intro p h
    obtain ⟨hok, hstep⟩ := pickStep_ok h t
    obtain ⟨hok', hrest⟩ := ih _ hok
    refine ⟨hok', fun hnone => ?_⟩
    obtain ⟨hnone', hl⟩ := hrest hnone
    obtain ⟨hp, ht⟩ := hstep hnone'
    exact ⟨hp, List.forall_mem_cons.mpr ⟨ht, hl⟩⟩

/-- The task picked from the run queue, or the idle task when no task can be picked. -/
theorem pickNextTask_cases (hrq : s.runqueue ≠ []) :
    (∃ b, pickNextTask s s.current = some b ∧ b ≠ s.current ∧ (s.tasks b).state = .ready) ∨
    (∀ t ∈ s.runqueue, ¬ Candidate s t) ∧ pickNextTask s s.current =
      if (s.tasks s.idleTask).state ≠ .zombie then some s.idleTask else none := by
  have hstart : Pick.Ok s ⟨none, 20, false, false⟩ := ⟨nofun, fun _ => rfl⟩
  obtain ⟨hok, hnone⟩ := pickFold_ok s.runqueue _ hstart
  unfold pickNextTask
  rw [if_neg hrq]
  cases hbest : (s.runqueue.foldl (pickStep s s.current) ⟨none, 20, false, false⟩).best with
  | some b => exact .inl ⟨b, rfl, hok.best b hbest⟩
  | none => exact .inr ⟨(hnone hbest).2, rfl⟩

/-- When there is a task to switch to, `schedule` switches to a ready one. -/
theorem schedule_switch (h : CanSwitch s) :
    ∃ next, next ≠ s.current ∧ (s.tasks next).state = .ready ∧ schedule s = switchTo s next := by
  have hrq : s.runqueue ≠ [] := by
    rcases h with ⟨t, ht, -⟩ | h
    · exact List.ne_nil_of_mem ht
    · exact h.1
  unfold schedule
  rw [if_neg hrq]
  rcases pickNextTask_cases hrq with ⟨b, hpick, hne, hready⟩ | ⟨hnone, hpick⟩
  · rw [hpick]
    exact ⟨b, hne, hready, if_neg hne⟩
  rcases h with ⟨t, ht, hcandidate⟩ | ⟨-, hne, hready⟩
  · exact absurd hcandidate (hnone t ht)
  · rw [hpick, if_pos (by rw [hready]; nofun)]
    exact ⟨s.idleTask, hne, hready, if_neg hne⟩

/-- A running task that calls `schedule` goes on or is switched away from. -/
theorem schedule_yield (h : Inv .running s) (hyield : YieldOk s) : schedule s = s ∨
    ∃ next, next ≠ s.current ∧ (s.tasks next).state = .ready ∧ schedule s = switchTo s next := by
  unfold schedule
  by_cases hrq : s.runqueue = []
  · exact .inl (if_pos hrq)
  rw [if_neg hrq]
  rcases pickNextTask_cases hrq with ⟨b, hpick, hne, hready⟩ | ⟨hnone, hpick⟩
  · rw [hpick]
    exact .inr ⟨b, hne, hready, if_neg hne⟩
  rw [hpick]
  by_cases hzombie : (s.tasks s.idleTask).state ≠ .zombie
  · rw [if_pos hzombie]
    by_cases hne : s.idleTask = s.current
    · exact .inl (if_pos hne)
    -- the idle task is neither running nor asleep nor gone
    refine .inr ⟨s.idleTask, hne, ?_, if_neg hne⟩
    have hidle := hyield.resolve_left fun ⟨t, ht, hcandidate⟩ => hnone t ht hcandidate
    have hrunning := (h.others _ hne).notRunning
    cases hstate : (s.tasks s.idleTask).state <;> simp_all
  · rw [if_neg hzombie]
    exact .inl rfl

/-! ### Coming back -/

/-- A task that has just been switched to: it may still be on the wait queue that it timed out on. -/
structure Switched (task : Task) : Prop where
  running : task.state = .running
  allocated : task.allocated = true
  sleepUntil : task.sleepUntil = 0
  waiting : task.waitQueue ≠ none → task.resume = .sleepTimeout ∧ task.sleepTimedOut = true

theorem Switched.not_timed (h : Switched task) : ¬ task.Timed :=
  Task.not_timed_of_state (by rw [h.running]; nofun)

theorem Switched.waitQueue_eq (h : Switched task) (hresume : task.resume ≠ .sleepTimeout) :
    task.waitQueue = none := by
  by_contra hq
  exact hresume (h.waiting hq).1

/-- The current task ends a wait: only its own fields and the lists change. -/
theorem Inv.of_cur (s : State) (hlists : ∃ W L, Lists s' W L) (hcurrent : s'.current = s.current)
    (htasks : s'.tasks = update s.tasks s.current task)
    (hothers : ∀ x, x ≠ s.current → TaskOk (s.tasks x)) (htask : Free st task) : Inv st s' where
  lists := hlists
  others x hx := by
    rw [hcurrent] at hx
    rw [htasks, update_of_ne hx]
    exact hothers x hx
  cur := by
    rw [State.cur, hcurrent, htasks, update_self]
    exact htask

/-- The common end of `resumeCurrent`. -/
theorem Inv.resumed (h : Inv .running s) (hcurrent : s.current = t) :
    ListsOk (s.modify t fun task => { task with resume := .code }) := by
  subst hcurrent
  obtain ⟨W, L, hlists⟩ := h.lists
  refine Inv.of_cur s ⟨W, L, hlists.modify rfl ⟨Iff.rfl, fun _ => rfl, id⟩⟩ rfl rfl h.others ?_
  exact ⟨h.cur.state, h.cur.allocated, h.cur.waitQueue, h.cur.sleepUntil⟩

/-- The end of a timed wait: a task that timed out unlinks itself from its queue. -/
theorem timeoutEnd_inv (timedOut : Bool) (hlists : Lists s W L) (hothers : ∀ x, x ≠ s.current → TaskOk (s.tasks x))
    (hstate : s.cur.state = .running) (hallocated : s.cur.allocated = true)
    (hwaits : s.cur.waitQueue ≠ none → timedOut = true) :
    ListsOk ((((match s.cur.waitQueue with
      | none => s
      | some q => if timedOut then unlinkWait s q s.current else s).setWaitNext s.current none).modify s.current
        fun t => { t with waitQueue := none, sleepUntil := 0 }).modify s.current fun t => { t with resume := .code }) := by
  have hsame : Task.Same s.cur { s.cur with waitQueue := none, sleepUntil := 0 } :=
    Task.Same.of_not (Task.not_timed_of_state (by rw [hstate]; nofun)) (fun h => h.2 rfl) fun _ => .inl hallocated
  have hfree : Free .running { s.cur with waitQueue := none, sleepUntil := 0 } := ⟨hstate, hallocated, rfl, rfl⟩
  cases hq : s.cur.waitQueue with
  | none =>
    have hdone := (hlists.setWaitNext hq none).modify (t := s.current)
      (f := fun t => { t with waitQueue := none, sleepUntil := 0 }) hq.symm hsame
    exact (Inv.of_cur s ⟨W, L, hdone⟩ rfl rfl hothers hfree).resumed rfl
  | some q =>
    have hdone := hlists.leave (f := fun t => { t with waitQueue := none, sleepUntil := 0 }) hq rfl hsame
    obtain ⟨next, queues, heq⟩ := unlinkWait_frame s q s.current
    obtain rfl := hwaits (by rw [hq]; nofun)
    dsimp only
    rw [if_pos rfl, heq]
    rw [heq] at hdone
    exact (Inv.of_cur s ⟨_, L, hdone⟩ rfl rfl hothers hfree).resumed rfl

theorem resumeCurrent_inv (hlists : Lists s W L) (hothers : ∀ x, x ≠ s.current → TaskOk (s.tasks x))
    (hcur : Switched s.cur) : ListsOk (resumeCurrent s) := by
  unfold resumeCurrent
  cases hresume : s.cur.resume with
  | code =>
    have hnone := hcur.waitQueue_eq (by rw [hresume]; nofun)
    exact Inv.resumed ⟨⟨W, L, hlists⟩, hothers, hcur.running, hcur.allocated, hnone, hcur.sleepUntil⟩ rfl
  | sleepLocked =>
    have hnone : (s.tasks s.current).waitQueue = none := hcur.waitQueue_eq (by rw [hresume]; nofun)
    have hfree := (hlists.setWaitNext hnone none).modify (t := s.current)
      (f := fun task => { task with waitQueue := none }) hnone.symm (Task.same_dequeued _)
    refine Inv.resumed (s := (s.setWaitNext s.current none).modify s.current fun t => { t with waitQueue := none }) ?_ rfl
    exact Inv.of_cur s ⟨W, L, hfree⟩ rfl rfl hothers ⟨hcur.running, hcur.allocated, rfl, hcur.sleepUntil⟩
  | sleepTimeout =>
    -- the flag is cleared first, which no list depends on
    have hcleared := hlists.modify (t := s.current) (f := fun t => { t with sleepTimedOut := false }) rfl
      ⟨Iff.rfl, fun _ => rfl, id⟩
    have hself : (s.modify s.current fun t => { t with sleepTimedOut := false }).cur =
        { s.cur with sleepTimedOut := false } := s.modify_tasks_same ..
    have hothers' (x : TaskId) (hx : x ≠ s.current) :
        TaskOk ((s.modify s.current fun t => { t with sleepTimedOut := false }).tasks x) := by
      rw [s.modify_tasks_of_ne _ hx]
      exact hothers x hx
    exact timeoutEnd_inv s.cur.sleepTimedOut hcleared hothers' (by rw [hself]; exact hcur.running)
      (by rw [hself]; exact hcur.allocated) (by rw [hself]; exact fun hq => (hcur.waiting hq).2)
  | sleepTicks =>
    have hfree := (hlists.setSleepNext (t := s.current) hcur.not_timed none).modify (t := s.current)
      (f := fun t => { t with sleepUntil := 0, sleepTimedOut := false }) rfl
      (Task.Same.of_not hcur.not_timed (fun h => h.2 rfl) id)
    have hnone := hcur.waitQueue_eq (by rw [hresume]; nofun)
    refine Inv.resumed (s := (s.setSleepNext s.current none).modify s.current fun t =>
      { t with sleepUntil := 0, sleepTimedOut := false }) ?_ rfl
    exact Inv.of_cur s ⟨W, L, hfree⟩ rfl rfl hothers ⟨hcur.running, hcur.allocated, hnone, rfl⟩

/-! ### Switching -/

/-- The task as `schedule` leaves it behind. -/
def Task.preempted (task : Task) : Task := if task.state = .running then { task with state := .ready } else task

/-- The task as `schedule` starts it. -/
def Task.started (task : Task) : Task :=
  { task with
    state := .running
    priority := if task.priority ≠ task.staticPriority ∧ !task.idle then task.staticPriority else task.priority }

theorem Task.same_preempted (task : Task) : Task.Same task task.preempted := by
  unfold Task.preempted
  split
  · rename_i hrunning
    refine Task.Same.of_not (Task.not_timed_of_state (by rw [hrunning]; nofun)) (Task.not_timed_of_state nofun) ?_
    exact fun h => h.imp_right fun h => h.imp_right nofun
  · exact Task.Same.refl task

theorem Task.waitQueue_preempted (task : Task) : task.preempted.waitQueue = task.waitQueue := by
  unfold Task.preempted
  split <;> rfl

theorem TaskOk.switched (h : TaskOk task) (hready : task.state = .ready) : Switched task.started where
  running := rfl
  allocated := h.live (by rw [hready]; nofun)
  sleepUntil := by
    by_contra huntil
    rcases h.timed huntil with hstate | hstate <;> rw [hready] at hstate <;> cases hstate
  waiting hq := by
    rcases h.waiting hq with hwaits | hexpired
    · rw [hready] at hwaits
      cases hwaits.1
    · exact hexpired.2

/-- **A switch.** The task left behind is as the others are, and the new one comes back. -/
theorem switchTo_inv (hlists : Lists s W L) (hothers : ∀ x, x ≠ s.current → TaskOk (s.tasks x))
    (hcur : TaskOk s.cur.preempted) (hne : next ≠ s.current) (hready : (s.tasks next).state = .ready) :
    ListsOk (resumeCurrent (switchTo s next)) := by
  have hleft : Lists (s.modify s.current Task.preempted) W L :=
    hlists.modify (Task.waitQueue_preempted _) (Task.same_preempted _)
  have hnext : (s.modify s.current Task.preempted).tasks next = s.tasks next := s.modify_tasks_of_ne _ hne
  have hstarted : Lists ((s.modify s.current Task.preempted).modify next Task.started) W L := by
    refine hleft.modify rfl (Task.Same.of_not ?_ (Task.not_timed_of_state nofun) fun _ => ?_)
    · rw [hnext]
      exact Task.not_timed_of_state (by rw [hready]; nofun)
    · rw [hnext]
      exact .inl ((hothers next hne).live (by rw [hready]; nofun))
  have hswitch : switchTo s next =
      { (s.modify s.current Task.preempted).modify next Task.started with current := next } := rfl
  rw [hswitch]
  refine resumeCurrent_inv (hstarted.congr rfl rfl rfl rfl rfl rfl) (fun x hx => ?_) ?_
  · have hother : ((s.modify s.current Task.preempted).modify next Task.started).tasks x =
        (s.modify s.current Task.preempted).tasks x := State.modify_tasks_of_ne _ _ hx
    rw [hother]
    exact State.modify_ind x hcur (hothers x)
  · have hself : ((s.modify s.current Task.preempted).modify next Task.started).tasks next = (s.tasks next).started := by
      rw [State.modify_tasks_same, hnext]
    change Switched (((s.modify s.current Task.preempted).modify next Task.started).tasks next)
    rw [hself]
    exact (hothers next hne).switched hready

/-- The choice of `schedule` depends on the other tasks only. -/
theorem CanSwitch.of_others (h : CanSwitch s) (hcurrent : s'.current = s.current) (hidle : s'.idleTask = s.idleTask)
    (hrunqueue : s'.runqueue = s.runqueue) (htasks : ∀ x, x ≠ s.current → s'.tasks x = s.tasks x) : CanSwitch s' := by
  rcases h with ⟨t, hrq, hne, hcandidate⟩ | ⟨hrq, hne, hready⟩
  · refine .inl ⟨t, hrunqueue ▸ hrq, hcurrent ▸ hne, ?_⟩
    rwa [htasks t hne]
  · refine .inr ⟨hrunqueue ▸ hrq, ?_, ?_⟩
    · rwa [hidle, hcurrent]
    · rwa [hidle, htasks _ hne]

/-- A task that does not run switches away. -/
theorem switchAway_inv (hlists : Lists s W L) (hothers : ∀ x, x ≠ s.current → TaskOk (s.tasks x))
    (hcur : TaskOk { s.cur with resume := r }) (hswitch : CanSwitch s) : ListsOk (switchAway s r) := by
  have hself : (s.modify s.current fun t => { t with resume := r }).cur = { s.cur with resume := r } :=
    s.modify_tasks_same ..
  have hother (x : TaskId) (hx : x ≠ s.current) :
      (s.modify s.current fun t => { t with resume := r }).tasks x = s.tasks x := s.modify_tasks_of_ne _ hx
  have hswitch' : CanSwitch (s.modify s.current fun t => { t with resume := r }) :=
    hswitch.of_others rfl rfl rfl hother
  obtain ⟨next, hne, hready, heq⟩ := schedule_switch hswitch'
  unfold switchAway
  rw [heq]
  refine switchTo_inv (hlists.modify rfl ⟨Iff.rfl, fun _ => rfl, id⟩) (fun x hx => ?_) ?_ hne hready
  · rw [hother x hx]
    exact hothers x hx
  · rw [hself, Task.preempted, if_neg hcur.notRunning]
    exact hcur

/-! ### Calls that sleep -/

theorem enqueueCurrent_frame (s : State) (q : WqId) : ∃ next queues, enqueueCurrent s q =
    { s with
      waitNext := next
      queues := queues
      tasks := update s.tasks s.current
        { s.cur with state := .sleeping, waitQueue := some q, sleepTimedOut := false } } := by
  unfold enqueueCurrent
  dsimp only
  cases (s.queues q).tail <;> exact ⟨_, _, rfl⟩

theorem schedAddSleeper_frame (s : State) (t : TaskId) :
    ∃ next head, schedAddSleeper s t = { s with sleepNext := next, sleepHead := head } := by
  unfold schedAddSleeper
  dsimp only
  split <;> exact ⟨_, _, rfl⟩

section Sleep

variable (h : ListsOk s) (hswitch : CanSwitch s)

/-- The current task has been put on lists: only its own fields and the links have changed. -/
theorem sleeping_inv (hothers : ∀ x, x ≠ s.current → TaskOk (s.tasks x))
    (hlists : ∃ W L, Lists s' W L) (hcurrent : s'.current = s.current)
    (hidle : s'.idleTask = s.idleTask) (hrunqueue : s'.runqueue = s.runqueue)
    (htasks : s'.tasks = update s.tasks s.current task) (htask : TaskOk { task with resume := r })
    (hswitch : CanSwitch s) : ListsOk (switchAway s' r) := by
  obtain ⟨W, L, hlists⟩ := hlists
  have hother (x : TaskId) (hx : x ≠ s.current) : s'.tasks x = s.tasks x := by
    rw [htasks, update_of_ne hx]
  have hself : s'.cur = task := by rw [State.cur, hcurrent, htasks, update_self]
  refine switchAway_inv hlists (fun x hx => ?_) ?_ (hswitch.of_others hcurrent hidle hrunqueue hother)
  · rw [hcurrent] at hx
    rw [hother x hx]
    exact hothers x hx
  · rwa [hself]

include h hswitch

theorem waitQueueSleepLocked_inv (q : WqId) : ListsOk (waitQueueSleepLocked s q) := by
  obtain ⟨W, L, hlists⟩ := h.lists
  have hqueued := hlists.enqueueCurrent h.cur q
  obtain ⟨next, queues, heq⟩ := enqueueCurrent_frame s q
  unfold waitQueueSleepLocked
  rw [heq] at hqueued ⊢
  refine sleeping_inv h.others ⟨_, L, hqueued⟩ rfl rfl rfl rfl ?_ hswitch
  refine ⟨nofun, fun _ => h.cur.allocated, fun _ => .inl ⟨rfl, .inl rfl⟩, fun _ => .inl rfl, ?_⟩
  exact fun htimed => absurd h.cur.sleepUntil htimed.2

theorem waitQueueSleepTimeout_inv (q : WqId) (ticks : UInt64)
    (hdeadline : ticks ≠ 0 → ticks.toNat ≠ 2 ^ 64 - 1 → (s.now + ticks.toNat) % 2 ^ 64 ≠ 0) :
    ListsOk (waitQueueSleepTimeout s q ticks) := by
  unfold waitQueueSleepTimeout
  split
  · exact h
  rename_i hticks
  obtain ⟨W, L, hlists⟩ := h.lists
  have hqueued := hlists.enqueueCurrent h.cur q
  obtain ⟨next, queues, heq⟩ := enqueueCurrent_frame s q
  rw [heq] at hqueued ⊢
  have hok (deadline : Nat) : TaskOk { s.cur with
      state := .sleeping
      waitQueue := some q
      sleepTimedOut := false
      sleepUntil := deadline
      resume := .sleepTimeout } :=
    ⟨nofun, fun _ => h.cur.allocated, fun _ => .inl ⟨rfl, .inr rfl⟩, fun _ => .inl rfl, fun _ _ => rfl⟩
  generalize hslept : ({ s.cur with state := .sleeping, waitQueue := some q, sleepTimedOut := false } : Task) = slept at *
  have hset (deadline : Nat) : update (update s.tasks s.current slept) s.current
      { update s.tasks s.current slept s.current with sleepUntil := deadline } =
      update s.tasks s.current { slept with sleepUntil := deadline } := by
    rw [update_idem, update_self]
  have hnot : ¬ (update s.tasks s.current slept s.current).Timed := by
    rw [update_self, ← hslept]
    exact fun htimed => htimed.2 h.cur.sleepUntil
  dsimp only
  split
  · rename_i hfinite
    obtain ⟨L', hadded⟩ := hqueued.addSleeper (t := s.current)
      (f := fun t => { t with sleepUntil := (s.now + ticks.toNat) % 2 ^ 64 }) hnot rfl
      (by dsimp only; rw [update_self, ← hslept]; exact ⟨rfl, hdeadline hticks hfinite⟩)
      (by dsimp only; rw [update_self, ← hslept]; exact .inr (.inr rfl))
    obtain ⟨next', head', heq'⟩ := schedAddSleeper_frame _ s.current
    rw [heq'] at hadded
    rw [State.modify_current, heq']
    exact sleeping_inv h.others ⟨_, L', hadded⟩ rfl rfl rfl (hset _) (hslept ▸ hok _) hswitch
  · have hforever := hqueued.modify (t := s.current) (f := fun t => { t with sleepUntil := 0 }) rfl
      (Task.Same.of_not hnot (fun htimed => htimed.2 rfl) id)
    exact sleeping_inv h.others ⟨_, L, hforever⟩ rfl rfl rfl (hset 0) (hslept ▸ hok 0) hswitch

theorem taskSleepTicks_inv (ticks : UInt64) (hdeadline : ticks ≠ 0 → (s.now + ticks.toNat) % 2 ^ 64 ≠ 0) :
    ListsOk (taskSleepTicks s ticks) := by
  unfold taskSleepTicks
  split
  · exact h
  rename_i hticks
  obtain ⟨W, L, hlists⟩ := h.lists
  have hadded := hlists.addSleeper (t := s.current)
    (f := fun t => { t with
      sleepUntil := (s.now + ticks.toNat) % 2 ^ 64
      state := .sleeping
      sleepTimedOut := false }) (fun htimed => htimed.2 h.cur.sleepUntil) rfl ⟨rfl, hdeadline hticks⟩
    (.inl h.cur.allocated)
  dsimp only
  rw [State.modify_current]
  obtain ⟨next, head, heq⟩ := schedAddSleeper_frame _ s.current
  rw [heq] at hadded ⊢
  refine sleeping_inv h.others ⟨W, hadded⟩ rfl rfl rfl rfl ?_ hswitch
  refine ⟨by simp, fun _ => h.cur.allocated, fun hq => absurd h.cur.waitQueue hq,
    fun _ => .inl rfl, ?_⟩
  exact fun _ hq => absurd h.cur.waitQueue hq

theorem futexWait_inv (uaddr : Nat) : ListsOk (futexWait s uaddr) := by
  obtain ⟨W, L, hlists⟩ := h.lists
  have hnot : ¬ (s.tasks s.current).Timed := fun htimed => htimed.2 h.cur.sleepUntil
  have hslept := hlists.modify (t := s.current) (f := fun t => { t with state := .sleeping, futexUaddr := uaddr }) rfl
    (Task.Same.of_not hnot (fun htimed => htimed.2 h.cur.sleepUntil) fun _ => .inl h.cur.allocated)
  refine sleeping_inv h.others ⟨W, L, hslept⟩ rfl rfl rfl rfl ?_ hswitch
  exact .of_off nofun (fun _ => h.cur.allocated) h.cur.waitQueue h.cur.sleepUntil

end Sleep

theorem Free.switched (h : Free .running task) : Switched task :=
  ⟨h.state, h.allocated, h.sleepUntil, fun hq => absurd h.waitQueue hq⟩

theorem yield_inv (h : ListsOk s) (hyield : YieldOk s) : ListsOk (switchAway s .code) := by
  have hinv : ListsOk (s.modify s.current fun t => { t with resume := .code }) := h.resumed rfl
  have hyield' : YieldOk (s.modify s.current fun t => { t with resume := .code }) := by
    have hstate (x : TaskId) : ((s.modify s.current fun t => { t with resume := .code }).tasks x).state =
        (s.tasks x).state := State.modify_ind x rfl fun _ => rfl
    rcases hyield with ⟨t, hrq, hne, hcandidate⟩ | hidle
    · refine .inl ⟨t, hrq, hne, ?_⟩
      rwa [s.modify_tasks_of_ne _ hne]
    · refine .inr ?_
      rwa [hstate]
  obtain ⟨W, L, hlists⟩ := hinv.lists
  unfold switchAway
  rcases schedule_yield hinv hyield' with heq | ⟨next, hne, hready, heq⟩
  · rw [heq]
    exact resumeCurrent_inv hlists hinv.others hinv.cur.switched
  rw [heq]
  refine switchTo_inv hlists hinv.others ?_ hne hready
  rw [Task.preempted, if_pos hinv.cur.state]
  exact .of_off nofun (fun _ => hinv.cur.allocated) hinv.cur.waitQueue hinv.cur.sleepUntil

end Litenix.Sched
