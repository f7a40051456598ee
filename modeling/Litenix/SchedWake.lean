import Litenix.SchedLists

/-! Wake-ups. A wait queue, a signal, a futex, the timer and `task_kill` each take a sleeping task off
the lists it is on. None of them moves the current task, and none takes a ready task away from the
choice that `schedule` has. -/

namespace Litenix.Sched

open Lib Function

variable {s s' s'' : State} {W : WqId → List TaskId} {L : List TaskId} {t : TaskId} {q : WqId} {st : TaskState}
variable {rest : List TaskId} {a b task : Task} {f : Task → Task}

/-! ### What a wake-up leaves alone -/

structure Keeps (s s' : State) : Prop where
  current : s'.current = s.current
  cur : ∀ st, Free st s.cur → Free st s'.cur
  idleTask : s'.idleTask = s.idleTask
  runqueue : ∀ t ∈ s.runqueue, t ∈ s'.runqueue
  ready : ∀ t, (s.tasks t).state = .ready → (s'.tasks t).state = .ready ∧
    (s'.tasks t).idle = (s.tasks t).idle ∧ (s'.tasks t).priority = (s.tasks t).priority

theorem Keeps.refl (s : State) : Keeps s s := ⟨rfl, fun _ h => h, rfl, fun _ h => h, fun _ h => ⟨h, rfl, rfl⟩⟩

theorem Keeps.trans (h : Keeps s s') (h' : Keeps s' s'') : Keeps s s'' where
  current := h'.current.trans h.current
  cur st hfree := h'.cur st (h.cur st hfree)
  idleTask := h'.idleTask.trans h.idleTask
  runqueue t ht := h'.runqueue t (h.runqueue t ht)
  ready t ht := by
    obtain ⟨hready, hidle, hprio⟩ := h.ready t ht
    obtain ⟨hready', hidle', hprio'⟩ := h'.ready t hready
    exact ⟨hready', hidle'.trans hidle, hprio'.trans hprio⟩

/-- The invariant holds afterwards as well. -/
structure Kept (st : TaskState) (s s' : State) : Prop where
  inv : Inv st s'
  keeps : Keeps s s'

theorem Kept.refl (h : Inv st s) : Kept st s s := ⟨h, Keeps.refl s⟩

theorem Kept.trans (h : Kept st s s') (h' : Kept st s' s'') : Kept st s s'' := ⟨h'.inv, h.keeps.trans h'.keeps⟩

section

variable (h : Inv st s)

include h

theorem Inv.ne_current (hne : (s.tasks t).state ≠ st) : t ≠ s.current := by
  rintro rfl
  exact hne h.cur.state

section

variable (hlists : ∃ W L, Lists s' W L) (hcurrent : s'.current = s.current)

include hlists hcurrent

/-- Links may change, and a task that is not the current one. -/
theorem Inv.of_task (htasks : s'.tasks = update s.tasks t task) (ht : t ≠ s.current) (htask : TaskOk task) : Inv st s' where
  lists := hlists
  others x hx := by
    rw [hcurrent] at hx
    rw [htasks]
    exact update_ind x htask fun _ => h.others x hx
  cur := by
    rw [State.cur, hcurrent, htasks, update_of_ne ht.symm]
    exact h.cur

theorem Kept.of_task (hidle : s'.idleTask = s.idleTask)
    (hrunqueue : ∀ x ∈ s.runqueue, x ∈ s'.runqueue) (htasks : s'.tasks = update s.tasks t task) (ht : t ≠ s.current)
    (htask : TaskOk task) (hready : (s.tasks t).state = .ready →
      task.state = .ready ∧ task.idle = (s.tasks t).idle ∧ task.priority = (s.tasks t).priority) : Kept st s s' := by
  refine ⟨h.of_task hlists hcurrent htasks ht htask, hcurrent, fun st hfree => ?_, hidle, hrunqueue, fun x hx => ?_⟩
  · rw [State.cur, hcurrent, htasks, update_of_ne ht.symm]
    exact hfree
  rw [htasks]
  revert hx
  exact update_ind x hready fun _ hx => ⟨hx, rfl, rfl⟩

end

end

/-! ### Tasks -/

theorem TaskOk.dequeued (h : TaskOk task) : TaskOk { task with waitQueue := none } where
  notRunning := h.notRunning
  live := h.live
  waiting hq := absurd rfl hq
  timed := h.timed
  deadline _ hq := absurd rfl hq

/-- A task that is on no list. -/
theorem TaskOk.of_off (hrunning : task.state ≠ .running) (hlive : task.state ≠ .zombie → task.allocated = true)
    (hq : task.waitQueue = none) (huntil : task.sleepUntil = 0) : TaskOk task :=
  ⟨hrunning, hlive, fun hq' => absurd hq hq', fun huntil' => absurd huntil huntil', fun htimed => absurd huntil htimed.2⟩

theorem Task.not_timed_of_state (h : task.state ≠ .sleeping) : ¬ task.Timed := fun ht => h ht.1

/-! ### Making a task ready -/

theorem schedAddTask_eq (s : State) (t : TaskId) :
    ∃ rq, schedAddTask s t = { s with runqueue := rq } ∧ ∀ x ∈ s.runqueue, x ∈ rq := by
  unfold schedAddTask
  split
  · exact ⟨s.runqueue, rfl, fun _ h => h⟩
  · exact ⟨s.runqueue ++ [t], rfl, fun _ h => List.mem_append_left _ h⟩

/-- The task leaves the sleep list if it is on it. -/
theorem removeIfTimed_eq (s : State) (t : TaskId) :
    ∃ next head, (if (s.tasks t).sleepUntil ≠ 0 then schedRemoveSleeper s t else s) =
      { s with sleepNext := next, sleepHead := head } ∧ ∀ {W L}, Lists s W L →
        (s.tasks t).state = .sleeping ∨ (s.tasks t).sleepUntil = 0 → Seg next head (L.erase t) none := by
  split
  · rename_i huntil
    have hframe : ∃ next head, schedRemoveSleeper s t = { s with sleepNext := next, sleepHead := head } := by
      unfold schedRemoveSleeper
      split <;> exact ⟨_, _, rfl⟩
    obtain ⟨next, head, heq⟩ := hframe
    refine ⟨next, head, heq, fun h ht => ?_⟩
    obtain ⟨_, _, heq', hseg⟩ := schedRemoveSleeper_eq h ((h.onList t).mpr ⟨ht.resolve_right huntil, huntil⟩)
    cases heq.symm.trans heq'
    exact hseg
  rename_i huntil
  refine ⟨s.sleepNext, s.sleepHead, rfl, fun h _ => ?_⟩
  rw [List.erase_of_not_mem fun hmem => huntil ((h.onList t).mp hmem).2]
  exact h.sleepers

theorem wakeSleeper_of_not (h : (s.tasks t).state ≠ .sleeping) : wakeSleeper s t = s := if_neg h

theorem wakeSleeper_eq (s : State) (t : TaskId) :
    ∃ next head rq, wakeSleeper s t =
      { s with
        sleepNext := next
        sleepHead := head
        runqueue := rq
        tasks := update s.tasks t (if (s.tasks t).state = .sleeping then
          { s.tasks t with sleepUntil := 0, sleepTimedOut := false, state := .ready } else s.tasks t) } ∧
      (∀ x ∈ s.runqueue, x ∈ rq) ∧
      ∀ {W L}, Lists s W L → (s.tasks t).state = .sleeping → Seg next head (L.erase t) none := by
  unfold wakeSleeper
  split
  · obtain ⟨next, head, heq, hseg⟩ := removeIfTimed_eq s t
    obtain ⟨rq, hrq, hsub⟩ := schedAddTask_eq (({ s with sleepNext := next, sleepHead := head } : State).modify t
      fun task => { task with sleepUntil := 0, sleepTimedOut := false, state := .ready }) t
    rw [heq]
    exact ⟨next, head, rq, hrq, hsub, fun h hstate => hseg h (.inl hstate)⟩
  · exact ⟨_, _, _, by rw [update_eq_self], fun _ h => h, fun _ hstate => absurd hstate ‹_›⟩

theorem Lists.wakeSleeper (h : Lists s W L) : ∃ L', Lists (wakeSleeper s t) W L' := by
  by_cases hstate : (s.tasks t).state = .sleeping
  · obtain ⟨next, head, rq, heq, -, hseg⟩ := wakeSleeper_eq s t
    refine ⟨L.erase t, ?_⟩
    rw [heq, if_pos hstate]
    refine (h.unsleep (f := fun task => { task with sleepUntil := 0, sleepTimedOut := false, state := .ready })
      (hseg h hstate) rfl (Task.not_timed_of_state nofun) ?_).congr rfl rfl rfl rfl rfl rfl
    exact fun _ => .inr (.inr hstate)
  · rw [wakeSleeper_of_not hstate]
    exact ⟨L, h⟩

theorem wakeSleeper_inv (h : Inv st s) (hst : st ≠ .sleeping) (hq : (s.tasks t).waitQueue = none) :
    Kept st s (wakeSleeper s t) := by
  obtain ⟨W, L, hlists⟩ := h.lists
  by_cases hstate : (s.tasks t).state = .sleeping
  · have ht : t ≠ s.current := h.ne_current (hstate ▸ hst.symm)
    have hwoken := hlists.wakeSleeper (t := t)
    obtain ⟨next, head, rq, heq, hsub, -⟩ := wakeSleeper_eq s t
    rw [heq, if_pos hstate] at hwoken ⊢
    refine .of_task h ⟨W, hwoken⟩ rfl rfl hsub rfl ht ?_ fun hready => nomatch hready.symm.trans hstate
    exact .of_off nofun (fun _ => (h.others t ht).live (by rw [hstate]; nofun)) hq rfl
  · rw [wakeSleeper_of_not hstate]
    exact .refl h

/-! ### Wait queues -/

theorem Task.same_dequeued (task : Task) : Task.Same task { task with waitQueue := none } := by
  refine ⟨Iff.rfl, fun _ => rfl, fun h => ?_⟩
  rcases h with hallocated | hq | hstate
  · exact .inl hallocated
  · exact absurd rfl hq
  · exact .inr (.inr hstate)

/-- The state of `wait_queue_wake_one` before the task is made ready. -/
def takeHead (s : State) (q : WqId) (t : TaskId) : State :=
  ((s.setQueue q ⟨s.waitNext t, if s.waitNext t = none then none else (s.queues q).tail⟩).setWaitNext t none).modify
    t fun task => { task with waitQueue := none }

theorem takeHead_inv (h : Inv st s) (hlists : Lists s W L)
    (hW : W q = t :: rest) : Kept st s (takeHead s q t) ∧ Lists (takeHead s q t) (update W q rest) L := by
  have ht : t ≠ s.current := by
    rintro rfl
    exact hlists.waiting (hW ▸ List.mem_cons_self) h.cur.waitQueue
  have htaken : Lists (takeHead s q t) (update W q rest) L :=
    hlists.dequeue (f := fun task => { task with waitQueue := none }) hW rfl (Task.same_dequeued _)
  exact ⟨.of_task h ⟨_, _, htaken⟩ rfl rfl (fun _ h => h) rfl ht (h.others t ht).dequeued
    fun hready => ⟨hready, rfl, rfl⟩, htaken⟩

/-- **One wake-up.** The head of the queue is taken off it and made ready. -/
theorem takeHead_wake (h : Inv st s) (hst : st ≠ .sleeping) (hlists : Lists s W L)
    (hW : W q = t :: rest) : Kept st s (wakeSleeper (takeHead s q t) t) ∧
      ∃ L', Lists (wakeSleeper (takeHead s q t) t) (update W q rest) L' := by
  obtain ⟨hkept, htaken⟩ := takeHead_inv h hlists hW
  have hnone : ((takeHead s q t).tasks t).waitQueue = none := by
    rw [takeHead, State.modify_tasks_same]
  exact ⟨hkept.trans (wakeSleeper_inv hkept.inv hst hnone), htaken.wakeSleeper⟩

theorem waitQueueWakeOne_inv (h : Inv st s) (hst : st ≠ .sleeping) : Kept st s (waitQueueWakeOne s q) := by
  obtain ⟨W, L, hlists⟩ := h.lists
  have hhead := (hlists.queue q).head_eq
  unfold waitQueueWakeOne
  dsimp only
  cases hW : W q with
  | nil =>
    rw [hW] at hhead
    rw [hhead]
    exact .refl h
  | cons t rest =>
    rw [hW] at hhead
    rw [hhead]
    exact (takeHead_wake h hst hlists hW).1

theorem wakeSleeper_setQueue (s : State) (q : WqId) (wq : WaitQueue) (t : TaskId) :
    wakeSleeper (s.setQueue q wq) t = (wakeSleeper s t).setQueue q wq := by
  unfold wakeSleeper
  by_cases hstate : (s.tasks t).state = .sleeping
  · have hremove : schedRemoveSleeper (s.setQueue q wq) t = (schedRemoveSleeper s t).setQueue q wq := by
      unfold schedRemoveSleeper
      rw [show findPrev (s.setQueue q wq).sleepNext t (s.setQueue q wq).fuel none (s.setQueue q wq).sleepHead =
        findPrev s.sleepNext t s.fuel none s.sleepHead from rfl]
      rcases findPrev s.sleepNext t s.fuel none s.sleepHead with _ | _ | _ <;> rfl
    have hadd (r : State) : schedAddTask (r.setQueue q wq) t = (schedAddTask r t).setQueue q wq := by
      unfold schedAddTask
      change (if t ∈ r.runqueue then _ else _) = _
      split <;> rfl
    rw [if_pos hstate, if_pos (show ((s.setQueue q wq).tasks t).state = .sleeping from hstate)]
    rw [hremove, ← hadd]
    by_cases huntil : (s.tasks t).sleepUntil ≠ 0
    · rw [if_pos huntil, if_pos (show ((s.setQueue q wq).tasks t).sleepUntil ≠ 0 from huntil)]
      rfl
    · rw [if_neg huntil, if_neg (show ¬ ((s.setQueue q wq).tasks t).sleepUntil ≠ 0 from huntil)]
      rfl
  · rw [if_neg hstate, if_neg (show ¬ ((s.setQueue q wq).tasks t).state = .sleeping from hstate)]

theorem State.setQueue_queues_self (s : State) (q : WqId) (wq : WaitQueue) : (s.setQueue q wq).queues q = wq :=
  update_self ..

/-- The loop of `wait_queue_wake_all` pops the tasks without moving the head of the queue; in between,
the queue is as it should be once its head and tail are corrected. -/
theorem wakeAllLoop_inv (hst : st ≠ .sleeping) (rest : List TaskId) :
    ∀ (fuel : Nat) (s : State) (wq : WaitQueue) {W : WqId → List TaskId},
    rest.length ≤ fuel → Inv st (s.setQueue q wq) → (∃ L, Lists (s.setQueue q wq) W L) → W q = rest →
    Kept st (s.setQueue q wq) ((wakeAllLoop fuel rest.head? s).setQueue q ⟨none, none⟩) := by
  induction rest with
  | nil =>
    intro fuel s wq W _ h hlists hW
    obtain ⟨L, hlists⟩ := hlists
    have hhead := (hlists.queue q).head_eq
    have htail := hlists.tail q
    rw [hW, State.setQueue_queues_self] at hhead htail
    have hwq : wq = ⟨none, none⟩ := by
      cases wq
      simp_all
    have hloop : wakeAllLoop fuel ([] : List TaskId).head? s = s := by cases fuel <;> rfl
    rw [hloop, ← hwq]
    exact .refl h
  | cons t rest ih =>
  intro fuel s wq W hfuel h hlists hW
  obtain ⟨L, hlists⟩ := hlists
  cases fuel with
  | zero => simp at hfuel
  | succ fuel =>
  obtain ⟨hkept, hlists'⟩ := takeHead_wake h hst hlists hW
  have hnext : s.waitNext t = rest.head? := by
    have hseg := hlists.queue q
    rw [hW] at hseg
    exact hseg.2.head_eq
  -- the pop of the loop, seen with the corrected head
  have hpop : wakeSleeper (takeHead (s.setQueue q wq) q t) t =
      (wakeSleeper ((s.setWaitNext t none).modify t fun task => { task with waitQueue := none }) t).setQueue q
        ⟨s.waitNext t, if s.waitNext t = none then none else wq.tail⟩ := by
    rw [← wakeSleeper_setQueue]
    congr 1
    simp [takeHead, State.setQueue, State.setWaitNext, State.modify]
  rw [hpop] at hkept hlists'
  have hloop : wakeAllLoop (fuel + 1) (t :: rest).head? s = wakeAllLoop fuel rest.head?
      (wakeSleeper ((s.setWaitNext t none).modify t fun task => { task with waitQueue := none }) t) := by
    rw [← hnext]
    rfl
  rw [hloop]
  exact hkept.trans (ih fuel _ _ (by simpa using hfuel) hkept.inv hlists' (update_self ..))

theorem State.setQueue_self (s : State) (q : WqId) : s.setQueue q (s.queues q) = s := by
  simp [State.setQueue]

theorem waitQueueWakeAll_inv (h : Inv st s) (hst : st ≠ .sleeping) : Kept st s (waitQueueWakeAll s q) := by
  obtain ⟨W, L, hlists⟩ := h.lists
  have hself := State.setQueue_self s q
  have hloop := wakeAllLoop_inv (q := q) hst (W q) s.fuel s (s.queues q)
    (Nat.le_of_lt (hlists.queue_length q)) (by rwa [hself]) (by rw [hself]; exact ⟨L, hlists⟩) rfl
  rw [hself, ← (hlists.queue q).head_eq] at hloop
  exact hloop

/-! ### Signals -/

theorem unlinkWait_frame (s : State) (q : WqId) (t : TaskId) :
    ∃ next queues, unlinkWait s q t = { s with waitNext := next, queues := queues } := by
  unfold unlinkWait
  dsimp only
  split
  · exact ⟨_, _, rfl⟩
  · split <;> exact ⟨_, _, rfl⟩

theorem leaveQueue_frame (s : State) (t : TaskId) : ∃ next queues, leaveQueue s t =
    { s with
      waitNext := next
      queues := queues
      tasks := update s.tasks t { s.tasks t with waitQueue := none } } := by
  unfold leaveQueue
  cases hq : (s.tasks t).waitQueue with
  | none =>
    have hsame : ({ s.tasks t with waitQueue := none } : Task) = s.tasks t := by rw [← hq]
    exact ⟨_, _, by rw [hsame, update_eq_self]⟩
  | some q =>
    obtain ⟨next, queues, heq⟩ := unlinkWait_frame s q t
    dsimp only
    rw [heq]
    exact ⟨_, _, rfl⟩

theorem Lists.leaveQueue (h : Lists s W L) (t : TaskId) : ∃ W', Lists (leaveQueue s t) W' L := by
  unfold Sched.leaveQueue
  split
  · exact ⟨W, h⟩
  · exact ⟨_, h.leave (f := fun task => { task with waitQueue := none }) ‹_› rfl (Task.same_dequeued _)⟩

theorem leaveQueue_inv (h : Inv st s) (ht : t ≠ s.current) :
    Kept st s (leaveQueue s t) ∧ ((leaveQueue s t).tasks t).waitQueue = none := by
  obtain ⟨W, L, hlists⟩ := h.lists
  obtain ⟨W', hleft⟩ := hlists.leaveQueue t
  obtain ⟨next, queues, heq⟩ := leaveQueue_frame s t
  rw [heq] at hleft ⊢
  refine ⟨.of_task h ⟨W', L, hleft⟩ rfl rfl (fun _ h => h) rfl ht (h.others t ht).dequeued fun hready => ⟨hready, rfl, rfl⟩, ?_⟩
  dsimp only
  rw [update_self]

/-- A change of a task that no part of the invariant depends on. -/
structure Task.Alike (a b : Task) : Prop where
  allocated : b.allocated = a.allocated
  state : b.state = a.state
  waitQueue : b.waitQueue = a.waitQueue
  sleepUntil : b.sleepUntil = a.sleepUntil
  sleepTimedOut : b.sleepTimedOut = a.sleepTimedOut
  resume : b.resume = a.resume

theorem TaskOk.of_alike (h : TaskOk a) (halike : Task.Alike a b) : TaskOk b where
  notRunning := halike.state ▸ h.notRunning
  live := by
    rw [halike.state, halike.allocated]
    exact h.live
  waiting := by
    rw [halike.waitQueue, halike.state, halike.resume, halike.sleepTimedOut]
    exact h.waiting
  timed := by
    rw [halike.sleepUntil, halike.state]
    exact h.timed
  deadline := by
    rw [Task.Timed, halike.sleepUntil, halike.state, halike.waitQueue, halike.resume]
    exact h.deadline

theorem Free.of_alike (h : Free st a) (halike : Task.Alike a b) : Free st b where
  state := halike.state.trans h.state
  allocated := halike.allocated.trans h.allocated
  waitQueue := halike.waitQueue.trans h.waitQueue
  sleepUntil := halike.sleepUntil.trans h.sleepUntil

theorem Task.Alike.same (h : Task.Alike a b) : Task.Same a b where
  timed := by rw [Task.Timed, Task.Timed, h.state, h.sleepUntil]
  sleepUntil _ := h.sleepUntil
  inUse := by
    rw [Task.InUse, Task.InUse, h.allocated, h.waitQueue, h.state]
    exact id

theorem Free.modify_alike (h : Free st s.cur)
    (halike : Task.Alike (s.tasks t) (f (s.tasks t))) : Free st (s.modify t f).cur := by
  revert h
  change Free st (s.tasks s.current) → Free st ((s.modify t f).tasks s.current)
  exact State.modify_ind s.current (fun h => h.of_alike halike) fun _ => id

theorem Inv.modify_alike (h : Inv st s) (halike : Task.Alike (s.tasks t) (f (s.tasks t))) :
    Inv st (s.modify t f) where
  lists := by
    obtain ⟨W, L, hlists⟩ := h.lists
    exact ⟨W, L, hlists.modify halike.waitQueue halike.same⟩
  others x := State.modify_ind x (fun hx => (h.others t hx).of_alike halike) fun _ => h.others x
  cur := h.cur.modify_alike halike

theorem Keeps.modify_alike (halike : Task.Alike (s.tasks t) (f (s.tasks t)))
    (hidle : (f (s.tasks t)).idle = (s.tasks t).idle) (hprio : (f (s.tasks t)).priority = (s.tasks t).priority) :
    Keeps s (s.modify t f) where
  current := rfl
  cur _ hfree := hfree.modify_alike halike
  idleTask := rfl
  runqueue _ hx := hx
  ready x := State.modify_ind x (fun hx => ⟨halike.state.trans hx, hidle, hprio⟩) fun _ hx => ⟨hx, rfl, rfl⟩

theorem taskSendSignal_inv (h : Inv st s) (hst : st ≠ .sleeping) (t : TaskId) (sig : Nat) :
    Kept st s (taskSendSignal s t sig) := by
  unfold taskSendSignal
  split
  · exact .refl h
  split
  · exact .refl h
  have halike : Task.Alike (s.tasks t) { s.tasks t with signalPending := (s.tasks t).signalPending ||| 1 <<< sig } :=
    ⟨rfl, rfl, rfl, rfl, rfl, rfl⟩
  have hpending : Kept st s (s.modify t fun task => { task with signalPending := task.signalPending ||| 1 <<< sig }) :=
    ⟨h.modify_alike halike, Keeps.modify_alike halike rfl rfl⟩
  dsimp only
  split
  · rename_i hwakes
    obtain ⟨hleft, hnone⟩ := leaveQueue_inv hpending.inv (hpending.inv.ne_current (hwakes.1 ▸ hst.symm))
    exact hpending.trans (hleft.trans (wakeSleeper_inv hleft.inv hst hnone))
  · exact hpending

/-- A signal changes links, and of the tasks the one it is for. -/
theorem taskSendSignal_frame (s : State) (t : TaskId) (sig : Nat) :
    ∃ waitNext queues sleepNext head rq task, taskSendSignal s t sig =
      { s with
        waitNext := waitNext
        queues := queues
        sleepNext := sleepNext
        sleepHead := head
        runqueue := rq
        tasks := update s.tasks t task } ∧
      task.process = (s.tasks t).process ∧ task.allocated = (s.tasks t).allocated ∧ task.exitCode = (s.tasks t).exitCode := by
  unfold taskSendSignal
  split
  · exact ⟨_, _, _, _, _, _, by rw [update_eq_self], rfl, rfl, rfl⟩
  split
  · exact ⟨_, _, _, _, _, _, by rw [update_eq_self], rfl, rfl, rfl⟩
  dsimp only
  split
  · generalize hpending : s.modify t _ = r
    obtain ⟨next, queues, hleave⟩ := leaveQueue_frame r t
    obtain ⟨sleepNext, head, rq, hwake, -, -⟩ := wakeSleeper_eq (leaveQueue r t) t
    rw [hwake, hleave, ← hpending]
    refine ⟨_, _, _, _, _, _, by rw [State.modify, update_idem, update_idem], ?_⟩
    split <;> simp
  · exact ⟨_, _, _, _, _, _, rfl, rfl, rfl, rfl⟩

/-! ### Futexes -/

/-- The sleepers of the run queue that a wake on the address finds are futex waiters. -/
def FutexOk (s : State) (uaddr : Nat) : Prop :=
  ∀ t ∈ s.runqueue, (s.tasks t).state = .sleeping → (s.tasks t).futexUaddr = uaddr →
    (s.tasks t).waitQueue = none ∧ (s.tasks t).sleepUntil = 0

/-- **One futex wake-up.** -/
theorem futexReady_inv (h : Inv st s) (hst : st ≠ .sleeping) (hstate : (s.tasks t).state = .sleeping)
    (hq : (s.tasks t).waitQueue = none) (huntil : (s.tasks t).sleepUntil = 0) :
    Kept st s (s.modify t fun task => { task with state := .ready, futexUaddr := 0 }) := by
  have ht : t ≠ s.current := h.ne_current (hstate ▸ hst.symm)
  obtain ⟨W, L, hlists⟩ := h.lists
  have hsame : Task.Same (s.tasks t) { s.tasks t with state := .ready, futexUaddr := 0 } :=
    .of_not (fun htimed => htimed.2 huntil) (Task.not_timed_of_state nofun) fun _ => .inr (.inr hstate)
  refine .of_task h ⟨W, L, hlists.modify rfl hsame⟩ rfl rfl (fun _ h => h) rfl ht ?_
    fun hready => nomatch hready.symm.trans hstate
  exact .of_off nofun (fun _ => (h.others t ht).live (by rw [hstate]; nofun)) hq huntil

theorem futexWakeAddress_inv (h : Inv st s) (hst : st ≠ .sleeping) {uaddr : Nat} (val : Int)
    (hok : uaddr ≠ 0 → FutexOk s uaddr) : Kept st s (futexWakeAddress s uaddr val) := by
  unfold futexWakeAddress
  split
  · exact .refl h
  rename_i huaddr
  -- a task that has been woken is not asleep any more, so the condition stays true of the others
  have hloop : ∀ (l : List TaskId) (r : State × Nat × Bool), Kept st s r.1 →
      (∀ t ∈ l, (r.1.tasks t).state = .sleeping → (r.1.tasks t).futexUaddr = uaddr →
        (r.1.tasks t).waitQueue = none ∧ (r.1.tasks t).sleepUntil = 0) →
      Kept st s (l.foldl (futexWakeStep uaddr val) r).1 := by
    intro l
    induction l with
    | nil => exact fun r hr _ => hr
    | cons t l ih =>
    intro r hr hcond
    rw [List.foldl_cons]
    have htail : ∀ x ∈ l, (r.1.tasks x).state = .sleeping → (r.1.tasks x).futexUaddr = uaddr →
        (r.1.tasks x).waitQueue = none ∧ (r.1.tasks x).sleepUntil = 0 :=
      fun x hx => hcond x (List.mem_cons_of_mem _ hx)
    unfold futexWakeStep
    split
    · exact ih r hr htail
    split
    · rename_i hfound
      obtain ⟨hq, huntil⟩ := hcond t List.mem_cons_self hfound.1 hfound.2
      refine ih _ (hr.trans (futexReady_inv hr.inv hst hfound.1 hq huntil)) fun x hx => ?_
      dsimp only
      exact State.modify_ind x nofun fun _ => htail x hx
    · exact ih r hr htail
  exact hloop s.runqueue (s, 0, false) (.refl h) (hok huaddr)

/-! ### The timer -/

/-- A task that `sched_check_sleepers` takes off the list. -/
def Task.expired (task : Task) : Task :=
  { task with
    sleepUntil := 0
    sleepTimedOut := true
    state := if task.state = .sleeping then .ready else task.state }

theorem TaskOk.expired (h : TaskOk task) (htimed : task.Timed) : TaskOk task.expired where
  notRunning := by
    simp only [Task.expired, htimed.1, if_true]
    exact nofun
  live _ := h.live (by rw [htimed.1]; nofun)
  waiting hq := by
    refine .inr ⟨if_pos htimed.1, ?_, rfl⟩
    exact h.deadline htimed hq
  timed huntil := absurd rfl huntil
  deadline hexpired := absurd rfl hexpired.2

theorem Task.not_timed_expired (task : Task) : ¬ task.expired.Timed := fun h => h.2 rfl

theorem Lists.popSleeper (h : Lists s W (t :: rest)) : Lists (popSleeper s t) W rest := by
  have hnodup := List.nodup_cons.mp h.sleepersNodup
  have hseg : Seg (update s.sleepNext t none) (s.sleepNext t) ((t :: rest).erase t) none := by
    rw [List.erase_cons_head]
    refine h.sleepers.2.congr fun x hx => update_of_ne ?_ _ _
    exact fun heq => hnodup.1 (heq ▸ hx)
  have hpop := h.unsleep (f := Task.expired) hseg rfl (Task.not_timed_expired _) fun hinUse => ?_
  · rwa [List.erase_cons_head] at hpop
  · exact .inr (.inr ((h.onList t).mp List.mem_cons_self).1)

/-- What the loop of `sched_check_sleepers` does to the tasks, and that it leaves the lists as they
should be. -/
theorem checkSleepersLoop_spec : ∀ {L : List TaskId} {fuel : Nat} {s : State}, Lists s W L → L.length ≤ fuel →
    (∃ L', Lists (checkSleepersLoop fuel s) W L') ∧ (checkSleepersLoop fuel s).current = s.current ∧
      (checkSleepersLoop fuel s).now = s.now ∧
      ∀ x, (checkSleepersLoop fuel s).tasks x =
        if (s.tasks x).state = .sleeping ∧ (s.tasks x).sleepUntil ≠ 0 ∧ (s.tasks x).sleepUntil ≤ s.now then
          (s.tasks x).expired else s.tasks x := by
  intro L
  induction L with
  | nil =>
    intro fuel s h _
    have hloop : checkSleepersLoop fuel s = s := by
      cases fuel with
      | zero => rfl
      | succ fuel =>
        have hhead : s.sleepHead = none := h.sleepers.head_eq
        rw [checkSleepersLoop, hhead]
    rw [hloop]
    refine ⟨⟨[], h⟩, rfl, rfl, fun x => (if_neg fun hx => ?_).symm⟩
    exact List.not_mem_nil ((h.onList x).mpr ⟨hx.1, hx.2.1⟩)
  | cons t rest ih =>
  intro fuel s h hfuel
  have hhead : s.sleepHead = some t := h.sleepers.head_eq
  have htimed : (s.tasks t).Timed := (h.onList t).mp List.mem_cons_self
  cases fuel with
  | zero => simp at hfuel
  | succ fuel =>
  rw [checkSleepersLoop, hhead]
  dsimp only
  by_cases hnow : (s.tasks t).sleepUntil ≤ s.now
  · rw [if_pos hnow]
    obtain ⟨hlists, hcurrent, hnow', htasks⟩ := ih h.popSleeper (by simpa using hfuel)
    refine ⟨hlists, hcurrent, hnow', fun x => ?_⟩
    rw [htasks]
    by_cases heq : x = t
    · subst heq
      have hself : (popSleeper s x).tasks x = (s.tasks x).expired := State.modify_tasks_same ..
      rw [hself, if_neg fun hx => hx.2.1 rfl, if_pos ⟨htimed.1, htimed.2, hnow⟩]
    · have hother : (popSleeper s t).tasks x = s.tasks x := State.modify_tasks_of_ne _ _ heq
      rw [hother]
      rfl
  · -- the list is sorted: no later deadline has passed either
    rw [if_neg hnow]
    refine ⟨⟨_, h⟩, rfl, rfl, fun x => (if_neg fun hx => ?_).symm⟩
    rcases List.mem_cons.mp ((h.onList x).mpr ⟨hx.1, hx.2.1⟩) with rfl | hmem
    · exact hnow hx.2.2
    · exact hnow (Nat.le_trans ((List.pairwise_cons.mp h.sorted).1 x hmem) hx.2.2)

theorem Lists.setNow (h : Lists s W L) (now : Nat) : Lists { s with now := now } W L :=
  h.congr rfl rfl rfl rfl rfl rfl

/-- A tick makes every task whose deadline has come ready, and keeps the invariant. -/
theorem tick_inv (h : Inv st s) (hst : st ≠ .sleeping) :
    Inv st (schedCheckSleepers { s with now := s.now + 1 }) ∧
      ∀ t, (s.tasks t).Timed → (s.tasks t).sleepUntil ≤ s.now + 1 →
        ((schedCheckSleepers { s with now := s.now + 1 }).tasks t).state = .ready := by
  obtain ⟨W, L, hlists⟩ := h.lists
  have hticked := hlists.setNow (s.now + 1)
  obtain ⟨⟨L', hlists'⟩, hcurrent, -, htasks⟩ :=
    checkSleepersLoop_spec hticked (Nat.le_of_lt hticked.sleepers_length)
  refine ⟨⟨⟨W, L', hlists'⟩, fun x hx => ?_, ?_⟩, fun t htimed hdeadline => ?_⟩
  · rw [schedCheckSleepers, hcurrent] at hx
    rw [schedCheckSleepers, htasks]
    have hok : TaskOk (s.tasks x) := h.others x hx
    split
    · rename_i hexpires
      exact hok.expired ⟨hexpires.1, hexpires.2.1⟩
    · exact hok
  · rw [State.cur, schedCheckSleepers, hcurrent, htasks, if_neg]
    · exact h.cur
    · exact fun hx => hst (h.cur.state.symm.trans hx.1)
  · rw [schedCheckSleepers, htasks, if_pos ⟨htimed.1, htimed.2, hdeadline⟩]
    exact if_pos htimed.1

end Litenix.Sched
