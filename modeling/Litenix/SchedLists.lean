import Litenix.Sched

/-! Wait queues and the sleep list. The invariant says which tasks each list contains: a wait queue
the tasks whose `wait_queue` points to it, the sleep list the sleeping tasks with a deadline. Each
operation of the scheduler is shown to keep it; the parts of the code that do not (picking the idle
task while it waits, waking a futex waiter that waits for something else, ending a thread that is
on a wait queue) are excluded by a condition on the state before the step. -/

namespace Litenix.Sched

open Lib Function

variable {s s' : State} {W W' : WqId → List TaskId} {L L' : List TaskId} {t x : TaskId} {q : WqId}
variable {f : Task → Task}
variable {next : TaskId → Option TaskId} {head : Option TaskId}

namespace State

@[simp]
theorem modify_tasks_same (s : State) (t : TaskId) (f : Task → Task) : (s.modify t f).tasks t = f (s.tasks t) := by
  simp [modify]

@[simp]
theorem modify_current (s : State) (t : TaskId) (f : Task → Task) : (s.modify t f).current = s.current := rfl

theorem modify_tasks_of_ne (s : State) (f : Task → Task) (h : x ≠ t) : (s.modify t f).tasks x = s.tasks x := by
  simp [modify, h]

@[elab_as_elim]
theorem modify_ind {motive : TaskId → Task → Prop} (x : TaskId) (hself : motive t (f (s.tasks t)))
    (hother : x ≠ t → motive x (s.tasks x)) : motive x ((s.modify t f).tasks x) := by
  rw [modify]
  dsimp only
  exact update_ind x hself hother

end State

/-! ### The invariant -/

/-- The task sleeps with a deadline. -/
def Task.Timed (task : Task) : Prop := task.state = .sleeping ∧ task.sleepUntil ≠ 0

/-- The task exists, or some list may contain it. -/
def Task.InUse (task : Task) : Prop := task.allocated = true ∨ task.waitQueue ≠ none ∨ task.state = .sleeping

/-- The lists contain the tasks that they should. -/
structure Lists (s : State) (W : WqId → List TaskId) (L : List TaskId) : Prop where
  queue : ∀ q, Seg s.waitNext (s.queues q).head (W q) none
  tail : ∀ q, (s.queues q).tail = (W q).getLast?
  queueNodup : ∀ q, (W q).Nodup
  onQueue : ∀ q t, t ∈ W q ↔ (s.tasks t).waitQueue = some q
  sleepers : Seg s.sleepNext s.sleepHead L none
  sleepersNodup : L.Nodup
  sorted : L.Pairwise fun x y => (s.tasks x).sleepUntil ≤ (s.tasks y).sleepUntil
  onList : ∀ t, t ∈ L ↔ (s.tasks t).Timed
  bound : ∀ t, (s.tasks t).InUse → t < s.nextTask

/-- What holds of a task that is not the current one. -/
structure TaskOk (task : Task) : Prop where
  notRunning : task.state ≠ .running
  live : task.state ≠ .zombie → task.allocated = true
  waiting : task.waitQueue ≠ none →
    task.state = .sleeping ∧ (task.resume = .sleepLocked ∨ task.resume = .sleepTimeout) ∨
      task.state = .ready ∧ task.resume = .sleepTimeout ∧ task.sleepTimedOut = true
  timed : task.sleepUntil ≠ 0 → task.state = .sleeping ∨ task.state = .zombie
  deadline : task.Timed → task.waitQueue ≠ none → task.resume = .sleepTimeout

/-- The task is in the state `st` and on no list. -/
structure Free (st : TaskState) (task : Task) : Prop where
  state : task.state = st
  allocated : task.allocated = true
  waitQueue : task.waitQueue = none
  sleepUntil : task.sleepUntil = 0

/-- The invariant, with the current task in the state `st`. -/
structure Inv (st : TaskState) (s : State) : Prop where
  lists : ∃ W L, Lists s W L
  others : ∀ t, t ≠ s.current → TaskOk (s.tasks t)
  cur : Free st s.cur

/-- The invariant between steps. -/
abbrev ListsOk : State → Prop := Inv .running

/-! ### Lengths -/

theorem length_le_of_lt {l : List Nat} {n : Nat} (hnodup : l.Nodup) (h : ∀ x ∈ l, x < n) : l.length ≤ n := by
  have hsub : l ⊆ List.range n := fun x hx => List.mem_range.mpr (h x hx)
  simpa using (List.subperm_of_subset hnodup hsub).length_le

theorem Lists.waiting (h : Lists s W L) (ht : t ∈ W q) : (s.tasks t).waitQueue ≠ none := by
  rw [(h.onQueue q t).mp ht]
  exact nofun

theorem Lists.queue_length (h : Lists s W L) (q : WqId) : (W q).length < s.fuel :=
  Nat.lt_succ_of_le (length_le_of_lt (h.queueNodup q) fun t ht => h.bound t (.inr (.inl (h.waiting ht))))

theorem Lists.sleepers_length (h : Lists s W L) : L.length < s.fuel :=
  Nat.lt_succ_of_le
    (length_le_of_lt h.sleepersNodup fun t ht => h.bound t (.inr (.inr ((h.onList t).mp ht).1)))

/-! ### Changes of other fields -/

/-- A change of a task that the lists do not depend on, its queue apart. -/
structure Task.Same (a b : Task) : Prop where
  timed : b.Timed ↔ a.Timed
  sleepUntil : a.Timed → b.sleepUntil = a.sleepUntil
  inUse : b.InUse → a.InUse

theorem Task.Same.refl (a : Task) : Task.Same a a := ⟨Iff.rfl, fun _ => rfl, id⟩

theorem Task.Same.of_not (ha : ¬ a.Timed) (hb : ¬ b.Timed) (hinUse : b.InUse → a.InUse) :
    Task.Same a b := ⟨iff_of_false hb ha, fun h => absurd h ha, hinUse⟩

theorem Task.Same.modify (hsame : Task.Same (s.tasks t) (f (s.tasks t))) (x : TaskId) :
    Task.Same (s.tasks x) ((s.modify t f).tasks x) :=
  State.modify_ind x hsame fun _ => .refl _

section

variable (h : Lists s W L)

include h

theorem Lists.linked (q : WqId) : Linked s.waitNext (s.queues q).head (s.queues q).tail (W q) :=
  ⟨h.queue q, h.queueNodup q, h.tail q⟩

/-- Only the wait queues change. -/
theorem Lists.requeue (hlinks : ∀ q, Linked s'.waitNext (s'.queues q).head (s'.queues q).tail (W' q))
    (hqueue : ∀ q t, t ∈ W' q ↔ (s'.tasks t).waitQueue = some q)
    (hsleep : s'.sleepNext = s.sleepNext) (hhead : s'.sleepHead = s.sleepHead) (hnext : s'.nextTask = s.nextTask)
    (hsame : ∀ t, Task.Same (s.tasks t) (s'.tasks t)) : Lists s' W' L where
  queue q := (hlinks q).seg
  tail q := (hlinks q).tail
  queueNodup q := (hlinks q).nodup
  onQueue := hqueue
  sleepers := by
    rw [hsleep, hhead]
    exact h.sleepers
  sleepersNodup := h.sleepersNodup
  sorted := by
    refine h.sorted.imp_of_mem fun {x y} hx hy hle => ?_
    rwa [(hsame x).sleepUntil ((h.onList x).mp hx), (hsame y).sleepUntil ((h.onList y).mp hy)]
  onList t := (h.onList t).trans (hsame t).timed.symm
  bound t ht := by
    rw [hnext]
    exact h.bound t ((hsame t).inUse ht)

/-- Only the sleep list changes. -/
theorem Lists.resleep (hqueue : (f (s.tasks t)).waitQueue = (s.tasks t).waitQueue)
    (hinUse : (f (s.tasks t)).InUse → (s.tasks t).InUse) (hseg : Seg next head L' none) (hnodup : L'.Nodup)
    (hsorted : L'.Pairwise fun x y => ((s.modify t f).tasks x).sleepUntil ≤ ((s.modify t f).tasks y).sleepUntil)
    (hself : t ∈ L' ↔ (f (s.tasks t)).Timed) (hothers : ∀ x ≠ t, x ∈ L' ↔ x ∈ L) :
    Lists (({ s with sleepNext := next, sleepHead := head } : State).modify t f) W L' := by
  refine ⟨h.queue, h.tail, h.queueNodup, fun q x => ?_, hseg, hnodup, hsorted, fun x => ?_, fun x hx => ?_⟩
  all_goals by_cases heq : x = t
  · rw [h.onQueue, heq, State.modify_tasks_same, hqueue]
  · rw [h.onQueue, State.modify_tasks_of_ne _ f heq]
  · rw [heq, State.modify_tasks_same]
    exact hself
  · rw [hothers x heq, h.onList, State.modify_tasks_of_ne _ f heq]
  · rw [heq, State.modify_tasks_same] at hx
    exact heq ▸ h.bound t (hinUse hx)
  · rw [State.modify_tasks_of_ne _ f heq] at hx
    exact h.bound x hx

theorem Lists.congr (hwait : s'.waitNext = s.waitNext) (hqueues : s'.queues = s.queues)
    (hsleep : s'.sleepNext = s.sleepNext) (hhead : s'.sleepHead = s.sleepHead) (hnext : s'.nextTask = s.nextTask)
    (htasks : s'.tasks = s.tasks) : Lists s' W L := by
  refine h.requeue (fun q => ?_) (fun q t => ?_) hsleep hhead hnext fun t => ?_
  · rw [hwait, hqueues]
    exact h.linked q
  · rw [htasks]
    exact h.onQueue q t
  · rw [htasks]
    exact Task.Same.refl _

theorem Lists.modify (hqueue : (f (s.tasks t)).waitQueue = (s.tasks t).waitQueue)
    (hsame : Task.Same (s.tasks t) (f (s.tasks t))) : Lists (s.modify t f) W L := by
  refine h.requeue h.linked (fun q x => State.modify_ind x ?_ fun _ => h.onQueue q x) rfl rfl rfl hsame.modify
  rw [h.onQueue, hqueue]

theorem Lists.setWaitNext (ht : (s.tasks t).waitQueue = none) (next : Option TaskId) :
    Lists (s.setWaitNext t next) W L := by
  refine h.requeue (fun q => (h.linked q).congr fun x hx => update_of_ne ?_ _ _) h.onQueue rfl rfl rfl
    fun _ => Task.Same.refl _
  rintro rfl
  exact h.waiting hx ht

theorem Lists.setSleepNext (ht : ¬ (s.tasks t).Timed) (next : Option TaskId) : Lists (s.setSleepNext t next) W L := by
  refine { h with sleepers := h.sleepers.congr fun x hx => update_of_ne ?_ _ _ }
  rintro rfl
  exact ht ((h.onList x).mp hx)

/-! ### Edits of the sleep list -/

theorem schedRemoveSleeper_eq (ht : t ∈ L) :
    ∃ next head, schedRemoveSleeper s t = { s with sleepNext := next, sleepHead := head } ∧
      Seg next head (L.erase t) none := by
  obtain ⟨l₁, l₂, rfl⟩ := List.append_of_mem ht
  have hnodup := h.sleepersNodup
  refine ⟨unlinked s.sleepNext l₁.getLast? t, unlinkedHead s.sleepNext s.sleepHead l₁.getLast? t, ?_, ?_⟩
  · rw [schedRemoveSleeper, h.sleepers.findPrev_eq hnodup h.sleepers_length]
    cases l₁.getLast? <;> rfl
  · rw [erase_middle hnodup]
    exact h.sleepers.unlink hnodup

end

theorem schedAddSleeper_eq (h : Seg s.sleepNext s.sleepHead L none) (hnodup : L.Nodup) (hlength : L.length < s.fuel)
    (ht : t ∉ L) : ∃ next head, schedAddSleeper s t = { s with sleepNext := next, sleepHead := head } ∧
      Seg next head (L.takeWhile (fun x => (s.tasks x).sleepUntil ≤ (s.tasks t).sleepUntil) ++
        t :: L.dropWhile fun x => (s.tasks x).sleepUntil ≤ (s.tasks t).sleepUntil) none := by
  set l₁ := L.takeWhile fun x => decide ((s.tasks x).sleepUntil ≤ (s.tasks t).sleepUntil) with hl₁
  set l₂ := L.dropWhile fun x => decide ((s.tasks x).sleepUntil ≤ (s.tasks t).sleepUntil) with hl₂
  have hsplit : l₁ ++ l₂ = L := List.takeWhile_append_dropWhile
  have hpos := insertPos_eq (fun x => (s.tasks x).sleepUntil) (s.tasks t).sleepUntil h hlength none
  rw [Option.or_none, ← hl₁, ← hl₂] at hpos
  rw [← hsplit] at h hnodup ht
  unfold schedAddSleeper
  rw [hpos]
  cases hlast : l₁.getLast? with
  | none => exact ⟨update s.sleepNext t l₂.head?, some t, rfl, h.insert_head ht hlast⟩
  | some p => exact ⟨update (update s.sleepNext t l₂.head?) p (some t), s.sleepHead, rfl, h.insert hnodup ht hlast⟩

/-! ### Edits of a wait queue -/

theorem enqueueCurrent_eq (htail : (s.queues q).tail ≠ some s.current) : enqueueCurrent s q =
    { s with
      waitNext := (s.queues q).tail.elim (update s.waitNext s.current none) fun last =>
        update (update s.waitNext s.current none) last (some s.current)
      queues := update s.queues q ⟨if (s.queues q).tail = none then some s.current else (s.queues q).head, some s.current⟩
      tasks := update s.tasks s.current { s.cur with state := .sleeping, waitQueue := some q, sleepTimedOut := false } } := by
  unfold enqueueCurrent
  dsimp only
  cases hcase : (s.queues q).tail with
  | none => rfl
  | some last =>
    have hne : s.current ≠ last := fun heq => htail (heq ▸ hcase)
    rw [Option.elim_some, update_comm hne]
    rfl

/-- The lists after a task has left one of them. -/
def without (W : WqId → List TaskId) (q : WqId) (t : TaskId) : WqId → List TaskId :=
  update W q ((W q).erase t)

section

variable (h : Lists s W L) {q' : WqId}

include h

/-- One queue changes, and no link of the others. -/
theorem Lists.update_linked (wq : WaitQueue) {l : List TaskId} (hthis : Linked next wq.head wq.tail l)
    (hkeep : ∀ q' ≠ q, ∀ x ∈ W q', next x = s.waitNext x) (q' : WqId) :
    Linked next (update s.queues q wq q').head (update s.queues q wq q').tail (update W q l q') := by
  by_cases hq' : q' = q
  · subst hq'
    rwa [update_self, update_self]
  · rw [update_of_ne hq', update_of_ne hq']
    exact (h.linked q').congr (hkeep q' hq')

theorem Lists.apart (hq' : q' ≠ q) (hx : x ∈ W q') (hy : y ∈ W q) : x ≠ y := by
  rintro rfl
  exact hq' (Option.some.inj (((h.onQueue q' x).mp hx).symm.trans ((h.onQueue q x).mp hy)))

theorem unlinkWait_eq (ht : t ∈ W q) :
    ∃ next queues, unlinkWait s q t = { s with waitNext := next, queues := queues } ∧
      ∀ q', Linked next (queues q').head (queues q').tail (without W q t q') := by
  obtain ⟨l₁, l₂, hparts⟩ := List.append_of_mem ht
  have hq := h.linked q
  have hlength := h.queue_length q
  rw [hparts] at hq hlength
  have hwithout : without W q t = update W q (l₁ ++ l₂) := by rw [without, hparts, erase_middle hq.nodup]
  rw [hwithout]
  refine ⟨_, _, ?_, h.update_linked ⟨_, _⟩ hq.unlink fun q' hq' x hx => unlinked_of_ne fun hlast => ?_⟩
  · rw [unlinkWait, hq.seg.findPrev_eq hq.nodup hlength]
    cases l₁.getLast? <;> rfl
  · have hmem : x ∈ W q := by
      rw [hparts]
      exact List.mem_append_left _ (List.mem_of_getLast? hlast)
    exact h.apart hq' hx hmem rfl

theorem mem_without (ht : (s.tasks t).waitQueue = some q) :
    x ∈ without W q t q' ↔ x ≠ t ∧ (s.tasks x).waitQueue = some q' := by
  unfold without
  by_cases hq' : q' = q
  · rw [hq', update_self, (h.queueNodup q).mem_erase_iff, h.onQueue]
  rw [update_of_ne hq', h.onQueue]
  refine ⟨fun hx => ⟨?_, hx⟩, fun hx => hx.2⟩
  rintro rfl
  exact hq' (Option.some.inj (hx.symm.trans ht))

theorem Lists.forget (ht : (s.tasks t).waitQueue = some q)
    (hlinks : ∀ q', Linked next (queues q').head (queues q').tail (without W q t q'))
    (hqueue : (f (s.tasks t)).waitQueue = none) (hsame : Task.Same (s.tasks t) (f (s.tasks t))) :
    Lists ((({ s with waitNext := next, queues := queues } : State).setWaitNext t none).modify t f)
      (without W q t) L := by
  refine h.requeue (fun q' => (hlinks q').congr fun x hx => update_of_ne ((mem_without h ht).mp hx).1 _ _)
    (fun q' x => ?_) rfl rfl rfl (Task.Same.modify (s := s) hsame)
  rw [mem_without h ht]
  refine State.modify_ind x ?_ and_iff_right
  exact iff_of_false (fun hmem => hmem.1 rfl) fun hsome => by cases hqueue.symm.trans hsome

theorem Lists.leave (ht : (s.tasks t).waitQueue = some q)
    (hqueue : (f (s.tasks t)).waitQueue = none) (hsame : Task.Same (s.tasks t) (f (s.tasks t))) :
    Lists (((unlinkWait s q t).setWaitNext t none).modify t f) (without W q t) L := by
  obtain ⟨next, queues, heq, hlinks⟩ := unlinkWait_eq h ((h.onQueue q t).mpr ht)
  rw [heq]
  exact h.forget ht hlinks hqueue hsame

theorem Lists.dequeue (hW : W q = t :: rest)
    (hqueue : (f (s.tasks t)).waitQueue = none) (hsame : Task.Same (s.tasks t) (f (s.tasks t))) :
    Lists (((s.setQueue q ⟨s.waitNext t, if s.waitNext t = none then none else (s.queues q).tail⟩).setWaitNext t
      none).modify t f) (update W q rest) L := by
  have ht : (s.tasks t).waitQueue = some q := (h.onQueue q t).mp (hW ▸ List.mem_cons_self)
  have hq := h.linked q
  rw [hW] at hq
  have hrest : s.waitNext t = rest.head? := hq.seg.2.head_eq
  have hwithout : without W q t = update W q rest := by
    rw [without, hW, List.erase_cons_head]
  rw [← hwithout]
  refine h.forget ht ?_ hqueue hsame
  rw [hwithout]
  refine h.update_linked _ ⟨hq.seg.2, (List.nodup_cons.mp hq.nodup).2, ?_⟩ fun _ _ _ _ => rfl
  rw [hrest, hq.tail]
  cases rest with
  | nil => rfl
  | cons y rest => simp [List.getLast?_cons]

theorem Lists.unsleep
    (hseg : Seg next head (L.erase t) none) (hqueue : (f (s.tasks t)).waitQueue = (s.tasks t).waitQueue)
    (hnot : ¬ (f (s.tasks t)).Timed) (hinUse : (f (s.tasks t)).InUse → (s.tasks t).InUse) :
    Lists (({ s with sleepNext := next, sleepHead := head } : State).modify t f) W (L.erase t) := by
  have hmem {x : TaskId} : x ∈ L.erase t ↔ x ≠ t ∧ x ∈ L := h.sleepersNodup.mem_erase_iff
  refine h.resleep hqueue hinUse hseg (h.sleepersNodup.erase t) ?_ (iff_of_false (fun ht => (hmem.mp ht).1 rfl) hnot)
    fun x hx => hmem.trans (and_iff_right hx)
  refine (h.sorted.sublist List.erase_sublist).imp_of_mem fun {x y} hx hy hle => ?_
  rwa [s.modify_tasks_of_ne f (hmem.mp hx).1, s.modify_tasks_of_ne f (hmem.mp hy).1]

theorem Lists.addSleeper (hnot : ¬ (s.tasks t).Timed)
    (hqueue : (f (s.tasks t)).waitQueue = (s.tasks t).waitQueue) (htimed : (f (s.tasks t)).Timed)
    (hinUse : (s.tasks t).InUse) : ∃ L', Lists (schedAddSleeper (s.modify t f) t) W L' := by
  have ht : t ∉ L := fun hmem => hnot ((h.onList t).mp hmem)
  have hkept (x : TaskId) (hx : x ∈ L) : (s.modify t f).tasks x = s.tasks x :=
    s.modify_tasks_of_ne f (ne_of_mem_of_not_mem hx ht)
  obtain ⟨next, head, heq, hseg⟩ := schedAddSleeper_eq (s := s.modify t f) h.sleepers h.sleepersNodup
    h.sleepers_length ht
  have hsorted : L.Pairwise fun x y => ((s.modify t f).tasks x).sleepUntil ≤ ((s.modify t f).tasks y).sleepUntil := by
    refine h.sorted.imp_of_mem fun {x y} hx hy hle => ?_
    rwa [hkept x hx, hkept y hy]
  have hinsert := pairwise_insert (t := t) hsorted rfl
  have hperm : (L.takeWhile (fun x => ((s.modify t f).tasks x).sleepUntil ≤ ((s.modify t f).tasks t).sleepUntil) ++
      t :: L.dropWhile fun x => ((s.modify t f).tasks x).sleepUntil ≤ ((s.modify t f).tasks t).sleepUntil).Perm
      (t :: L) := by
    refine List.perm_middle.trans ?_
    rw [List.takeWhile_append_dropWhile]
  generalize L.takeWhile (fun x => ((s.modify t f).tasks x).sleepUntil ≤ ((s.modify t f).tasks t).sleepUntil) ++
    t :: L.dropWhile (fun x => ((s.modify t f).tasks x).sleepUntil ≤ ((s.modify t f).tasks t).sleepUntil) = l
    at hseg hperm hinsert
  refine ⟨l, ?_⟩
  rw [heq]
  refine h.resleep hqueue (fun _ => hinUse) hseg (hperm.nodup_iff.mpr (List.nodup_cons.mpr ⟨ht, h.sleepersNodup⟩))
    hinsert (iff_of_true (hperm.mem_iff.mpr List.mem_cons_self) htimed) fun x hx => ?_
  rw [hperm.mem_iff, List.mem_cons]
  exact or_iff_right hx

theorem Lists.enqueueCurrent (hruns : Free .running s.cur) (q : WqId) :
    Lists (enqueueCurrent s q) (update W q (W q ++ [s.current])) L := by
  have hnone : (s.tasks s.current).waitQueue = none := hruns.waitQueue
  have hfree (q' : WqId) : s.current ∉ W q' := fun hmem => h.waiting hmem hnone
  have hlast {last : TaskId} (htail : (s.queues q).tail = some last) : last ∈ W q :=
    List.mem_of_getLast? ((h.tail q).symm.trans htail)
  rw [enqueueCurrent_eq fun htail => hfree q (hlast htail)]
  refine h.requeue (h.update_linked _ ((h.linked q).append (hfree q)) fun q' hq' x hx => ?_) (fun q' x => ?_) rfl rfl rfl
    fun x => ?_
  · have hx' : x ≠ s.current := ne_of_mem_of_not_mem hx (hfree q')
    cases htail : (s.queues q).tail with
    | none => exact update_of_ne hx' _ _
    | some last => simp [hx', h.apart hq' hx (hlast htail)]
  all_goals dsimp only
  · refine update_ind x ?_ fun hx => ?_
    · by_cases hq' : q' = q
      · simp [hq']
      · simp [hq', hfree q', Ne.symm hq']
    · rw [← h.onQueue]
      by_cases hq' : q' = q
      · simp [hq', hx]
      · rw [update_of_ne hq']
  · refine update_ind x (.of_not ?_ ?_ fun _ => .inl hruns.allocated) fun _ => .refl _
    · exact fun ht => ht.2 hruns.sleepUntil
    · exact fun ht => ht.2 hruns.sleepUntil

end

end Litenix.Sched
