import Litenix.SchedRuns

/-! The choice of the next task: what the loop of `pick_next_task` finds, the order of tasks of one priority, and whether
`schedule` respects priorities. -/

namespace Litenix.Sched

variable {s : State} {prev t : TaskId} {l : List TaskId} {prio : Int} {i : Nat}

/-- A ready task other than `prev` that is not an idle task. -/
def Eligible (s : State) (prev t : TaskId) : Prop := t ≠ prev ∧ (s.tasks t).state = .ready ∧ !(s.tasks t).idle

instance (s : State) (prev t : TaskId) : Decidable (Eligible s prev t) := inferInstanceAs (Decidable (_ ∧ _))

/-- The part of a queue from `prev` on. -/
def since (prev : TaskId) (l : List TaskId) : List TaskId := l.dropWhile (· ≠ prev)

/-- The first task of a priority that can be picked. -/
def first (s : State) (prev : TaskId) (prio : Int) (l : List TaskId) : Option TaskId :=
  l.find? fun t => Eligible s prev t ∧ (s.tasks t).priority = prio

theorem first_append (prio : Int) : first s prev prio (l ++ [t]) =
    (first s prev prio l).or (if Eligible s prev t ∧ (s.tasks t).priority = prio then some t else none) := by
  simp [first, List.find?_append, List.find?_singleton]

theorem since_append : since prev (l ++ [t]) = if prev ∈ l ∨ t = prev then since prev l ++ [t] else since prev l := by
  unfold since
  induction l with
  | nil => by_cases ht : t = prev <;> simp [ht]
  | cons x l ih =>
    by_cases hx : x = prev
    · simp [hx]
    · simp only [hx, Ne.symm hx, List.cons_append, List.dropWhile_cons, List.mem_cons, ne_eq, decide_not, decide_false,
        Bool.not_false, if_true, false_or] at ih ⊢
      exact ih

theorem mem_of_since (h : u ∈ since prev l) : u ∈ l := (List.dropWhile_sublist _).subset h

theorem first_eq_none (h : ∀ u ∈ l, Eligible s prev u → prio < (s.tasks u).priority) :
    first s prev prio l = none := by
  rw [first, List.find?_eq_none]
  intro u hu hat
  simp only [decide_eq_true_eq] at hat
  have := h u hu hat.1
  omega

/-- What the loop of `pick_next_task` knows after the tasks `l`. -/
structure Picked (s : State) (prev : TaskId) (l : List TaskId) (p : Pick) : Prop where
  pastPrev : p.pastPrev = decide (prev ∈ l)
  least : ∀ t ∈ l, Eligible s prev t → p.bestPrio ≤ (s.tasks t).priority
  best : p.best = (first s prev p.bestPrio (since prev l)).or (first s prev p.bestPrio l)
  isPast : p.bestIsPastPrev = (first s prev p.bestPrio (since prev l)).isSome
  found : p.bestPrio < 20 → p.best.isSome

theorem Picked.step (h : Picked s prev l p) (hvalid : (s.tasks t).priority < 20) :
    Picked s prev (l ++ [t]) (pickStep s prev p t) := by
  obtain ⟨hpast, hleast, hbest, hisPast, hfound⟩ := h
  have hsince (prio : Int) : first s prev prio (since prev (l ++ [t])) = (first s prev prio (since prev l)).or
      (if (prev ∈ l ∨ t = prev) ∧ Eligible s prev t ∧ (s.tasks t).priority = prio then some t else none) := by
    rw [since_append, apply_ite (first s prev prio), first_append]
    split_ifs <;> simp_all
  by_cases helig : Eligible s prev t
  swap
  · have hstep : pickStep s prev p t = { p with pastPrev := decide (prev ∈ l ++ [t]) } := by
      unfold pickStep
      by_cases hprev : t = prev
      · simp [hprev]
      · rw [if_neg hprev, if_neg fun hready => helig ⟨hprev, hready⟩]
        simp [Ne.symm hprev, ← hpast]
    rw [hstep]
    refine ⟨rfl, ?_, ?_, ?_, hfound⟩
    · simpa [or_imp, forall_and, helig] using hleast
    · simpa [hsince, first_append, helig] using hbest
    · simpa [hsince, helig] using hisPast
  have hpast' : p.pastPrev = decide (prev ∈ l ++ [t]) := by simp [hpast, helig.1.symm]
  have hne := helig.1
  unfold pickStep
  rw [if_neg hne, if_pos helig.2]
  split_ifs with hless hequal
  · have hnone : first s prev (s.tasks t).priority l = none :=
      first_eq_none fun u hu helig => hless.trans_le (hleast u hu helig)
    have hnone' : first s prev (s.tasks t).priority (since prev l) = none :=
      first_eq_none fun u hu helig => hless.trans_le (hleast u (mem_of_since hu) helig)
    refine ⟨hpast', ?_, ?_, ?_, fun _ => rfl⟩
    · simpa [or_imp, forall_and] using fun u hu helig => hless.le.trans (hleast u hu helig)
    · by_cases hmem : prev ∈ l <;> simp [hsince, first_append, hnone, hnone', helig, hmem, hne]
    · by_cases hmem : prev ∈ l <;> simp [hsince, hnone', helig, hpast, hmem, hne]
  · obtain ⟨heq, hin, hnone⟩ := hequal
    have hmem : prev ∈ l := by simpa [hpast] using hin
    rw [hisPast, Bool.not_eq_true', Option.isSome_eq_false_iff, Option.isNone_iff_eq_none] at hnone
    refine ⟨hpast', ?_, ?_, ?_, fun _ => rfl⟩
    · simpa [or_imp, forall_and] using ⟨hleast, fun _ => heq.ge⟩
    · simp [hsince, hnone, hmem, helig, heq]
    · simp [hsince, hnone, hmem, helig, heq]
  refine ⟨hpast', ?_, ?_, ?_, hfound⟩
  · simpa [or_imp, forall_and] using ⟨hleast, fun _ => not_lt.mp hless⟩
  all_goals
    rw [hsince]
    by_cases heq : (s.tasks t).priority = p.bestPrio
    · have hsome := hfound (heq ▸ hvalid)
      cases hA : first s prev p.bestPrio (since prev l) <;> cases hB : first s prev p.bestPrio l <;> simp_all [first_append]
    · simp [first_append, heq, hbest, hisPast]

theorem picked (prev : TaskId) (hvalid : ∀ t ∈ l, (s.tasks t).priority < 20) :
    Picked s prev l (l.foldl (pickStep s prev) ⟨none, 20, false, false⟩) := by
  induction l using List.reverseRecOn with
  | nil => exact ⟨rfl, by simp, rfl, rfl, by simp⟩
  | append_singleton l t ih =>
    rw [List.foldl_append]
    exact (ih fun u hu => hvalid u (List.mem_append_left _ hu)).step (hvalid t (by simp))

/-- A task of the smallest priority: the first one after `prev`, or else the first one of the queue. -/
structure IsNext (s : State) (prev b : TaskId) : Prop where
  mem : b ∈ s.runqueue
  eligible : Eligible s prev b
  least : ∀ u ∈ s.runqueue, Eligible s prev u → (s.tasks b).priority ≤ (s.tasks u).priority
  order : (first s prev (s.tasks b).priority (since prev s.runqueue)).or
    (first s prev (s.tasks b).priority s.runqueue) = some b

section

variable (hvalid : ∀ t ∈ s.runqueue, (s.tasks t).priority < 20)

include hvalid

theorem pickNextTask_eligible (ht : t ∈ s.runqueue) (helig : Eligible s prev t) :
    ∃ b, pickNextTask s prev = some b ∧ IsNext s prev b := by
  obtain ⟨-, hleast, hbest, -, hfound⟩ := picked prev hvalid
  obtain ⟨b, hb⟩ := Option.isSome_iff_exists.mp (hfound ((hleast t ht helig).trans_lt (hvalid t ht)))
  have horder := hbest.symm.trans hb
  obtain ⟨hmem, helig, hprio⟩ : b ∈ s.runqueue ∧ Eligible s prev b ∧ (s.tasks b).priority = _ := by
    rcases Option.or_eq_some_iff.mp horder with hfirst | ⟨-, hfirst⟩
    · exact ⟨mem_of_since (List.mem_of_find?_eq_some hfirst), by simpa using List.find?_some hfirst⟩
    · exact ⟨List.mem_of_find?_eq_some hfirst, by simpa using List.find?_some hfirst⟩
  rw [← hprio] at hleast horder
  exact ⟨b, by rw [pickNextTask, if_neg (List.ne_nil_of_mem ht), hb], hmem, helig, hleast, horder⟩

theorem pickNextTask_idle (hnone : ∀ t ∈ s.runqueue, ¬ Eligible s prev t) : pickNextTask s prev =
    if s.runqueue = [] ∨ (s.tasks s.idleTask).state ≠ .zombie then some s.idleTask else none := by
  have hbest := (picked prev hvalid).best
  rw [first_eq_none fun u hu helig => absurd helig (hnone u (mem_of_since hu)),
    first_eq_none fun u hu helig => absurd helig (hnone u hu)] at hbest
  unfold pickNextTask
  rw [hbest]
  by_cases hrq : s.runqueue = [] <;> simp [hrq]

end

/-! ### Rounds -/

theorem filter_since (hq : q prev = true) : (since prev l).filter q = since prev (l.filter q) := by
  unfold since
  induction l with
  | nil => rfl
  | cons x l ih =>
    by_cases hx : x = prev
    · simp [hx, hq]
    · by_cases hqx : q x = true <;> simp_all

/-- The tasks of the priority `prio` that can run are `l`, and there is no more urgent one. -/
structure Round (l : List TaskId) (prio : Int) (s : State) (prev : TaskId) : Prop where
  valid : ∀ t ∈ s.runqueue, (s.tasks t).priority < 20
  tasks : (s.runqueue.filter fun t => (t = prev ∨ Eligible s prev t) ∧ (s.tasks t).priority = prio) = l
  least : ∀ t ∈ s.runqueue, Eligible s prev t → prio ≤ (s.tasks t).priority

theorem Round.first_eq {m : List TaskId} :
    first s prev prio m = (m.filter fun t => (t = prev ∨ Eligible s prev t) ∧ (s.tasks t).priority = prio).find? (· ≠ prev) := by
  rw [first, List.find?_filter]
  congr 1
  funext u
  by_cases hu : u = prev <;> simp [hu, Eligible]

/-- The next one of a list, in a circle. -/
theorem next_in_circle (hnodup : l.Nodup) (hlen : 2 ≤ l.length) (hi : l[i]? = some prev) :
    ((since prev l).find? (· ≠ prev)).or (l.find? (· ≠ prev)) = l[(i + 1) % l.length]? := by
  obtain ⟨a, b, rfl, rfl⟩ : ∃ a b, l = a ++ prev :: b ∧ a.length = i := by
    obtain ⟨hlt, rfl⟩ := List.getElem?_eq_some_iff.mp hi
    exact ⟨l.take i, l.drop (i + 1), by simp, by simp [hlt.le]⟩
  have hnot : ∀ u ∈ a ++ b, u ≠ prev := by
    rintro u hu rfl
    exact (List.nodup_middle.mp hnodup).notMem hu
  have hsince : since prev (a ++ prev :: b) = prev :: b := by
    rw [since, List.dropWhile_append_of_pos fun u hu => by simpa using hnot u (List.mem_append_left _ hu)]
    simp
  rw [hsince]
  cases b with
  | cons y b =>
    rw [Nat.mod_eq_of_lt (by simp)]
    simp [hnot y (by simp)]
  | nil =>
    cases a with
    | nil => simp at hlen
    | cons x a => simp [hnot x (by simp)]

theorem Round.pick (h : Round l prio s prev) (hnodup : l.Nodup) (hlen : 2 ≤ l.length)
    (hi : l[i]? = some prev) : pickNextTask s prev = l[(i + 1) % l.length]? := by
  have hnext := next_in_circle hnodup hlen hi
  have hin : ∀ t ∈ l, t ∈ s.runqueue ∧ (t = prev ∨ Eligible s prev t) ∧ (s.tasks t).priority = prio := by
    rw [← h.tasks]
    simp
  have hprev : (s.tasks prev).priority = prio := (hin prev (List.mem_of_getElem? hi)).2.2
  rw [← h.tasks, ← filter_since (by simp [hprev]), ← first_eq, ← first_eq, h.tasks] at hnext
  have hlt : (i + 1) % l.length < l.length := Nat.mod_lt _ (by omega)
  rw [← hnext]
  obtain ⟨t, ht⟩ : ∃ t, l[(i + 1) % l.length]? = some t := ⟨_, List.getElem?_eq_getElem hlt⟩
  rw [ht] at hnext
  obtain ⟨hmem, -, htprio⟩ := hin t (List.mem_of_getElem? ht)
  have helig : Eligible s prev t := by
    rcases Option.or_eq_some_iff.mp hnext with hfirst | ⟨-, hfirst⟩
    · exact (by simpa using List.find?_some hfirst : Eligible s prev t ∧ _).1
    · exact (by simpa using List.find?_some hfirst : Eligible s prev t ∧ _).1
  obtain ⟨b, hpick, hb⟩ := pickNextTask_eligible h.valid hmem helig
  have hprio : (s.tasks b).priority = prio :=
    le_antisymm (htprio ▸ hb.least t hmem helig) (h.least b hb.mem hb.eligible)
  rw [hpick, ← hb.order, hprio]

/-- **The choice of the next task.** It is ready, not idle, not `prev` and of the smallest priority, the first such task
after `prev` or else the first one of the queue; without such a task it is the idle task. Picked in turn, the tasks of
the smallest priority run in a circle. -/
theorem pick_next_task_spec :
    (∀ (s : State) (prev : TaskId), (∀ t ∈ s.runqueue, (s.tasks t).priority < 20) →
      ((∃ t ∈ s.runqueue, Eligible s prev t) → ∃ b, pickNextTask s prev = some b ∧ IsNext s prev b) ∧
      ((∀ t ∈ s.runqueue, ¬ Eligible s prev t) → pickNextTask s prev =
        if s.runqueue = [] ∨ (s.tasks s.idleTask).state ≠ .zombie then some s.idleTask else none)) ∧
    ∀ (states : Nat → State) (prevs : Nat → TaskId) (l : List TaskId) (prio : Int) (i : Nat), l.Nodup → 2 ≤ l.length →
      l[i]? = some (prevs 0) →
      (∀ n, Round l prio (states n) (prevs n) ∧ pickNextTask (states n) (prevs n) = some (prevs (n + 1))) →
      ∀ n, l[(i + n) % l.length]? = some (prevs n) := by
  refine ⟨fun s prev hvalid => ⟨fun hex => ?_, pickNextTask_idle hvalid⟩, ?_⟩
  · obtain ⟨t, ht, helig⟩ := hex
    exact pickNextTask_eligible hvalid ht helig
  intro states prevs l prio i hnodup hlen hi h n
  induction n with
  | zero => rw [Nat.add_zero, Nat.mod_eq_of_lt (List.getElem?_eq_some_iff.mp hi).1, hi]
  | succ n ih => rw [← (h n).2, (h n).1.pick hnodup hlen ih, Nat.mod_add_mod, Nat.add_assoc]

/-! ### Urgency -/

/-- A task that `schedule` switches to is not the idle task, and it is at least as urgent as the current task and as
every other task that could be picked. -/
def Respects (s : State) : Prop :=
  (schedule s).current ≠ s.current → (s.tasks (schedule s).current).idle = false ∧
    ∀ t, t = s.current ∨ t ∈ s.runqueue ∧ Eligible s s.current t →
      (s.tasks (schedule s).current).priority ≤ (s.tasks t).priority

/-- **Priorities are respected** exactly if a ready task is at least as urgent as the current one, or nothing can be
switched to. -/
theorem schedule_respects_iff (s : State) (hvalid : ∀ t ∈ s.runqueue, (s.tasks t).priority < 20)
    (hidle : (s.tasks s.idleTask).idle = true) (hcur : s.cur.idle = false) :
    Respects s ↔ (∃ t ∈ s.runqueue, Eligible s s.current t ∧ (s.tasks t).priority ≤ s.cur.priority) ∨
      (∀ t ∈ s.runqueue, ¬ Eligible s s.current t) ∧ (s.runqueue = [] ∨ (s.tasks s.idleTask).state = .zombie) := by
  by_cases hex : ∃ t ∈ s.runqueue, Eligible s s.current t
  · obtain ⟨t, ht, helig⟩ := hex
    obtain ⟨b, hpick, hb⟩ := pickNextTask_eligible hvalid ht helig
    have hnext : (schedule s).current = b := by
      rw [schedule, if_neg (List.ne_nil_of_mem ht), hpick]
      dsimp only
      rw [if_neg hb.eligible.1]
      rfl
    rw [Respects, hnext, or_iff_left fun hnone => hnone.1 t ht helig]
    constructor
    · exact fun h => ⟨b, hb.mem, hb.eligible, (h hb.eligible.1).2 _ (.inl rfl)⟩
    · rintro ⟨u, hu, helig', hle⟩ -
      refine ⟨by simpa using hb.eligible.2.2, ?_⟩
      rintro v (rfl | ⟨hv, hv'⟩)
      · exact (hb.least u hu helig').trans hle
      · exact hb.least v hv hv'
  have hnone : ∀ t ∈ s.runqueue, ¬ Eligible s s.current t := fun t ht helig => hex ⟨t, ht, helig⟩
  have hpick := pickNextTask_idle hvalid hnone
  have hne : s.idleTask ≠ s.current := fun heq => by simp [State.cur, ← heq, hidle] at hcur
  rw [or_iff_right fun hle => hex (hle.imp fun t ht => ⟨ht.1, ht.2.1⟩), and_iff_right hnone, Respects, schedule]
  by_cases hrq : s.runqueue = []
  · simp [hrq]
  by_cases hzombie : (s.tasks s.idleTask).state = .zombie
  · rw [if_neg hrq, hpick]
    simp [hrq, hzombie]
  · rw [if_neg hrq, hpick]
    simp [hrq, hzombie, hne, switchTo, hidle]

theorem schedule_respects_two : Respects (startState 2) :=
  (schedule_respects_iff (startState 2) (by decide) rfl rfl).mpr (.inl ⟨2, by decide, by decide, by decide⟩)

/-- A task that runs alone is left for the idle task. -/
theorem schedule_leaves_current : ¬ ∀ s : State, (∀ t ∈ s.runqueue, (s.tasks t).priority < 20) →
    s.cur.state = .running → (s.tasks s.idleTask).idle = true → s.cur.idle = false → Respects s := by
  intro h
  have hidle := (h (startState 1) (by decide) rfl rfl rfl (by decide)).1
  cases hidle

end Litenix.Sched
