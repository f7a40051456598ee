import Litenix.SchedExit

/-! The run queue as `scheduler.c` links it: a head, a tail, the `next` pointers of the tasks and a
counter. `Sched` keeps the queue as a list of tasks. The linked queue follows that list through every
call, so it always has the shape of a list without repetitions, whatever happens to the tasks that
are not on it. -/

namespace Litenix.Sched

open Lib Function

/-- `runqueue_head`, `runqueue_tail`, the field `next` of the tasks and `task_count`. There are fewer
addresses of tasks than the counter can count. -/
structure RunQueue where
  head : Option TaskId
  tail : Option TaskId
  next : TaskId → Option TaskId
  count : Nat

variable {q : RunQueue} {l l₁ l₂ : List TaskId} {t : TaskId} {ends : TaskId → Bool}

namespace RunQueue

/-- `sched_init`. -/
def init (next : TaskId → Option TaskId) : RunQueue := ⟨none, none, next, 0⟩

/-- A bound on the length of the list, for the loops over it. -/
def fuel (q : RunQueue) : Nat := q.count + 1

def schedAddTask (q : RunQueue) (t : TaskId) : RunQueue :=
  match findPrev q.next t q.fuel none q.head with
  | some _ => q
  | none =>
    let next := update q.next t none
    match q.tail with
    | some last => { q with next := update next last (some t), tail := some t, count := q.count + 1 }
    | none => { head := some t, tail := some t, next := next, count := q.count + 1 }

/-- What `sched_remove_task` and `sched_exit_group` do with a task to be removed. -/
def unlink (q : RunQueue) (prev : Option TaskId) (t : TaskId) : RunQueue :=
  let tail := if q.tail = some t then prev else q.tail
  match prev with
  | some p => { q with next := update q.next p (q.next t), tail := tail, count := q.count - 1 }
  | none => { q with head := q.next t, tail := tail, count := q.count - 1 }

def schedRemoveTask (q : RunQueue) (current t : TaskId) : RunQueue :=
  if t = current then q
  else match findPrev q.next t q.fuel none q.head with
    | none => q
    | some prev =>
      let q := q.unlink prev t
      { q with next := update q.next t none }

/-- The loop of `sched_exit_group` over the run queue. -/
def exitGroupLoop (ends : TaskId → Bool) : Nat → Option TaskId → Option TaskId → RunQueue → RunQueue
  | 0, _, _, q => q
  | _ + 1, _, none, q => q
  | fuel + 1, prev, some t, q =>
    if ends t then exitGroupLoop ends fuel prev (q.next t) (q.unlink prev t)
    else exitGroupLoop ends fuel (some t) (q.next t) q

end RunQueue

/-- A call on the run queue, or anything else that happens in between: the other code may switch tasks
and change and free the tasks that are not on the queue. -/
inductive QueueCall
  | addTask (t : Option TaskId)
  | removeTask (t : Option TaskId)
  | exitGroup (p : Option ProcId) (code : Int)
  | other (s : State) (next : TaskId → Option TaskId)

/-- The null pointer is no task and no process: the call returns at once. -/
def queueCall (x : RunQueue × State) : QueueCall → RunQueue × State
  | .addTask (some t) => (x.1.schedAddTask t, schedAddTask x.2 t)
  | .removeTask (some t) => (x.1.schedRemoveTask x.2.current t, schedRemoveTask x.2 t)
  | .exitGroup (some p) code =>
    let ends (t : TaskId) : Bool := (x.2.tasks t).process = p ∧ t ≠ x.2.current
    (.exitGroupLoop ends x.1.fuel none x.1.head x.1, schedExitGroup x.2 p code)
  | .other s next =>
    ({ x.1 with next := fun t => if t ∈ x.2.runqueue then x.1.next t else next t }, { s with runqueue := x.2.runqueue })
  | _ => x

/-- The queue is linked in the order of the list, and counted right. -/
def RunQueue.Shape (q : RunQueue) (l : List TaskId) : Prop := Linked q.next q.head q.tail l ∧ q.count = l.length

namespace RunQueue.Shape

theorem findPrev_eq (h : q.Shape (l₁ ++ t :: l₂)) : findPrev q.next t q.fuel none q.head = some l₁.getLast? :=
  h.1.seg.findPrev_eq h.1.nodup (Nat.lt_succ_of_le h.2.ge)

theorem addTask (h : q.Shape l) (t : TaskId) : (q.schedAddTask t).Shape (if t ∈ l then l else l ++ [t]) := by
  by_cases ht : t ∈ l
  · obtain ⟨l₁, l₂, rfl⟩ := List.append_of_mem ht
    rw [if_pos ht, schedAddTask, h.findPrev_eq]
    exact h
  · have hlinked := h.1.append ht
    rw [if_neg ht, schedAddTask, findPrev_of_not_mem h.1.seg ht]
    cases htail : q.tail <;> rw [htail] at hlinked <;> exact ⟨hlinked, by simp [h.2]⟩

theorem unlink (h : q.Shape (l₁ ++ t :: l₂)) : (q.unlink l₁.getLast? t).Shape (l₁ ++ l₂) := by
  have hlinked := h.1.unlink
  unfold RunQueue.unlink
  cases hlast : l₁.getLast? <;> rw [hlast] at hlinked <;> exact ⟨hlinked, by simp [h.2]⟩

theorem removeTask (h : q.Shape l) {current : TaskId} (ht : t ≠ current) :
    (q.schedRemoveTask current t).Shape (l.erase t) := by
  rw [schedRemoveTask, if_neg ht]
  by_cases hmem : t ∈ l
  · obtain ⟨l₁, l₂, rfl⟩ := List.append_of_mem hmem
    have hnot := (List.nodup_cons.mp (List.nodup_middle.mp h.1.nodup)).1
    rw [h.findPrev_eq, erase_middle h.1.nodup]
    exact ⟨h.unlink.1.congr fun x hx => update_of_ne (ne_of_mem_of_not_mem hx hnot) _ _, h.unlink.2⟩
  · rw [findPrev_of_not_mem h.1.seg hmem, List.erase_of_not_mem hmem]
    exact h

/-- The loop has passed the tasks in front; of the rest, those that end are unlinked. -/
theorem exitGroupLoop (rest front : List TaskId) (fuel : Nat) (h : q.Shape (front ++ rest)) (hfuel : rest.length < fuel) :
    (exitGroupLoop ends fuel front.getLast? rest.head? q).Shape (front ++ rest.filter fun t => !ends t) := by
  induction rest generalizing front fuel q with
  | nil =>
    cases fuel with
    | zero => simp at hfuel
    | succ fuel => exact h
  | cons t rest ih =>
  cases fuel with
  | zero => simp at hfuel
  | succ fuel =>
  have hnext : q.next t = rest.head? := by
    obtain ⟨b, -, -, hrest⟩ := seg_append.mp h.1.seg
    exact hrest.head_eq
  rw [List.length_cons] at hfuel
  rw [List.head?_cons, RunQueue.exitGroupLoop, hnext]
  by_cases hend : ends t = true
  · rw [if_pos hend, List.filter_cons_of_neg (by simp [hend])]
    exact ih front fuel h.unlink (by omega)
  · rw [if_neg hend, List.filter_cons_of_pos (by simp [hend]), List.append_cons]
    have hlast : some t = (front ++ [t]).getLast? := by simp
    rw [hlast]
    exact ih (front ++ [t]) fuel (by rwa [← List.append_cons]) (by omega)

end RunQueue.Shape

theorem exitSleepersLoop_runqueue (p : ProcId) (code : Int) (fuel : Nat) (prev cursor : Option TaskId) (s : State) :
    (exitSleepersLoop p code fuel prev cursor s).runqueue = s.runqueue := by
  induction fuel generalizing prev cursor s with
  | zero => rfl
  | succ fuel ih =>
    cases cursor with
    | none => rfl
    | some t =>
    rw [exitSleepersLoop]
    dsimp only
    split
    · rw [ih]
      cases prev <;> rfl
    · exact ih _ _ s

/-- The linked queue follows the list. -/
theorem queueCall_shape (h : x.1.Shape x.2.runqueue) (c : QueueCall) :
    (queueCall x c).1.Shape (queueCall x c).2.runqueue ∧
      (x.2.current ∈ x.2.runqueue → x.2.current ∈ (queueCall x c).2.runqueue) := by
  rcases c with (_ | t) | (_ | t) | ⟨_ | p, code⟩ | ⟨s, next⟩
  case addTask.some =>
    have hadd := h.addTask t
    dsimp only [queueCall, schedAddTask]
    split at hadd <;> rename_i ht
    · rw [if_pos ht]
      exact ⟨hadd, id⟩
    · rw [if_neg ht]
      exact ⟨hadd, List.mem_append_left _⟩
  case removeTask.some =>
    dsimp only [queueCall, schedRemoveTask]
    by_cases ht : t = x.2.current
    · rw [RunQueue.schedRemoveTask, if_pos ht, if_pos ht]
      exact ⟨h, id⟩
    · rw [if_neg ht]
      exact ⟨h.removeTask ht, (List.mem_erase_of_ne (Ne.symm ht)).mpr⟩
  case exitGroup.some =>
    dsimp only [queueCall, schedExitGroup]
    rw [exitSleepersLoop_runqueue, h.1.seg.head_eq]
    refine ⟨h.exitGroupLoop x.2.runqueue [] _ (Nat.lt_succ_of_le h.2.ge), fun hmem => ?_⟩
    exact List.mem_filter.mpr ⟨hmem, by simp⟩
  case other => exact ⟨⟨h.1.congr fun t ht => if_pos ht, h.2⟩, id⟩
  all_goals exact ⟨h, id⟩

/-- After any calls since `sched_init` the queue is a finite list without repetitions that ends at the
tail (null exactly for the empty list) and is counted right; and no call takes the current task off it. -/
theorem runqueue_shape_run (next : TaskId → Option TaskId) (s : State) (calls : List QueueCall) :
    let x := calls.foldl queueCall (.init next, { s with runqueue := [] })
    ∃ l, x.1.Shape l ∧ ∀ c, ∃ l', (queueCall x c).1.Shape l' ∧ (x.2.current ∈ l → x.2.current ∈ l') := by
  have hinit : (RunQueue.init next).Shape [] := ⟨⟨rfl, List.nodup_nil, rfl⟩, rfl⟩
  have hrun := foldl_inv (s := (RunQueue.init next, { s with runqueue := [] })) (l := calls) (fun x => x.1.Shape x.2.runqueue)
    hinit fun _ c _ hx => (queueCall_shape hx c).1
  exact ⟨_, hrun, fun c => ⟨_, queueCall_shape hrun c⟩⟩

end Litenix.Sched
