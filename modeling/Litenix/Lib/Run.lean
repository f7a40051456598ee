import Mathlib.Logic.Basic

/-! Deterministic machines that may stop: a step either fails or gives the next state. A run is a
list of inputs consumed until the first failure. Invariants are proved for one step, under a
condition on the state before the step and its input, and transported to whole runs here. -/

namespace Litenix.Lib

variable {σ α ε : Type}
variable {l : List α} {β : Type} {a : α} {s : σ}
variable {f : σ → α → σ} {x : Except ε α}

/-- The run of a list of inputs. -/
def run (step : σ → α → Except ε σ) : σ → List α → Except ε σ
  | s, [] => .ok s
  | s, a :: rest =>
    match step s a with
    | .ok t => run step t rest
    | .error e => .error e

/-- Every input of the run meets the condition in the state in which it is consumed. -/
def AllSteps (step : σ → α → Except ε σ) (cond : σ → α → Prop) : σ → List α → Prop
  | _, [] => True
  | s, a :: rest => cond s a ∧ ∀ t, step s a = .ok t → AllSteps step cond t rest

variable {step : σ → α → Except ε σ} {cond : σ → α → Prop} {Inv : σ → Prop} {t : σ}

theorem run_cons_ok {rest : List α} (h : run step s (a :: rest) = .ok t) :
    ∃ m, step s a = .ok m ∧ run step m rest = .ok t := by
  rw [run] at h
  cases hstep : step s a with
  | ok m =>
    rw [hstep] at h
    exact ⟨m, rfl, h⟩
  | error e =>
    rw [hstep] at h
    cases h

theorem run_append {first second : List α} (h : run step s first = .ok t) :
    run step s (first ++ second) = run step t second := by
  induction first generalizing s with
  | nil =>
    cases h
    rfl
  | cons a rest ih =>
    obtain ⟨m, hm, hrest⟩ := run_cons_ok h
    rw [List.cons_append, run, hm]
    exact ih hrest

/-- An invariant kept by every step that meets the condition holds after every such run. -/
theorem run_inv (hstep : ∀ s a t, Inv s → cond s a → step s a = .ok t → Inv t) :
    ∀ {inputs : List α} {s t : σ}, Inv s → AllSteps step cond s inputs → run step s inputs = .ok t → Inv t := by
  intro inputs
  induction inputs with
  | nil =>
    intro s t hs _ hrun
    cases hrun
    exact hs
  | cons a rest ih =>
    intro s t hs hall hrun
    obtain ⟨m, hm, hrest⟩ := run_cons_ok hrun
    exact ih (hstep s a m hs hall.1 hm) (hall.2 m hm) hrest

/-- What every step that meets the condition does holds of every step of such a run. -/
theorem run_steps {Good : σ → α → σ → Prop}
    (hstep : ∀ s a t, Inv s → cond s a → step s a = .ok t → Inv t ∧ Good s a t) :
    ∀ {inputs : List α} {s : σ}, Inv s → AllSteps step cond s inputs →
      AllSteps step (fun s a => ∀ t, step s a = .ok t → Inv t ∧ Good s a t) s inputs := by
  intro inputs
  induction inputs with
  | nil => exact fun _ _ => trivial
  | cons a rest ih =>
    intro s hs hall
    exact ⟨fun t ht => hstep s a t hs hall.1 ht, fun t ht =>
      ih (hstep s a t hs hall.1 ht).1 (hall.2 t ht)⟩

/-- Where a step keeps the invariant exactly if it meets the condition, so does a run. -/
theorem allSteps_inv_iff (hstep : ∀ s a, Inv s → ((∀ t, step s a = .ok t → Inv t) ↔ cond s a)) :
    ∀ {inputs : List α} {s : σ}, Inv s →
      (AllSteps step (fun s a => ∀ t, step s a = .ok t → Inv t) s inputs ↔ AllSteps step cond s inputs) := by
  intro inputs
  induction inputs with
  | nil => exact fun _ => Iff.rfl
  | cons a rest ih =>
    intro s hs
    constructor
    · rintro ⟨hkeep, hrest⟩
      exact ⟨(hstep s a hs).mp hkeep, fun t ht => (ih (hkeep t ht)).mp (hrest t ht)⟩
    · rintro ⟨hcond, hrest⟩
      have hkeep := (hstep s a hs).mpr hcond
      exact ⟨hkeep, fun t ht => (ih (hkeep t ht)).mpr (hrest t ht)⟩

theorem AllSteps.imp {cond' : σ → α → Prop} (h : ∀ s a, cond s a → cond' s a) :
    ∀ {inputs : List α} {s : σ}, AllSteps step cond s inputs → AllSteps step cond' s inputs := by
  intro inputs
  induction inputs with
  | nil => exact fun _ => trivial
  | cons a rest ih => exact fun hall => ⟨h _ a hall.1, fun t ht => ih (hall.2 t ht)⟩

theorem AllSteps.and_forall {P : α → Prop} :
    ∀ {inputs : List α} {s : σ}, (∀ a ∈ inputs, P a) → AllSteps step cond s inputs →
      AllSteps step (fun s a => P a ∧ cond s a) s inputs := by
  intro inputs
  induction inputs with
  | nil => exact fun _ _ => trivial
  | cons a rest ih =>
    exact fun hP hall => ⟨⟨hP a List.mem_cons_self, hall.1⟩, fun t ht =>
      ih (fun b hb => hP b (List.mem_cons_of_mem _ hb)) (hall.2 t ht)⟩

/-- Where every step that meets the condition succeeds and keeps the invariant, such a run succeeds. -/
theorem run_ok (hstep : ∀ s a, Inv s → cond s a → ∃ t, step s a = .ok t ∧ Inv t) :
    ∀ {inputs : List α} {s : σ}, Inv s → AllSteps step cond s inputs → ∃ t, run step s inputs = .ok t ∧ Inv t := by
  intro inputs
  induction inputs with
  | nil => exact fun hs _ => ⟨_, rfl, hs⟩
  | cons a rest ih =>
    intro s hs hall
    obtain ⟨m, hm, hinv⟩ := hstep s a hs hall.1
    rw [run, hm]
    exact ih hinv (hall.2 m hm)

/-- The same where a step may fail in one way. -/
theorem run_ok_or {e : ε} (hstep : ∀ s a, Inv s → cond s a → (∃ t, step s a = .ok t ∧ Inv t) ∨ step s a = .error e) :
    ∀ {inputs : List α} {s : σ}, Inv s → AllSteps step cond s inputs →
      (∃ t, run step s inputs = .ok t ∧ Inv t) ∨ run step s inputs = .error e := by
  intro inputs
  induction inputs with
  | nil => exact fun hs _ => .inl ⟨_, rfl, hs⟩
  | cons a rest ih =>
    intro s hs hall
    rcases hstep s a hs hall.1 with ⟨m, hm, hinv⟩ | hfail
    · rw [run, hm]
      exact ih hinv (hall.2 m hm)
    · rw [run, hfail]
      exact .inr rfl

/-- The condition of a run, executed with a check that is sound where the invariant holds. -/
def checkSteps (step : σ → α → Except ε σ) (check : σ → α → Bool) : σ → List α → Bool
  | _, [] => true
  | s, a :: rest => check s a &&
      match step s a with
      | .ok t => checkSteps step check t rest
      | .error _ => true

theorem AllSteps.of_check {check : σ → α → Bool} (hstep : ∀ s a t, Inv s → cond s a → step s a = .ok t → Inv t)
    (hcheck : ∀ s a, Inv s → check s a = true → cond s a) :
    ∀ {inputs : List α} {s : σ}, Inv s → checkSteps step check s inputs = true → AllSteps step cond s inputs := by
  intro inputs
  induction inputs with
  | nil => exact fun _ _ => trivial
  | cons a rest ih =>
    intro s hs h
    rw [checkSteps, Bool.and_eq_true] at h
    have hcond := hcheck s a hs h.1
    refine ⟨hcond, fun t ht => ih (hstep s a t hs hcond ht) ?_⟩
    rw [ht] at h
    exact h.2

theorem AllSteps.of_decide [∀ s a, Decidable (cond s a)] {inputs : List α}
    (h : checkSteps step (fun s a => decide (cond s a)) s inputs = true) : AllSteps step cond s inputs := by
  have hkeep : ∀ s a t, True → cond s a → step s a = .ok t → True := fun _ _ _ _ _ _ => trivial
  exact .of_check hkeep (fun s a _ hcheck => of_decide_eq_true hcheck) trivial h

theorem eq_ok_of_toOption (h : x.toOption = some a) : x = .ok a := by
  cases x with
  | error e => cases h
  | ok b => exact congrArg Except.ok (Option.some.inj h)

theorem bind_eq_ok {f : α → Except ε β} {b : β} (h : x >>= f = .ok b) : ∃ a, x = .ok a ∧ f a = .ok b := by
  cases x with
  | ok a => exact ⟨a, rfl, h⟩
  | error e => cases h

theorem foldl_inv (Inv : σ → Prop) (hs : Inv s) (hstep : ∀ s, ∀ a ∈ l, Inv s → Inv (f s a)) : Inv (l.foldl f s) := by
  induction l generalizing s with
  | nil => exact hs
  | cons a rest ih =>
    exact ih (hstep s a List.mem_cons_self hs) fun s b hb => hstep s b (List.mem_cons_of_mem _ hb)

/-- A property that some iteration establishes and that all of them keep, as long as an invariant holds. -/
theorem foldl_establish_of_inv (Inv P : σ → Prop) (ha : a ∈ l)
    (hs : Inv s) (hstep : ∀ s, ∀ b ∈ l, Inv s → Inv (f s b)) (hmake : ∀ s, Inv s → P (f s a))
    (hkeep : ∀ s, ∀ b ∈ l, Inv s → P s → P (f s b)) : P (l.foldl f s) := by
  obtain ⟨before, after, rfl⟩ := List.append_of_mem ha
  rw [List.foldl_append, List.foldl_cons]
  have hbefore : Inv (before.foldl f s) := foldl_inv Inv hs fun s b hb => hstep s b (by simp [hb])
  refine (foldl_inv (fun s => Inv s ∧ P s) ⟨hstep _ a ha hbefore, hmake _ hbefore⟩ fun s b hb h => ?_).2
  exact ⟨hstep s b (by simp [hb]) h.1, hkeep s b (by simp [hb]) h.1 h.2⟩

/-- A property that some iteration establishes and that all of them keep holds after a loop. -/
theorem foldl_establish (Inv : σ → Prop) (ha : a ∈ l)
    (hmake : ∀ s, Inv (f s a)) (hkeep : ∀ s, ∀ b ∈ l, Inv s → Inv (f s b)) (s : σ) : Inv (l.foldl f s) :=
  foldl_establish_of_inv (fun _ => True) Inv ha trivial (fun _ _ _ _ => trivial) (fun s _ => hmake s)
    fun s b hb _ => hkeep s b hb

/-- What holds of the outcome of a computation, of its result or of the state in its error. -/
def Outcome {β : Type} (ok : σ → Prop) (error : β → Prop) : Except β σ → Prop
  | .ok s => ok s
  | .error e => error e

/-- A property kept by every iteration holds after a loop with early exit, and at an exit that
each iteration establishes. -/
theorem foldlM_outcome (Inv : σ → Prop) (Err : β → Prop) {f : σ → α → Except β σ}
    (hs : Inv s) (hstep : ∀ s, ∀ a ∈ l, Inv s → Outcome Inv Err (f s a)) : Outcome Inv Err (l.foldlM f s) := by
  induction l generalizing s with
  | nil => exact hs
  | cons a rest ih =>
  have ha := hstep s a List.mem_cons_self hs
  rw [List.foldlM_cons]
  cases hf : f s a with
  | error e =>
    rw [hf] at ha
    exact ha
  | ok t =>
    rw [hf] at ha
    exact ih ha fun s b hb => hstep s b (List.mem_cons_of_mem _ hb)

/-- A loop over the numbers below `n`, with a property of the state before each of them. -/
theorem foldlM_range_outcome (Inv : Nat → σ → Prop) (Err : β → Prop) {f : σ → Nat → Except β σ} {n : Nat}
    (hs : Inv 0 s) (hstep : ∀ s, ∀ i < n, Inv i s → Outcome (Inv (i + 1)) Err (f s i)) :
    Outcome (Inv n) Err ((List.range n).foldlM f s) := by
  induction n with
  | zero => exact hs
  | succ n ih =>
  have hfirst := ih fun s i hi => hstep s i (Nat.lt_succ_of_lt hi)
  rw [List.range_succ, List.foldlM_append]
  cases hloop : (List.range n).foldlM f s with
  | error e =>
    rw [hloop] at hfirst
    exact hfirst
  | ok t =>
  rw [hloop] at hfirst
  have hlast := hstep t n (Nat.lt_succ_self n) hfirst
  change Outcome _ _ (List.foldlM f t [n])
  rw [List.foldlM_cons]
  cases hf : f t n with
  | error e =>
    rw [hf] at hlast
    exact hlast
  | ok u =>
    rw [hf] at hlast
    exact hlast

/-- A loop whose iterations all go on and keep a property ends with that property. -/
theorem foldlM_ok (Inv : σ → Prop) {f : σ → α → Except β σ} (hs : Inv s)
    (hstep : ∀ s, ∀ a ∈ l, Inv s → ∃ t, f s a = .ok t ∧ Inv t) : ∃ t, l.foldlM f s = .ok t ∧ Inv t := by
  have hloop : Outcome Inv (fun _ => False) (l.foldlM f s) := by
    refine foldlM_outcome Inv _ hs fun s a ha hs => ?_
    obtain ⟨t, ht, hinv⟩ := hstep s a ha hs
    rw [ht]
    exact hinv
  cases hresult : l.foldlM f s with
  | ok t =>
    rw [hresult] at hloop
    exact ⟨t, rfl, hloop⟩
  | error e =>
    rw [hresult] at hloop
    exact hloop.elim

end Litenix.Lib
