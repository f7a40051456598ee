import Litenix.Pipes
import Litenix.Tty

/-! Locks and sleep (`sys/sys_file.c`, `drivers/tty.c`, `sched/wait_queue.c`). `wait_queue_sleep_locked` releases no
lock. One processor runs, and with a lock taken its interrupts are off, so that a call runs on until it returns or
sleeps. -/

namespace Litenix

open Lib Function

inductive TtyOp
  | read (count : Nat)
  | input (ch : UInt8)
  | setTermios (t : Termios)

variable (tty : Tty)

/-- A call on the terminal. With the lock taken it spins. -/
def ttyStep : TtyOp → Tty
  | .read count => if count = 0 ∨ tty.locked then tty else ({ tty with locked := true }.readLocked count).2
  | .input ch => if tty.locked then tty else { tty with locked := true }.inputLocked ch
  | .setTermios t => { tty with termios := t }

structure Locks where
  pipe : Pipes.State
  tty : Tty

inductive SpinOp
  | pipe (op : Pipes.Op)
  | tty (op : TtyOp)

def spinStep (k : Locks) : SpinOp → Except Unit Locks
  | .pipe op => return { k with pipe := ← Pipes.step k.pipe op }
  | .tty op => return { k with tty := ttyStep k.tty op }

namespace Pipes

/-- No call is under way, and the lock of the pipe is free. -/
structure Quiet (s : State) : Prop where
  lock : s.freed = none → s.pipe.locked = false ∧ s.pipe.count ≤ bufSize
  calls : ∀ t, s.calls t = none

/-- A blocking read finds bytes or no writer, a blocking write no reader or room for all of its bytes. -/
def NoWait (s : State) : Op → Prop
  | .read _ _ nonblock => nonblock = false → s.pipe.count = 0 → s.pipe.writers = 0
  | .write _ buf nonblock => s.pipe.readers ≠ 0 → nonblock = false → s.pipe.count + buf.length ≤ bufSize
  | _ => True

variable {p : Pipe} {s s' : State} {t : TaskId}

theorem take_count_le (n : Nat) : (p.take n).2.count ≤ p.count := by
  induction n generalizing p with
  | zero => exact le_rfl
  | succ n ih =>
    rw [Pipe.take]
    split
    · exact le_rfl
    · exact ih.trans (Nat.sub_le ..)

theorem not_quiet_wait (call : Call) : ¬Quiet (s.wait t call) := by
  intro h
  have hcall : update s.calls t (some call) t = none := h.calls t
  rw [update_self] at hcall
  cases hcall

theorem puts_pipe (t : TaskId) (l : List UInt8) : (l.foldl (State.put · t) s).pipe.count = s.pipe.count + l.length ∧
    (l.foldl (State.put · t) s).pipe.readers = s.pipe.readers ∧ (l.foldl (State.put · t) s).calls = s.calls := by
  induction l generalizing s with
  | nil => exact ⟨rfl, rfl, rfl⟩
  | cons b l ih =>
    obtain ⟨hcount, hrest⟩ := ih (s := s.put t b)
    refine ⟨hcount.trans ?_, hrest⟩
    show s.pipe.count + 1 + l.length = s.pipe.count + (l.length + 1)
    omega

section

variable (hcalls : ∀ u, u ≠ t → s.calls u = none)

include hcalls

/-- A return leaves the pipe quiet if no other call is under way. -/
theorem Quiet.finish (hcount : s.pipe.count ≤ bufSize) (ret : Return) : Quiet (s.finish t ret) := by
  refine ⟨fun _ => ⟨rfl, hcount⟩, fun u => ?_⟩
  change update s.calls t none u = none
  exact update_ind u rfl (hcalls u)

theorem quiet_readLoop_iff (hcount : s.pipe.count ≤ bufSize) (n : Nat) (nonblock : Bool) :
    Quiet (readLoop t n nonblock s) ↔ (nonblock = false → s.pipe.count = 0 → s.pipe.writers = 0) := by
  unfold readLoop
  split
  · rename_i hempty
    split
    · rename_i hwriters
      exact iff_of_true (.finish hcalls hcount _) fun _ _ => hwriters
    rename_i hwriters
    cases nonblock with
    | true => exact iff_of_true (.finish hcalls hcount _) fun h => (by cases h)
    | false => exact iff_of_false (not_quiet_wait _) fun h => hwriters (h rfl hempty)
  · rename_i hne
    exact iff_of_true (.finish (s := { s with pipe := (s.pipe.take n).2, returned := _ }) hcalls
      ((take_count_le n).trans hcount) _) fun _ h => absurd h hne

theorem quiet_writeLoop_full (hfull : s.pipe.count = bufSize)
    (hreaders : s.pipe.readers ≠ 0) {rest : List UInt8} (hrest : rest ≠ []) (nonblock : Bool) (fuel written : Nat) :
    Quiet (writeLoop t nonblock (fuel + 1) rest written s) ↔ nonblock = true := by
  rw [writeLoop, if_neg hrest, if_pos hfull, if_neg hreaders]
  cases nonblock with
  | true => exact iff_of_true (.finish hcalls hfull.le _) rfl
  | false => exact iff_of_false (not_quiet_wait _) (by decide)

theorem quiet_writeLoop_iff (hcount : s.pipe.count ≤ bufSize)
    (hreaders : s.pipe.readers ≠ 0) (buf : List UInt8) (nonblock : Bool) {fuel : Nat} (hfuel : buf.length ≤ fuel) :
    Quiet (writeLoop t nonblock (fuel + 1) buf 0 s) ↔ (nonblock = false → s.pipe.count + buf.length ≤ bufSize) := by
  by_cases hbuf : buf = []
  · rw [writeLoop, if_pos hbuf]
    refine iff_of_true (.finish hcalls hcount _) fun _ => ?_
    rwa [hbuf]
  have hlength : 0 < buf.length := List.length_pos_iff.mpr hbuf
  by_cases hfull : s.pipe.count = bufSize
  · rw [quiet_writeLoop_full hcalls hfull hreaders hbuf]
    cases nonblock with
    | true => exact iff_of_true rfl fun h => (by cases h)
    | false => exact iff_of_false (by decide) fun h => absurd (h rfl) (by omega)
  rw [writeLoop, if_neg hbuf, if_neg hfull]
  obtain ⟨fuel, rfl⟩ : ∃ rest, fuel = rest + 1 := ⟨fuel - 1, by omega⟩
  obtain ⟨hcount', hreaders', hcalls'⟩ := puts_pipe (s := s) t (buf.take (min buf.length (bufSize - s.pipe.count)))
  rw [List.length_take] at hcount'
  by_cases hfits : s.pipe.count + buf.length ≤ bufSize
  · -- everything fits, so that the next round is the last
    have hdone : buf.drop (min buf.length (bufSize - s.pipe.count)) = [] := List.drop_eq_nil_of_le (by omega)
    dsimp only
    rw [hdone, writeLoop, if_pos rfl]
    refine iff_of_true (.finish (fun u hu => ?_) ?_ _) fun _ => hfits
    · rw [hcalls']
      exact hcalls u hu
    · omega
  have hmore : buf.drop (min buf.length (bufSize - s.pipe.count)) ≠ [] := by
    rw [Ne, List.drop_eq_nil_iff]
    omega
  rw [quiet_writeLoop_full (fun u hu => by rw [hcalls']; exact hcalls u hu) (by omega)
    (by rw [hreaders']; exact hreaders) hmore]
  cases nonblock with
  | true => exact iff_of_true rfl fun h => (by cases h)
  | false => exact iff_of_false (by decide) fun h => hfits (h rfl)

end

theorem quiet_next_iff (h : Quiet s) {op : Op} (hpossible : Possible s op) : Quiet (next s op) ↔ NoWait s op := by
  have hidle (t : TaskId) (call : Call) (u : TaskId) (hu : u ≠ t) : update s.calls t (some call) u = none := by
    rw [update_of_ne hu]
    exact h.calls u
  cases op with
  | read t count nonblock =>
    obtain ⟨hlock, hcount⟩ := h.lock hpossible.1
    simp only [next, goOn, State.wait, hlock, Bool.false_eq_true, if_false]
    apply quiet_readLoop_iff
    · exact hidle t _
    · exact hcount
  | write t buf nonblock =>
    obtain ⟨hlock, hcount⟩ := h.lock hpossible.1
    rw [next]
    split
    · rename_i hreaders
      exact iff_of_true ⟨h.lock, h.calls⟩ fun hne => absurd hreaders hne
    rename_i hreaders
    simp only [goOn, State.wait, hlock, Bool.false_eq_true, if_false]
    apply (quiet_writeLoop_iff ?_ ?_ ?_ buf nonblock le_rfl).trans
    · exact ⟨fun hfits _ => hfits, fun hfits => hfits hreaders⟩
    · exact hidle t _
    · exact hcount
    · exact hreaders
  | goOn t => exact absurd (h.calls t) hpossible
  | closeRead => exact iff_of_true ⟨fun _ => h.lock hpossible.1, h.calls⟩ trivial
  | closeWrite => exact iff_of_true ⟨fun _ => h.lock hpossible.1, h.calls⟩ trivial
  | reuse p => exact iff_of_true ⟨fun hno => absurd hno hpossible, h.calls⟩ trivial

/-- **One step** of a pipe: it leaves the lock free exactly if its call need not wait. -/
theorem Quiet.step_iff (h : Quiet s) (op : Op) :
    (∀ s', step s op = .ok s' → Quiet s') ↔ (Possible s op → NoWait s op) := by
  have hnext (hpossible : Possible s op) : Quiet (next { s with last := none } op) ↔ NoWait s op := by
    have hquiet : Quiet { s with last := none } := ⟨h.lock, h.calls⟩
    cases op <;> exact quiet_next_iff hquiet hpossible
  rw [step]
  split
  · rename_i hpossible
    simp only [Except.ok.injEq, forall_eq', hnext hpossible, hpossible, forall_true_left]
  · rename_i hnot
    exact iff_of_true (fun s' hs' => (by cases hs')) fun hpossible => absurd hpossible hnot

end Pipes

/-! ### The terminal -/

/-- A read finds a committed line, or enough characters outside of canonical mode. -/
def Tty.Ready : Prop :=
  if tty.termios.icanon then tty.commitCount ≠ 0 else tty.minChars ≤ tty.buffered

/-- A read does not wait, and a character is no erase or end-of-file character of canonical mode. -/
def TtyUnblocked : TtyOp → Prop
  | .read count => count ≠ 0 → tty.Ready
  | .input ch =>
    tty.termios.icanon = true → ¬(tty.termios.isig ∧ (tty.isControl ch 0 ∨ ch = 26)) →
      ¬(ch = 127 ∨ ch = 8 ∨ tty.isControl ch 4)
  | .setTermios _ => True

theorem echo_locked (bytes : List UInt8) : (tty.echo bytes).locked = tty.locked := by
  unfold Tty.echo
  split <;> rfl

theorem erase_locked : tty.erase.locked = tty.locked := by
  unfold Tty.erase
  split
  · exact echo_locked ..
  · rfl

theorem readLocked_locked_iff (count : Nat) (hlocked : tty.locked = true) :
    (tty.readLocked count).2.locked = false ↔ tty.Ready := by
  unfold Tty.readLocked Tty.Ready
  split
  · split
    · rename_i hnone
      exact iff_of_false (by simp [hlocked]) (not_not.mpr hnone)
    · rename_i hsome
      exact iff_of_true rfl hsome
  · split
    · rename_i hfew
      exact iff_of_false (by simp [hlocked]) (not_le.mpr hfew)
    · rename_i henough
      exact iff_of_true rfl (not_lt.mp henough)

theorem inputLocked_locked_iff (ch : UInt8) (hlocked : tty.locked = true) :
    (tty.inputLocked ch).locked = false ↔ TtyUnblocked tty (.input ch) := by
  unfold Tty.inputLocked TtyUnblocked
  split
  · rename_i hintr
    exact iff_of_true rfl fun _ hno => absurd ⟨hintr.1, .inl hintr.2⟩ hno
  rename_i hintr
  split
  · rename_i hsusp
    exact iff_of_true rfl fun _ hno => absurd ⟨hsusp.1, .inr hsusp.2⟩ hno
  rename_i hsusp
  have hno : ¬(tty.termios.isig ∧ (tty.isControl ch 0 ∨ ch = 26)) := by
    rintro ⟨hisig, hch | hch⟩
    · exact hintr ⟨hisig, hch⟩
    · exact hsusp ⟨hisig, hch⟩
  split
  · rename_i hcanon
    split
    · rename_i herase
      -- a backspace returns with the lock
      refine iff_of_false (by simp [erase_locked, hlocked]) fun h => h hcanon hno ?_
      exact herase.imp_right .inl
    rename_i herase
    split
    · rename_i heof
      refine iff_of_false (by simp [Tty.commit, hlocked]) fun h => h hcanon hno (.inr (.inr heof))
    rename_i heof
    refine iff_of_true ?_ fun _ _ h => ?_
    · dsimp only
      split <;> rfl
    obtain h | h | h := h
    · exact herase (.inl h)
    · exact herase (.inr h)
    · exact heof h
  · rename_i hraw
    exact iff_of_true rfl fun hcanon => absurd hcanon hraw

/-- **One step** of the terminal. -/
theorem ttyStep_locked_iff (hfree : tty.locked = false) (op : TtyOp) :
    (ttyStep tty op).locked = false ↔ TtyUnblocked tty op := by
  cases op with
  | read count =>
    simp only [ttyStep, hfree, Bool.false_eq_true, or_false, TtyUnblocked]
    split
    · rename_i hzero
      exact iff_of_true hfree fun h => absurd hzero h
    · rename_i hne
      exact (readLocked_locked_iff { tty with locked := true } count rfl).trans ⟨fun h _ => h, fun h => h hne⟩
  | input ch =>
    simp only [ttyStep, hfree, Bool.false_eq_true, if_false]
    exact inputLocked_locked_iff { tty with locked := true } ch rfl
  | setTermios t => exact iff_of_true hfree trivial

/-! ### Runs -/

/-- No lock is held, and no task sleeps or spins inside a call. -/
structure LocksFree (k : Locks) : Prop where
  pipe : Pipes.Quiet k.pipe
  tty : k.tty.locked = false

def Unblocked (k : Locks) : SpinOp → Prop
  | .pipe op => Pipes.Possible k.pipe op → Pipes.NoWait k.pipe op
  | .tty op => TtyUnblocked k.tty op

theorem LocksFree.step_iff {k : Locks} (h : LocksFree k) (op : SpinOp) :
    (∀ k', spinStep k op = .ok k' → LocksFree k') ↔ Unblocked k op := by
  cases op with
  | pipe op =>
    rw [Unblocked, ← h.pipe.step_iff]
    constructor
    · intro hkeep s hs
      exact (hkeep { k with pipe := s } (by rw [spinStep, hs]; rfl)).pipe
    intro hkeep k' hk'
    obtain ⟨s, hs, hrest⟩ := bind_eq_ok hk'
    cases hrest
    exact ⟨hkeep s hs, h.tty⟩
  | tty op =>
    rw [Unblocked, ← ttyStep_locked_iff k.tty h.tty]
    constructor
    · intro hkeep
      exact (hkeep _ rfl).tty
    · rintro hfree _ ⟨⟩
      exact ⟨h.pipe, hfree⟩

def bootLocks (readers writers : Int) : Locks := ⟨Pipes.newPipe readers writers, Tty.init⟩

/-- In a run every call leaves the locks free, whether it returns or sleeps, exactly if none of them has to wait and
no erase or end-of-file character comes in canonical mode. -/
theorem locks_released_iff (readers writers : Int) (ops : List SpinOp) :
    AllSteps spinStep (fun k op => ∀ k', spinStep k op = .ok k' → LocksFree k') (bootLocks readers writers) ops ↔
      AllSteps spinStep Unblocked (bootLocks readers writers) ops := by
  have hboot : LocksFree (bootLocks readers writers) := ⟨⟨fun _ => ⟨rfl, Nat.zero_le _⟩, fun _ => rfl⟩, rfl⟩
  exact allSteps_inv_iff (fun _ op h => h.step_iff op) hboot

/-- A backspace leaves the lock of the terminal taken, and so does a read of an empty pipe, which sleeps with the lock
of the pipe. -/
theorem locks_kept :
    ¬AllSteps spinStep (fun k op => ∀ k', spinStep k op = .ok k' → LocksFree k') (bootLocks 1 1) [.tty (.input 127)] ∧
    ¬AllSteps spinStep (fun k op => ∀ k', spinStep k op = .ok k' → LocksFree k') (bootLocks 1 1)
      [.pipe (.read 1 1 false)] := by
  constructor
  · intro hall
    cases (hall.1 _ rfl).tty
  · intro hall
    cases ((hall.1 _ rfl).pipe.lock rfl).1

end Litenix
