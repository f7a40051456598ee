import Litenix.Lib.Run
import Litenix.Lib.Table
import Mathlib.Algebra.Order.Ring.Int

/-! Pipes (`sys/sys_file.c`). A call of `pipe_read` or `pipe_write` holds the lock of the pipe from its start to its
return, also while it sleeps, and spins while another call holds it; closing an end takes no lock. A call that
sleeps may go on at any time. Beside the pipe the state records the bytes that writes have put into the buffer
and those that reads have returned. -/

namespace Litenix.Pipes

open Lib Function

/-- `PIPE_BUF_SIZE`. -/
abbrev bufSize : Nat := 4096

structure Pipe where
  buffer : Nat → UInt8
  head : Nat
  tail : Nat
  count : Nat
  readers : Int
  writers : Int
  locked : Bool

inductive Errno
  | again
  | pipe
  deriving DecidableEq

/-- A number of bytes as an `int`. -/
def toInt (n : Nat) : Int := (n : Int).bmod (2 ^ 32)

/-- The copy loop of `pipe_read`. -/
def Pipe.take : Nat → Pipe → List UInt8 × Pipe
  | 0, p => ([], p)
  | n + 1, p =>
    if p.count = 0 then ([], p)
    else
      let rest := Pipe.take n { p with tail := (p.tail + 1) % bufSize, count := p.count - 1 }
      (p.buffer p.tail :: rest.1, rest.2)

def Pipe.put (p : Pipe) (b : UInt8) : Pipe :=
  { p with
    buffer := update p.buffer p.head b
    head := (p.head + 1) % bufSize
    count := p.count + 1 }

abbrev TaskId := Nat

/-- Where a call that has not returned goes on: at the lock, or after it has slept. -/
inductive Call
  | lockRead (count : Nat) (nonblock : Bool)
  | lockWrite (buf : List UInt8) (nonblock : Bool)
  | sleepRead (count : Nat)
  | sleepWrite (rest : List UInt8) (written : Nat)

inductive Return
  | read (ret : Except Errno Int)
  | write (t : TaskId) (ret : Except Errno Int)

structure State where
  pipe : Pipe
  calls : TaskId → Option Call
  /-- The counts of the ends when the pipe was freed. -/
  freed : Option (Int × Int)
  accepted : List UInt8
  returned : List UInt8
  /-- The number of bytes that the last write of a task has put into the buffer. -/
  mine : TaskId → Nat
  /-- What the last step has returned. -/
  last : Option Return

namespace State

variable (s : State) (t : TaskId)

def lock : State := { s with pipe := { s.pipe with locked := true } }

/-- Release the lock and return. -/
def finish (ret : Return) : State :=
  { s with pipe := { s.pipe with locked := false }, calls := update s.calls t none, last := some ret }

def wait (call : Call) : State := { s with calls := update s.calls t (some call) }

def put (b : UInt8) : State :=
  { s with
    pipe := s.pipe.put b
    accepted := s.accepted ++ [b]
    mine := update s.mine t (s.mine t + 1) }

end State

/-- `pipe_read` from its wait loop on. -/
def readLoop (t : TaskId) (count : Nat) (nonblock : Bool) (s : State) : State :=
  if s.pipe.count = 0 then
    if s.pipe.writers = 0 then s.finish t (.read (.ok 0))
    else if nonblock then s.finish t (.read (.error .again))
    else s.wait t (.sleepRead count)
  else
    let (bytes, p) := s.pipe.take count
    { s with pipe := p, returned := s.returned ++ bytes }.finish t (.read (.ok (toInt bytes.length)))

/-- `pipe_write` from its loop on. Every round but the last fills the buffer, so `rest.length + 1` rounds are
enough. -/
def writeLoop (t : TaskId) (nonblock : Bool) : (fuel : Nat) → List UInt8 → (written : Nat) → State → State
  | 0, _, _, s => s
  | fuel + 1, rest, written, s =>
    if rest = [] then s.finish t (.write t (.ok (toInt written)))
    else if s.pipe.count = bufSize then
      if s.pipe.readers = 0 then
        s.finish t (.write t (if written > 0 then .ok (toInt written) else .error .pipe))
      else if nonblock then
        s.finish t (.write t (if written > 0 then .ok (toInt written) else .error .again))
      else s.wait t (.sleepWrite rest written)
    else
      let chunk := min rest.length (bufSize - s.pipe.count)
      writeLoop t nonblock fuel (rest.drop chunk) (written + chunk) ((rest.take chunk).foldl (State.put · t) s)

/-- A call goes on. -/
def goOn (t : TaskId) (s : State) : Call → State
  | .lockRead count nonblock => if s.pipe.locked then s else readLoop t count nonblock s.lock
  | .lockWrite buf nonblock => if s.pipe.locked then s else writeLoop t nonblock (buf.length + 1) buf 0 s.lock
  | .sleepRead count => readLoop t count false s
  | .sleepWrite rest written => writeLoop t false (rest.length + 1) rest written s

/-- `pipe_close`, after the count of the end has been lowered. -/
def pipeClose (s : State) (p : Pipe) : State :=
  { s with pipe := p, freed := if p.readers = 0 ∧ p.writers = 0 then some (p.readers, p.writers) else s.freed }

inductive Op
  | read (t : TaskId) (count : Nat) (nonblock : Bool)
  | write (t : TaskId) (buf : List UInt8) (nonblock : Bool)
  | goOn (t : TaskId)
  | closeRead
  | closeWrite
  /-- The memory of a pipe that has been freed is used for something else. -/
  | reuse (p : Pipe)

/-- Ends that are closed are not used any more, a task makes one call at a time, and only memory that has been freed is
used again. -/
def Possible (s : State) : Op → Prop
  | .read t _ _ => s.freed = none ∧ 0 < s.pipe.readers ∧ s.calls t = none
  | .write t _ _ => s.freed = none ∧ 0 < s.pipe.writers ∧ s.calls t = none
  | .goOn t => s.calls t ≠ none
  | .closeRead => s.freed = none ∧ 0 < s.pipe.readers
  | .closeWrite => s.freed = none ∧ 0 < s.pipe.writers
  | .reuse _ => s.freed ≠ none

instance (s : State) : (op : Op) → Decidable (Possible s op)
  | .read t _ _ => inferInstanceAs (Decidable (s.freed = none ∧ 0 < s.pipe.readers ∧ s.calls t = none))
  | .write t _ _ => inferInstanceAs (Decidable (s.freed = none ∧ 0 < s.pipe.writers ∧ s.calls t = none))
  | .goOn t => inferInstanceAs (Decidable (s.calls t ≠ none))
  | .closeRead => inferInstanceAs (Decidable (s.freed = none ∧ 0 < s.pipe.readers))
  | .closeWrite => inferInstanceAs (Decidable (s.freed = none ∧ 0 < s.pipe.writers))
  | .reuse _ => inferInstanceAs (Decidable (s.freed ≠ none))

def next (s : State) : Op → State
  | .read t count nonblock => goOn t (s.wait t (.lockRead count nonblock)) (.lockRead count nonblock)
  | .write t buf nonblock =>
    let s : State := { s with mine := update s.mine t 0 }
    if s.pipe.readers = 0 then { s with last := some (.write t (.error .pipe)) }
    else goOn t (s.wait t (.lockWrite buf nonblock)) (.lockWrite buf nonblock)
  | .goOn t =>
    match s.calls t with
    | none => s
    | some call => goOn t s call
  | .closeRead => pipeClose s { s.pipe with readers := s.pipe.readers - 1 }
  | .closeWrite => pipeClose s { s.pipe with writers := s.pipe.writers - 1 }
  | .reuse p => { s with pipe := p }

def step (s : State) (op : Op) : Except Unit State :=
  if Possible s op then .ok (next { s with last := none } op) else .error ()

/-- A new pipe. -/
def newPipe (readers writers : Int) : State where
  pipe := ⟨fun _ => 0, 0, 0, 0, readers, writers, false⟩
  calls := fun _ => none
  freed := none
  accepted := []
  returned := []
  mine := fun _ => 0
  last := none

/-! ### The specification -/

/-- What the value that a call returns says. -/
def Honest (s : State) : Return → Prop
  | .read ret => ret = .ok 0 → s.pipe.writers = 0 ∧ s.returned = s.accepted
  | .write t (.ok n) => n = s.mine t
  | .write t (.error _) => s.mine t = 0

structure Fifo (s : State) : Prop where
  order : s.returned <+: s.accepted
  bounded : s.accepted.length ≤ s.returned.length + bufSize
  honest : ∀ ret, s.last = some ret → Honest s ret
  freed : ∀ ends, s.freed = some ends → ends = (0, 0)

/-- Reads ask for a byte at least, the size of a write is an `int`, and no call is under way when the last end is
closed. -/
def Cond (s : State) : Op → Prop
  | .read _ count _ => 0 < count
  | .write _ buf _ => buf.length < 2 ^ 31
  | .closeRead => s.pipe.readers = 1 → s.pipe.writers = 0 → ∀ t, s.calls t = none
  | .closeWrite => s.pipe.writers = 1 → s.pipe.readers = 0 → ∀ t, s.calls t = none
  | _ => True

/-! ### The ring -/

variable {p : Pipe} {s s' : State} {t : TaskId} {op : Op}

def Pipe.contents (p : Pipe) : List UInt8 := (List.range p.count).map fun i => p.buffer ((p.tail + i) % bufSize)

structure Ring (p : Pipe) : Prop where
  tail : p.tail < bufSize
  count : p.count ≤ bufSize
  head : p.head = (p.tail + p.count) % bufSize

theorem Ring.put (h : Ring p) (hroom : p.count < bufSize) (b : UInt8) : Ring (p.put b) := by
  refine ⟨h.tail, hroom, ?_⟩
  have hhead : p.head = (p.tail + p.count) % 4096 := h.head
  show (p.head + 1) % 4096 = (p.tail + (p.count + 1)) % 4096
  omega

theorem Ring.contents_put (h : Ring p) (hroom : p.count < bufSize) (b : UInt8) :
    (p.put b).contents = p.contents ++ [b] := by
  show (List.range (p.count + 1)).map _ = _
  rw [List.range_succ, List.map_append, List.map_singleton]
  congr 1
  · apply List.map_congr_left
    intro i hi
    have hi := List.mem_range.mp hi
    -- the slot that is written is behind the stored bytes
    apply update_of_ne
    rw [h.head]
    show (p.tail + i) % 4096 ≠ (p.tail + p.count) % 4096
    have : p.count < 4096 := hroom
    omega
  · show [update p.buffer p.head b ((p.tail + p.count) % bufSize)] = [b]
    rw [← h.head, update_self]

theorem Ring.take (h : Ring p) (n : Nat) : Ring (p.take n).2 ∧ (p.take n).1 ++ (p.take n).2.contents = p.contents ∧
    (p.take n).1.length = min n p.count ∧ (p.take n).2.readers = p.readers ∧ (p.take n).2.writers = p.writers := by
  induction n generalizing p with
  | zero => exact ⟨h, rfl, by simp [Pipe.take], rfl, rfl⟩
  | succ n ih =>
  rw [Pipe.take]
  split
  · rename_i hzero
    exact ⟨h, rfl, by simp [hzero], rfl, rfl⟩
  rename_i hne
  have htail := h.tail
  have hcount := h.count
  have hhead : p.head = ((p.tail + 1) % 4096 + (p.count - 1)) % 4096 := by
    rw [h.head]
    show (p.tail + p.count) % 4096 = _
    omega
  obtain ⟨hring, happend, hlength, hreaders, hwriters⟩ :=
    ih (p := { p with tail := (p.tail + 1) % bufSize, count := p.count - 1 })
      ⟨Nat.mod_lt _ (Nat.zero_lt_succ _), Nat.le_trans (Nat.sub_le ..) hcount, hhead⟩
  refine ⟨hring, ?_, ?_, hreaders, hwriters⟩
  · rw [List.cons_append, happend]
    obtain ⟨k, hk⟩ := Nat.exists_eq_succ_of_ne_zero hne
    show p.buffer p.tail :: (List.range (p.count - 1)).map _ = (List.range p.count).map _
    rw [hk, Nat.succ_eq_add_one, List.range_succ_eq_map, List.map_cons, List.map_map]
    congr 1
    · rw [Nat.add_zero, Nat.mod_eq_of_lt htail]
    apply List.map_congr_left
    intro i _
    show p.buffer (((p.tail + 1) % 4096 + i) % 4096) = p.buffer ((p.tail + (i + 1)) % 4096)
    congr 1
    omega
  · show (_ :: _ : List UInt8).length = _
    rw [List.length_cons, hlength]
    show min n (p.count - 1) + 1 = _
    omega

/-! ### One step -/

/-- What is known of a call under way, where its task has put `n` bytes into the buffer. -/
def CallOk (n : Nat) : Call → Prop
  | .lockRead count _ => 0 < count
  | .lockWrite buf _ => n = 0 ∧ buf.length < 2 ^ 31
  | .sleepRead count => 0 < count
  | .sleepWrite rest written => n = written ∧ written + rest.length < 2 ^ 31

/-- The buffer holds what has been accepted and not yet returned. -/
structure Holds (s : State) : Prop where
  ring : Ring s.pipe
  stream : s.accepted = s.returned ++ s.pipe.contents

structure Inv (s : State) : Prop extends Fifo s where
  holds : s.freed = none → Holds s
  calls : ∀ t call, s.calls t = some call → s.freed = none ∧ CallOk (s.mine t) call

theorem Holds.length (h : Holds s) : s.accepted.length = s.returned.length + s.pipe.count := by
  rw [h.stream, List.length_append, Pipe.contents, List.length_map, List.length_range]

/-- The state after a return, or when a call sleeps, if the other calls are as before. -/
theorem Inv.of_holds (h : Holds s) (hfreed : s.freed = none) (hhonest : ∀ ret, s.last = some ret → Honest s ret)
    (hcalls : ∀ t call, s.calls t = some call → CallOk (s.mine t) call) : Inv s where
  order := ⟨_, h.stream.symm⟩
  bounded := by
    have := h.ring.count
    rw [h.length]
    omega
  honest := hhonest
  freed ends hends := by
    rw [hfreed] at hends
    cases hends
  holds _ := h
  calls t call hcall := ⟨hfreed, hcalls t call hcall⟩

theorem Holds.congr (h : Holds s) (hring : Ring s.pipe → Ring s'.pipe) (haccepted : s'.accepted = s.accepted)
    (hreturned : s'.returned = s.returned) (hcontents : s'.pipe.contents = s.pipe.contents) : Holds s' := by
  refine ⟨hring h.ring, ?_⟩
  rw [haccepted, hreturned, hcontents, h.stream]

theorem Ring.setLocked (h : Ring p) (locked : Bool) : Ring { p with locked := locked } := ⟨h.tail, h.count, h.head⟩

/-- What is known of the other calls while `t` runs. -/
def OthersOk (t : TaskId) (s : State) : Prop := ∀ u call, u ≠ t → s.calls u = some call → CallOk (s.mine u) call

theorem toInt_of_lt (h : n < 2 ^ 31) : toInt n = n :=
  Int.bmod_eq_of_le (by omega) (by omega)

theorem puts_holds (t : TaskId) {l : List UInt8} (h : Holds s) (hroom : s.pipe.count + l.length ≤ bufSize) :
    Holds (l.foldl (State.put · t) s) ∧ (l.foldl (State.put · t) s).mine t = s.mine t + l.length ∧
      (∀ u, u ≠ t → (l.foldl (State.put · t) s).mine u = s.mine u) ∧
      (l.foldl (State.put · t) s).calls = s.calls ∧ (l.foldl (State.put · t) s).freed = s.freed ∧
      (l.foldl (State.put · t) s).last = s.last := by
  induction l generalizing s with
  | nil => exact ⟨h, rfl, fun _ _ => rfl, rfl, rfl, rfl⟩
  | cons b l ih =>
  rw [List.length_cons] at hroom
  have hfits : s.pipe.count < bufSize := by omega
  have hput : Holds (s.put t b) := by
    refine ⟨h.ring.put hfits b, ?_⟩
    show s.accepted ++ [b] = s.returned ++ (s.pipe.put b).contents
    rw [h.ring.contents_put hfits, h.stream, List.append_assoc]
  obtain ⟨hholds, hmine, hother, hrest⟩ := ih hput (by
    show s.pipe.count + 1 + l.length ≤ bufSize
    omega)
  have hself : (s.put t b).mine t = s.mine t + 1 := update_self ..
  refine ⟨hholds, ?_, fun u hu => (hother u hu).trans (update_of_ne hu ..), hrest⟩
  rw [List.foldl_cons, hmine, hself, List.length_cons]
  omega

theorem Inv.finish (h : Holds s) (hfreed : s.freed = none) (hothers : OthersOk t s) {ret : Return}
    (hhonest : Honest s ret) : Inv (s.finish t ret) := by
  refine .of_holds (h.congr (·.setLocked false) rfl rfl rfl) hfreed ?_ ?_
  · rintro _ ⟨⟩
    exact hhonest
  intro u call
  change update s.calls t none u = some call → CallOk (s.mine u) call
  exact update_ind u nofun (hothers u call)

section

variable (h : Holds s) (hfreed : s.freed = none) (hlast : s.last = none) (hothers : OthersOk t s) {call : Call}

include h hfreed hlast hothers

theorem Inv.wait (hcall : CallOk (s.mine t) call) : Inv (s.wait t call) := by
  refine .of_holds ⟨h.ring, h.stream⟩ hfreed ?_ ?_
  · intro ret hret
    rw [show (s.wait t call).last = s.last from rfl, hlast] at hret
    cases hret
  intro u call'
  change update s.calls t (some call) u = some call' → CallOk (s.mine u) call'
  refine update_ind u ?_ (hothers u call')
  rintro ⟨⟩
  exact hcall

theorem readLoop_inv (hcount : 0 < count) (nonblock : Bool) : Inv (readLoop t count nonblock s) := by
  unfold readLoop
  split
  · rename_i hempty
    have hall : s.returned = s.accepted := by
      rw [h.stream, Pipe.contents, hempty, List.range_zero, List.map_nil, List.append_nil]
    split
    · rename_i hwriters
      exact .finish h hfreed hothers fun _ => ⟨hwriters, hall⟩
    split
    · exact .finish h hfreed hothers fun hok => by cases hok
    · exact .wait h hfreed hlast hothers hcount
  obtain ⟨hring, happend, hlength, -, -⟩ := h.ring.take count
  refine .finish (s := { s with pipe := _, returned := _ }) ⟨hring, ?_⟩ hfreed hothers ?_
  · rw [List.append_assoc, happend, h.stream]
  -- bytes were there, so the result is not zero
  intro hok
  have hcap : s.pipe.count ≤ 4096 := h.ring.count
  have hzero : toInt (s.pipe.take count).1.length = 0 := Except.ok.inj hok
  rw [hlength, toInt_of_lt (by omega)] at hzero
  omega

theorem writeLoop_inv (nonblock : Bool) {fuel : Nat} {rest : List UInt8} {written : Nat}
    (hmine : s.mine t = written) (hsize : written + rest.length < 2 ^ 31) (hfuel : rest.length < fuel) :
    Inv (writeLoop t nonblock fuel rest written s) := by
  induction fuel generalizing s rest written with
  | zero => omega
  | succ fuel ih =>
  have hret : toInt written = s.mine t := by rw [hmine, toInt_of_lt (by omega)]
  have hshort (e : Errno) : Honest s (.write t (if written > 0 then .ok (toInt written) else .error e)) := by
    split
    · exact hret
    · show s.mine t = 0
      omega
  rw [writeLoop]
  split
  · exact .finish h hfreed hothers hret
  split
  · split
    · exact .finish h hfreed hothers (hshort .pipe)
    split
    · exact .finish h hfreed hothers (hshort .again)
    · exact .wait h hfreed hlast hothers ⟨hmine, hsize⟩
  rename_i hrest hfull
  have hlength : 0 < rest.length := List.length_pos_iff.mpr hrest
  have hcap := h.ring.count
  obtain ⟨hholds, hmine', hother, hcalls, hfreed', hlast'⟩ :=
    puts_holds t (l := rest.take (min rest.length (bufSize - s.pipe.count))) h (by
      rw [List.length_take]
      omega)
  rw [List.length_take] at hmine'
  refine ih hholds (hfreed'.trans hfreed) (hlast'.trans hlast) ?_ ?_ ?_ ?_
  · intro u call hu hcall
    rw [hcalls] at hcall
    rw [hother u hu]
    exact hothers u call hu hcall
  · omega
  · rw [List.length_drop]
    omega
  · rw [List.length_drop]
    omega

theorem goOn_inv (hat : s.calls t = some call) (hcall : CallOk (s.mine t) call) : Inv (goOn t s call) := by
  have hstay : Inv s := by
    refine .of_holds h hfreed (fun ret hret => ?_) fun u call' hu => ?_
    · rw [hlast] at hret
      cases hret
    by_cases hut : u = t
    · rw [hut, hat] at hu
      cases hu
      rw [hut]
      exact hcall
    · exact hothers u call' hut hu
  have hlock : Holds s.lock := h.congr (·.setLocked true) rfl rfl rfl
  cases call with
  | lockRead count nonblock =>
    rw [goOn]
    split
    · exact hstay
    · exact readLoop_inv hlock hfreed hlast hothers hcall nonblock
  | lockWrite buf nonblock =>
    rw [goOn]
    split
    · exact hstay
    · exact writeLoop_inv hlock hfreed hlast hothers nonblock hcall.1 (by rw [Nat.zero_add]; exact hcall.2)
        (Nat.lt_succ_self _)
  | sleepRead count => exact readLoop_inv h hfreed hlast hothers hcall false
  | sleepWrite rest written => exact writeLoop_inv h hfreed hlast hothers false hcall.1 hcall.2 (Nat.lt_succ_self _)

end

theorem Inv.forget (h : Inv s) : Inv { s with last := none } :=
  ⟨⟨h.order, h.bounded, fun ret hret => (by cases hret), h.freed⟩, fun hf => ⟨(h.holds hf).ring, (h.holds hf).stream⟩,
    h.calls⟩

theorem Inv.pipeClose (h : Inv s) (hfreed : s.freed = none) (hlast : s.last = none) {readers writers : Int}
    (hquiet : readers = 0 → writers = 0 → ∀ t, s.calls t = none) :
    Inv (pipeClose s { s.pipe with readers := readers, writers := writers }) := by
  obtain ⟨hring, hstream⟩ := h.holds hfreed
  refine ⟨⟨h.order, h.bounded, fun ret hret => ?_, fun ends hends => ?_⟩, fun _ => ⟨⟨hring.tail, hring.count,
    hring.head⟩, hstream⟩, fun t call hcall => ?_⟩
  · change s.last = some ret at hret
    rw [hlast] at hret
    cases hret
  · change (if readers = 0 ∧ writers = 0 then some (readers, writers) else s.freed) = some ends at hends
    split at hends
    · rename_i hzero
      rw [← Option.some.inj hends, hzero.1, hzero.2]
    · exact h.freed ends hends
  · change s.calls t = some call at hcall
    refine ⟨(if_neg ?_).trans hfreed, (h.calls t call hcall).2⟩
    rintro ⟨hreaders, hwriters⟩
    rw [hquiet hreaders hwriters t] at hcall
    cases hcall

theorem next_inv (h : Inv s) (hlast : s.last = none) (hpossible : Possible s op) (hcond : Cond s op) :
    Inv (next s op) := by
  have hothers (t : TaskId) : OthersOk t s := fun u call _ hcall => (h.calls u call hcall).2
  cases op with
  | read t count nonblock =>
    obtain ⟨hfreed, -, -⟩ := hpossible
    have hholds := h.holds hfreed
    refine goOn_inv (s := s.wait t (.lockRead count nonblock)) ⟨hholds.ring, hholds.stream⟩ hfreed hlast ?_
      (update_self ..) hcond
    intro u call hu hcall
    exact hothers t u call hu ((update_of_ne hu ..).symm.trans hcall)
  | write t buf nonblock =>
    obtain ⟨hfreed, -, hcalls⟩ := hpossible
    have hmine {u : TaskId} (hu : u ≠ t) : update s.mine t 0 u = s.mine u := update_of_ne hu ..
    have hholds := h.holds hfreed
    rw [next]
    split
    · refine .of_holds ⟨hholds.ring, hholds.stream⟩ hfreed ?_ fun u call hcall => ?_
      · rintro _ ⟨⟩
        exact update_self ..
      have hu : u ≠ t := by
        rintro rfl
        cases hcalls.symm.trans hcall
      dsimp only
      rw [hmine hu]
      exact (h.calls u call hcall).2
    · refine goOn_inv (s := State.wait { s with mine := update s.mine t 0 } t (.lockWrite buf nonblock))
        ⟨hholds.ring, hholds.stream⟩ hfreed hlast ?_ (update_self ..) ⟨update_self .., hcond⟩
      intro u call hu hcall
      show CallOk (update s.mine t 0 u) call
      rw [hmine hu]
      exact (h.calls u call ((update_of_ne hu ..).symm.trans hcall)).2
  | goOn t =>
    rw [next]
    split
    · exact h
    · rename_i call hcall
      obtain ⟨hfreed, hok⟩ := h.calls t call hcall
      exact goOn_inv (h.holds hfreed) hfreed hlast (hothers t) hcall hok
  | closeRead => exact h.pipeClose hpossible.1 hlast fun hreaders hwriters => hcond (by omega) hwriters
  | closeWrite => exact h.pipeClose hpossible.1 hlast fun hreaders hwriters => hcond (by omega) hreaders
  | reuse p =>
    refine ⟨⟨h.order, h.bounded, fun ret hret => ?_, h.freed⟩, fun hno => absurd hno hpossible, h.calls⟩
    change s.last = some ret at hret
    rw [hlast] at hret
    cases hret

theorem step_ok (h : step s op = .ok s') : Possible s op ∧ s' = next { s with last := none } op := by
  rw [step] at h
  split at h
  · exact ⟨‹_›, (Except.ok.inj h).symm⟩
  · cases h

/-- **One step.** -/
theorem Inv.step (h : Inv s) (hcond : Cond s op) (hstep : step s op = .ok s') : Inv s' := by
  obtain ⟨hpossible, rfl⟩ := step_ok hstep
  apply next_inv h.forget rfl
  · cases op <;> exact hpossible
  · cases op <;> exact hcond

/-! ### Runs -/

end Litenix.Pipes
