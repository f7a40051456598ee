import Mathlib.Data.UInt

/-! The console terminal (`drivers/tty.c`). -/

namespace Litenix

/-- `TTY_BUF_SIZE`. -/
abbrev ttyBufSize : Nat := 4096

structure Termios where
  iflag : UInt32
  lflag : UInt32
  cc : Nat → UInt8

namespace Termios

variable (t : Termios)

def isig : Bool := t.lflag &&& 0x0001 != 0
def icanon : Bool := t.lflag &&& 0x0002 != 0
def echo : Bool := t.lflag &&& 0x0008 != 0
def icrnl : Bool := t.iflag &&& 0x0100 != 0

end Termios

/-- `console_tty` with the counters `commit_count` and `canon_len`; what has been sent to the serial port and the
signals that have been sent to a process group (0 for the running task) are recorded with it. -/
structure Tty where
  ibuf : Nat → UInt8
  head : Nat
  tail : Nat
  termios : Termios
  fgPgid : UInt32
  locked : Bool
  commitCount : UInt32
  canonLen : UInt32
  serial : List UInt8
  signals : List (UInt32 × Nat)

namespace Tty

/-- `tty_init`. -/
def init : Tty where
  ibuf := fun _ => 0
  head := 0
  tail := 0
  termios := ⟨0x500, 0x8A3B, fun i => if i = 0 then 3 else if i = 4 then 4 else if i = 6 then 1 else 0⟩
  fgPgid := 0
  locked := false
  commitCount := 0
  canonLen := 0
  serial := []
  signals := []

variable (tty : Tty)

def unlock : Tty := { tty with locked := false }

/-- `serial_write_char` for each byte, if ECHO is set. -/
def echo (bytes : List UInt8) : Tty :=
  if tty.termios.echo then { tty with serial := tty.serial ++ bytes } else tty

def signal (sig : Nat) : Tty := { tty with signals := tty.signals ++ [(tty.fgPgid, sig)] }

/-- A `char` is signed, so one from 128 on is no control character. -/
def isControl (ch : UInt8) (i : Nat) : Bool := ch < 128 && ch == tty.termios.cc i

/-- Append to the ring buffer, which keeps one slot free; `none` if it is full. -/
def push (ch : UInt8) : Option Tty :=
  let nextHead := (tty.head + 1) % ttyBufSize
  if nextHead = tty.tail then none
  else some { tty with ibuf := Function.update tty.ibuf tty.head ch, head := nextHead }

/-- A backspace in canonical mode. -/
def erase : Tty :=
  if tty.canonLen > 0 then
    { tty with
      head := if tty.head > 0 then tty.head - 1 else ttyBufSize - 1
      canonLen := tty.canonLen - 1 }.echo [8, 32, 8]
  else tty

def commit : Tty := { tty with canonLen := 0, commitCount := tty.commitCount + 1 }

/-- `tty_input_char` after it has taken the lock. A backspace and the end-of-file character return without releasing
it. -/
def inputLocked (ch : UInt8) : Tty :=
  if tty.termios.isig ∧ tty.isControl ch 0 then ((tty.echo [94, 67, 10]).signal 2).unlock
  else if tty.termios.isig ∧ ch = 26 then ((tty.echo [94, 90, 10]).signal 20).unlock
  else if tty.termios.icanon then
    if ch = 127 ∨ ch = 8 then tty.erase
    else if tty.isControl ch 4 then tty.commit
    else
      let ch := if ch = 13 ∧ tty.termios.icrnl then 10 else ch
      let tty := tty.echo [ch]
      match tty.push ch with
      | none => tty.unlock
      | some tty => (if ch = 10 then tty.commit else { tty with canonLen := tty.canonLen + 1 }).unlock
  else
    let tty := tty.echo [ch]
    ((tty.push ch).getD tty).unlock

/-- The copy loop of `tty_driver_read` in canonical mode, for `count` bytes at most. -/
def copyLine : (count : Nat) → Tty → List UInt8 × Tty
  | 0, tty => ([], tty)
  | count + 1, tty =>
    if tty.head = tty.tail then ([], tty)
    else
      let ch := tty.ibuf tty.tail
      let tty := { tty with tail := (tty.tail + 1) % ttyBufSize }
      if ch = 10 then ([ch], if tty.commitCount > 0 then { tty with commitCount := tty.commitCount - 1 } else tty)
      else
        let rest := copyLine count tty
        (ch :: rest.1, rest.2)

/-- The copy loop in the other mode. -/
def copyRaw : (count : Nat) → Tty → List UInt8 × Tty
  | 0, tty => ([], tty)
  | count + 1, tty =>
    if tty.head = tty.tail then ([], tty)
    else
      let rest := copyRaw count { tty with tail := (tty.tail + 1) % ttyBufSize }
      (tty.ibuf tty.tail :: rest.1, rest.2)

/-- The number of characters in the ring buffer. -/
def buffered : Nat := (tty.head + ttyBufSize - tty.tail) % ttyBufSize

def minChars : Nat := if tty.termios.cc 6 > 0 then (tty.termios.cc 6).toNat else 1

/-- `tty_driver_read` after it has taken the lock: the bytes read, or `none` if the task sleeps. -/
def readLocked (count : Nat) : Option (List UInt8) × Tty :=
  if tty.termios.icanon then
    if tty.commitCount = 0 then (none, tty)
    else
      let (bytes, tty) := copyLine count tty
      (some bytes,
        (if bytes = [] ∧ tty.commitCount > 0 then { tty with commitCount := tty.commitCount - 1 } else tty).unlock)
  else
    if tty.buffered < tty.minChars then (none, tty)
    else
      let (bytes, tty) := copyRaw count tty
      (some bytes, tty.unlock)

end Tty

end Litenix
