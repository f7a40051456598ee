import Mathlib.Algebra.Order.Ring.Int
import Mathlib.Data.UInt
import Mathlib.Tactic.NormNum

/-! Timeouts (`sys_nanosleep`, `sys_select`, `sys_pselect6`, `sys_poll`, `sys_epoll_wait`). The clock ticks every 10 ms,
and a call turns its timeout into ticks in one of five ways. Sums and products are those of 64-bit words. -/

namespace Litenix.Timeouts

/-- A call with a timeout that is no null pointer. -/
inductive Wait
  | nanosleep (sec nsec : Int)
  | select (sec usec : Int)
  | pselect6 (sec nsec : Int)
  | poll (nfds : Nat) (ms : Int)
  | epollWait (ms : Int)

/-- The arguments have their types, are not negative, and pass the checks of the call. -/
def Accepted : Wait → Prop
  | .nanosleep sec nsec | .pselect6 sec nsec => 0 ≤ sec ∧ sec < 2 ^ 63 ∧ 0 ≤ nsec ∧ nsec < 1000000000
  | .select sec usec => 0 ≤ sec ∧ sec < 2 ^ 63 ∧ 0 ≤ usec ∧ usec < 1000000
  | .poll nfds ms => nfds ≤ 32 ∧ 0 ≤ ms ∧ ms < 2 ^ 31
  | .epollWait ms => 0 ≤ ms ∧ ms < 2 ^ 31

/-- The time asked for, in nanoseconds. -/
def requested : Wait → Int
  | .nanosleep sec nsec | .pselect6 sec nsec => sec * 1000000000 + nsec
  | .select sec usec => sec * 1000000000 + usec * 1000
  | .poll _ ms | .epollWait ms => ms * 1000000

def uint64 (x : Int) : Int := x % 2 ^ 64

def int64 (x : Int) : Int := if x % 2 ^ 64 < 2 ^ 63 then x % 2 ^ 64 else x % 2 ^ 64 - 2 ^ 64

/-- `ms_to_ticks`; `UINT64_MAX` stands for no timeout. -/
def msToTicks (ms : Int) : Int := if ms < 0 then 2 ^ 64 - 1 else uint64 ((int64 (ms + 9)).tdiv 10)

/-- `ts_to_ticks`, and the same sum in `sys_nanosleep`. -/
def tsToTicks (sec nsec : Int) : Int := uint64 (sec * 100 + nsec / 10000000)

def ticks : Wait → Int
  | .nanosleep sec nsec | .pselect6 sec nsec => tsToTicks sec nsec
  | .select sec usec => msToTicks (int64 (sec * 1000 + usec / 1000))
  | .poll _ ms => ms / 10
  | .epollWait ms => msToTicks ms

/-- The ticks that `do_select` waits for without a deadline. -/
def Forever : Wait → Prop
  | w@(.select _ _) | w@(.pselect6 _ _) => ticks w = 2 ^ 64 - 1
  | _ => False

/-- The tick count at which the call gives up. With descriptors to look at `sys_poll` compares the time that has
passed, so that its sum does not wrap around. -/
def deadline (now : Int) : Wait → Int
  | w@(.select _ _) | w@(.pselect6 _ _) => if ticks w = 2 ^ 64 - 1 then 2 ^ 64 - 1 else uint64 (now + ticks w)
  | w@(.poll (_ + 1) _) => now + ticks w
  | w => uint64 (now + ticks w)

def NotShortened (now : Int) (w : Wait) : Prop :=
  (Forever w ∨ (requested w + 9999999) / 10000000 ≤ ticks w) ∧ now ≤ deadline now w

/-- The timeout is a number of ticks, or is rounded up, and its end is a tick count. A number of milliseconds that is
negative as a word, and the last number of ticks, mean no timeout; nine numbers of milliseconds make the rounding of
`ms_to_ticks` wrap around to the same number of ticks. -/
def Fits (now : Int) : Wait → Prop
  | .nanosleep sec nsec => nsec % 10000000 = 0 ∧ now + (sec * 100 + nsec / 10000000) < 2 ^ 64
  | .pselect6 sec nsec => (sec * 100 + nsec / 10000000) % 2 ^ 64 = 2 ^ 64 - 1 ∨
      nsec % 10000000 = 0 ∧ now + (sec * 100 + nsec / 10000000) < 2 ^ 64
  | .select sec usec =>
    let ms := sec * 1000 + usec / 1000
    2 ^ 63 ≤ ms % 2 ^ 64 ∨
      ms < 2 ^ 63 - 9 ∧ (usec % 1000 = 0 ∨ ms % 10 ≠ 0) ∧ now + (ms + 9) / 10 < 2 ^ 64 ∨
      2 ^ 63 - 9 ≤ ms % 2 ^ 64 ∧ sec * 1000000 + usec ≤ (2 ^ 64 - 922337203685477580) * 10000 ∧
        now < 922337203685477580
  | .poll nfds ms => ms % 10 = 0 ∧ (nfds = 0 → now + ms / 10 < 2 ^ 64)
  | .epollWait ms => now + (ms + 9) / 10 < 2 ^ 64

theorem tdiv_ten (x : Int) : x.tdiv 10 = if x < 0 then -(-x / 10) else x / 10 := by
  split
  · rw [← Int.tdiv_eq_ediv_of_nonneg (by omega), Int.neg_tdiv, neg_neg]
  · exact Int.tdiv_eq_ediv_of_nonneg (by omega)

theorem msToTicks_eq (hlo : 0 ≤ ms) (hhi : ms < 2 ^ 63) :
    msToTicks ms = if ms < 2 ^ 63 - 9 then (ms + 9) / 10 else 2 ^ 64 - 922337203685477580 := by
  rw [msToTicks, if_neg (by omega), tdiv_ten, uint64, int64]
  split_ifs <;> omega

theorem select_iff (h : Accepted (.select sec usec)) (hnow : 0 ≤ now ∧ now < 2 ^ 64) :
    NotShortened now (.select sec usec) ↔ Fits now (.select sec usec) := by
  simp only [Accepted] at h
  -- a number of milliseconds is negative as a word, rounds up, or is one of the nine
  rcases lt_or_ge ((sec * 1000 + usec / 1000) % 2 ^ 64) (2 ^ 63) with hpos | hneg
  · have hms : int64 (sec * 1000 + usec / 1000) = (sec * 1000 + usec / 1000) % 2 ^ 64 := if_pos hpos
    simp only [NotShortened, Fits, Forever, deadline, requested, uint64, ticks, hms,
      msToTicks_eq (Int.emod_nonneg _ (by norm_num)) hpos]
    rcases lt_or_ge (sec * 1000 + usec / 1000) (2 ^ 64) with hword | hlong
    · simp only [Int.emod_eq_of_lt (by omega : 0 ≤ sec * 1000 + usec / 1000) hword] at *
      split_ifs <;> omega
    · split_ifs <;> omega
  · have hticks : ticks (.select sec usec) = 2 ^ 64 - 1 := by
      rw [ticks, int64, if_neg (by omega), msToTicks, if_pos (by omega)]
    simp only [NotShortened, Fits, Forever, deadline, requested, hticks, true_or, true_and, if_true]
    omega

end Litenix.Timeouts
