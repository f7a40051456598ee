import Litenix.Signals

/-! Handlers and the functions that they interrupt. The frame of a handler is put right below the stack pointer, and
`rt_sigreturn` finds it there; the 128 bytes below the stack pointer, which a function may use without moving it, are
not left free. -/

namespace Litenix.Signals

open Lib

variable {m started r : Machine} {sig : Nat} {act : Sigaction}

/-- The stack pointer that a handler starts with. -/
def Machine.handlerRsp (m : Machine) : UInt64 := (m.frame.userRsp - UInt64.ofNat sigframeSize) &&& ~~~ (15 : UInt64)

/-- The start of a handler writes to the address. -/
def Machine.Writes (m : Machine) (addr : Nat) : Prop :=
  m.handlerRsp.toNat ≤ addr ∧ addr < m.handlerRsp.toNat + sigframeSize

/-- The machine after the system call, before further signals are delivered. -/
def sigreturned (r : Machine) : Machine :=
  { (sysRtSigreturn r).1 with frame := { (sysRtSigreturn r).1.frame with rax := (sysRtSigreturn r).2 } }

/-- The handler has returned to its restorer, and nothing has changed its frame. -/
structure Undisturbed (started r : Machine) : Prop where
  rsp : r.frame.userRsp = started.frame.userRsp + 8
  bytes : ∀ i < sigframeSize, r.mem.bytes (started.frame.userRsp.toNat + i) =
    started.mem.bytes (started.frame.userRsp.toNat + i)
  readable : ∀ i < sigframeSize, r.mem.readable (started.frame.userRsp.toNat + i) = true

/-- Who runs next: a function that is interrupted on its way out of the kernel, or a handler. -/
inductive Phase
  | interrupted
  | handler

/-- Nested deliveries, with the machines they interrupt. Between two of them the code of a handler does anything. -/
inductive Handled : Phase → Machine → List Machine → Machine → Prop
  | resume (m : Machine) : Handled .interrupted m [] m
  | deliver {m started r m' : Machine} {sig : Nat} {inner rest : List Machine} (hnext : m.task.next = some sig)
      (hdeliver : taskDeliverSignals true m = .ok started) (hbody : Handled .handler started inner r)
      (hkept : Undisturbed started r) (hrest : Handled .interrupted (sigreturned r) rest m') :
      Handled .interrupted m (m :: (inner ++ rest)) m'
  | user (m m' : Machine) : Handled .handler m [] m'
  | nest {m₀ m m₁ m₂ : Machine} {inner rest : List Machine} (hnested : Handled .interrupted m inner m₁)
      (hrest : Handled .handler m₁ rest m₂) : Handled .handler m₀ (inner ++ rest) m₂

/-! ### One handler -/

/-- Where the frame is, and what its context holds. -/
structure Started (m started : Machine) : Prop where
  rsp : started.frame.userRsp = m.handlerRsp
  user : vmmUserBase ≤ m.handlerRsp.toNat ∧ m.handlerRsp.toNat + 255 ≤ vmmUserTop
  bytes : ∀ i < 232, started.mem.bytes (m.handlerRsp.toNat + (24 + i)) =
    (((sigframeWords 0 0 m.context).drop 3).flatMap Bytes.le64).getD i 0

theorem startHandler_started (h : startHandler m sig act = .ok started) : Started m started := by
  have hlength : ((sigframeWords act.saRestorer (UInt64.ofNat sig) m.context).flatMap Bytes.le64).length = 256 := by
    simp [sigframeWords, Bytes.le64]
  simp only [startHandler] at h
  split at h
  · cases h
  split at h
  · cases h
  rename_i mem hcopy
  cases h
  rw [UserMem.copyToUser, hlength] at hcopy
  split at hcopy
  · rename_i haccess
    cases hcopy
    simp only [accessible, Bool.and_eq_true, decide_eq_true_eq] at haccess
    refine ⟨rfl, haccess.2.1, fun i hi => ?_⟩
    rw [Nat.add_comm 24]
    exact Bytes.put_add _ _ (by omega)
  · cases hcopy

theorem savedContext_of_started (h : Started m started) (hkept : Undisturbed started r) :
    r.savedContext = some m.context := by
  obtain ⟨hlo, hhi⟩ := h.user
  have hbytes := hkept.bytes
  have hreadable := hkept.readable
  rw [h.rsp] at hbytes hreadable
  simp only [vmmUserTop] at hhi
  have haddr : (r.frame.userRsp - 8 + ucOffset).toNat = m.handlerRsp.toNat + 24 := by
    rw [hkept.rsp, h.rsp, UInt64.add_sub_cancel, UInt64.toNat_add]
    exact Nat.mod_eq_of_lt (by simp [ucOffset]; omega)
  have hok : (uaccessOk (r.frame.userRsp - 8 + ucOffset) ucontextSize &&
      accessible r.mem.readable (r.frame.userRsp - 8 + ucOffset) ucontextSize) = true := by
    have hne : r.frame.userRsp - 8 + ucOffset ≠ 0 := fun hzero => by simp [hzero] at haddr
    simp only [uaccessOk, accessible, haddr, if_neg hne, vmmIsUserAddress, vmmKernelBase, vmmUserBase, vmmUserTop,
      ucontextSize, Bool.and_eq_true, decide_eq_true_eq, List.all_eq_true, List.mem_range] at hlo ⊢
    refine ⟨?_, ⟨by omega, by omega⟩, fun i hi => ?_⟩
    · simp
      omega
    · rw [Nat.add_assoc]
      exact hreadable _ (by simp only [sigframeSize]; omega)
  have hword (k : Nat) (hk : k < 29) : Bytes.u64 (fun i => r.mem.bytes (m.handlerRsp.toNat + 24 + i)) (8 * k) =
      ((sigframeWords 0 0 m.context).drop 3).getD k 0 := by
    rw [← Nat.zero_add (8 * k)]
    refine Bytes.u64_of_words (fun i hi => ?_) hk
    have hi : i < 232 := hi
    rw [Nat.zero_add, Nat.add_assoc, hbytes _ (by simp only [sigframeSize]; omega), h.bytes i hi]
  rw [Machine.savedContext, UserMem.copyFromUser, if_pos hok, haddr]
  simp only [Option.map_some, Ucontext.read, Machine.context, Option.some.injEq, Ucontext.mk.injEq,
    Sigcontext.mk.injEq]
  exact ⟨⟨hword 5 (by decide), hword 6 (by decide), hword 7 (by decide), hword 8 (by decide), hword 9 (by decide),
    hword 10 (by decide), hword 11 (by decide), hword 12 (by decide), hword 13 (by decide), hword 14 (by decide),
    hword 15 (by decide), hword 16 (by decide), hword 17 (by decide), hword 18 (by decide), hword 19 (by decide),
    hword 20 (by decide), hword 21 (by decide), hword 22 (by decide), hword 23 (by decide)⟩, hword 28 (by decide)⟩

theorem sigreturned_of_started (h : Started m started) (hkept : Undisturbed started r) :
    (sigreturned r).frame = m.frame ∧ (sigreturned r).task.signalBlocked = m.task.signalBlocked := by
  rw [sigreturned, sysRtSigreturn, savedContext_of_started h hkept]
  exact ⟨rfl, rfl⟩

/-- The last byte of the frame is at most 16 bytes below the stack pointer. -/
theorem Started.overwrites (h : Started m started) : ∃ addr, m.Writes addr ∧ m.frame.userRsp.toNat - 128 ≤ addr := by
  have hrsp : m.handlerRsp.toNat = (2 ^ 64 - 256 + m.frame.userRsp.toNat) % 2 ^ 64 / 2 ^ 4 * 2 ^ 4 := by
    rw [← land_not64 (by decide) (Nat.mod_lt _ (by decide))]
    rw [Machine.handlerRsp, UInt64.toNat_and, UInt64.toNat_sub, UInt64.toNat_not]
    rfl
  have hhi := h.user.2
  have hlt := m.frame.userRsp.toNat_lt
  simp only [vmmUserTop] at hhi
  exact ⟨m.handlerRsp.toNat + 255, ⟨by omega, by simp [sigframeSize]⟩, by omega⟩

/-! ### Nested deliveries -/

/-- **Handlers are transparent**, but for the red zone of what they interrupt. -/
theorem signals_transparent_iff (m m' : Machine) (interrupted : List Machine)
    (h : Handled .interrupted m interrupted m') :
    m'.frame = m.frame ∧ m'.task.signalBlocked = m.task.signalBlocked ∧
      ((∀ x ∈ interrupted, ∀ addr, x.Writes addr → addr < x.frame.userRsp.toNat - 128) ↔ interrupted = []) := by
  generalize hphase : Phase.interrupted = phase at h
  induction h with
  | resume m => exact ⟨rfl, rfl, by simp⟩
  | deliver hnext hdeliver hbody hkept hrest _ ih =>
    have hdelivered := taskDeliverSignals_delivered hdeliver
    rw [if_pos rfl, hnext] at hdelivered
    obtain ⟨passed, ⟨hframe, -, hblocked⟩, hstart⟩ := hdelivered
    have hstarted := startHandler_started hstart
    obtain ⟨hback, hmask⟩ := sigreturned_of_started hstarted hkept
    obtain ⟨hframe', hblocked', -⟩ := ih rfl
    refine ⟨by rw [hframe', hback, hframe], by rw [hblocked', hmask, hblocked], iff_of_false (fun hkeeps => ?_) (List.cons_ne_nil _ _)⟩
    obtain ⟨addr, hwrites, hzone⟩ := hstarted.overwrites
    rw [Machine.Writes, Machine.handlerRsp, hframe] at hwrites
    rw [hframe] at hzone
    exact absurd (hkeeps _ List.mem_cons_self addr hwrites) (Nat.not_lt_of_le hzone)
  | user m m' => cases hphase
  | nest _ _ _ _ => cases hphase

/-- A task with one signal pending, and a handler for every signal. -/
def oneSignal : Machine :=
  { filledStack 0 with
    task := { signalPending := sigBit 10, signalBlocked := 0, sigactions := fun _ => ⟨0x400100, 0, 0x400200, 0⟩ } }

theorem oneSignal_handled : ∃ m', Handled .interrupted oneSignal [oneSignal] m' := by
  have hok : (taskDeliverSignals true oneSignal).toBool = true := by decide +kernel
  have hnext : oneSignal.task.next = some 10 := by decide +kernel
  cases hdeliver : taskDeliverSignals true oneSignal with
  | error code =>
    rw [hdeliver] at hok
    cases hok
  | ok started =>
    let r : Machine := { started with
      frame := { started.frame with userRsp := started.frame.userRsp + 8 }
      mem := { started.mem with readable := fun _ => true } }
    exact ⟨_, .deliver hnext hdeliver (.user started r) ⟨rfl, fun _ _ => rfl, fun _ _ => rfl⟩ (.resume _)⟩

theorem signals_transparent_one : ∃ m', Handled .interrupted oneSignal [oneSignal] m' ∧
    m'.frame = oneSignal.frame ∧ m'.task.signalBlocked = oneSignal.task.signalBlocked ∧
      ((∀ x ∈ [oneSignal], ∀ addr, x.Writes addr → addr < x.frame.userRsp.toNat - 128) ↔ [oneSignal] = []) := by
  obtain ⟨m', h⟩ := oneSignal_handled
  exact ⟨m', h, signals_transparent_iff _ _ _ h⟩

/-- The handler of signal 10 overwrites the last byte below the stack pointer. -/
theorem red_zone_overwritten : ¬ ∀ (m m' : Machine) (interrupted : List Machine),
    Handled .interrupted m interrupted m' → m'.frame = m.frame ∧ m'.task.signalBlocked = m.task.signalBlocked ∧
      ∀ x ∈ interrupted, ∀ addr, x.Writes addr → addr < x.frame.userRsp.toNat - 128 := by
  intro h
  obtain ⟨m', hhandled⟩ := oneSignal_handled
  have hbelow := (h _ _ _ hhandled).2.2 oneSignal (by simp) 0x7ffeffff ⟨by decide +kernel, by decide +kernel⟩
  exact absurd hbelow (by decide +kernel)

end Litenix.Signals
