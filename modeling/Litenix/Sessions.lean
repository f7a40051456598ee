import Litenix.SchedRuns
import Litenix.Process

/-! Process groups, sessions and the permission to send signals: `sys_kill`, `sys_setpgid` and `sys_setsid`
(`sys/sys_process.c`) with the walks over the process tree of `sched/task.c`. A signal to one process is
checked against the user of that process. A signal to a group is checked against numbers only: the
session of the caller has to be the group. So the users of a group are those that `setpgid`, which
checks nothing, lets into it. -/

namespace Litenix.Sessions

open Lib Sched Function

structure Identity where
  pgid : UInt32
  sid : UInt32
  ruid : UInt32
  euid : UInt32
  deriving DecidableEq, Repr

/-- The processes of the scheduler with their identities. The process `p` has the pid `p + 1`. -/
structure State where
  sched : Sched.State
  ids : ProcId → Identity

def pidOf (p : ProcId) : Nat := p + 1

namespace State

variable (s : State)

def caller : ProcId := s.sched.cur.process

def setIdentity (p : ProcId) (f : Identity → Identity) : State :=
  { s with ids := update s.ids p (f (s.ids p)) }

/-- A bound on the depth of the process tree, for the walks over it. -/
def depth : Nat := s.sched.nextProc + 1

end State

/-! ### Walks over the process tree -/

def findProcessRec (procs : ProcId → Proc) (pid : UInt64) : Nat → ProcId → Option ProcId
  | 0, _ => none
  | fuel + 1, root =>
    if pidOf root = pid.toNat then some root
    else (procs root).children.findSome? (findProcessRec procs pid fuel)

def findProcess (s : State) (pid : UInt64) : Option ProcId :=
  findProcessRec s.sched.procs pid s.depth initProcess

def sendSignalPgidRec (ids : ProcId → Identity) (pgid : UInt32) (sig : Nat) : Nat → ProcId → Sched.State → Sched.State
  | 0, _, sched => sched
  | fuel + 1, root, sched =>
    let sched := match (sched.procs root).mainThread with
      | some main => if (ids root).pgid = pgid then taskSendSignal sched main sig else sched
      | none => sched
    (sched.procs root).children.foldl (fun sched child => sendSignalPgidRec ids pgid sig fuel child sched) sched

def taskSendSignalPgid (s : State) (pgid : UInt32) (sig : Nat) : State :=
  { s with sched := sendSignalPgidRec s.ids pgid sig s.depth initProcess s.sched }

/-! ### The calls -/

/-- The last test of `sys_kill`, for a caller that is not root. -/
def State.MaySignal (s : State) (c p : ProcId) : Prop :=
  (s.ids c).ruid = (s.ids p).ruid ∨ (s.ids c).ruid = (s.ids p).euid

instance (s : State) (c p : ProcId) : Decidable (s.MaySignal c p) := inferInstanceAs (Decidable (_ ∨ _))

def sysKill (s : State) (rdi rsi : UInt64) : Except Errno State :=
  let pid := rdi.toInt64.toInt
  let sig := rsi.toUInt32.toInt32.toInt
  let callerRoot := (s.ids s.caller).euid = 0
  if sig < 0 ∨ 64 ≤ sig then .error .EINVAL
  else if pid = 0 then
    let pgid := (s.ids s.caller).pgid
    if sig = 0 then .ok s
    else if ¬ callerRoot ∧ (s.ids s.caller).sid ≠ pgid then .error .EPERM
    else .ok (taskSendSignalPgid s pgid sig.toNat)
  else if pid < 0 then
    let pgid := (-rdi).toUInt32
    if sig = 0 then .ok s
    else if ¬ callerRoot ∧ (s.ids s.caller).sid ≠ pgid then .error .EPERM
    else .ok (taskSendSignalPgid s pgid sig.toNat)
  else
    match findProcess s rdi with
    | none => .error .ESRCH
    | some proc =>
      match (s.sched.procs proc).mainThread with
      | none => .error .ESRCH
      | some main =>
        if ¬ callerRoot ∧ ¬ s.MaySignal s.caller proc then .error .EPERM
        else .ok { s with sched := taskSendSignal s.sched main sig.toNat }

/-- The process that `sys_setpgid` works on. -/
def setpgidTarget (s : State) (pid : UInt64) : Option ProcId :=
  if pid = 0 ∨ pid.toNat = pidOf s.caller then some s.caller else findProcess s pid

/-- The group that it gives to the process. -/
def setpgidGroup (target : ProcId) (pgid : UInt64) : UInt32 :=
  if pgid = 0 then UInt32.ofNat (pidOf target) else pgid.toUInt32

def sysSetpgid (s : State) (rdi rsi : UInt64) : Except Errno State :=
  match setpgidTarget s rdi with
  | none => .error .ESRCH
  | some target => .ok (s.setIdentity target fun id => { id with pgid := setpgidGroup target rsi })

def sysSetsid (s : State) : Except Errno State :=
  if (s.ids s.caller).pgid.toNat = pidOf s.caller then .error .EPERM
  else
    let sid := UInt32.ofNat (pidOf s.caller)
    .ok (s.setIdentity s.caller fun id => { id with pgid := sid, sid := sid })

/-- The identity that `process_create_with_parent` gives to a child: the first process alone does not hand
down its group and session. -/
def childIdentity (s : State) (parent child : ProcId) : Identity :=
  if 1 < pidOf parent then s.ids parent
  else { s.ids parent with pgid := UInt32.ofNat (pidOf child), sid := UInt32.ofNat (pidOf child) }

def sysFork (s : State) (outcome : ForkOutcome) : State :=
  let child := s.sched.nextProc
  let forked := taskFork s.sched outcome
  match outcome with
  | .created => { sched := forked, ids := update s.ids child (childIdentity s s.caller child) }
  | _ => { s with sched := forked }

inductive Call
  | setpgid (rdi rsi : UInt64)
  | setsid
  | fork (outcome : ForkOutcome)
  | kill (rdi rsi : UInt64)

/-- The state after a call; one that fails changes nothing. -/
def call (s : State) (c : Call) : State :=
  let result := match c with
    | .setpgid rdi rsi => sysSetpgid s rdi rsi
    | .setsid => sysSetsid s
    | .fork outcome => .ok (sysFork s outcome)
    | .kill rdi rsi => sysKill s rdi rsi
  match result with
  | .ok s => s
  | .error _ => s

/-- A call together with the task that makes it. -/
structure Op where
  task : TaskId
  call : Call

def State.runs (s : State) (t : TaskId) : State := { s with sched := { s.sched with current := t } }

/-- The scheduler has switched to the task, which makes its call. -/
def step (s : State) (op : Op) : Except Stop State :=
  if (s.sched.tasks op.task).allocated then .ok (call (s.runs op.task) op.call) else .error .badPointer

/-! ### The process tree -/

def Live (sched : Sched.State) (p : ProcId) : Prop := (sched.procs p).allocated = true

/-- The processes form a tree below the first one, with one main thread each that is its own, and the tasks
belong to processes of the tree. -/
structure Tree (sched : Sched.State) : Prop where
  root : Live sched initProcess
  children : ∀ p, Live sched p → ∀ c ∈ (sched.procs p).children, Live sched c
  bound : ∀ p, Live sched p → p < sched.nextProc
  main : ∀ p m, Live sched p → (sched.procs p).mainThread = some m → (sched.tasks m).process = p ∧ m < sched.nextTask
  tasks : ∀ t, (sched.tasks t).allocated = true → Live sched (sched.tasks t).process ∧ t < sched.nextTask

theorem findProcessRec_live (h : Tree sched) {pid : UInt64} :
    ∀ {fuel : Nat} {root p : ProcId}, Live sched root → findProcessRec sched.procs pid fuel root = some p →
      Live sched p := by
  intro fuel
  induction fuel with
  | zero => exact fun _ hp => nomatch hp
  | succ fuel ih =>
    intro root p hroot hp
    rw [findProcessRec] at hp
    split at hp
    · cases hp
      exact hroot
    · obtain ⟨c, hc, hfound⟩ := List.exists_of_findSome?_eq_some hp
      exact ih (h.children root hroot c hc) hfound

/-! ### What a signal touches -/

/-- Only the given tasks change, and the tree stays as it is. -/
structure Touches (only : TaskId → Prop) (s s' : Sched.State) : Prop where
  procs : s'.procs = s.procs
  nextProc : s'.nextProc = s.nextProc
  nextTask : s'.nextTask = s.nextTask
  others : ∀ x, ¬ only x → s'.tasks x = s.tasks x
  process : ∀ x, (s'.tasks x).process = (s.tasks x).process
  allocated : ∀ x, (s'.tasks x).allocated = (s.tasks x).allocated

section Touches

variable {only : TaskId → Prop} {s s' s'' : Sched.State} {t : TaskId}

theorem Touches.refl : Touches only s s := ⟨rfl, rfl, rfl, fun _ _ => rfl, fun _ => rfl, fun _ => rfl⟩

theorem Touches.trans (h : Touches only s s') (h' : Touches only s' s'') : Touches only s s'' where
  procs := h'.procs.trans h.procs
  nextProc := h'.nextProc.trans h.nextProc
  nextTask := h'.nextTask.trans h.nextTask
  others x hx := (h'.others x hx).trans (h.others x hx)
  process x := (h'.process x).trans (h.process x)
  allocated x := (h'.allocated x).trans (h.allocated x)

theorem touches_taskSendSignal (ht : only t) (sig : Nat) : Touches only s (taskSendSignal s t sig) := by
  obtain ⟨_, _, _, _, _, task, heq, hprocess, hallocated, -⟩ := taskSendSignal_frame s t sig
  rw [heq]
  refine ⟨rfl, rfl, rfl, fun x => ?_, fun x => ?_, fun x => ?_⟩ <;> dsimp only
  · exact update_ind x (fun hx => absurd ht hx) fun _ _ => rfl
  · exact update_ind x hprocess fun _ => rfl
  · exact update_ind x hallocated fun _ => rfl

end Touches

/-- The main threads of the live processes of a group. -/
def Members (s : State) (pgid : UInt32) (t : TaskId) : Prop :=
  ∃ p, Live s.sched p ∧ (s.ids p).pgid = pgid ∧ (s.sched.procs p).mainThread = some t

variable {s s' : State} {p : ProcId}

/-- **The walk.** A signal to a group touches the main threads of its members only. -/
theorem touches_sendSignalPgidRec (h : Tree s.sched) (pgid : UInt32) (sig : Nat) :
    ∀ (fuel : Nat) (root : ProcId) (sched : Sched.State), sched.procs = s.sched.procs → Live s.sched root →
      Touches (Members s pgid) sched (sendSignalPgidRec s.ids pgid sig fuel root sched) := by
  intro fuel
  induction fuel with
  | zero => exact fun _ _ _ _ => .refl
  | succ fuel ih =>
  intro root sched hprocs hroot
  have hself : Touches (Members s pgid) sched
      (match (sched.procs root).mainThread with
      | some main => if (s.ids root).pgid = pgid then taskSendSignal sched main sig else sched
      | none => sched) := by
    split
    · rename_i main hmain
      split
      · rename_i hgroup
        exact touches_taskSendSignal ⟨root, hroot, hgroup, by rw [← hprocs, hmain]⟩ sig
      · exact .refl
    · exact .refl
  rw [sendSignalPgidRec]
  refine foldl_inv (fun sched' => Touches (Members s pgid) sched sched') hself fun sched' c hc hsched' => ?_
  have hchild : c ∈ (s.sched.procs root).children := by rwa [hself.procs, hprocs] at hc
  exact hsched'.trans (ih c sched' (hsched'.procs.trans hprocs) (h.children root hroot c hchild))

/-! ### One call -/

/-- The users are kept apart: whoever is not root and leads the session of a group may signal its members. -/
def Separate (s : State) : Prop :=
  ∀ c p, Live s.sched c → Live s.sched p → (s.ids c).euid ≠ 0 → (s.ids c).sid = (s.ids p).pgid → s.MaySignal c p

structure Grouped (s : State) : Prop where
  tree : Tree s.sched
  separate : Separate s

/-- Every live process of the session that is not root may signal the process. -/
def State.Admits (s : State) (g : UInt32) (p : ProcId) : Prop :=
  ∀ c, Live s.sched c → (s.ids c).euid ≠ 0 → (s.ids c).sid = g → s.MaySignal c p

/-- The process is root or may signal every live process of the group. -/
def State.Leads (s : State) (g : UInt32) (c : ProcId) : Prop :=
  (s.ids c).euid ≠ 0 → ∀ p, Live s.sched p → (s.ids p).pgid = g → s.MaySignal c p

theorem maySignal_refl (s : State) (p : ProcId) : s.MaySignal p p := .inl rfl

/-- The targets that a caller who is not root may have. -/
def Allowed (s : State) (t : TaskId) : Prop :=
  ∃ p, Live s.sched p ∧ (s.sched.procs p).mainThread = some t ∧ s.MaySignal s.caller p

theorem Members.allowed (h : Separate s) (hcaller : Live s.sched s.caller)
    (huser : (s.ids s.caller).euid ≠ 0) (hmember : Members s (s.ids s.caller).sid t) : Allowed s t := by
  obtain ⟨p, hp, hgroup, hmain⟩ := hmember
  exact ⟨p, hp, hmain, h s.caller p hcaller hp huser hgroup.symm⟩

theorem Touches.tree {s s' : Sched.State} (h : Tree s) (ht : Touches only s s') : Tree s' := by
  have hlive (p : ProcId) : Live s' p ↔ Live s p := by rw [Live, Live, ht.procs]
  refine ⟨(hlive _).2 h.root, fun p hp c hc => ?_, fun p hp => ?_, fun p m hp hm => ?_, fun t halloc => ?_⟩
  · rw [ht.procs] at hc
    exact (hlive c).2 (h.children p ((hlive p).1 hp) c hc)
  · rw [ht.nextProc]
    exact h.bound p ((hlive p).1 hp)
  · rw [ht.procs] at hm
    rw [ht.process, ht.nextTask]
    exact h.main p m ((hlive p).1 hp) hm
  · rw [ht.allocated] at halloc
    rw [ht.process, hlive, ht.nextTask]
    exact h.tasks t halloc

/-- **A signal.** Whatever the arguments, a call of `kill` touches main threads only, and those of the
allowed processes only if the caller is not root. -/
theorem touches_sysKill (h : Grouped s) (hcaller : Live s.sched s.caller) {rdi rsi : UInt64}
    (hkill : sysKill s rdi rsi = .ok s') :
    s'.ids = s.ids ∧ Touches (fun t => (s.ids s.caller).euid ≠ 0 → Allowed s t) s.sched s'.sched := by
  have hgroup (pgid : UInt32) (sig : Nat) (hpass : ¬ (¬ (s.ids s.caller).euid = 0 ∧ (s.ids s.caller).sid ≠ pgid)) :
      Touches (fun t => (s.ids s.caller).euid ≠ 0 → Allowed s t) s.sched (taskSendSignalPgid s pgid sig).sched := by
    have hwalk := touches_sendSignalPgidRec h.tree pgid sig s.depth initProcess s.sched rfl h.tree.root
    refine { hwalk with others := fun x hx => hwalk.others x fun hmember => hx fun huser => ?_ }
    have hsid : (s.ids s.caller).sid = pgid := by
      by_contra hne
      exact hpass ⟨huser, hne⟩
    exact Members.allowed h.separate hcaller huser (hsid ▸ hmember)
  simp only [sysKill] at hkill
  split at hkill
  · cases hkill
  split at hkill
  · split at hkill
    · cases hkill
      exact ⟨rfl, .refl⟩
    split at hkill
    · cases hkill
    · cases hkill
      exact ⟨rfl, hgroup _ _ ‹_›⟩
  split at hkill
  · split at hkill
    · cases hkill
      exact ⟨rfl, .refl⟩
    split at hkill
    · cases hkill
    · cases hkill
      exact ⟨rfl, hgroup _ _ ‹_›⟩
  -- a single process: the user of the caller is compared with that of the process
  split at hkill
  · cases hkill
  rename_i proc hfind
  split at hkill
  · cases hkill
  rename_i main hmain
  split at hkill
  · cases hkill
  rename_i hpass
  cases hkill
  refine ⟨rfl, touches_taskSendSignal (fun huser => ?_) _⟩
  refine ⟨proc, findProcessRec_live h.tree h.tree.root hfind, hmain, ?_⟩
  by_contra hdenied
  exact hpass ⟨huser, hdenied⟩

/-- A change of groups and sessions keeps the users apart if it does so for the process changed. -/
theorem Separate.setIdentity (h : Separate s) {f : Identity → Identity}
    (hruid : (f (s.ids p)).ruid = (s.ids p).ruid) (heuid : (f (s.ids p)).euid = (s.ids p).euid)
    (hadmits : s.Admits (f (s.ids p)).pgid p)
    (hleads : (f (s.ids p)).sid = (s.ids p).sid ∨ s.Leads (f (s.ids p)).sid p) : Separate (s.setIdentity p f) := by
  have hsame (q : ProcId) : ((s.setIdentity p f).ids q).ruid = (s.ids q).ruid ∧
      ((s.setIdentity p f).ids q).euid = (s.ids q).euid := by
    by_cases hq : q = p
    · subst hq
      simp [State.setIdentity, hruid, heuid]
    · simp [State.setIdentity, hq]
  have hmay (c q : ProcId) : (s.setIdentity p f).MaySignal c q ↔ s.MaySignal c q := by
    rw [State.MaySignal, State.MaySignal, (hsame c).1, (hsame q).1, (hsame q).2]
  intro c q hc hq huser hsid
  rw [hmay]
  rw [(hsame c).2] at huser
  by_cases hcp : c = p
  · by_cases hqp : q = p
    · rw [hcp, hqp]
      exact maySignal_refl s p
    subst hcp
    simp only [State.setIdentity, update_self, update_of_ne hqp] at hsid
    rcases hleads with hsame | hleads
    · exact h c q hc hq huser (hsame ▸ hsid)
    · exact hleads huser q hq hsid.symm
  · by_cases hqp : q = p
    · subst hqp
      simp only [State.setIdentity, update_self, update_of_ne hcp] at hsid
      exact hadmits c hc huser hsid
    · simp only [State.setIdentity, update_of_ne hcp, update_of_ne hqp] at hsid
      exact h c q hc hq huser hsid

/-- What a fork that succeeds adds: a process with its main thread, as the first child of its parent. -/
structure Forks (s s' : Sched.State) : Prop where
  nextProc : s'.nextProc = s.nextProc + 1
  nextTask : s'.nextTask = s.nextTask + 1
  tasks : ∀ x, x ≠ s.nextTask → s'.tasks x = s.tasks x
  task : (s'.tasks s.nextTask).process = s.nextProc
  proc : (s'.procs s.nextProc).allocated = true ∧ (s'.procs s.nextProc).children = [] ∧
    (s'.procs s.nextProc).mainThread = some s.nextTask
  procs : ∀ p, p ≠ s.nextProc → (s'.procs p).allocated = (s.procs p).allocated ∧
    (s'.procs p).mainThread = (s.procs p).mainThread ∧
    ∀ c ∈ (s'.procs p).children, c = s.nextProc ∨ c ∈ (s.procs p).children

theorem forks_taskFork {s : Sched.State} (hparent : s.cur.process ≠ s.nextProc) : Forks s (taskFork s .created) := by
  obtain ⟨rq, heq⟩ := addTask_eq ((({ s with nextProc := s.nextProc + 1 } : Sched.State).modifyProc s.nextProc fun _ =>
      ⟨true, some s.cur.process, [], some s.nextTask, false, 0, (s.procs s.cur.process).sigaction⟩).modifyProc
      s.cur.process fun proc => { proc with children := s.nextProc :: proc.children }) s.nextProc 0
  unfold taskFork
  dsimp only
  rw [heq]
  refine ⟨rfl, rfl, fun x hx => update_of_ne hx _ _, by simp [State.modifyProc, newTask], ?_, fun p hp => ?_⟩
  · rw [State.modifyProc_of_ne _ _ hparent.symm, State.modifyProc_same]
    exact ⟨rfl, rfl, rfl⟩
  by_cases hcaller : p = s.cur.process
  · subst hcaller
    rw [State.modifyProc_same, State.modifyProc_of_ne _ _ hp]
    exact ⟨rfl, rfl, fun c hc => List.mem_cons.1 hc⟩
  · rw [State.modifyProc_of_ne _ _ hcaller, State.modifyProc_of_ne _ _ hp]
    exact ⟨rfl, rfl, fun c hc => .inr hc⟩

section Forks

variable {s s' : Sched.State}

theorem Forks.live_iff (h : Forks s s') (p : ProcId) : Live s' p ↔ p = s.nextProc ∨ Live s p := by
  by_cases hp : p = s.nextProc
  · subst hp
    exact iff_of_true h.proc.1 (.inl rfl)
  · rw [Live, (h.procs p hp).1]
    exact (or_iff_right hp).symm

theorem Forks.tree (h : Forks s s') (htree : Tree s) : Tree s' := by
  refine ⟨(h.live_iff _).2 (.inr htree.root), fun p hp c hc => ?_, fun p hp => ?_, fun p m hp hm => ?_, fun t halloc => ?_⟩
  · by_cases hnew : p = s.nextProc
    · subst hnew
      rw [h.proc.2.1] at hc
      cases hc
    · rw [h.live_iff]
      have hold := ((h.live_iff p).1 hp).resolve_left hnew
      exact ((h.procs p hnew).2.2 c hc).imp id (htree.children p hold c)
  · rw [h.nextProc]
    rcases (h.live_iff p).1 hp with rfl | hold
    · exact Nat.lt_succ_self _
    · exact Nat.lt_succ_of_lt (htree.bound p hold)
  · rw [h.nextTask]
    by_cases hnew : p = s.nextProc
    · subst hnew
      rw [h.proc.2.2] at hm
      cases hm
      exact ⟨h.task, Nat.lt_succ_self _⟩
    · rw [(h.procs p hnew).2.1] at hm
      obtain ⟨hprocess, hbound⟩ := htree.main p m (((h.live_iff p).1 hp).resolve_left hnew) hm
      exact ⟨by rw [h.tasks m (Nat.ne_of_lt hbound), hprocess], Nat.lt_succ_of_lt hbound⟩
  · rw [h.nextTask]
    by_cases hnew : t = s.nextTask
    · subst hnew
      rw [h.task, h.live_iff]
      exact ⟨.inl rfl, Nat.lt_succ_self _⟩
    · rw [h.tasks t hnew] at halloc ⊢
      exact ⟨(h.live_iff _).2 (.inr (htree.tasks t halloc).1), Nat.lt_succ_of_lt (htree.tasks t halloc).2⟩

end Forks

/-- A new process with the user of its parent, in the parent's group and session or in ones that keep the users
apart. -/
theorem Separate.fork (h : Grouped s) (hforks : Forks s.sched s'.sched)
    (id : Identity) (hids : s'.ids = update s.ids s.sched.nextProc id)
    (hruid : id.ruid = (s.ids s.caller).ruid) (heuid : id.euid = (s.ids s.caller).euid)
    (hadmits : s.Admits id.pgid s.caller) (hleads : s.Leads id.sid s.caller) : Separate s' := by
  have hold {p : ProcId} (hp : Live s.sched p) : s'.ids p = s.ids p := by
    rw [hids, update_of_ne (Nat.ne_of_lt (h.tree.bound p hp))]
  have hnew : s'.ids s.sched.nextProc = id := by rw [hids, update_self]
  intro c p hc hp huser hsid
  rcases (hforks.live_iff c).1 hc with rfl | hc <;> rcases (hforks.live_iff p).1 hp with rfl | hp
  · exact maySignal_refl s' _
  · rw [hnew, hold hp] at hsid
    rw [hnew, heuid] at huser
    have hmay := hleads huser p hp hsid.symm
    rwa [State.MaySignal, hnew, hold hp, hruid]
  · rw [hnew, hold hc] at hsid
    rw [hold hc] at huser
    have hmay := hadmits c hc huser hsid
    rwa [State.MaySignal, hnew, hold hc, hruid, heuid]
  rw [hold hc] at huser
  rw [hold hc, hold hp] at hsid
  have hmay := h.separate c p hc hp huser hsid
  rwa [State.MaySignal, hold hc, hold hp]

/-! ### Runs -/

/-- The calls that put a process into a group keep the users apart: nobody else's session has the number of
the group, as far as users other than that of the process are concerned. -/
def CarefulCall (s : State) : Call → Prop
  | .setpgid rdi rsi => ∀ target, setpgidTarget s rdi = some target → s.Admits (setpgidGroup target rsi) target
  | .setsid => s.Admits (UInt32.ofNat (pidOf s.caller)) s.caller ∧ s.Leads (UInt32.ofNat (pidOf s.caller)) s.caller
  | .fork _ => s.caller = initProcess → s.Admits (UInt32.ofNat (pidOf s.sched.nextProc)) s.caller ∧
      s.Leads (UInt32.ofNat (pidOf s.sched.nextProc)) s.caller
  | .kill _ _ => True

def Careful (s : State) (op : Op) : Prop := CarefulCall (s.runs op.task) op.call

/-- A call of `kill` by a process that is not root changes tasks only of processes whose real or effective
user is the real user of the caller. -/
def Permitted (s : State) (op : Op) (s' : State) : Prop :=
  ∀ rdi rsi, op.call = .kill rdi rsi → ∀ c, (s.sched.tasks op.task).process = c → (s.ids c).euid ≠ 0 →
    ∀ x, s'.sched.tasks x ≠ s.sched.tasks x →
      (s.ids c).ruid = (s.ids (s.sched.tasks x).process).ruid ∨ (s.ids c).ruid = (s.ids (s.sched.tasks x).process).euid

theorem Grouped.runs (h : Grouped s) (t : TaskId) : Grouped (s.runs t) :=
  ⟨⟨h.tree.root, h.tree.children, h.tree.bound, h.tree.main, h.tree.tasks⟩, h.separate⟩

theorem Allowed.process (h : Tree s.sched) {x : TaskId} (hx : Allowed s x) :
    s.MaySignal s.caller (s.sched.tasks x).process := by
  obtain ⟨p, hp, hmain, hmay⟩ := hx
  rwa [(h.main p x hp hmain).1]

theorem grouped_call (h : Grouped s) (hcaller : Live s.sched s.caller) {c : Call}
    (hcond : CarefulCall s c) : Grouped (call s c) := by
  cases c with
  | setpgid rdi rsi =>
    simp only [call, sysSetpgid]
    cases htarget : setpgidTarget s rdi with
    | none => exact h
    | some target => exact ⟨h.tree, h.separate.setIdentity rfl rfl (hcond target htarget) (.inl rfl)⟩
  | setsid =>
    simp only [call, sysSetsid]
    split
    · rename_i heq
      split at heq
      · cases heq
      · cases heq
        exact ⟨h.tree, h.separate.setIdentity rfl rfl hcond.1 (.inr hcond.2)⟩
    · exact h
  | fork outcome =>
    cases outcome with
    | noProcess => exact h
    | noTask =>
      refine ⟨⟨h.tree.root, h.tree.children, fun p hp => ?_, h.tree.main, h.tree.tasks⟩, h.separate⟩
      exact Nat.lt_succ_of_lt (h.tree.bound p hp)
    | created =>
    have hforks := forks_taskFork (Nat.ne_of_lt (h.tree.bound _ hcaller))
    refine ⟨hforks.tree h.tree, ?_⟩
    by_cases hinit : 1 < pidOf s.caller
    · refine Separate.fork h hforks (s.ids s.caller) ?_ rfl rfl ?_ ?_
      · simp [call, sysFork, childIdentity, hinit]
      · exact fun c hc huser hsid => h.separate c _ hc hcaller huser hsid
      · exact fun huser p hp hgroup => h.separate _ p hcaller hp huser hgroup.symm
    have hfirst : s.caller = initProcess :=
      Nat.le_zero.1 (Nat.le_of_succ_le_succ (Nat.not_lt.1 hinit))
    obtain ⟨hadmits, hleads⟩ := hcond hfirst
    refine Separate.fork h hforks (childIdentity s s.caller s.sched.nextProc) rfl ?_ ?_ ?_ ?_
    · simp [childIdentity, hinit]
    · simp [childIdentity, hinit]
    · simpa [childIdentity, hinit] using hadmits
    · simpa [childIdentity, hinit] using hleads
  | kill rdi rsi =>
  simp only [call]
  cases hkill : sysKill s rdi rsi with
  | error e => exact h
  | ok s' =>
    obtain ⟨hids, htouches⟩ := touches_sysKill h hcaller hkill
    refine ⟨htouches.tree h.tree, fun c p hc hp huser hsid => ?_⟩
    rw [Live, htouches.procs] at hc hp
    rw [hids] at huser hsid
    rw [State.MaySignal, hids]
    exact h.separate c p hc hp huser hsid

/-- **One step.** A careful call keeps the users apart, and a signal goes only where it is permitted. -/
theorem grouped_step (h : Grouped s) (hcond : Careful s op) (hstep : step s op = .ok s') :
    Grouped s' ∧ Permitted s op s' := by
  rw [step] at hstep
  split at hstep
  · rename_i halloc
    cases hstep
    have hcaller : Live (s.runs op.task).sched (s.runs op.task).caller := (h.tree.tasks op.task halloc).1
    refine ⟨grouped_call (h.runs op.task) hcaller hcond, fun rdi rsi hcall c hc huser x hx => ?_⟩
    subst hc
    rw [hcall] at hx
    simp only [call] at hx
    cases hkill : sysKill (s.runs op.task) rdi rsi with
    | error e =>
      rw [hkill] at hx
      exact absurd rfl hx
    | ok s' =>
      rw [hkill] at hx
      have htouches := (touches_sysKill (h.runs op.task) hcaller hkill).2
      by_contra hdenied
      exact hx (htouches.others x fun hallowed => hdenied ((hallowed huser).process (h.runs op.task).tree))
  · cases hstep

/-- **Signal permission.** In every run of careful calls, from every tree in which the users are kept
apart, every signal that a process other than root sends reaches processes of its user only. -/
theorem signal_permission_run {s : State} {ops : List Op} (h : Grouped s) (hcond : AllSteps step Careful s ops) :
    AllSteps step (fun s op => ∀ s', step s op = .ok s' → Permitted s op s') s ops := by
  have hkeep (s : State) (op : Op) (s' : State) (hs : Grouped s) (hc : Careful s op) (hstep : step s op = .ok s') :
      Grouped s' ∧ Permitted s op s' := grouped_step hs hc hstep
  exact (run_steps hkeep h hcond).imp fun s op hgood s' hstep => (hgood s' hstep).2

/-! ### The first process and the shell of a user -/

/-- The task 0 is that of the first process, the task 1 that of a shell in its own session. -/
def shellTask (t : TaskId) : Task where
  allocated := decide (t < 2)
  state := .ready
  process := t
  waitQueue := none
  sleepUntil := 0
  sleepTimedOut := false
  futexUaddr := 0
  clearChildTid := 0
  priority := 0
  staticPriority := 0
  idle := false
  signalPending := 0
  signalBlocked := 0
  exitCode := 0
  resume := .code

def shellState : State where
  sched :=
    { tasks := shellTask
      waitNext := fun _ => none
      sleepNext := fun _ => none
      procs := fun p => ⟨decide (p < 2), none, if p = 0 then [1] else [], some p, false, 0, fun _ => .dfl⟩
      queues := fun _ => ⟨none, none⟩
      runqueue := [0, 1]
      sleepHead := none
      current := 0
      idleTask := 0
      now := 0
      nextTask := 2
      nextProc := 2 }
  ids p := if p = 0 then ⟨1, 1, 0, 0⟩ else ⟨2, 2, 1000, 1000⟩

theorem live_shellState (h : Live shellState.sched p) : p = 0 ∨ p = 1 := by
  have hp : p < 2 := of_decide_eq_true h
  exact Nat.le_one_iff_eq_zero_or_eq_one.1 (Nat.lt_succ_iff.1 hp)

theorem grouped_shellState : Grouped shellState := by
  refine ⟨⟨rfl, fun p hp c hc => ?_, fun p hp => of_decide_eq_true hp, fun p m hp hm => ?_, fun t ht => ?_⟩,
    fun c p hc hp huser hsid => ?_⟩
  · rcases live_shellState hp with rfl | rfl
    · rw [List.mem_singleton.1 hc]
      rfl
    · cases hc
  · cases hm
    exact ⟨rfl, of_decide_eq_true hp⟩
  · exact ⟨ht, of_decide_eq_true ht⟩
  · rcases live_shellState hc with rfl | rfl <;> rcases live_shellState hp with rfl | rfl <;> revert huser hsid <;> decide

/-- The shell forks and signals its own group. -/
def shellOps : List Op := [⟨1, .fork .created⟩, ⟨2, .kill 0 10⟩, ⟨1, .kill (-2) 15⟩, ⟨1, .kill 3 9⟩]

theorem careful_shellOps : AllSteps step Careful shellState shellOps := by
  refine ⟨fun hinit => absurd hinit (by decide), fun s hs => ⟨trivial, fun s hs => ⟨trivial, fun s hs => ⟨trivial,
    fun s hs => trivial⟩⟩⟩⟩

theorem signal_permission_run_shell : Grouped shellState ∧
    AllSteps step (fun s op => ∀ s', step s op = .ok s' → Permitted s op s') shellState shellOps :=
  ⟨grouped_shellState, signal_permission_run grouped_shellState careful_shellOps⟩

/-- The user moves the first process, which is root's, into the group of the own session and kills the
group. -/
theorem setpgid_lets_user_kill_init : Grouped shellState ∧
    ¬ AllSteps step (fun s op => ∀ s', step s op = .ok s' → Permitted s op s') shellState
      [⟨1, .setpgid 1 2⟩, ⟨1, .kill (-2) 9⟩] := by
  refine ⟨grouped_shellState, fun hall => ?_⟩
  obtain ⟨-, hall⟩ := hall
  have hkill := (hall _ rfl).1 _ rfl (-2) 9 rfl 1 rfl (by decide) 0 (by decide +kernel)
  revert hkill
  decide

end Litenix.Sessions
