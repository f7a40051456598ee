import Litenix.Process

/-! The user and group identifiers of a process and the calls that set them (`sys/sys_process.c`). One
check serves both kinds of identifier: a caller that is not root may only move each of the three to a
value that one of them already has. The check takes the effective identifier of its own kind for the
test of root, so a group identifier 0 opens the cage of the groups, whatever the effective user is. -/

namespace Litenix

variable {proc initial : Creds} {ids cur : Ids} {x : UInt32}

/-- The real, effective and saved identifier of one kind. -/
structure Ids where
  real : UInt32
  effective : UInt32
  saved : UInt32
  deriving DecidableEq, Repr

structure Creds where
  uids : Ids
  gids : Ids
  deriving DecidableEq, Repr

/-- The value `(uint32_t)-1`, which leaves an identifier as it is. -/
def keepId : UInt32 := 0xFFFFFFFF

def Ids.set (ids : Ids) : Finset UInt32 := {ids.real, ids.effective, ids.saved}

/-- One line of `setres_id_check`: the new value is the one to keep or one of the three. -/
def Ids.allows (cur : Ids) (new : UInt32) : Bool :=
  new = keepId || new = cur.real || new = cur.effective || new = cur.saved

/-- `true` where the source returns 0. -/
def setresIdCheck (cur new : Ids) : Bool :=
  cur.effective = 0 || (cur.allows new.real && cur.allows new.effective && cur.allows new.saved)

def setId (cur new : UInt32) : UInt32 := if new = keepId then cur else new

/-- The body that `sys_setresuid` and `sys_setresgid` share. -/
def setresIds (cur new : Ids) : Except Errno Ids :=
  if setresIdCheck cur new then
    .ok ⟨setId cur.real new.real, setId cur.effective new.effective, setId cur.saved new.saved⟩
  else .error .EPERM

/-- The arguments of a call, cut from the registers `rdi`, `rsi` and `rdx`. -/
def idArgs (rdi rsi rdx : UInt64) : Ids := ⟨rdi.toUInt32, rsi.toUInt32, rdx.toUInt32⟩

def sysSetresuid (proc : Creds) (rdi rsi rdx : UInt64) : Except Errno Creds :=
  (setresIds proc.uids (idArgs rdi rsi rdx)).map fun ids => { proc with uids := ids }

def sysSetresgid (proc : Creds) (rdi rsi rdx : UInt64) : Except Errno Creds :=
  (setresIds proc.gids (idArgs rdi rsi rdx)).map fun ids => { proc with gids := ids }

namespace Creds

inductive Call where
  | setresuid (rdi rsi rdx : UInt64)
  | setresgid (rdi rsi rdx : UInt64)
  deriving DecidableEq

/-- The process after a call: a call that fails changes nothing. -/
def call (proc : Creds) (c : Call) : Creds :=
  let result := match c with
    | .setresuid rdi rsi rdx => sysSetresuid proc rdi rsi rdx
    | .setresgid rdi rsi rdx => sysSetresgid proc rdi rsi rdx
  match result with
  | .ok proc => proc
  | .error _ => proc

def calls (proc : Creds) (cs : List Call) : Creds := cs.foldl call proc

/-- The effective user is not root before, between and after the calls. -/
def StaysUser : Creds → List Call → Prop
  | proc, [] => proc.uids.effective ≠ 0
  | proc, c :: rest => proc.uids.effective ≠ 0 ∧ StaysUser (proc.call c) rest

end Creds

/-! ### One call -/

/-- What a call of either kind does to the identifiers of its kind. -/
def Ids.after (cur new : Ids) : Ids :=
  match setresIds cur new with
  | .ok ids => ids
  | .error _ => cur

@[simp] theorem Creds.staysUser_nil (proc : Creds) : proc.StaysUser [] ↔ proc.uids.effective ≠ 0 := .rfl

theorem Creds.call_setresuid (proc : Creds) (rdi rsi rdx : UInt64) :
    proc.call (.setresuid rdi rsi rdx) = { proc with uids := proc.uids.after (idArgs rdi rsi rdx) } := by
  simp only [call, sysSetresuid, Ids.after]
  cases setresIds proc.uids (idArgs rdi rsi rdx) <;> rfl

theorem Creds.call_setresgid (proc : Creds) (rdi rsi rdx : UInt64) :
    proc.call (.setresgid rdi rsi rdx) = { proc with gids := proc.gids.after (idArgs rdi rsi rdx) } := by
  simp only [call, sysSetresgid, Ids.after]
  cases setresIds proc.gids (idArgs rdi rsi rdx) <;> rfl

@[simp] theorem Ids.mem_set : x ∈ ids.set ↔ x = ids.real ∨ x = ids.effective ∨ x = ids.saved := by
  simp [Ids.set]

theorem Ids.setId_mem (hold : old ∈ cur.set) (hnew : cur.allows new = true) : setId old new ∈ cur.set := by
  rw [setId]
  split
  · exact hold
  · rename_i hkeep
    simpa [Ids.allows, hkeep, or_assoc] using hnew

/-- **One call of either kind.** Without the bypass for root the identifiers stay in their cage. -/
theorem Ids.after_subset (new : Ids) (hroot : cur.effective ≠ 0) : (cur.after new).set ⊆ cur.set := by
  rw [Ids.after, setresIds]
  by_cases hcheck : setresIdCheck cur new = true
  · rw [if_pos hcheck]
    simp only [setresIdCheck, decide_eq_false hroot, Bool.false_or, Bool.and_eq_true] at hcheck
    obtain ⟨⟨hreal, heffective⟩, hsaved⟩ := hcheck
    intro x hx
    rcases Ids.mem_set.1 hx with rfl | rfl | rfl
    · exact Ids.setId_mem (by simp) hreal
    · exact Ids.setId_mem (by simp) heffective
    · exact Ids.setId_mem (by simp) hsaved
  · rw [if_neg hcheck]

/-! ### Runs -/

/-- Both kinds of identifier are within those of `initial`. -/
def Creds.Within (initial proc : Creds) : Prop :=
  proc.uids.set ⊆ initial.uids.set ∧ proc.gids.set ⊆ initial.gids.set

theorem Creds.call_within (c : Creds.Call) (hgroup : 0 ∉ initial.gids.set)
    (huser : proc.uids.effective ≠ 0) (h : initial.Within proc) : initial.Within (proc.call c) := by
  cases c with
  | setresuid rdi rsi rdx =>
    rw [call_setresuid]
    exact ⟨(Ids.after_subset _ huser).trans h.1, h.2⟩
  | setresgid rdi rsi rdx =>
    rw [call_setresgid]
    have hnonzero : proc.gids.effective ≠ 0 := fun hzero => hgroup (h.2 (by simp [hzero]))
    exact ⟨h.1, (Ids.after_subset _ hnonzero).trans h.2⟩

theorem Creds.calls_within (hgroup : 0 ∉ initial.gids.set) :
    ∀ (cs : List Creds.Call) (proc : Creds), proc.StaysUser cs → initial.Within proc →
      initial.Within (proc.calls cs) := by
  intro cs
  induction cs with
  | nil => exact fun _ _ h => h
  | cons c rest ih => exact fun proc hstays h => ih _ hstays.2 (call_within c hgroup hstays.1 h)

/-! ### The way out of the cage of the groups -/

/-- Among four values one is none of the three identifiers. -/
theorem Ids.exists_fresh (hzero : 0 ∈ ids.set) : ∃ x : UInt64, x.toUInt32 ≠ keepId ∧ x.toUInt32 ∉ ids.set := by
  have hcard : ids.set.card < ({0, 1, 2, 3} : Finset UInt32).card :=
    Nat.lt_of_le_of_lt (Finset.card_le_three) (by decide)
  obtain ⟨x, hx, hfresh⟩ := Finset.exists_mem_notMem_of_card_lt_card hcard
  have hcases : x = 0 ∨ x = 1 ∨ x = 2 ∨ x = 3 := by simpa using hx
  rcases hcases with rfl | rfl | rfl | rfl
  · exact absurd hzero hfresh
  · exact ⟨1, by decide, hfresh⟩
  · exact ⟨2, by decide, hfresh⟩
  · exact ⟨3, by decide, hfresh⟩

/-- Moving the effective identifier to 0 passes the check when one of the three is 0. -/
theorem Ids.after_zero (hzero : 0 ∈ ids.set) : (ids.after ⟨keepId, 0, keepId⟩).effective = 0 := by
  have hallows : ids.allows 0 = true := by
    rcases Ids.mem_set.1 hzero with h | h | h <;> simp [Ids.allows, h]
  have hkeep : ids.allows keepId = true := by simp [Ids.allows]
  have hcheck : setresIdCheck ids ⟨keepId, 0, keepId⟩ = true := by simp [setresIdCheck, hallows, hkeep]
  rw [Ids.after, setresIds, if_pos hcheck]
  rfl

theorem Ids.after_bypass (hroot : ids.effective = 0) (hx : x ≠ keepId) : (ids.after ⟨x, x, x⟩).effective = x := by
  have hcheck : setresIdCheck ids ⟨x, x, x⟩ = true := by simp [setresIdCheck, hroot]
  rw [Ids.after, setresIds, if_pos hcheck]
  simp [setId, hx]

/-- The two calls that leave the cage: the effective group becomes 0, then anything. -/
def Creds.escape (x : UInt64) : List Creds.Call :=
  [.setresgid 0xFFFFFFFF 0 0xFFFFFFFF, .setresgid x x x]

theorem Creds.escape_gids {x : UInt64} (hzero : 0 ∈ proc.gids.set) (hx : x.toUInt32 ≠ keepId) :
    (proc.calls (escape x)).gids.effective = x.toUInt32 := by
  rw [escape, calls, List.foldl_cons, List.foldl_cons, List.foldl_nil, call_setresgid, call_setresgid]
  exact Ids.after_bypass (Ids.after_zero hzero) hx

theorem Creds.escape_staysUser (x : UInt64) (huser : proc.uids.effective ≠ 0) : proc.StaysUser (escape x) := by
  refine ⟨huser, ?_, ?_⟩
  · rw [call_setresgid]
    exact huser
  · rw [staysUser_nil, call_setresgid, call_setresgid]
    exact huser

/-- **The cage.** A process whose effective user is not root keeps its user and group identifiers within
the initial ones in all runs of the two calls in which the effective user stays so, if and only if
none of its group identifiers is 0. -/
theorem saved_id_cage_iff (proc : Creds) (huser : proc.uids.effective ≠ 0) :
    (∀ cs, proc.StaysUser cs →
      (proc.calls cs).uids.set ⊆ proc.uids.set ∧ (proc.calls cs).gids.set ⊆ proc.gids.set) ↔
    0 ∉ proc.gids.set := by
  constructor
  · intro hall hzero
    obtain ⟨x, hkeep, hfresh⟩ := Ids.exists_fresh hzero
    have hwithin := (hall _ (Creds.escape_staysUser x huser)).2
    apply hfresh
    rw [← Creds.escape_gids hzero hkeep]
    exact hwithin (by simp)
  · intro hgroup cs hstays
    exact Creds.calls_within hgroup cs proc hstays ⟨Finset.Subset.refl _, Finset.Subset.refl _⟩

theorem saved_id_cage_plain_user :
    (⟨⟨1000, 1000, 1000⟩, ⟨100, 100, 100⟩⟩ : Creds).uids.effective ≠ 0 ∧
    ((∀ cs, (⟨⟨1000, 1000, 1000⟩, ⟨100, 100, 100⟩⟩ : Creds).StaysUser cs →
      ((⟨⟨1000, 1000, 1000⟩, ⟨100, 100, 100⟩⟩ : Creds).calls cs).uids.set ⊆ (⟨1000, 1000, 1000⟩ : Ids).set ∧
      ((⟨⟨1000, 1000, 1000⟩, ⟨100, 100, 100⟩⟩ : Creds).calls cs).gids.set ⊆ (⟨100, 100, 100⟩ : Ids).set) ↔
    0 ∉ (⟨100, 100, 100⟩ : Ids).set) :=
  ⟨by decide, saved_id_cage_iff ⟨⟨1000, 1000, 1000⟩, ⟨100, 100, 100⟩⟩ (by decide)⟩

/-- The user 1000 with the effective group 0 takes the group 5. -/
theorem setresgid_leaves_cage :
    ¬ ∀ proc : Creds, proc.uids.effective ≠ 0 → ∀ cs, proc.StaysUser cs →
      (proc.calls cs).uids.set ⊆ proc.uids.set ∧ (proc.calls cs).gids.set ⊆ proc.gids.set := by
  intro hall
  have h := (hall ⟨⟨1000, 1000, 1000⟩, ⟨100, 0, 100⟩⟩ (by decide) [.setresgid 5 5 5]
    ⟨by decide, by simp only [Creds.staysUser_nil]; decide⟩).2
  revert h
  decide

end Litenix
