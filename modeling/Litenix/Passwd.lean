import Litenix.Login

/-! The program `passwd`, packed set-uid root like `login` and `su`. It looks at three identities: the real user for
the change of a password, the entry of that user for the name of the account, and the effective user for locking and
unlocking. In a set-uid program the last is always root, so everyone may lock and unlock; and a caller without an
entry of their own may change the password of any account. -/

namespace Litenix

open Lib

variable {proc : Creds} {keys : List Key} {args : List Str} {account name newHash : Str} {real : UInt32}
variable {bytes : List UInt8} {done : Event} {target line : Str} {files : Files}

/-! ### passwd -/

structure PasswdRun where
  trace : List Event
  status : Nat
  shadow : Option (List UInt8)

def PasswdRun.after (events : List Event) (r : PasswdRun) : PasswdRun := { r with trace := events ++ r.trace }

def saltAlphabet : Str := lit "ABCDEFGHIJKLMNOPQRSTUVWXYZabcdefghijklmnopqrstuvwxyz0123456789./"

/-- The bytes `rnd` come from `getrandom`, or from the clock where that fails. -/
def genSalt (size : Nat) (rnd : Nat → UInt8) : Str :=
  (List.range (min (size - 1) 16)).map fun i => saltAlphabet.getD (rnd i &&& 0x3F).toNat 0

/-- The end of both modes: the new hash is stored. -/
def storeHash (files : Files) (name newHash : Str) (done : Event) : PasswdRun :=
  match shentSetHash name newHash files.shadow with
  | none => ⟨[.print "passwd: failed to update /etc/shadow\n" []], 1, files.shadow⟩
  | some file => ⟨[.setHash name newHash, done], 0, some file⟩

def lockedHash (hash : Str) : Str := snprintf 260 (Byte.bang :: hash)

def unlockedHash (hash : Str) : Str := hash.tail.take 259

def doLock (files : Files) (user : Str) (lock : Bool) (proc : Creds) : PasswdRun :=
  if proc.uids.effective ≠ 0 then
    ⟨[.print "passwd: only root can lock/unlock accounts\n" []], 1, files.shadow⟩
  else match shentByName user files.shadow with
    | none => ⟨[.print "passwd: unknown user '%s'\n" [.str user]], 1, files.shadow⟩
    | some sh =>
      if lock then
        if sh.hash.head? = some Byte.bang then
          ⟨[.print "passwd: account '%s' already locked\n" [.str user]], 0, files.shadow⟩
        else storeHash files user (lockedHash sh.hash)
          (.print "passwd: %sed account '%s'\n" [.str (lit "lock"), .str user])
      else
        if sh.hash.head? ≠ some Byte.bang then
          ⟨[.print "passwd: account '%s' is not locked\n" [.str user]], 0, files.shadow⟩
        else storeHash files user (unlockedHash sh.hash)
          (.print "passwd: %sed account '%s'\n" [.str (lit "unlock"), .str user])

structure PasswdArgs where
  lock : Bool
  unlock : Bool
  target : Option Str
  deriving DecidableEq

/-- The loop over the arguments. -/
def passwdArgs (args : List Str) : PasswdArgs :=
  args.foldl (fun parsed arg =>
    if arg = lit "-l" then { parsed with lock := true }
    else if arg = lit "-u" then { parsed with unlock := true }
    else if arg.head? ≠ some Byte.dash then { parsed with target := some arg }
    else parsed) ⟨false, false, none⟩

/-- `prompt_password` with a buffer of 128 bytes: the string in it, unless the read fails. -/
def promptPassword (buffer : Str) (keys : List Key) : Option Str × List Key :=
  let (result, keys) := readLine 128 buffer keys
  (result.map Prod.snd, keys)

def prompted (text : String) : List Event := [.print text [], .print "\n" []]

section

variable (files : Files) (stack : Nat → Str) (rnd : Nat → UInt8)

/-- The end of `main`: the new password is typed twice and stored. The buffers `current`, `p1` and `p2` hold the
strings of `stack` before they are filled. -/
def enterPassword (target : Str) (keys : List Key) : PasswdRun :=
  match promptPassword (stack 1) keys with
  | (none, _) => ⟨prompted "New password: ", 1, files.shadow⟩
  | (some p1, keys) =>
    if p1 = [] then
      ⟨prompted "New password: " ++ [.print "passwd: password unchanged\n" []], 1, files.shadow⟩
    else if p1.length < 4 then
      ⟨prompted "New password: " ++ [.print "passwd: password too short (min 4 chars)\n" []], 1, files.shadow⟩
    else
      let events := prompted "New password: " ++ prompted "Retype new password: "
      match promptPassword (stack 2) keys with
      | (none, _) => ⟨events, 1, files.shadow⟩
      | (some p2, _) =>
        if p1 ≠ p2 then ⟨events ++ [.print "passwd: passwords do not match\n" []], 1, files.shadow⟩
        else (storeHash files target (pwHash p1 (genSalt 10 rnd) 160)
          (.print "passwd: password updated successfully\n" [])).after events

/-- The part of `main` that asks everyone but root for the old password. -/
def changePassword (target : Str) (keys : List Key) (real : UInt32) : PasswdRun :=
  let events := [.print "passwd: Changing password for %s\n" [.str target]]
  let needed := if real = 0 then none else
    (shentByName target files.shadow).filter fun sh => sh.hash ≠ []
  match needed with
  | none => (enterPassword files stack rnd target keys).after events
  | some sh =>
    match promptPassword (stack 0) keys with
    | (none, _) => ⟨events ++ prompted "Current password: ", 1, files.shadow⟩
    | (some current, keys) =>
      let ok := pwVerify current sh.hash
      let events := events ++ prompted "Current password: " ++ [.verify current sh.hash ok]
      if ok then (enterPassword files stack rnd target keys).after events
      else ⟨events ++ [.print "passwd: Authentication token manipulation error\n" []], 1, files.shadow⟩

def passwdMain (args : List Str) (keys : List Key) (proc : Creds) : PasswdRun :=
  let parsed := passwdArgs args
  let self := pwentByUid proc.uids.real files.passwd
  if parsed.lock ∨ parsed.unlock then
    match parsed.target with
    | none => ⟨[.print "Usage: passwd -l|-u <user>\n" []], 1, files.shadow⟩
    | some target => doLock files target parsed.lock proc
  else match parsed.target.or (self.map PasswdEnt.name) with
    | none => ⟨[.print "passwd: cannot find current user\n" []], 1, files.shadow⟩
    | some target =>
      if proc.uids.real ≠ 0 ∧ self.any (fun self => self.name ≠ target) then
        ⟨[.print "passwd: only root can change another user's password\n" []], 1, files.shadow⟩
      else match pwentByName target files.passwd with
        | none => ⟨[.print "passwd: unknown user '%s'\n" [.str target]], 1, files.shadow⟩
        | some _ => changePassword files stack rnd target keys proc.uids.real

end

/-! ### What a caller asks for -/

section

variable (files : Files) (stack : Nat → Str) (rnd : Nat → UInt8)

/-- A hash to be stored, if there is a shadow file. -/
def stored (name newHash : Str) : Option (Str × Str) := (readDatabase files.shadow).map fun _ => (name, newHash)

/-- Locking or unlocking an account that is not so yet. -/
def lockRequest (lock : Bool) (target : Str) : Option (Str × Str) :=
  (shentByName target files.shadow).bind fun sh =>
    if lock = decide (sh.hash.head? = some Byte.bang) then none
    else stored files target (if lock then lockedHash sh.hash else unlockedHash sh.hash)

/-- The reads that are left when the old password is typed, or none is asked for. -/
def provedOld (target : Str) (keys : List Key) : Option (List Key) :=
  match (shentByName target files.shadow).filter fun sh => sh.hash ≠ [] with
  | none => some keys
  | some sh =>
    match promptPassword (stack 0) keys with
    | (none, _) => none
    | (some current, keys) => if pwVerify current sh.hash then some keys else none

/-- The new password, if it is long enough and typed twice. -/
def chosenPassword (keys : List Key) : Option Str :=
  match promptPassword (stack 1) keys with
  | (none, _) => none
  | (some p1, keys) => if p1.length < 4 then none else (promptPassword (stack 2) keys).1.filter (p1 = ·)

/-- The account and the hash that the command line and the terminal ask to be stored. -/
def passwdRequest (args : List Str) (keys : List Key) (real : UInt32) : Option (Str × Str) :=
  let parsed := passwdArgs args
  let self := pwentByUid real files.passwd
  if parsed.lock ∨ parsed.unlock then parsed.target.bind (lockRequest files parsed.lock)
  else
    (parsed.target.or (self.map PasswdEnt.name)).bind fun target =>
      if self.any (fun self => self.name ≠ target) ∨ pwentByName target files.passwd = none then none
      else (provedOld files stack target keys).bind fun keys => (chosenPassword stack keys).bind fun password =>
        stored files target (pwHash password (genSalt 10 rnd) 160)

end

/-- The shadow file is left as it is, or one hash is stored in it. -/
def Leaves (files : Files) (r : PasswdRun) : Option (Str × Str) → Prop
  | none => r.shadow = files.shadow ∧ ∀ account h, .setHash account h ∉ r.trace
  | some (name, newHash) => r.shadow = shentSetHash name newHash files.shadow ∧
      ∀ account h, .setHash account h ∈ r.trace ↔ account = name ∧ h = newHash

section

variable {files : Files} {stack : Nat → Str} {rnd : Nat → UInt8} {r : PasswdRun} {request : Option (Str × Str)}

theorem Leaves.after (h : Leaves files r request) {events : List Event}
    (hevents : ∀ account h, .setHash account h ∉ events) : Leaves files (r.after events) request := by
  cases request with
  | none => exact ⟨h.1, fun account hash => by simp [PasswdRun.after, hevents, h.2]⟩
  | some stored => exact ⟨h.1, fun account hash => by simp [PasswdRun.after, hevents, h.2]⟩

theorem leaves_storeHash (hdone : ∀ account h, .setHash account h ≠ done) :
    Leaves files (storeHash files name newHash done) (stored files name newHash) := by
  rw [storeHash, stored, shentSetHash]
  cases hread : readDatabase files.shadow with
  | none => exact ⟨rfl, by simp⟩
  | some text => exact ⟨by simp [shentSetHash, hread], by simp [hdone]⟩

theorem leaves_doLock (hroot : proc.uids.effective = 0) :
    Leaves files (doLock files user lock proc) (lockRequest files lock user) := by
  rw [doLock, if_neg (not_not.mpr hroot), lockRequest]
  cases shentByName user files.shadow with
  | none => exact ⟨rfl, by simp⟩
  | some sh =>
    by_cases hlocked : sh.hash.head? = some Byte.bang
    · cases lock with
      | false => simpa [hlocked] using leaves_storeHash (by simp)
      | true => simp [hlocked, Leaves]
    · cases lock with
      | false => simp [hlocked, Leaves]
      | true => simpa [hlocked] using leaves_storeHash (by simp)

theorem leaves_enterPassword (target : Str) (keys : List Key) :
    Leaves files (enterPassword files stack rnd target keys) ((chosenPassword stack keys).bind fun password =>
      stored files target (pwHash password (genSalt 10 rnd) 160)) := by
  rw [enterPassword, chosenPassword]
  rcases promptPassword (stack 1) keys with ⟨_ | p1, keys⟩
  · exact ⟨rfl, by simp [prompted]⟩
  dsimp only
  by_cases hempty : p1 = []
  · subst hempty
    exact ⟨rfl, by simp [prompted]⟩
  rw [if_neg hempty]
  by_cases hshort : p1.length < 4
  · rw [if_pos hshort, if_pos hshort]
    exact ⟨rfl, by simp [prompted]⟩
  rw [if_neg hshort, if_neg hshort]
  rcases promptPassword (stack 2) keys with ⟨_ | p2, keys⟩
  · exact ⟨rfl, by simp [prompted]⟩
  by_cases hsame : p1 = p2
  · subst hsame
    simp only [ne_eq, not_true_eq_false, if_false, Option.filter_some, decide_true, if_true, Option.bind_some]
    exact (leaves_storeHash (by simp)).after (by simp [prompted])
  · simp only [ne_eq, hsame, not_false_eq_true, if_true, Option.filter_some, decide_false]
    exact ⟨rfl, by simp [prompted]⟩

theorem leaves_changePassword (hreal : real ≠ 0) :
    Leaves files (changePassword files stack rnd target keys real) ((provedOld files stack target keys).bind fun keys =>
      (chosenPassword stack keys).bind fun password =>
        stored files target (pwHash password (genSalt 10 rnd) 160)) := by
  rw [changePassword, provedOld, if_neg hreal]
  cases (shentByName target files.shadow).filter fun sh => decide (sh.hash ≠ []) with
  | none => exact (leaves_enterPassword target keys).after (by simp)
  | some sh =>
    rcases promptPassword (stack 0) keys with ⟨_ | current, keys⟩
    · exact ⟨rfl, by simp [prompted]⟩
    dsimp only
    cases hok : pwVerify current sh.hash with
    | false => exact ⟨rfl, by simp [prompted]⟩
    | true => exact (leaves_enterPassword target keys).after (by simp [prompted])

/-- **The program does what it is asked for.** It stores the hash that is asked for, and nothing else. -/
theorem passwdMain_leaves (hroot : proc.uids.effective = 0) (hreal : proc.uids.real ≠ 0) :
    Leaves files (passwdMain files stack rnd args keys proc)
      (passwdRequest files stack rnd args keys proc.uids.real) := by
  rw [passwdMain, passwdRequest]
  generalize passwdArgs args = parsed
  split
  · cases parsed.target with
    | none => exact ⟨rfl, by simp⟩
    | some target => exact leaves_doLock hroot
  cases parsed.target.or ((pwentByUid proc.uids.real files.passwd).map PasswdEnt.name) with
  | none => exact ⟨rfl, by simp⟩
  | some target =>
  rw [Option.bind_some]
  by_cases hother : (pwentByUid proc.uids.real files.passwd).any (fun self => decide (self.name ≠ target)) = true
  · rw [if_pos (.inl hother)]
    dsimp only
    rw [if_pos ⟨hreal, hother⟩]
    exact ⟨rfl, by simp⟩
  dsimp only
  rw [if_neg fun h => hother h.2]
  cases pwentByName target files.passwd with
  | none =>
    rw [if_pos (.inr rfl)]
    exact ⟨rfl, by simp⟩
  | some pw =>
    rw [if_neg (by simpa using hother)]
    exact leaves_changePassword hreal

/-! ### Whose hash is stored -/

theorem storeHash_verify (hdone : done ≠ .verify password storedHash ok) :
    .verify password storedHash ok ∉ (storeHash files name newHash done).trace := by
  rw [storeHash]
  split
  · simp
  · simp [hdone.symm]

/-- Nobody is asked for a password to lock or unlock an account. -/
theorem passwdMain_lock_verify
    (hflags : (passwdArgs args).lock = true ∨ (passwdArgs args).unlock = true) (password storedHash : Str) (ok : Bool) :
    .verify password storedHash ok ∉ (passwdMain files stack rnd args keys proc).trace := by
  rw [passwdMain, if_pos hflags]
  split
  · simp
  rw [doLock]
  split
  · simp
  split
  · simp
  split
  · split
    · simp
    · exact storeHash_verify (by simp)
  · split
    · simp
    · exact storeHash_verify (by simp)

theorem changePassword_verify (hreal : real ≠ 0)
    (hproved : provedOld files stack target keys ≠ none) (hsh : shentByName target files.shadow = some sh)
    (hhash : sh.hash ≠ []) :
    ∃ current, .verify current sh.hash true ∈ (changePassword files stack rnd target keys real).trace := by
  have hneeded : ((shentByName target files.shadow).filter fun sh => decide (sh.hash ≠ [])) = some sh := by
    simp [hsh, hhash]
  rw [provedOld, hneeded] at hproved
  rw [changePassword, if_neg hreal, hneeded]
  generalize promptPassword (stack 0) keys = typed at hproved ⊢
  rcases typed with ⟨_ | current, keys⟩
  · exact absurd rfl hproved
  dsimp only at hproved ⊢
  cases hok : pwVerify current sh.hash with
  | false => simp [hok] at hproved
  | true => exact ⟨current, by simp [PasswdRun.after]⟩

/-- The change of a password comes after the old one, if the account has one. -/
theorem passwdMain_change_verify
    (hflags : ¬ ((passwdArgs args).lock = true ∨ (passwdArgs args).unlock = true)) (hreal : proc.uids.real ≠ 0)
    (hrequest : passwdRequest files stack rnd args keys proc.uids.real = some (name, newHash)) :
    ∀ sh, shentByName name files.shadow = some sh → sh.hash ≠ [] →
      ∃ current, .verify current sh.hash true ∈ (passwdMain files stack rnd args keys proc).trace := by
  intro sh hsh hhash
  rw [passwdRequest, if_neg hflags] at hrequest
  rw [passwdMain, if_neg hflags]
  obtain ⟨target, htarget, hrequest⟩ := Option.bind_eq_some_iff.mp hrequest
  split at hrequest
  · cases hrequest
  rename_i hallowed
  rw [not_or] at hallowed
  obtain ⟨keys', hproved, hrequest⟩ := Option.bind_eq_some_iff.mp hrequest
  obtain ⟨password, -, hrequest⟩ := Option.bind_eq_some_iff.mp hrequest
  obtain ⟨_, -, hpair⟩ := Option.map_eq_some_iff.mp hrequest
  obtain ⟨rfl, -⟩ := Prod.mk.inj hpair
  obtain ⟨pw, hpw⟩ := Option.ne_none_iff_exists'.mp hallowed.2
  simp only [htarget, hpw, if_neg fun h : _ ∧ _ => hallowed.1 h.2]
  exact changePassword_verify hreal (by simp [hproved]) hsh hhash

end

/-- The hash field in a line, if it is one of the account. -/
def lineHash (account line : Str) : Option Str :=
  if isEntry line ∧ field Byte.colon line = account then (afterField Byte.colon line).map (field Byte.colon) else none

/-- The hash field of an account in the shadow file, of whatever length. -/
def hashOf (file : Option (List UInt8)) (account : Str) : Option Str :=
  (lines Byte.newline (file.getD [])).findSome? (lineHash account)

/-- A hash is stored for the account, or its field is another one afterwards. -/
def HashChanged (files : Files) (r : PasswdRun) (account : Str) : Prop :=
  (∃ h, .setHash account h ∈ r.trace) ∨ hashOf r.shadow account ≠ hashOf files.shadow account

/-- The account is the one that the real user has in `/etc/passwd`. -/
def OwnAccount (files : Files) (real : UInt32) (account : Str) : Prop :=
  ∃ self, pwentByUid real files.passwd = some self ∧ self.name = account

/-- The old hash was empty or a password was verified against it. -/
def OldPasswordGiven (files : Files) (trace : List Event) (account : Str) : Prop :=
  ∃ sh, shentByName account files.shadow = some sh ∧
    (sh.hash = [] ∨ ∃ password, .verify password sh.hash true ∈ trace)

def HashGuarded (files : Files) (stack : Nat → Str) (rnd : Nat → UInt8) (args : List Str) (keys : List Key)
    (caller : Creds) : Prop :=
  ∀ proc, execIdentity Tool.passwd.attr caller = .ok proc →
    ∀ account, HashChanged files (passwdMain files stack rnd args keys proc) account →
      OwnAccount files caller.uids.real account ∧
        OldPasswordGiven files (passwdMain files stack rnd args keys proc).trace account

/-- The account is the caller's own and has a shadow entry, with an empty hash if it is to be locked or unlocked. -/
def Entitled (files : Files) (args : List Str) (real : UInt32) (account : Str) : Prop :=
  OwnAccount files real account ∧ ∃ sh, shentByName account files.shadow = some sh ∧
    ((passwdArgs args).lock = true ∨ (passwdArgs args).unlock = true → sh.hash = [])

/-- Storing the hash leaves the hashes of the other accounts in the file. -/
def Spares (file : Option (List UInt8)) (name newHash : Str) : Prop :=
  ∀ account, account ≠ name → hashOf (shentSetHash name newHash file) account = hashOf file account

/-! ### Files that fit in the buffers -/

theorem strsep_subset (h : (strsep s).2 = some rest) : ∃ t, s = some t ∧ rest ⊆ t := by
  cases s with
  | none => cases h
  | some t => exact ⟨t, rfl, afterField_subset h⟩

theorem newline_notMem_setHashLine (hname : Byte.newline ∉ name)
    (hhash : Byte.newline ∉ newHash) (hline : Byte.newline ∉ line) :
    Byte.newline ∉ setHashLine name newHash line := by
  rw [setHashLine]
  split
  · have hrest : Byte.newline ∉ ((strsep (strsep (some (line.take 1023))).2).2).getD [] := by
      cases hp : (strsep (strsep (some (line.take 1023))).2).2 with
      | none => simp
      | some rest =>
        obtain ⟨t, ht, hsub⟩ := strsep_subset hp
        obtain ⟨u, hu, hsub'⟩ := strsep_subset ht
        cases hu
        exact fun hmem => hline (List.mem_of_mem_take (hsub' (hsub hmem)))
    have hmark : Byte.newline ≠ Byte.colon := by decide
    simp only [List.mem_append, List.mem_singleton, not_or]
    exact ⟨⟨⟨⟨hname, hmark⟩, hhash⟩, hmark⟩, hrest⟩
  · exact hline

theorem lineHash_setHashLine (hne : account ≠ name) (hcolon : Byte.colon ∉ name)
    (hshort : name.length < 1023) : lineHash account (setHashLine name newHash line) = lineHash account line := by
  rw [setHashLine]
  split
  · rename_i hline
    have hcut : field Byte.colon (line.take 1023) = name := by simpa using (Bool.and_eq_true_iff.mp hline).2
    have hfield : field Byte.colon line = name := by rw [← hcut, field_take (by rw [hcut]; exact hshort)]
    rw [lineHash, lineHash, if_neg, if_neg]
    · exact fun h => hne (h.2.symm.trans hfield)
    · simp only [List.append_assoc, List.cons_append, field_append hcolon]
      exact fun h => hne h.2.symm
  · rfl

theorem lineHash_newHashLine (hne : account ≠ name) (hcolon : Byte.colon ∉ name) :
    lineHash account (newHashLine name newHash) = none := by
  rw [lineHash, if_neg]
  simp only [newHashLine, List.append_assoc, List.cons_append, field_append hcolon]
  exact fun h => hne h.2.symm

section

variable (hnonempty : bytes ≠ []) (hzero : 0 ∉ bytes) (hlength : bytes.length ≤ 2047)

include hnonempty hzero hlength

theorem readDatabase_of_fits : readDatabase (some bytes) = some bytes := by
  cases bytes with
  | nil => exact absurd rfl hnonempty
  | cons c rest =>
    rw [readDatabase, List.take_of_length_le hlength, cstr, List.takeWhile_eq_self_iff.mpr]
    · intro d hd
      simpa using fun h : d = 0 => hzero (h ▸ hd)
    · simp

/-- A file without zeros that fits in the buffer, and still does with the new hash, keeps the other hashes. -/
theorem spares_of_fits (hcolon : Byte.colon ∉ name) (hnewline : Byte.newline ∉ name)
    (hshort : name.length < 1023) (hhash : Byte.newline ∉ newHash)
    (hfits : (unlines Byte.newline (setHashLines name newHash (lines Byte.newline bytes))).length ≤ 2047) :
    Spares (some bytes) name newHash := by
  intro account hne
  rw [shentSetHash, readDatabase_of_fits hnonempty hzero hlength, Option.map_some, snprintf,
    List.take_of_length_le hfits, hashOf, hashOf, Option.getD_some, Option.getD_some, lines_unlines, setHashLines,
    List.findSome?_append, List.findSome?_map]
  · have hmap : lineHash account ∘ setHashLine name newHash = lineHash account :=
      funext fun _ => lineHash_setHashLine hne hcolon hshort
    rw [hmap]
    split <;> simp [lineHash_newHashLine hne hcolon]
  intro line hline
  rcases List.mem_append.mp hline with hline | hline
  · obtain ⟨old, hold, rfl⟩ := List.mem_map.mp hline
    exact newline_notMem_setHashLine hnewline hhash fun hmem => (lines_chars hold _ hmem).2 rfl
  split at hline
  · cases hline
  rw [List.mem_singleton.mp hline, newHashLine]
  have hmark : Byte.newline ≠ Byte.colon := by decide
  have hrest : Byte.newline ∉ lit ":0:0:99999:7:::" := by decide +kernel
  simp only [List.mem_append, List.mem_singleton, not_or]
  exact ⟨⟨⟨hnewline, hmark⟩, hhash⟩, hrest⟩

end

theorem OwnAccount.eq (h : OwnAccount files real account)
    (h' : OwnAccount files real account') : account = account' := by
  obtain ⟨self, hself, rfl⟩ := h
  obtain ⟨self', hself', rfl⟩ := h'
  rw [Option.some.inj (hself.symm.trans hself')]

theorem hashGuarded_iff_asRoot {stack : Nat → Str} {rnd : Nat → UInt8} {caller : Creds} :
    HashGuarded files stack rnd args keys caller ↔
      ∀ account, HashChanged files (passwdMain files stack rnd args keys caller.asRoot) account →
        OwnAccount files caller.uids.real account ∧
          OldPasswordGiven files (passwdMain files stack rnd args keys caller.asRoot).trace account := by
  unfold HashGuarded
  rw [execIdentity_tool]
  refine ⟨fun h => h _ rfl, ?_⟩
  rintro h _ ⟨⟩
  exact h

/-- What changes is the hash of the account that is asked for, if the others are spared. -/
theorem HashChanged.eq_request (h : HashChanged files r account) (hleaves : Leaves files r (some (name, newHash)))
    (hspares : Spares files.shadow name newHash) : account = name := by
  rcases h with ⟨hash, hset⟩ | hdiff
  · exact ((hleaves.2 account hash).mp hset).1
  · by_contra hne
    rw [hleaves.1] at hdiff
    exact hdiff (hspares account hne)

/-- **The life of a password.** The hash that `passwd` stores accepts the password it was made from. Locked, it
accepts none, and unlocking gives it back whole. -/
theorem password_lifecycle (password attempt : Str) (rnd : Nat → UInt8) :
    let stored := pwHash password (genSalt 10 rnd) 160
    pwVerify password stored = true ∧ pwVerify attempt (lockedHash stored) = false ∧
      unlockedHash (lockedHash stored) = stored := by
  intro stored
  have hlen : (genSalt 10 rnd).length = 9 := by simp [genSalt]
  obtain ⟨-, -, hfits⟩ := pwHash_eq password (hlen.trans_le (by decide))
  have hlocked : lockedHash stored = Byte.bang :: stored :=
    List.take_of_length_le (Nat.succ_le_succ (hfits.trans (by decide)))
  refine ⟨pwVerify_pwHash password (List.ne_nil_of_length_pos (by omega)) (by omega) fun hmem => ?_, ?_, ?_⟩
  · obtain ⟨i, -, hi⟩ := List.mem_map.mp hmem
    have : Byte.dollar ∈ saltAlphabet ∨ Byte.dollar = 0 := by grind
    exact absurd this (by decide +kernel)
  · simp [hlocked, pwVerify]
  · rw [hlocked, unlockedHash, List.tail_cons, List.take_of_length_le (hfits.trans (by decide))]

end Litenix
