import Litenix.Accounts
import Litenix.SearchPermission

/-! The programs that give a shell to another user, `login` and `su`. The image builder packs both set-uid root,
so they run with the effective user 0 whoever starts them, and nothing but their own code stands between the caller
and every account. `su` always asks for the password of the account, unless the real user is root. `login` does not
in two cases: when it is told so by `--noauth`, and for an account without a shadow entry. -/

namespace Litenix

open Lib

variable {caller proc : Creds} {files : Files} {keys : List Key} {args : List Str} {stack : Nat → Str}
  {pw : PasswdEnt} {r : ToolRun} {shell : Shell}

/-! ### Set-uid programs -/

inductive Tool where
  | login
  | passwd
  | su
  deriving DecidableEq

def Tool.arcName : Tool → String
  | .login => "bin/login"
  | .passwd => "bin/passwd"
  | .su => "bin/su"

/-- The table `MODE_OVERRIDES` of `make_initramfs.py`. -/
def modeOverrides : List (String × UInt32) :=
  [("bin/login", 0o4755), ("bin/passwd", 0o4755), ("bin/su", 0o4755), ("etc/shadow", 0o0600),
    ("tests/show_creds", 0o4755)]

/-- The file of a tool in the image, where everything belongs to root. -/
def Tool.attr (tool : Tool) : Vfs.Attr := ⟨(modeOverrides.lookup tool.arcName).getD 0o755, 0, 0⟩

/-- The part of `sys_execve` that checks the file and sets the identifiers of the new program. -/
def execIdentity (attr : Vfs.Attr) (proc : Creds) : Except Errno Creds :=
  let isUid := attr.mode &&& 0o4000 ≠ 0
  let isGid := attr.mode &&& 0o2000 ≠ 0
  let wouldSet := isUid ∧ attr.uid ≠ proc.uids.effective ∨ isGid ∧ attr.gid ≠ proc.gids.effective
  if !Vfs.vfsCheckPermission proc attr .search then .error .EACCES
  else if wouldSet ∧ Vfs.vfsCheckPermission proc attr .writeOnly then .error .EACCES
  else
    let uids := if isUid then { proc.uids with effective := attr.uid, saved := attr.uid } else proc.uids
    let gids := if isGid then { proc.gids with effective := attr.gid, saved := attr.gid } else proc.gids
    .ok ⟨uids, gids⟩

/-- Whoever starts a tool, it runs with the effective user 0 and the groups of the caller. -/
theorem execIdentity_tool (tool : Tool) (caller : Creds) :
    execIdentity tool.attr caller = .ok ⟨⟨caller.uids.real, 0, 0⟩, caller.gids⟩ := by
  have hmode : tool.attr.mode = 0o4755 := by cases tool <;> decide +kernel
  have hattr : tool.attr = ⟨0o4755, 0, 0⟩ := congrArg (Vfs.Attr.mk · 0 0) hmode
  have huid : (0o4755 : UInt32) &&& 0o4000 ≠ 0 := by decide
  have hgid : ¬ (0o4755 : UInt32) &&& 0o2000 ≠ 0 := by decide
  rw [hattr, execIdentity]
  by_cases hroot : caller.uids.effective = 0
  · simp [Vfs.vfsCheckPermission, huid, hgid, hroot]
  have hbits : (⟨0o4755, 0, 0⟩ : Vfs.Attr).checkBits caller = 5 := by
    simp only [Vfs.Attr.checkBits, if_neg (Ne.symm hroot)]
    split <;> decide
  have hmay (access : Vfs.Access) : Vfs.vfsCheckPermission caller ⟨0o4755, 0, 0⟩ access = !access.write := by
    simp only [Vfs.vfsCheckPermission, if_neg hroot, hbits]
    rcases access with ⟨_ | _, _ | _, _ | _⟩ <;> decide
  simp [hmay, Vfs.Access.search, Vfs.Access.writeOnly, huid, hgid]

/-! ### What a program does -/

structure Files where
  passwd : Option (List UInt8)
  shadow : Option (List UInt8)
  issue : Option (List UInt8)

inductive PrintArg where
  | str (s : Str)
  | num (n : UInt32)
  deriving DecidableEq

inductive Event where
  | print (format : String) (args : List PrintArg)
  | write (bytes : List UInt8)
  /-- A call of `pw_verify` and what it returns. -/
  | verify (password storedHash : Str) (result : Bool)
  /-- A call of `shent_set_hash` that succeeds. -/
  | setHash (name newHash : Str)
  deriving DecidableEq

/-- The call of `execve` for the shell, and the identifiers of the process that makes it. -/
structure Shell where
  creds : Creds
  account : PasswdEnt
  dir : Option Str
  path : Str
  argv : List Str
  envp : List Str
  /-- The arguments for `/bin/busybox`, if the first call fails. -/
  fallback : List Str
  deriving DecidableEq

inductive Ending where
  | exit (status : Nat)
  | exec (shell : Shell)
  deriving DecidableEq

structure ToolRun where
  trace : List Event
  ending : Ending

/-- A run after some events. -/
def ToolRun.after (events : List Event) (r : ToolRun) : ToolRun := { r with trace := events ++ r.trace }

@[simp] theorem ToolRun.after_ending (events : List Event) (r : ToolRun) : (r.after events).ending = r.ending := rfl

@[simp] theorem ToolRun.after_trace (events : List Event) (r : ToolRun) :
    (r.after events).trace = events ++ r.trace := rfl

def shellPath (pw : PasswdEnt) : Str := if pw.shell = [] then lit "/bin/sh" else pw.shell

def shellEnv (pw : PasswdEnt) : List Str :=
  [snprintf 96 (lit "USER=" ++ pw.name),
    snprintf 160 (lit "HOME=" ++ if pw.home = [] then lit "/" else pw.home),
    snprintf 96 (lit "SHELL=" ++ shellPath pw),
    lit "PATH=/bin:/sbin:/usr/bin:/usr/sbin",
    lit "TERM=linux"]

def callSetresgid (proc : Creds) (gid : UInt32) : Except Errno Creds :=
  sysSetresgid proc gid.toUInt64 gid.toUInt64 gid.toUInt64

def callSetresuid (proc : Creds) (uid : UInt32) : Except Errno Creds :=
  sysSetresuid proc uid.toUInt64 uid.toUInt64 uid.toUInt64

/-! ### login -/

def showIssue : Option (List UInt8) → List Event
  | none => []
  | some [] => []
  | some bytes => [.write (bytes.take 511)]

def loginAs (pw : PasswdEnt) (proc : Creds) : ToolRun :=
  match callSetresgid proc pw.gid with
  | .error _ => ⟨[.print "login: setresgid(%u) failed\n" [.num pw.gid]], .exit 1⟩
  | .ok proc =>
    match callSetresuid proc pw.uid with
    | .error _ => ⟨[.print "login: setresuid(%u) failed\n" [.num pw.uid]], .exit 1⟩
    | .ok proc =>
      ⟨[.print "Last login: now (LiteNix)\n" []],
        .exec {
          creds := proc
          account := pw
          dir := if pw.home = [] then none else some pw.home
          path := shellPath pw
          argv := [shellPath pw, lit "-l"]
          envp := shellEnv pw
          fallback := [lit "/bin/busybox", lit "sh"] }⟩

structure LoginArgs where
  noauth : Bool
  forcedUser : Option Str
  deriving DecidableEq

/-- The loop over the arguments. -/
def loginArgs (args : List Str) : LoginArgs :=
  args.foldl (fun parsed arg =>
    if arg = lit "--noauth" then { parsed with noauth := true }
    else if arg.head? ≠ some Byte.dash then { parsed with forcedUser := some arg }
    else parsed) ⟨false, none⟩

/-- What a prompt for the user name gives. -/
inductive NameRead where
  | failed
  | empty
  | name (user : Str)

/-- The forced user, or the line typed at the prompt. -/
def loginName : Option Str → List Key → NameRead × List Key
  | some user, keys => (.name (user.take 63), keys)
  | none, keys =>
    match readLine 64 [] keys with
    | (none, keys) => (.failed, keys)
    | (some (n, user), keys) => if n = 0 ∨ user = [] then (.empty, keys) else (.name user, keys)

/-- The shadow entry of a name, which is looked up only if there is an account. -/
def loginShadow (files : Files) (user : Str) : Option ShadowEnt :=
  (pwentByName user files.passwd).bind fun _ => shentByName user files.shadow

/-- The value of `ok`. -/
def loginOk : Option PasswdEnt → Option ShadowEnt → Str → Bool
  | some _, some sh, password => pwVerify password sh.hash
  | some pw, none, _ => pw.passwdField = [] || pw.passwdField ≠ lit "x"
  | none, _, _ => false

def loginEvents : Option ShadowEnt → Str → List Event
  | some sh, password => [.verify password sh.hash (pwVerify password sh.hash)]
  | none, _ => []

/-- The loop of `main`, with the attempts that are left. `stack` is what the password buffer holds before it is
filled. -/
def loginLoop (files : Files) (stack : Nat → Str) (proc : Creds) : Nat → Option Str → List Key → ToolRun
  | 0, _, _ => ⟨[.print "\nlogin: too many failed attempts.\n" []], .exit 1⟩
  | left + 1, forcedUser, keys =>
    let events := showIssue files.issue ++ [.print "\nlitenix login: " []]
    match loginName forcedUser keys with
    | (.failed, _) => ⟨events, .exit 1⟩
    | (.empty, keys) => (loginLoop files stack proc left none keys).after events
    | (.name user, keys) =>
      let pw := pwentByName user files.passwd
      let sh := loginShadow files user
      let echo := if forcedUser.isSome then [.print "%s\n" [.str user]] else []
      let events := events ++ echo ++ [.print "Password: " [], .print "\n" []]
      match readLine 128 (stack left) keys with
      | (none, _) => ⟨events, .exit 1⟩
      | (some (_, password), keys) =>
        let events := events ++ loginEvents sh password
        match loginOk pw sh password, pw with
        | true, some pw => (loginAs pw proc).after events
        | _, _ =>
          (loginLoop files stack proc left none keys).after (events ++ [.print "Login incorrect\n" []])

def loginMain (files : Files) (stack : Nat → Str) (args : List Str) (keys : List Key) (proc : Creds) : ToolRun :=
  match loginArgs args with
  | ⟨true, some user⟩ =>
    match pwentByName user files.passwd with
    | none => ⟨[.print "login: unknown user '%s'\n" [.str user]], .exit 1⟩
    | some pw => loginAs pw proc
  | ⟨_, forcedUser⟩ => loginLoop files stack proc 3 forcedUser keys

/-! ### su -/

structure SuArgs where
  loginShell : Bool
  target : Str
  cmd : Option Str

/-- The loop over the arguments. -/
def suArgs : SuArgs → List Str → SuArgs
  | parsed, [] => parsed
  | parsed, [arg] =>
    if arg = lit "-l" ∨ arg = lit "--login" then { parsed with loginShell := true }
    else if arg.head? = some Byte.dash then parsed
    else { parsed with target := arg }
  | parsed, arg :: next :: rest =>
    if arg = lit "-l" ∨ arg = lit "--login" then suArgs { parsed with loginShell := true } (next :: rest)
    else if arg = lit "-c" then suArgs { parsed with cmd := some next } rest
    else if arg.head? = some Byte.dash then suArgs parsed (next :: rest)
    else suArgs { parsed with target := arg } (next :: rest)

/-- The end of `main`, from the calls that set the identifiers on. -/
def suShell (parsed : SuArgs) (pw : PasswdEnt) (proc : Creds) : ToolRun :=
  match callSetresgid proc pw.gid with
  | .error _ => ⟨[.print "su: setresgid failed\n" []], .exit 1⟩
  | .ok proc =>
    match callSetresuid proc pw.uid with
    | .error _ => ⟨[.print "su: setresuid failed\n" []], .exit 1⟩
    | .ok proc =>
      let args := match parsed.cmd with
        | some cmd => [lit "-c", cmd]
        | none => if parsed.loginShell then [lit "-l"] else []
      ⟨[], .exec {
        creds := proc
        account := pw
        dir := if parsed.loginShell ∧ pw.home ≠ [] then some pw.home else none
        path := shellPath pw
        argv := shellPath pw :: args
        envp := shellEnv pw
        fallback := [lit "/bin/busybox", lit "sh"] ++ if parsed.cmd.isSome then args else [] }⟩

def suMain (files : Files) (stack : Nat → Str) (args : List Str) (keys : List Key) (proc : Creds) : ToolRun :=
  let parsed := suArgs ⟨false, lit "root", none⟩ args
  match pwentByName parsed.target files.passwd with
  | none => ⟨[.print "su: unknown user '%s'\n" [.str parsed.target]], .exit 1⟩
  | some pw =>
    if proc.uids.real = 0 then suShell parsed pw proc
    else match shentByName parsed.target files.shadow with
      | none => ⟨[.print "su: cannot read /etc/shadow\n" []], .exit 1⟩
      | some sh =>
        if sh.hash.head? = some Byte.bang ∨ sh.hash.head? = some Byte.star then
          ⟨[.print "su: account '%s' is locked\n" [.str parsed.target]], .exit 1⟩
        else if sh.hash = [] then suShell parsed pw proc
        else match readLine 128 (stack 0) keys with
          | (none, _) => ⟨[.print "Password: " [], .print "\n" []], .exit 1⟩
          | (some (_, password), _) =>
            let ok := pwVerify password sh.hash
            let events := [.print "Password: " [], .print "\n" [], .verify password sh.hash ok]
            if ok then (suShell parsed pw proc).after events
            else ⟨events ++ [.print "su: Authentication failure\n" []], .exit 1⟩

/-! ### The identity of the shell -/

/-- `setresgid` lets the program take this group. -/
def GroupAllowed (proc : Creds) (gid : UInt32) : Prop := setresIdCheck proc.gids ⟨gid, gid, gid⟩ = true

theorem callSetresgid_cases (proc : Creds) (gid : UInt32) :
    (∃ q, callSetresgid proc gid = .ok q ∧ q.uids = proc.uids ∧ GroupAllowed proc gid) ∨
      (callSetresgid proc gid = .error .EPERM ∧ ¬ GroupAllowed proc gid) := by
  simp only [callSetresgid, sysSetresgid, idArgs, UInt32.toUInt32_toUInt64, setresIds, GroupAllowed]
  split
  · rename_i hcheck
    exact .inl ⟨_, rfl, rfl, hcheck⟩
  · rename_i hcheck
    exact .inr ⟨rfl, hcheck⟩

/-- With the effective user 0 the call succeeds; the value to keep leaves that user as it is. -/
theorem callSetresuid_root (hroot : proc.uids.effective = 0) (uid : UInt32) :
    ∃ q, callSetresuid proc uid = .ok q ∧ q.uids.effective = setId 0 uid := by
  simp only [callSetresuid, sysSetresuid, idArgs, UInt32.toUInt32_toUInt64, setresIds]
  rw [if_pos (by simp [setresIdCheck, hroot])]
  exact ⟨_, rfl, by rw [← hroot]⟩

/-- **What `login_as` does.** -/
theorem loginAs_cases (pw : PasswdEnt) (hroot : proc.uids.effective = 0) :
    (GroupAllowed proc pw.gid ∧ ∃ shell, (loginAs pw proc).ending = .exec shell ∧ shell.account = pw ∧
      shell.creds.uids.effective = setId 0 pw.uid) ∨
    (¬ GroupAllowed proc pw.gid ∧ (loginAs pw proc).ending = .exit 1) := by
  rcases callSetresgid_cases proc pw.gid with ⟨q, hgid, huids, hallowed⟩ | ⟨hgid, hdenied⟩
  · obtain ⟨r, huid, heffective⟩ := callSetresuid_root (huids ▸ hroot) pw.uid
    refine .inl ⟨hallowed, ?_⟩
    simp only [loginAs, hgid, huid]
    exact ⟨_, rfl, rfl, heffective⟩
  · refine .inr ⟨hdenied, ?_⟩
    simp only [loginAs, hgid]

theorem suShell_account (h : (suShell parsed pw proc).ending = .exec shell) : shell.account = pw := by
  simp only [suShell] at h
  split at h
  · cases h
  split at h
  · cases h
  · cases h
    rfl

/-! ### The attempts of login -/

structure Attempt where
  user : Str
  password : Str
  deriving DecidableEq

/-- The names and passwords that the terminal gives. Nothing in the files decides about them. -/
def typedAttempts (stack : Nat → Str) : Nat → Option Str → List Key → List Attempt
  | 0, _, _ => []
  | left + 1, forcedUser, keys =>
    match loginName forcedUser keys with
    | (.failed, _) => []
    | (.empty, keys) => typedAttempts stack left none keys
    | (.name user, keys) =>
      match readLine 128 (stack left) keys with
      | (none, _) => []
      | (some (_, password), keys) => ⟨user, password⟩ :: typedAttempts stack left none keys

def admits (files : Files) (a : Attempt) : Bool :=
  loginOk (pwentByName a.user files.passwd) (loginShadow files a.user) a.password

/-- How the loop ends for the first attempt that is admitted. -/
def LoopEnds (files : Files) (proc : Creds) (r : ToolRun) : Option Attempt → Prop
  | none => r.ending = .exit 1
  | some a => ∃ pw, pwentByName a.user files.passwd = some pw ∧ r.ending = (loginAs pw proc).ending ∧
      ∀ sh, shentByName a.user files.shadow = some sh → .verify a.password sh.hash true ∈ r.trace

theorem LoopEnds.after (h : LoopEnds files proc r first) (events : List Event) :
    LoopEnds files proc (r.after events) first := by
  cases first with
  | none => exact h
  | some a =>
    obtain ⟨pw, hpw, hending, hverify⟩ := h
    exact ⟨pw, hpw, hending, fun sh hsh => List.mem_append_right events (hverify sh hsh)⟩

/-- An attempt that is admitted has an account, and its password was verified if it has a shadow entry. -/
theorem admits_account (h : admits files a = true) : ∃ pw, pwentByName a.user files.passwd = some pw ∧
      ∀ sh, shentByName a.user files.shadow = some sh → pwVerify a.password sh.hash = true := by
  cases hpw : pwentByName a.user files.passwd with
  | none => simp [admits, hpw, loginOk] at h
  | some pw =>
    refine ⟨pw, rfl, fun sh hsh => ?_⟩
    simpa [admits, loginShadow, hpw, hsh, loginOk] using h

/-- **The loop.** It gives a shell for the first attempt that is admitted, by induction on the attempts left. -/
theorem loginLoop_ends (files : Files) (stack : Nat → Str) (proc : Creds) (left : Nat) :
    ∀ (forcedUser : Option Str) (keys : List Key),
      LoopEnds files proc (loginLoop files stack proc left forcedUser keys)
        ((typedAttempts stack left forcedUser keys).find? (admits files)) := by
  induction left with
  | zero => exact fun _ _ => rfl
  | succ left ih =>
  intro forcedUser keys
  rw [loginLoop, typedAttempts]
  rcases loginName forcedUser keys with ⟨_ | _ | user, keys⟩
  · rfl
  · exact (ih none keys).after _
  dsimp only
  rcases readLine 128 (stack left) keys with ⟨_ | ⟨n, password⟩, keys⟩
  · rfl
  dsimp only
  rw [List.find?_cons]
  have hadmits : admits files ⟨user, password⟩ =
    loginOk (pwentByName user files.passwd) (loginShadow files user) password := rfl
  cases hok : admits files ⟨user, password⟩ with
  | false =>
    rw [← hadmits, hok]
    exact (ih none keys).after _
  | true =>
    obtain ⟨pw, hpw, hverify⟩ := admits_account hok
    rw [← hadmits, hok, hpw]
    refine ⟨pw, hpw, rfl, fun sh hsh => ?_⟩
    have hshadow : loginShadow files user = some sh := by rw [loginShadow, hpw, Option.bind_some, hsh]
    simp [hshadow, loginEvents, hverify sh hsh]

/-! ### Authentication -/

inductive Switch where
  | login
  | su
  deriving DecidableEq

def Switch.tool : Switch → Tool
  | .login => .login
  | .su => .su

def Switch.main : Switch → Files → (Nat → Str) → List Str → List Key → Creds → ToolRun
  | .login => loginMain
  | .su => suMain

/-- A password was verified against the shadow hash of the account, or this hash is empty. -/
def Authenticated (files : Files) (trace : List Event) (account : Str) : Prop :=
  ∃ sh, shentByName account files.shadow = some sh ∧
    ((∃ password, .verify password sh.hash true ∈ trace) ∨ sh.hash = [])

/-- A shell with another user than the real one of the caller needs authentication. The user of the shell is its
effective user: an entry with the value to keep as its user leaves the real one as it is. -/
def IdentityGuarded (prog : Switch) (files : Files) (stack : Nat → Str) (args : List Str) (keys : List Key)
    (caller : Creds) : Prop :=
  ∀ proc, execIdentity prog.tool.attr caller = .ok proc →
    ∀ shell, (prog.main files stack args keys proc).ending = .exec shell →
      shell.creds.uids.effective ≠ caller.uids.real →
      Authenticated files (prog.main files stack args keys proc).trace shell.account.name

/-- The same for one run, of a program with the effective user 0. -/
def RunGuarded (files : Files) (caller : Creds) (r : ToolRun) : Prop :=
  ∀ shell, r.ending = .exec shell → shell.creds.uids.effective ≠ caller.uids.real →
    Authenticated files r.trace shell.account.name

/-- `login` would give the account away without authentication. -/
def Unproved (files : Files) (stack : Nat → Str) (args : List Str) (keys : List Key) (pw : PasswdEnt) : Prop :=
  match loginArgs args with
  | ⟨true, some user⟩ =>
    pwentByName user files.passwd = some pw ∧ ∀ sh, shentByName user files.shadow = some sh → sh.hash ≠ []
  | ⟨_, forcedUser⟩ =>
    ∃ a, (typedAttempts stack 3 forcedUser keys).find? (admits files) = some a ∧
      pwentByName a.user files.passwd = some pw ∧ shentByName a.user files.shadow = none

/-- The account is out of reach for the groups of the caller, or has the caller's own user. -/
def NoGain (caller : Creds) (pw : PasswdEnt) : Prop :=
  ¬ GroupAllowed caller pw.gid ∨ setId 0 pw.uid = caller.uids.real

/-- The identifiers of the caller in a set-uid program. -/
def Creds.asRoot (caller : Creds) : Creds := ⟨⟨caller.uids.real, 0, 0⟩, caller.gids⟩

theorem identityGuarded_iff_asRoot {prog : Switch} :
    IdentityGuarded prog files stack args keys caller ↔
      RunGuarded files caller (prog.main files stack args keys caller.asRoot) := by
  unfold IdentityGuarded
  rw [execIdentity_tool]
  refine ⟨fun h => h _ rfl, ?_⟩
  rintro h _ ⟨⟩
  exact h

/-- A run that ends in `login_as` is guarded if and only if the account is no gain or authenticated. -/
theorem guarded_loginAs_iff (hending : r.ending = (loginAs pw caller.asRoot).ending) :
    RunGuarded files caller r ↔ NoGain caller pw ∨ Authenticated files r.trace pw.name := by
  have hroot : caller.asRoot.uids.effective = 0 := rfl
  unfold RunGuarded
  rcases loginAs_cases pw hroot with ⟨hallowed, shell, hshell, haccount, huser⟩ | ⟨hdenied, hexit⟩
  · rw [hending, hshell]
    constructor
    · intro h
      by_cases hown : setId 0 pw.uid = caller.uids.real
      · exact .inl (.inr hown)
      · exact .inr (haccount ▸ h shell rfl (huser ▸ hown))
    rintro h _ ⟨⟩ hother
    rcases h with (hdenied | hown) | hauth
    · exact absurd hallowed hdenied
    · exact absurd (huser.trans hown) hother
    · exact haccount ▸ hauth
  · rw [hending, hexit]
    exact ⟨fun _ => .inl (.inl hdenied), fun _ shell hshell => by cases hshell⟩

/-- Without authentication only an empty hash counts. -/
theorem authenticated_loginAs_iff {account : Str} :
    Authenticated files (loginAs pw proc).trace account ↔
      ∃ sh, shentByName account files.shadow = some sh ∧ sh.hash = [] := by
  have hnone (password storedHash : Str) : Event.verify password storedHash true ∉ (loginAs pw proc).trace := by
    simp only [loginAs]
    split
    · simp
    · split <;> simp
  simp [Authenticated, hnone]

/-- Unless `--noauth` is given with a user. -/
theorem loginLoop_guarded_iff {forcedUser : Option Str} :
    RunGuarded files caller (loginLoop files stack caller.asRoot 3 forcedUser keys) ↔
    ∀ pw, (∃ a, (typedAttempts stack 3 forcedUser keys).find? (admits files) = some a ∧
      pwentByName a.user files.passwd = some pw ∧ shentByName a.user files.shadow = none) → NoGain caller pw := by
  have hends := loginLoop_ends files stack caller.asRoot 3 forcedUser keys
  cases hfind : (typedAttempts stack 3 forcedUser keys).find? (admits files) with
  | none =>
    rw [hfind] at hends
    rw [RunGuarded, show (loginLoop files stack caller.asRoot 3 forcedUser keys).ending = .exit 1 from hends]
    exact ⟨by rintro - pw ⟨a, ⟨⟩, -⟩, fun _ shell hshell => by cases hshell⟩
  | some a =>
  rw [hfind] at hends
  obtain ⟨pw, hpw, hending, hverify⟩ := hends
  rw [guarded_loginAs_iff hending]
  have hname : pw.name = a.user := pwentByName_name hpw
  constructor
  · rintro h pw' ⟨_, ⟨⟩, hpw', hnone⟩
    obtain rfl : pw = pw' := Option.some.inj (hpw.symm.trans hpw')
    rcases h with h | ⟨sh, hsh, -⟩
    · exact h
    · rw [hname, hnone] at hsh
      cases hsh
  · intro h
    cases hsh : shentByName a.user files.shadow with
    | none => exact .inl (h pw ⟨a, rfl, hpw, hsh⟩)
    | some sh => exact .inr ⟨sh, hname ▸ hsh, .inl ⟨a.password, hverify sh hsh⟩⟩

theorem loginMain_guarded_iff :
    IdentityGuarded .login files stack args keys caller ↔
      ∀ pw, Unproved files stack args keys pw → NoGain caller pw := by
  rw [identityGuarded_iff_asRoot]
  simp only [Switch.main, loginMain, Unproved]
  rcases loginArgs args with ⟨_ | _, _ | user⟩
  · exact loginLoop_guarded_iff
  · exact loginLoop_guarded_iff
  · exact loginLoop_guarded_iff
  dsimp only
  cases hpw : pwentByName user files.passwd with
  | none => exact ⟨by rintro - pw ⟨⟨⟩, -⟩, fun _ shell hshell => by cases hshell⟩
  | some pw =>
  rw [guarded_loginAs_iff rfl, authenticated_loginAs_iff, pwentByName_name hpw]
  constructor
  · rintro h pw' ⟨⟨⟩, hnonempty⟩
    rcases h with h | ⟨sh, hsh, hempty⟩
    · exact h
    · exact absurd hempty (hnonempty sh hsh)
  intro h
  by_cases hempty : ∃ sh, shentByName user files.shadow = some sh ∧ sh.hash = []
  · exact .inr hempty
  · exact .inl (h pw ⟨rfl, fun sh hsh hnil => hempty ⟨sh, hsh, hnil⟩⟩)

/-- `su` asks everyone but root for the password. -/
theorem suMain_authenticated
    (hreal : proc.uids.real ≠ 0) (h : (suMain files stack args keys proc).ending = .exec shell) :
    Authenticated files (suMain files stack args keys proc).trace shell.account.name := by
  unfold suMain at h ⊢
  generalize suArgs ⟨false, lit "root", none⟩ args = parsed at h ⊢
  cases hpw : pwentByName parsed.target files.passwd with
  | none =>
    simp only [hpw] at h
    cases h
  | some pw =>
  have hname : pw.name = parsed.target := pwentByName_name hpw
  simp only [hpw, if_neg hreal] at h ⊢
  cases hsh : shentByName parsed.target files.shadow with
  | none =>
    simp only [hsh] at h
    cases h
  | some sh =>
  simp only [hsh] at h ⊢
  -- Past the tests for a locked account and an empty hash there is a password to verify.
  split at h
  · cases h
  split at h
  · rename_i hempty
    rw [suShell_account h, hname]
    exact ⟨sh, hsh, .inr hempty⟩
  rename_i hlocked hnonempty
  rw [if_neg hlocked, if_neg hnonempty]
  generalize readLine 128 (stack 0) keys = typed at h ⊢
  rcases typed with ⟨_ | ⟨n, password⟩, keys⟩
  · cases h
  dsimp only at h ⊢
  split at h
  · rename_i hok
    rw [if_pos hok, suShell_account h, hname]
    exact ⟨sh, hsh, .inl ⟨password, by simp [hok]⟩⟩
  · cases h

/-- **Authentication.** Started by a user other than root, `su` always authenticates before it gives a shell with
another user, and `login` does if and only if it would not give away another user's account within reach of the
caller's groups: one forced by `--noauth` whose hash is not empty, or one without a shadow entry that is the first
to be admitted. -/
theorem identity_guarded_iff (prog : Switch) (files : Files) (stack : Nat → Str) (args : List Str) (keys : List Key)
    (caller : Creds) (hreal : caller.uids.real ≠ 0) :
    IdentityGuarded prog files stack args keys caller ↔
      (prog = .login → ∀ pw, Unproved files stack args keys pw → NoGain caller pw) := by
  cases prog with
  | login => simp only [loginMain_guarded_iff, true_imp_iff]
  | su =>
    refine ⟨fun _ h => absurd h (by decide), fun _ => identityGuarded_iff_asRoot.mpr ?_⟩
    exact fun shell hshell _ => suMain_authenticated (show caller.asRoot.uids.real ≠ 0 from hreal) hshell

/-! An image with three users of one group, the last of them without a password. -/

def smallImage : Files where
  passwd := some (lit "alice:x:1000:100::/home/alice:/bin/sh\nbob:x:1001:100::/home/bob:\ncarol:x:1002:100:::\n")
  shadow := some (lit "alice:$5$ab$00:0:0:99999:7:::\nbob:$5$cd$11:0:0:99999:7:::\ncarol::0:0:99999:7:::\n")
  issue := none

def asAlice : Creds := ⟨⟨1000, 1000, 1000⟩, ⟨100, 100, 100⟩⟩

def typed (s : String) : List Key := (lit s).map .byte

/-- At the prompt the first user tries an unknown name and then enters the account without a password. -/
theorem identity_guarded_typed :
    asAlice.uids.real ≠ 0 ∧
    (loginMain smallImage (fun _ => []) [] (typed "dave\n\ncarol\n\n") asAlice.asRoot).ending ≠ .exit 1 ∧
    IdentityGuarded .login smallImage (fun _ => []) [] (typed "dave\n\ncarol\n\n") asAlice := by
  refine ⟨by decide, by decide +kernel, (identity_guarded_iff .login smallImage (fun _ => []) []
    (typed "dave\n\ncarol\n\n") asAlice (by decide)).mpr ?_⟩
  rintro - pw ⟨a, hfirst, -, hnone⟩
  have hcarol : (typedAttempts (fun _ => []) 3 none (typed "dave\n\ncarol\n\n")).find? (admits smallImage) =
    some ⟨lit "carol", []⟩ := by decide +kernel
  obtain rfl := Option.some.inj (hcarol.symm.trans hfirst)
  exact absurd hnone (by decide +kernel)

/-- The first user takes the account of the second with `login --noauth bob`. -/
theorem noauth_gives_account_away :
    ¬ ∀ (prog : Switch) (files : Files) (stack : Nat → Str) (args : List Str) (keys : List Key) (caller : Creds),
      caller.uids.real ≠ 0 → IdentityGuarded prog files stack args keys caller := by
  intro h
  have hguarded := loginMain_guarded_iff.mp
    (h .login smallImage (fun _ => []) [lit "--noauth", lit "bob"] [] asAlice (by decide))
  have hargs : loginArgs [lit "--noauth", lit "bob"] = ⟨true, some (lit "bob")⟩ := by decide +kernel
  have hpw : pwentByName (lit "bob") smallImage.passwd =
    some ⟨lit "bob", lit "x", 1001, 100, lit "/home/bob", []⟩ := by decide +kernel
  have hsh : shentByName (lit "bob") smallImage.shadow = some ⟨lit "bob", lit "$5$cd$11"⟩ := by decide +kernel
  have hunproved : Unproved smallImage (fun _ => []) [lit "--noauth", lit "bob"] []
      ⟨lit "bob", lit "x", 1001, 100, lit "/home/bob", []⟩ := by
    simp only [Unproved, hargs, hpw, hsh, true_and]
    rintro sh ⟨⟩
    decide +kernel
  rcases hguarded _ hunproved with hdenied | hown
  · exact hdenied (by unfold GroupAllowed; decide)
  · revert hown
    decide

end Litenix
