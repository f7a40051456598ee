import Litenix.Lib.Lines
import Litenix.Password

/-! The account database (`libc_lite.c`): the entries of `/etc/passwd` and `/etc/shadow`, the lookups in them and
the replacement of a hash. Each file is read into a buffer of 2048 bytes and cut into lines there, each line is
copied to a smaller buffer before its fields are separated, and each field is copied to an array of the entry. The
readings of passwords from the terminal are here too. -/

namespace Litenix

open Lib

/-- The string that starts a buffer. -/
def cstr (buffer : List UInt8) : Str := buffer.takeWhile (· ≠ 0)

/-! ### Numbers -/

def isSpace (c : UInt8) : Bool := c = 0x20 || (0x09 ≤ c && c ≤ 0x0D)

def isDigit (c : UInt8) : Bool := 0x30 ≤ c && c ≤ 0x39

/-- `strtoul` with base 10, where no letter is a digit. -/
def strtoul10 (s : Str) : UInt64 :=
  ((s.dropWhile isSpace).takeWhile isDigit).foldl (fun v c => v * 10 + (c - 0x30).toUInt64) 0

/-- `(uint32_t)atoi(s)`. -/
def atoi (s : Str) : UInt32 :=
  let s := s.dropWhile isSpace
  if s.head? = some 0x2B then (strtoul10 s.tail).toUInt32
  else if s.head? = some Byte.dash then (0 - strtoul10 s.tail).toUInt32
  else (strtoul10 s).toUInt32

/-! ### Entries -/

structure PasswdEnt where
  name : Str
  passwdField : Str
  uid : UInt32
  gid : UInt32
  home : Str
  shell : Str
  deriving DecidableEq

structure ShadowEnt where
  name : Str
  hash : Str
  deriving DecidableEq

/-- `strsep_inplace` at a colon: the field, and where the next one starts. -/
def strsep : Option Str → Option Str × Option Str
  | none => (none, none)
  | some s => (some (field Byte.colon s), afterField Byte.colon s)

def parsePasswdLine (line : Str) : Option PasswdEnt :=
  let (name, p) := strsep (some line)
  let (pw, p) := strsep p
  let (uid, p) := strsep p
  let (gid, p) := strsep p
  let (_, p) := strsep p
  let (hom, shl) := strsep p
  match name, pw, uid, gid, hom, shl with
  | some name, some pw, some uid, some gid, some hom, some shl =>
    some ⟨name.take 63, pw.take 7, atoi uid, atoi gid, hom.take 127, shl.take 63⟩
  | _, _, _, _, _, _ => none

def parseShadowLine (line : Str) : Option ShadowEnt :=
  let (name, p) := strsep (some line)
  let (hash, _) := strsep p
  match name, hash with
  | some name, some hash => some ⟨name.take 63, hash.take 255⟩
  | _, _ => none

/-! ### Lookups -/

/-- The buffer after `open` and `read`, where they succeed. -/
def readDatabase : Option (List UInt8) → Option Str
  | none => none
  | some [] => none
  | some bytes => some (cstr (bytes.take 2047))

/-- The lines that are neither empty nor comments. -/
def isEntry (line : Str) : Bool := line ≠ [] && line.head? ≠ some Byte.hash

/-- The first entry that parses and passes a test, with lines copied to a buffer. -/
def findEntry {β : Type} (size : Nat) (parse : Str → Option β) (pred : β → Bool) (file : Option (List UInt8)) :
    Option β :=
  (readDatabase file).bind fun text =>
    (lines Byte.newline text).findSome? fun line =>
      if isEntry line then (parse (line.take (size - 1))).filter pred else none

def passwdIter (pred : PasswdEnt → Bool) (file : Option (List UInt8)) : Option PasswdEnt :=
  findEntry 512 parsePasswdLine pred file

def pwentByName (name : Str) (file : Option (List UInt8)) : Option PasswdEnt :=
  passwdIter (fun e => e.name = name) file

def pwentByUid (uid : UInt32) (file : Option (List UInt8)) : Option PasswdEnt :=
  passwdIter (fun e => e.uid = uid) file

def shentByName (name : Str) (file : Option (List UInt8)) : Option ShadowEnt :=
  findEntry 1024 parseShadowLine (fun e => e.name = name) file

variable {file : Option (List UInt8)}

theorem findEntry_some {β : Type} {size : Nat} {parse : Str → Option β} {pred : β → Bool}
    {e : β} (h : findEntry size parse pred file = some e) :
    pred e = true ∧ ∃ line, isEntry line = true ∧ Byte.newline ∉ line ∧ parse (line.take (size - 1)) = some e := by
  obtain ⟨text, -, hfind⟩ := Option.bind_eq_some_iff.mp h
  obtain ⟨line, hline, hentry⟩ := List.exists_of_findSome?_eq_some hfind
  split at hentry
  · rename_i his
    obtain ⟨hparse, hpred⟩ := Option.filter_eq_some_iff.mp hentry
    exact ⟨hpred, line, his, fun hmem => (lines_chars hline _ hmem).2 rfl, hparse⟩
  · cases hentry

theorem pwentByName_name (h : pwentByName name file = some pw) : pw.name = name := by
  simpa using (findEntry_some h).1

/-! ### The replacement of a hash -/

/-- Is this the line of the account? The name is compared as it stands in the copy of the line. -/
def isLineOf (name line : Str) : Bool := isEntry line && field Byte.colon (line.take 1023) = name

/-- A line as it is printed to the new file. -/
def setHashLine (name newHash line : Str) : Str :=
  if isLineOf name line then
    let (_, p) := strsep (some (line.take 1023))
    let (_, p) := strsep p
    name ++ [Byte.colon] ++ newHash ++ [Byte.colon] ++ p.getD []
  else line

/-- The line of an account that had none. -/
def newHashLine (name newHash : Str) : Str := name ++ [Byte.colon] ++ newHash ++ lit ":0:0:99999:7:::"

def setHashLines (name newHash : Str) (ls : List Str) : List Str :=
  ls.map (setHashLine name newHash) ++ if ls.any (isLineOf name) then [] else [newHashLine name newHash]

/-- The file that `shent_set_hash` leaves: the calls of `snprintf` fill a buffer of 2048 bytes. -/
def shentSetHash (name newHash : Str) (file : Option (List UInt8)) : Option (List UInt8) :=
  (readDatabase file).map fun text =>
    snprintf 2048 (unlines Byte.newline (setHashLines name newHash (lines Byte.newline text)))

/-! ### The terminal -/

/-- What a read of one byte gives. -/
inductive Key where
  | byte (c : UInt8)
  | eof
  | error
  deriving DecidableEq

/-- Why `read_line` stops. -/
inductive LineEnd where
  | newline
  | full
  | eof
  | error
  deriving DecidableEq

/-- The loop of `read_line` with so much room, and the reads that are left. No further read is a read at the end
of the input. -/
def readBytes : Nat → List Key → List UInt8 × LineEnd × List Key
  | 0, keys => ([], .full, keys)
  | _ + 1, [] => ([], .eof, [])
  | _ + 1, .eof :: keys => ([], .eof, keys)
  | _ + 1, .error :: keys => ([], .error, keys)
  | room + 1, .byte c :: keys =>
    if c = Byte.newline then ([], .newline, keys)
    else if c = Byte.carriageReturn then readBytes (room + 1) keys
    else
      let (bytes, stop, keys) := readBytes room keys
      (c :: bytes, stop, keys)

/-- `read_line`: the number it returns, without the sign of an error, and the string in the buffer. At the end of
the input the buffer keeps what was in it. -/
def readLine (size : Nat) (buffer : Str) (keys : List Key) : Option (Nat × Str) × List Key :=
  match readBytes (size - 1) keys with
  | ([], .error, keys) => (none, keys)
  | ([], .eof, keys) => (some (0, buffer), keys)
  | (bytes, _, keys) => (some (bytes.length, cstr bytes), keys)

end Litenix
