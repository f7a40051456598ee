import Mathlib.Data.List.Basic

/-! Hashed passwords (`libc_lite.c`): SHA-256, and the hash `$5$salt$digest` of 5000 rounds of it. A C string is
the list of its bytes before the terminating zero. -/

namespace Litenix

abbrev Str := List UInt8

/-- The bytes of a string literal. -/
def lit (s : String) : Str := s.toByteArray.data.toList

namespace Byte

def newline : UInt8 := 0x0A
def carriageReturn : UInt8 := 0x0D
def bang : UInt8 := 0x21
def hash : UInt8 := 0x23
def dollar : UInt8 := 0x24
def star : UInt8 := 0x2A
def dash : UInt8 := 0x2D
def colon : UInt8 := 0x3A

end Byte

/-! ### SHA-256 -/

def sha256K : List UInt32 := [
  0x428a2f98, 0x71374491, 0xb5c0fbcf, 0xe9b5dba5, 0x3956c25b, 0x59f111f1, 0x923f82a4, 0xab1c5ed5,
  0xd807aa98, 0x12835b01, 0x243185be, 0x550c7dc3, 0x72be5d74, 0x80deb1fe, 0x9bdc06a7, 0xc19bf174,
  0xe49b69c1, 0xefbe4786, 0x0fc19dc6, 0x240ca1cc, 0x2de92c6f, 0x4a7484aa, 0x5cb0a9dc, 0x76f988da,
  0x983e5152, 0xa831c66d, 0xb00327c8, 0xbf597fc7, 0xc6e00bf3, 0xd5a79147, 0x06ca6351, 0x14292967,
  0x27b70a85, 0x2e1b2138, 0x4d2c6dfc, 0x53380d13, 0x650a7354, 0x766a0abb, 0x81c2c92e, 0x92722c85,
  0xa2bfe8a1, 0xa81a664b, 0xc24b8b70, 0xc76c51a3, 0xd192e819, 0xd6990624, 0xf40e3585, 0x106aa070,
  0x19a4c116, 0x1e376c08, 0x2748774c, 0x34b0bcb5, 0x391c0cb3, 0x4ed8aa4a, 0x5b9cca4f, 0x682e6ff3,
  0x748f82ee, 0x78a5636f, 0x84c87814, 0x8cc70208, 0x90befffa, 0xa4506ceb, 0xbef9a3f7, 0xc67178f2]

def rotr32 (x n : UInt32) : UInt32 := (x >>> n) ||| (x <<< (32 - n))

/-- The array `state`, and the variables `a` to `h` of the compression. -/
structure ShaState where
  a : UInt32
  b : UInt32
  c : UInt32
  d : UInt32
  e : UInt32
  f : UInt32
  g : UInt32
  h : UInt32

def ShaState.words (s : ShaState) : List UInt32 := [s.a, s.b, s.c, s.d, s.e, s.f, s.g, s.h]

def blockWord (block : Str) (i : Nat) : UInt32 :=
  let byte k := (block.getD (i * 4 + k) 0).toUInt32
  (byte 0 <<< 24) ||| (byte 1 <<< 16) ||| (byte 2 <<< 8) ||| byte 3

/-- One more word of the array `w`. -/
def scheduleStep (w : List UInt32) (i : Nat) : List UInt32 :=
  let word k := w.getD k 0
  let s0 := rotr32 (word (i - 15)) 7 ^^^ rotr32 (word (i - 15)) 18 ^^^ (word (i - 15) >>> 3)
  let s1 := rotr32 (word (i - 2)) 17 ^^^ rotr32 (word (i - 2)) 19 ^^^ (word (i - 2) >>> 10)
  w ++ [word (i - 16) + s0 + word (i - 7) + s1]

def schedule (block : Str) : List UInt32 :=
  (List.range' 16 48).foldl scheduleStep ((List.range 16).map (blockWord block))

def shaRound (w : List UInt32) (s : ShaState) (i : Nat) : ShaState :=
  let S1 := rotr32 s.e 6 ^^^ rotr32 s.e 11 ^^^ rotr32 s.e 25
  let ch := (s.e &&& s.f) ^^^ (~~~s.e &&& s.g)
  let t1 := s.h + S1 + ch + sha256K.getD i 0 + w.getD i 0
  let S0 := rotr32 s.a 2 ^^^ rotr32 s.a 13 ^^^ rotr32 s.a 22
  let mj := (s.a &&& s.b) ^^^ (s.a &&& s.c) ^^^ (s.b &&& s.c)
  let t2 := S0 + mj
  ⟨t1 + t2, s.a, s.b, s.c, s.d + t1, s.e, s.f, s.g⟩

def sha256Compress (s : ShaState) (block : Str) : ShaState :=
  let t := (List.range 64).foldl (shaRound (schedule block)) s
  ⟨s.a + t.a, s.b + t.b, s.c + t.c, s.d + t.d, s.e + t.e, s.f + t.f, s.g + t.g, s.h + t.h⟩

def shaInit : ShaState :=
  ⟨0x6a09e667, 0xbb67ae85, 0x3c6ef372, 0xa54ff53a, 0x510e527f, 0x9b05688c, 0x1f83d9ab, 0x5be0cd19⟩

/-- The rest of the data, the byte `0x80`, zeros, and the length in bits. -/
def shaTail (rest : Str) (len : Nat) : Str :=
  let padLen := if rest.length + 1 ≤ 56 then 64 else 128
  let bits : UInt64 := UInt64.ofNat len * 8
  rest ++ [0x80] ++ List.replicate (padLen - 8 - (rest.length + 1)) 0 ++
    (List.range 8).map fun k => (bits >>> (UInt64.ofNat (7 - k) * 8)).toUInt8

def wordBytes (w : UInt32) : Str := [(w >>> 24).toUInt8, (w >>> 16).toUInt8, (w >>> 8).toUInt8, w.toUInt8]

def sha256 (data : Str) : Str :=
  let fullBlocks := data.length / 64
  let block (bytes : Str) (i : Nat) : Str := (bytes.drop (i * 64)).take 64
  let s := (List.range fullBlocks).foldl (fun s i => sha256Compress s (block data i)) shaInit
  let tail := shaTail (data.drop (fullBlocks * 64)) data.length
  let s := sha256Compress s (block tail 0)
  let s := if tail.length = 128 then sha256Compress s (block tail 1) else s
  s.words.flatMap wordBytes

/-! ### The hash of a password -/

def hexChars : Str := lit "0123456789abcdef"

def hexDigit (x : UInt8) : UInt8 := hexChars.getD x.toNat 0

/-- What `snprintf` leaves in a buffer: as much of the text as fits, with the zero at its end. It returns the
length of that, not of the whole text. -/
def snprintf (size : Nat) (text : Str) : Str := text.take (size - 1)

def pwDigest (password salt : Str) : Str :=
  (List.range 4999).foldl (fun digest _ => sha256 (digest ++ salt)) (sha256 (salt ++ password))

/-- The string left in `out`. -/
def pwHash (password salt : Str) (outSize : Nat) : Str :=
  if outSize < 16 then []
  else
    let salt := salt.take 64
    let digest := pwDigest (password.take 128) salt
    let hex := digest.flatMap fun (x : UInt8) => [hexDigit ((x >>> 4) &&& 0xF), hexDigit (x &&& 0xF)]
    snprintf outSize (lit "$5$" ++ salt ++ lit "$" ++ hex)

/-- `true` where the source returns 1. -/
def pwVerify (password storedHash : Str) : Bool :=
  if storedHash = [] then password = []
  else if storedHash.head? = some Byte.bang ∨ storedHash.head? = some Byte.star then false
  else if storedHash.take 3 ≠ lit "$5$" then false
  else
    let saltStart := storedHash.drop 3
    if Byte.dollar ∉ saltStart then false
    else
      let salt := saltStart.takeWhile (· ≠ Byte.dollar)
      if salt = [] ∨ 64 < salt.length then false
      else pwHash password salt 160 = storedHash

theorem lit_scheme : lit "$5$" = [0x24, 0x35, 0x24] := by decide +kernel

theorem pwHash_eq (password : Str) {salt : Str} (hlen : salt.length ≤ 64) : ∃ rest,
    pwHash password salt 160 = 0x24 :: 0x35 :: 0x24 :: (salt ++ Byte.dollar :: rest) ∧
      (pwHash password salt 160).length ≤ 159 := by
  have hend : lit "$" = [Byte.dollar] := by decide +kernel
  simp only [pwHash, snprintf, List.take_of_length_le hlen, lit_scheme, hend]
  generalize List.flatMap _ _ = hex
  refine ⟨hex.take (155 - salt.length), ?_, List.length_take_le _ _⟩
  have hsalt : salt.take 156 = salt := List.take_of_length_le (by omega)
  simp [List.take_append, hsalt, show 156 - salt.length = 155 - salt.length + 1 by omega]

theorem pwVerify_pwHash (password : Str) {salt : Str} (hne : salt ≠ []) (hlen : salt.length ≤ 64)
    (hdollar : Byte.dollar ∉ salt) : pwVerify password (pwHash password salt 160) = true := by
  obtain ⟨rest, hhash, -⟩ := pwHash_eq password hlen
  have hsalt : (salt ++ Byte.dollar :: rest).takeWhile (· ≠ Byte.dollar) = salt := by
    rw [List.takeWhile_append_of_pos (by simpa using fun c hc => ne_of_mem_of_not_mem hc hdollar)]
    simp
  simp only [pwVerify, hhash, List.drop_succ_cons, List.drop_zero, hsalt]
  simp [lit_scheme, hne, hlen, Byte.bang, Byte.star]

end Litenix
