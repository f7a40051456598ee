import Mathlib.Algebra.Order.BigOperators.Group.List
import Mathlib.Data.Nat.Digits.Defs

/-! Formatted text of `libc-lite` (`print_number_to_buf`, `vsnprintf_impl`, `snprintf`), and the time stamps that `klogd`
writes with it. A string is the list of its characters before the end mark. The formatter knows no widths, and the
calendar of `klogd` counts its days from the first of March of the year 0: no time stamp is right. -/

namespace Litenix.Format

/-- `buf[pos++] = c` under its test; `last` is `size - 1`, and `out` what stands before `pos`. -/
def put (last : Nat) (out : List Char) (c : Char) : List Char :=
  if out.length < last then out ++ [c] else out

/-- The loop that fills the `n` entries of `tmp`, the lowest digit first. -/
def fill (base : Nat) : Nat → Nat → List Char
  | 0, _ => []
  | n + 1, val =>
    if val > 0 then
      let digit := val % base
      Char.ofNat (if digit < 10 then '0'.toNat + digit else 'a'.toNat + digit - 10) :: fill base n (val / base)
    else []

def printNumberToBuf (last : Nat) (out : List Char) (val : BitVec 64) (base : Nat) (isNeg : Bool) : List Char :=
  let tmp := if val = 0 then ['0'] else fill base 32 val.toNat
  tmp.reverse.foldl (put last) (if isNeg then put last out '-' else out)

/-- The string is the one that the word points to, `none` for `NULL`. -/
structure Arg where
  word : BitVec 64
  str : Option (List Char) := none

/-- The cases of the `switch`; a number has a width in bits. -/
inductive Conv where
  | char
  | string
  | pointer
  | signed (width : Nat)
  | unsigned (width base : Nat)

/-- `-val` wraps around in the width of `val`. -/
def Conv.print (last : Nat) (out : List Char) (a : Arg) : Conv → List Char
  | .char => put last out (.ofNat (a.word.toNat % 256))
  | .string => (a.str.getD "(null)".toList).foldl (put last) out
  | .pointer => printNumberToBuf last (if out.length + 1 < last then out ++ ['0', 'x'] else out) a.word 16 false
  | .signed width =>
    let val := (a.word.setWidth width).toInt
    printNumberToBuf last out (.ofInt 64 (if val < 0 then (-val).bmod (2 ^ width) else val)) 10 (val < 0)
  | .unsigned width base => printNumberToBuf last out ((a.word.setWidth width).setWidth 64) base false

/-- Where `p` stands: outside a directive, or behind `%`, `%l` or `%ll`. -/
inductive Mode where
  | plain | percent | l | ll

def conversion : Mode → Char → Option Conv
  | .percent, 'c' => some .char
  | .percent, 's' => some .string
  | .percent, 'd' => some (.signed 32)
  | .percent, 'u' => some (.unsigned 32 10)
  | .percent, 'x' => some (.unsigned 32 16)
  | .percent, 'o' => some (.unsigned 32 8)
  | .percent, 'p' => some .pointer
  | .l, 'd' | .ll, 'd' => some (.signed 64)
  | .l, 'u' | .ll, 'u' => some (.unsigned 64 10)
  | .ll, 'x' => some (.unsigned 64 16)
  | _, _ => none

/-- `none` is a read behind the end of the format, as for `%l`, or of the arguments. -/
def vsnprintf (last : Nat) : Mode → List Char → List Arg → List Char → Option (List Char)
  | .plain, [], _, out | .percent, [], _, out => some out
  | _, [], _, _ => none
  | .plain, '%' :: fmt, args, out => vsnprintf last .percent fmt args out
  | .plain, c :: fmt, args, out => vsnprintf last .plain fmt args (put last out c)
  | .percent, '%' :: fmt, args, out => vsnprintf last .plain fmt args (put last out '%')
  | .percent, 'l' :: fmt, args, out => vsnprintf last .l fmt args out
  | .l, 'l' :: fmt, args, out => vsnprintf last .ll fmt args out
  | mode, c :: fmt, args, out =>
    match conversion mode c, args with
    | none, args => vsnprintf last .plain fmt args out
    | some _, [] => none
    | some k, a :: args => vsnprintf last .plain fmt args (k.print last out a)

/-- The buffer through its end mark, and the returned `(int)pos`. -/
def snprintf (size : BitVec 64) (fmt : List Char) (args : List Arg) : Option (List Char × Int) :=
  (vsnprintf (size - 1).toNat .plain fmt args []).map fun out =>
    (if size > 0 then out ++ ['\x00'] else out, (BitVec.ofNat 32 out.length).toInt)

/-! ### `klogd` -/

/-- The year, the month and the day. No sum leaves `int64_t` if the year fits in an `int`. -/
def civilFromDays (z : Int) : Int × Int × Int :=
  let era := (if z ≥ 0 then z else z - 146096).tdiv 146097
  let doe := z - era * 146097
  let yoe := (doe - doe.tdiv 1460 + doe.tdiv 36524 - doe.tdiv 146096).tdiv 365
  let yy := yoe + era * 400
  let doy := doe - (365 * yoe + yoe.tdiv 4 - yoe.tdiv 100)
  let mp := (5 * doy + 2).tdiv 153
  let dd := doy - (153 * mp + 2).tdiv 5 + 1
  let mm := mp + if mp < 10 then 3 else -9
  let yy := yy + if mm ≤ 2 then 1 else 0
  (yy.bmod (2 ^ 32), mm.bmod (2 ^ 32), dd.bmod (2 ^ 32))

/-- `none` for the time is a failure of `gettimeofday`. -/
def formatTimestamp (outSize : BitVec 64) : Option (Int × Int) → Option (List Char)
  | none => (snprintf outSize "[unknown] ".toList []).map Prod.fst
  | some (secs, usec) =>
    let days := secs.tdiv 86400
    let rem := secs - days * 86400
    let days := if rem < 0 then days - 1 else days
    let rem := if rem < 0 then rem + 86400 else rem
    let date := civilFromDays days
    let args := [date.1, date.2.1, date.2.2, rem.tdiv 3600, (rem.tdiv 60).tmod 60, rem.tmod 60, usec.tdiv 1000]
    (snprintf outSize "[%04d-%02d-%02d %02d:%02d:%02d.%03ld] ".toList (args.map fun n => ⟨.ofInt 64 n, none⟩)).map Prod.fst

/-- The proleptic Gregorian calendar. -/
def monthLength (y : Int) (m : Nat) : Nat :=
  if m = 2 then if y % 4 = 0 ∧ (y % 100 ≠ 0 ∨ y % 400 = 0) then 29 else 28
  else if m = 4 ∨ m = 6 ∨ m = 9 ∨ m = 11 then 30 else 31

/-- The days from 1970-01-01 to a date. -/
def dayNumber (y : Int) (m d : Nat) : Int :=
  365 * (y - 1) + (y - 1) / 4 - (y - 1) / 100 + (y - 1) / 400 + ((List.range' 1 (m - 1)).map (monthLength y)).sum + d - 719163

/-- A number in at least `width` characters, as `%0` asks for it. -/
def padded (width : Nat) (n : Int) : List Char :=
  let sign := if n < 0 then ['-'] else []
  let digits := Nat.toDigits 10 n.natAbs
  sign ++ List.replicate (width - sign.length - digits.length) '0' ++ digits

/-- The time stamp for a date, a second of the day and a microsecond. -/
def stamp (y : Int) (m d sec usec : Nat) : List Char :=
  '[' :: padded 4 y ++ '-' :: padded 2 m ++ '-' :: padded 2 d ++ ' ' :: padded 2 (sec / 3600 : Nat) ++
    ':' :: padded 2 (sec / 60 % 60 : Nat) ++ ':' :: padded 2 (sec % 60 : Nat) ++ '.' :: padded 3 (usec / 1000 : Nat) ++ [']', ' ']

theorem foldl_put (last : Nat) (cs out : List Char) : cs.foldl (put last) out = out ++ cs.take (last - out.length) := by
  induction cs generalizing out with
  | nil => simp
  | cons c cs ih =>
    rw [List.foldl_cons, ih, put]
    split
    · obtain ⟨n, hn⟩ : ∃ n, last - out.length = n + 1 := ⟨last - out.length - 1, by omega⟩
      rw [hn, List.take_succ_cons, List.length_append, ← Nat.sub_sub, hn, List.append_assoc]
      rfl
    · rw [show last - out.length = 0 by omega, List.take_zero, List.take_zero]

/-- The flag `0` ends each directive, and the rest of it is text. -/
theorem formatTimestamp_eq (size : BitVec 64) (secs usec : Int) : ∃ text,
    text = "[4d-2d-2d 2d:2d:2d.3ld] ".toList.take (size - 1).toNat ∧
      formatTimestamp size (some (secs, usec)) = some (if size > 0 then text ++ ['\x00'] else text) :=
  ⟨_, foldl_put (size - 1).toNat "[4d-2d-2d 2d:2d:2d.3ld] ".toList [], rfl⟩

theorem not_mem_stamp (y : Int) (m d sec usec : Nat) : 'd' ∉ stamp y m d sec usec := by
  have hpadded (width : Nat) (n : Int) : 'd' ∉ padded width n := by
    have hdigits : 'd' ∉ Nat.toDigits 10 n.natAbs := fun hmem =>
      absurd (Nat.isDigit_of_mem_toDigits (by norm_num) (by norm_num) hmem) (by decide)
    unfold padded
    dsimp only
    split_ifs <;> simp [hdigits]
  simp [stamp, hpadded]

theorem civilFromDays_year (z : Int) : ∃ era yy, (civilFromDays z).1 = yy.bmod (2 ^ 32) ∧
    146097 * era ≤ z ∧ z < 146097 * (era + 1) ∧ 400 * era ≤ yy ∧ yy ≤ 400 * (era + 1) + 1 := by
  refine ⟨(if z ≥ 0 then z else z - 146096).tdiv 146097, _, rfl, ?_⟩
  have hera : 0 ≤ z - (if z ≥ 0 then z else z - 146096).tdiv 146097 * 146097 ∧
      z - (if z ≥ 0 then z else z - 146096).tdiv 146097 * 146097 < 146097 := by
    rw [Int.tdiv_eq_ediv, show Int.sign 146097 = 1 from rfl]
    split_ifs <;> omega
  generalize (if z ≥ 0 then z else z - 146096).tdiv 146097 = era at *
  have hyoe {doe : Int} (h : 0 ≤ doe ∧ doe < 146097) :
      0 ≤ (doe - doe.tdiv 1460 + doe.tdiv 36524 - doe.tdiv 146096).tdiv 365 ∧
        (doe - doe.tdiv 1460 + doe.tdiv 36524 - doe.tdiv 146096).tdiv 365 ≤ 400 := by
    simp only [Int.tdiv_eq_ediv_of_nonneg h.1]
    rw [Int.tdiv_eq_ediv_of_nonneg (by omega)]
    omega
  have := hyoe hera
  split <;> omega

/-- The year is too small by about 1970, for the start of the count is not moved to the year 0. -/
theorem civilFromDays_ne (hdate : 1 ≤ m ∧ m ≤ 12 ∧ 1 ≤ d ∧ d ≤ monthLength y m) :
    (civilFromDays (dayNumber y m d)).1 ≠ y := by
  have hlength (i : Nat) : monthLength y i ≤ 31 := by
    unfold monthLength
    split_ifs <;> omega
  have hmonths : ((List.range' 1 (m - 1)).map (monthLength y)).sum ≤ 11 * 31 := by
    refine (List.sum_le_card_nsmul _ 31 fun n hn => ?_).trans ?_
    · obtain ⟨i, -, rfl⟩ := List.mem_map.mp hn
      exact hlength i
    · simp
      omega
  have hday := hlength m
  intro heq
  obtain ⟨era, yy, hyy, hera⟩ := civilFromDays_year (dayNumber y m d)
  have hmod : yy % (2 ^ 32 : Nat) = y % (2 ^ 32 : Nat) := by rw [← Int.bmod_emod, ← hyy, heq]
  unfold dayNumber at hera
  omega

/-- **Time stamps.** For no date and time does the calendar of the code give the date, and for none is the text right. -/
theorem time_stamps_wrong (y : Int) (m d sec usec : Nat) (size : BitVec 64)
    (hdate : 1 ≤ m ∧ m ≤ 12 ∧ 1 ≤ d ∧ d ≤ monthLength y m) :
    civilFromDays (dayNumber y m d) ≠ (y, (m : Int), (d : Int)) ∧
      formatTimestamp size (some (86400 * dayNumber y m d + sec, usec)) ≠ some (stamp y m d sec usec ++ ['\x00']) := by
  refine ⟨fun heq => civilFromDays_ne hdate (by rw [heq]), fun heq => ?_⟩
  obtain ⟨text, htext, hformat⟩ := formatTimestamp_eq size (86400 * dayNumber y m d + sec) usec
  have hparts : text = stamp y m d sec usec ∨ text = stamp y m d sec usec ++ ['\x00'] := by
    rw [hformat] at heq
    split at heq
    · exact .inl (List.append_cancel_right (Option.some.inj heq))
    · exact .inr (Option.some.inj heq)
  have hno : 'd' ∉ text ∧ 3 ≤ text.length := by
    have hnot := not_mem_stamp y m d sec usec
    have hlength : 3 ≤ (stamp y m d sec usec).length := by
      simp [stamp]
      omega
    rcases hparts with rfl | rfl
    · exact ⟨hnot, hlength⟩
    · simp [hnot]
      omega
  obtain ⟨k, hk⟩ : ∃ k, (size - 1).toNat = k + 3 := by
    have := hno.2
    rw [htext, List.length_take] at this
    exact ⟨(size - 1).toNat - 3, by omega⟩
  rw [htext, hk] at hno
  exact hno.1 (by simp)

theorem time_stamps_wrong_epoch : civilFromDays (dayNumber 1970 1 1) ≠ (1970, 1, 1) ∧
    formatTimestamp 64 (some (86400 * dayNumber 1970 1 1 + 0, 0)) ≠ some (stamp 1970 1 1 0 0 ++ ['\x00']) :=
  time_stamps_wrong 1970 1 1 0 0 64 (by decide)

/-- The epoch is taken for the first of March of the year 0. -/
theorem epoch_stamp : dayNumber 1970 1 1 = 0 ∧ civilFromDays 0 = (0, 3, 1) ∧
    formatTimestamp 64 (some (0, 0)) = some "[4d-2d-2d 2d:2d:2d.3ld] \x00".toList ∧
      stamp 1970 1 1 0 0 = "[1970-01-01 00:00:00.000] ".toList := by
  decide

/-! ### The end of the buffer -/

variable {last : Nat} {out : List Char}

section

variable (h : out.length ≤ last)

include h

theorem length_foldl_put_le (cs : List Char) : (cs.foldl (put last) out).length ≤ last := by
  rw [foldl_put, List.length_append, List.length_take]
  omega

theorem length_printNumberToBuf_le (val : BitVec 64) (base : Nat) (isNeg : Bool) :
    (printNumberToBuf last out val base isNeg).length ≤ last := by
  cases isNeg with
  | false => exact length_foldl_put_le h _
  | true => exact length_foldl_put_le (length_foldl_put_le h ['-']) _

theorem Conv.length_print_le (a : Arg) (k : Conv) : (k.print last out a).length ≤ last := by
  cases k with
  | char => exact length_foldl_put_le h [_]
  | string => exact length_foldl_put_le h _
  | pointer =>
    refine length_printNumberToBuf_le ?_ _ _ _
    split
    · rw [List.length_append]
      exact Nat.succ_le_of_lt ‹_›
    · exact h
  | signed width => exact length_printNumberToBuf_le h _ _ _
  | unsigned width base => exact length_printNumberToBuf_le h _ _ _

theorem length_vsnprintf_le (hout : vsnprintf last mode fmt args out = some text) : text.length ≤ last := by
  have hput (c : Char) {out : List Char} (h : out.length ≤ last) : (put last out c).length ≤ last :=
    length_foldl_put_le h [c]
  fun_induction vsnprintf last mode fmt args out <;> grind [Conv.length_print_le]

end

/-- **No overflow.** Whatever the format and its arguments are, `snprintf` fills at most `size` bytes, the last of them
with the end mark. A `size` of 0 has no such bound. -/
theorem snprintf_fits (size : BitVec 64) (fmt : List Char) (args : List Arg) (text : List Char) (ret : Int)
    (hsize : 0 < size) (hout : snprintf size fmt args = some (text, ret)) :
    text.length ≤ size.toNat ∧ text.getLast? = some '\x00' := by
  obtain ⟨out, hrun, htext⟩ := Option.map_eq_some_iff.mp hout
  obtain ⟨rfl, -⟩ := Prod.mk.inj htext
  have hlen : out.length ≤ (size - 1).toNat := length_vsnprintf_le (Nat.zero_le _) hrun
  rw [if_pos hsize]
  have : (size - 1).toNat + 1 = size.toNat := by bv_omega
  simp
  omega

theorem snprintf_fits_three : ['4', '2', '\x00'].length ≤ (3#64).toNat ∧ ['4', '2', '\x00'].getLast? = some '\x00' :=
  snprintf_fits 3 "%d7".toList [⟨42, none⟩] _ 2 (by decide) (by decide +kernel)

end Litenix.Format
