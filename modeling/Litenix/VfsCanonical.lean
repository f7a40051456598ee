import Litenix.VfsTree

/-! Canonical paths. `vfs_canonicalize_path` builds its result in place: `dst` here is the part of the
buffer below `dst_idx`, so that the index is its length, and the terminating NUL is left out of both
texts. A component that is kept is appended behind a slash, and `..` moves the index back to the last
slash. On lists of components that is a stack. -/

namespace Litenix.Vfs

/-! ### The function -/

/-- `while (dst_idx > 0 && dst[dst_idx] != '/') dst_idx--`. -/
def backToSlash (dst : List Char) : Nat → Nat
  | 0 => 0
  | i + 1 => if dst[i + 1]? = some '/' then i + 1 else backToSlash dst i

/-- The branch of `..`: the root has no component to remove, and the first slash stays. -/
def removeLast (dst : List Char) : List Char :=
  if 1 < dst.length then
    let i := backToSlash dst (dst.length - 1)
    dst.take (if i = 0 then 1 else i)
  else dst

def canonicalizeComponent (dst comp : List Char) : List Char :=
  if comp = [] ∨ comp = ['.'] then dst
  else if comp = ['.', '.'] then removeLast dst
  else (if 1 < dst.length then dst ++ ['/'] else dst) ++ comp

/-- The loop: a component ends at the next slash, which is skipped, or at the end of the text. -/
def canonicalizeFrom (dst : List Char) : List Char → List Char
  | [] => dst
  | c :: rest =>
    canonicalizeFrom (canonicalizeComponent dst ((c :: rest).takeWhile (· ≠ '/')))
      (((c :: rest).dropWhile (· ≠ '/')).drop 1)
termination_by src => src.length
decreasing_by
  have := (List.dropWhile_sublist (l := c :: rest) (· ≠ '/')).length_le
  simp only [List.length_drop, List.length_cons] at *
  omega

variable (src : List Char)

def vfsCanonicalizePath : List Char :=
  canonicalizeFrom ['/'] (if src.head? = some '/' then src.drop 1 else src)

/-! ### The specification -/

/-- The kept components after one more. -/
def keepComponent (kept : Path) (c : Name) : Path :=
  if c = [] ∨ c = ['.'] then kept else if c = ['.', '.'] then kept.dropLast else kept ++ [c]

/-- The components of a text without the empty ones and `.`, where each `..` removes the last one kept. -/
def canonicalComponents (text : List Char) : Path := (text.splitOn '/').foldl keepComponent []

/-- A slash and the components, joined by slashes. -/
def pathText (path : Path) : List Char := '/' :: ['/'].intercalate path

/-! ### Texts -/

section

variable {path : Path} {c : Name}

theorem pathText_eq (hne : path ≠ []) : pathText path = path.flatMap ('/' :: ·) := by
  unfold pathText
  induction path with
  | nil => exact absurd rfl hne
  | cons c path ih =>
    cases path with
    | nil => simp
    | cons d path =>
      rw [List.intercalate_cons_cons, List.flatMap_cons, ← ih (List.cons_ne_nil d path)]
      simp

theorem pathText_concat (path : Path) (c : Name) : pathText (path ++ [c]) = path.flatMap ('/' :: ·) ++ '/' :: c := by
  rw [pathText_eq (by simp), List.flatMap_append, List.flatMap_singleton]

theorem length_pathText (path : Path) : (pathText path).length = max 1 (textLength path) := by
  cases path with
  | nil => rfl
  | cons c rest =>
    have hsum : (rest.flatMap ('/' :: ·)).length = (rest.map fun c => c.length + 1).sum := by
      simp [List.length_flatMap]
    rw [pathText_eq (List.cons_ne_nil c rest), List.flatMap_cons, List.length_append, hsum, textLength,
      List.map_cons, List.sum_cons, List.length_cons]
    omega

/-- From inside the last component the search stops at the slash before it. -/
theorem backToSlash_append (before : List Char) (hc : '/' ∉ c) :
    ∀ {k : Nat}, k ≤ c.length → backToSlash (before ++ '/' :: c) (before.length + k) = before.length := by
  intro k
  induction k with
  | zero =>
    intro _
    cases hlength : before.length with
    | zero => rfl
    | succ i =>
      have hslash : (before ++ '/' :: c)[i + 1]? = some '/' := by simp [← hlength]
      rw [Nat.add_zero, backToSlash, if_pos hslash]
  | succ k ih =>
  intro hk
  have hchar : (before ++ '/' :: c)[before.length + k + 1]? = (c)[k]? := by
    rw [List.getElem?_append_right (by omega), show before.length + k + 1 - before.length = k + 1 by omega,
      List.getElem?_cons_succ]
  have hne : (before ++ '/' :: c)[before.length + k + 1]? ≠ some '/' := by
    rw [hchar]
    exact fun hslash => hc (List.mem_of_getElem? hslash)
  rw [← Nat.add_assoc, backToSlash, if_neg hne]
  exact ih (by omega)

section

variable (h : Canonical path)

include h

theorem Canonical.concat (hc : c ≠ [] ∧ '/' ∉ c ∧ c ≠ ['.'] ∧ c ≠ ['.', '.']) : Canonical (path ++ [c]) := by
  intro d hd
  rcases List.mem_append.mp hd with hd | hd
  · exact h d hd
  · exact List.mem_singleton.mp hd ▸ hc

theorem one_lt_length_pathText : 1 < (pathText path).length ↔ path ≠ [] := by
  constructor
  · rintro hlt rfl
    simp [pathText] at hlt
  intro hne
  obtain ⟨c, rest, rfl⟩ := List.exists_cons_of_ne_nil hne
  have hc := List.length_pos_of_ne_nil (h c List.mem_cons_self).1
  rw [pathText_eq hne, List.flatMap_cons]
  simp only [List.length_append, List.length_cons]
  omega

/-! ### One component -/

theorem removeLast_pathText : removeLast (pathText path) = pathText path.dropLast := by
  unfold removeLast
  split
  · rename_i hlt
    have hne := (one_lt_length_pathText h).mp hlt
    obtain ⟨rest, c, rfl⟩ := (List.eq_nil_or_concat' path).resolve_left hne
    have hc := (h c (by simp)).2.1
    rw [pathText_concat, List.dropLast_concat]
    have hindex : (rest.flatMap ('/' :: ·) ++ '/' :: c).length - 1 =
        (rest.flatMap ('/' :: ·)).length + c.length := by simp
    rw [hindex, backToSlash_append _ hc (Nat.le_refl _)]
    by_cases hrest : rest = []
    · simp [hrest, pathText]
    have hpos : (rest.flatMap ('/' :: ·)).length ≠ 0 := by
      rw [← pathText_eq hrest, pathText]
      simp
    dsimp only
    rw [if_neg hpos, List.take_left, pathText_eq hrest]
  · rename_i hlt
    have hnil : path = [] := not_not.mp fun hne => hlt ((one_lt_length_pathText h).mpr hne)
    rw [hnil]
    rfl

theorem canonicalizeComponent_pathText (c : Name) :
    canonicalizeComponent (pathText path) c = pathText (keepComponent path c) := by
  unfold canonicalizeComponent keepComponent
  split
  · rfl
  split
  · exact removeLast_pathText h
  rw [pathText_concat]
  by_cases hne : path = []
  · simp [hne, pathText]
  · rw [if_pos ((one_lt_length_pathText h).mpr hne), pathText_eq hne]
    simp

theorem Canonical.keepComponent (hc : '/' ∉ c) : Canonical (keepComponent path c) := by
  unfold Vfs.keepComponent
  split
  · exact h
  rename_i hplain
  split
  · exact fun d hd => h d (List.dropLast_subset path hd)
  · rename_i hdots
    exact h.concat ⟨fun hnil => hplain (.inl hnil), hc, fun hdot => hplain (.inr hdot), hdots⟩

end

theorem textLength_keepComponent (path : Path) (c : Name) :
    textLength (keepComponent path c) ≤ textLength path + (c.length + 1) := by
  unfold keepComponent
  split
  · omega
  split
  · rcases List.eq_nil_or_concat' path with rfl | ⟨rest, d, rfl⟩
    · simp [textLength]
    · simp [textLength]
      omega
  · simp [textLength]

end

/-! ### The loop -/

variable (text : List Char)

theorem slash_notMem_takeWhile : '/' ∉ text.takeWhile (· ≠ '/') := fun hmem => by
  simpa using List.all_eq_true.mp (List.all_takeWhile (p := (· ≠ '/')) (l := text)) '/' hmem

theorem eq_slash_of_head?_dropWhile {text : List Char} {d : Char}
    (h : (text.dropWhile (· ≠ '/')).head? = some d) : d = '/' := by
  have hhead := List.head?_dropWhile_not (· ≠ '/') text
  rw [h] at hhead
  simpa using hhead

/-- The first component ends at the first slash. -/
theorem splitOn_slash : text.splitOn '/' = text.takeWhile (· ≠ '/') ::
      match text.dropWhile (· ≠ '/') with | [] => [] | _ :: rest => rest.splitOn '/' := by
  have htext := List.takeWhile_append_dropWhile (p := (· ≠ '/')) (l := text)
  have hname : ∀ c ∈ text.takeWhile (· ≠ '/'), (c == '/') = false := fun c hc => by
    simpa using fun hslash : c = '/' => slash_notMem_takeWhile text (hslash ▸ hc)
  cases hrest : text.dropWhile (· ≠ '/') with
  | nil =>
    rw [hrest, List.append_nil] at htext
    rw [List.splitOn, ← List.splitOnP_eq_singleton hname, htext]
  | cons d rest =>
    have hd : (d == '/') = true := by simpa using eq_slash_of_head?_dropWhile (by rw [hrest]; rfl)
    conv_lhs => rw [← htext, hrest, List.splitOn, List.splitOnP_append_cons_of_forall_mem hname d hd]
    rfl

theorem canonicalizeFrom_eq (dst src : List Char) :
    canonicalizeFrom dst src = (src.splitOn '/').foldl canonicalizeComponent dst := by
  fun_induction canonicalizeFrom dst src with
  | case1 dst => rfl
  | case2 dst c rest ih =>
    rw [ih, splitOn_slash (c :: rest), List.foldl_cons]
    cases (c :: rest).dropWhile (· ≠ '/') with
    | nil => rfl
    | cons d rest => rfl

theorem not_mem_of_mem_splitOn {text : List Char} : ∀ {c : Name}, c ∈ text.splitOn '/' → '/' ∉ c := by
  unfold List.splitOn
  induction text with
  | nil => simp
  | cons d text ih =>
  intro c hc
  rw [List.splitOnP_cons_eq_if_modifyHead] at hc
  split at hc
  · rcases List.mem_cons.mp hc with rfl | hc
    · simp
    · exact ih hc
  rename_i hd
  cases hsplit : text.splitOnP (· == '/') with
  | nil =>
    rw [hsplit] at hc
    simp at hc
  | cons first others =>
    rw [hsplit] at hc ih
    rcases List.mem_cons.mp hc with rfl | hc
    · have hfirst := ih (c := first) List.mem_cons_self
      simp only [List.mem_cons, not_or]
      exact ⟨fun h => hd (by simp [← h]), hfirst⟩
    · exact ih (List.mem_cons_of_mem first hc)

/-- What the loop over components keeps: the text is that of the components kept so far. -/
theorem foldl_keepComponent {comps : List Name} (hcomps : ∀ c ∈ comps, '/' ∉ c) (h : Canonical path) :
    comps.foldl canonicalizeComponent (pathText path) = pathText (comps.foldl keepComponent path) ∧
      Canonical (comps.foldl keepComponent path) ∧
      textLength (comps.foldl keepComponent path) ≤ textLength path + textLength comps := by
  induction comps generalizing path with
  | nil => exact ⟨rfl, h, Nat.le_refl _⟩
  | cons c comps ih =>
  have hc := hcomps c List.mem_cons_self
  obtain ⟨htext, hcanonical, hlength⟩ :=
    ih (fun d hd => hcomps d (List.mem_cons_of_mem c hd)) (h.keepComponent hc)
  have hstep := textLength_keepComponent path c
  refine ⟨?_, hcanonical, ?_⟩
  · rw [List.foldl_cons, canonicalizeComponent_pathText h, htext, List.foldl_cons]
  · rw [List.foldl_cons, show textLength (c :: comps) = c.length + 1 + textLength comps from rfl]
    omega

theorem foldl_keepComponent_of_canonical (h : Canonical rest) : rest.foldl keepComponent path = path ++ rest := by
  induction rest generalizing path with
  | nil => simp
  | cons c rest ih =>
    obtain ⟨hnil, -, hdot, hdots⟩ := h c List.mem_cons_self
    rw [List.foldl_cons, ih fun d hd => h d (List.mem_cons_of_mem c hd), keepComponent,
      if_neg (by simp [hnil, hdot]), if_neg hdots, List.append_assoc, List.singleton_append]

theorem canonical_nil : Canonical [] := fun _ hc => absurd hc List.not_mem_nil

theorem splitOn_slash_cons : ('/' :: text).splitOn '/' = [] :: text.splitOn '/' := by
  rw [List.splitOn, List.splitOnP_cons_eq_if_modifyHead, if_pos (by simp), List.splitOn]

/-- The slash that `vfs_canonicalize_path` skips first stands before an empty component. -/
theorem vfsCanonicalizePath_eq_foldl :
    vfsCanonicalizePath src = (src.splitOn '/').foldl canonicalizeComponent (pathText []) := by
  unfold vfsCanonicalizePath
  split
  · rename_i hslash
    obtain ⟨rest, rfl⟩ := List.head?_eq_some_iff.mp hslash
    rw [canonicalizeFrom_eq, splitOn_slash_cons]
    rfl
  · rw [canonicalizeFrom_eq]
    rfl

theorem canonical_canonicalComponents : Canonical (canonicalComponents src) :=
  (foldl_keepComponent (fun _ => not_mem_of_mem_splitOn) canonical_nil).2.1

theorem vfsCanonicalizePath_eq : vfsCanonicalizePath src = pathText (canonicalComponents src) := by
  rw [vfsCanonicalizePath_eq_foldl]
  exact (foldl_keepComponent (fun _ => not_mem_of_mem_splitOn) canonical_nil).1

theorem splitOn_pathText (h : Canonical path) (hne : path ≠ []) : (pathText path).splitOn '/' = [] :: path := by
  rw [pathText, splitOn_slash_cons, List.splitOn_intercalate '/' (fun c hc => (h c hc).2.1) hne]

theorem canonicalComponents_pathText (h : Canonical path) : canonicalComponents (pathText path) = path := by
  by_cases hne : path = []
  · rw [hne]
    rfl
  · rw [canonicalComponents, splitOn_pathText h hne, List.foldl_cons]
    exact foldl_keepComponent_of_canonical h

theorem textLength_splitOn : textLength (text.splitOn '/') = text.length + 1 := by
  have hlength := length_pathText (text.splitOn '/')
  rw [pathText, List.intercalate_splitOn, List.length_cons] at hlength
  obtain ⟨c, rest, hsplit⟩ := List.exists_cons_of_ne_nil (List.splitOn_ne_nil '/' text)
  have hpos : 0 < textLength (text.splitOn '/') := by
    rw [hsplit, textLength, List.map_cons, List.sum_cons]
    omega
  omega

theorem length_vfsCanonicalizePath_le : (vfsCanonicalizePath src).length ≤ src.length + 1 := by
  have hkept : textLength (canonicalComponents src) ≤ textLength [] + textLength (src.splitOn '/') :=
    (foldl_keepComponent (fun _ => not_mem_of_mem_splitOn) canonical_nil).2.2
  rw [textLength_splitOn] at hkept
  rw [vfsCanonicalizePath_eq, length_pathText]
  have hnil : textLength [] = 0 := rfl
  omega

/-- A canonical path other than the root ends in the last character of its last component. -/
theorem getLast?_pathText (h : Canonical path) (hne : path ≠ []) : (pathText path).getLast? ≠ some '/' := by
  obtain ⟨rest, c, rfl⟩ := (List.eq_nil_or_concat' path).resolve_left hne
  obtain ⟨hnil, hslash, -⟩ := h c (by simp)
  rw [pathText_concat, List.getLast?_append_of_ne_nil _ (by simp), List.getLast?_cons_of_ne_nil hnil]
  exact fun hlast => hslash (List.mem_of_getLast? hlast)

/-- **Canonical paths.** The result of `vfs_canonicalize_path` is a slash and the joined components of the
specification; it has no empty component, `.` or `..` and, but for the root, no slash at the end; a second call
changes nothing; it is at most one longer than the path. -/
theorem vfsCanonicalizePath_spec (src : List Char) :
    vfsCanonicalizePath src = '/' :: ['/'].intercalate (canonicalComponents src) ∧
    (vfsCanonicalizePath src = ['/'] ∨
      (∀ c ∈ ((vfsCanonicalizePath src).splitOn '/').tail, c ≠ [] ∧ c ≠ ['.'] ∧ c ≠ ['.', '.']) ∧
        (vfsCanonicalizePath src).getLast? ≠ some '/') ∧
    vfsCanonicalizePath (vfsCanonicalizePath src) = vfsCanonicalizePath src ∧
    (vfsCanonicalizePath src).length ≤ src.length + 1 := by
  have hcanonical := canonical_canonicalComponents src
  refine ⟨vfsCanonicalizePath_eq src, ?_, ?_, length_vfsCanonicalizePath_le src⟩
  · rw [vfsCanonicalizePath_eq]
    by_cases hne : canonicalComponents src = []
    · exact .inl (by rw [hne]; rfl)
    rw [splitOn_pathText hcanonical hne]
    refine .inr ⟨fun c hc => ?_, getLast?_pathText hcanonical hne⟩
    obtain ⟨hnil, -, hdot, hdots⟩ := hcanonical c hc
    exact ⟨hnil, hdot, hdots⟩
  · rw [vfsCanonicalizePath_eq src, vfsCanonicalizePath_eq, canonicalComponents_pathText hcanonical]

example : canonicalComponents "a//./bc/../d/".toList = [['a'], ['d']] := by decide

end Litenix.Vfs
