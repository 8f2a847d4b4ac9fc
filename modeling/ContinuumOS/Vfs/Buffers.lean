import ContinuumOS.Vfs.Resolution

/-! # The stores into the path buffers

`vfs_normalize_path`, `vfs_resolve_dots` and `split_path` copy a path through
arrays of fixed sizes with `strcpy`, `strcat` and loops. The stores are listed
here in the order of the source; a store outside its array is undefined, so what
follows it in a list has no meaning. -/
namespace ContinuumOS.Vfs.Buffers
open ContinuumOS.Lib.Words ContinuumOS.Libc.String
open ContinuumOS.Ramfs.Nodes
open ContinuumOS.Vfs.Path ContinuumOS.Vfs.Termination ContinuumOS.Vfs.Normalize
open ContinuumOS.Vfs.Mounts ContinuumOS.Vfs.Files
open ContinuumOS.Vfs.Resolution

/-- The arrays; `temp` is that of the fast path for `".."`. -/
inductive Buffer where
  | workingPath
  | component (row : Nat)
  | resolvedPath
  | temp
  | normalizedPath
  | relativePath
  | parentPath
  | name
  deriving DecidableEq, Repr

/-- `components[32][VFS_MAX_NAME]` has 32 rows. -/
def Buffer.size : Buffer → Nat
  | .component row => if row < maxComponents then nameSize else 0
  | .parentPath => parentPathSize
  | .name => nameSize
  | _ => vfsMaxPath

/-- `count` bytes from `first` on. -/
structure Store where
  buffer : Buffer
  first : Nat
  count : Nat
  deriving DecidableEq, Repr

def Store.Inside (s : Store) : Prop := s.first + s.count ≤ s.buffer.size

instance (s : Store) : Decidable s.Inside := inferInstanceAs (Decidable (_ ≤ _))

/-- All of them are inside. -/
def AllInside (stores : List Store) : Prop := ∀ s ∈ stores, s.Inside

instance (stores : List Store) : Decidable (AllInside stores) :=
  inferInstanceAs (Decidable (∀ _ ∈ _, _))

def strcpyStore (b : Buffer) (src : CStr) : Store := ⟨b, 0, src.length + 1⟩

def strcatStore (b : Buffer) (dest src : CStr) : Store := ⟨b, dest.length, src.length + 1⟩

/-! ## `vfs_resolve_dots` -/

def workingPathStores (cwd path : CStr) : List Store :=
  if path.head? = some slash then [strcpyStore .workingPath path]
  else if cwd = rootStr then
    [strcpyStore .workingPath cwd, strcatStore .workingPath cwd path]
  else
    [strcpyStore .workingPath cwd, strcatStore .workingPath cwd [slash],
      strcatStore .workingPath (cwd ++ [slash]) path]

/-- The NUL that `strtok` puts behind a token; `total` is the length of the text
and `last` the part of it that is still to be read. -/
def strtokStores (total : Nat) (last : CStr) : List Store :=
  let start := last.dropWhile fun c => [slash].contains c
  let rest := start.dropWhile fun c => !([slash].contains c)
  if rest = [] then [] else [⟨.workingPath, total - rest.length, 1⟩]

/-- The loop, for as many rounds as it is given. -/
def tokenStores (total : Nat) : Nat → Option CStr → CStr → List CStr → List Store
  | 0, _, _, _ => []
  | _ + 1, none, _, _ => []
  | fuel + 1, some token, last, components =>
    if components.length < maxComponents then
      if token = dotStr then tokenStores total fuel (some token) last components
      else
        let next := strtok [slash] last
        (if token = dotDotStr then [] else [strcpyStore (.component components.length) token]) ++
          strtokStores total last ++
          tokenStores total fuel next.1 next.2 (pushComponent components token)
    else []

def appendStores : CStr → List CStr → List Store
  | _, [] => []
  | resolved, c :: cs =>
    strcatStore .resolvedPath resolved [slash] ::
      strcatStore .resolvedPath (resolved ++ [slash]) c ::
      appendStores (resolved ++ [slash] ++ c) cs

def rebuildStores (components : List CStr) : List Store :=
  if components = [] then [strcpyStore .resolvedPath rootStr]
  else ⟨.resolvedPath, 0, 1⟩ :: appendStores [] components

def resolveDotsStores (fuel : Nat) (cwd path : CStr) : List Store :=
  let working := workingPath cwd path
  let first := strtok [slash] working
  workingPathStores cwd path ++ strtokStores working.length working ++
    tokenStores working.length fuel first.1 first.2 [] ++
    ((resolveDotsLoop fuel first.1 first.2 []).map rebuildStores).getD []

/-! ## `vfs_normalize_path` -/

/-- The copy loop and the NUL behind it. -/
def collapseStores : CStr → Nat → Bool → List Store
  | [], written, _ => [⟨.normalizedPath, written, 1⟩]
  | c :: src, written, lastWasSlash =>
    if written < vfsMaxPath - 1 then
      if c = slash then
        if lastWasSlash then collapseStores src written true
        else ⟨.normalizedPath, written, 1⟩ :: collapseStores src (written + 1) true
      else ⟨.normalizedPath, written, 1⟩ :: collapseStores src (written + 1) false
    else [⟨.normalizedPath, written, 1⟩]

def trimStores (p : CStr) : List Store :=
  (if 1 < p.length ∧ p.getLast? = some slash then [⟨.normalizedPath, p.length - 1, 1⟩] else []) ++
    if p = [] then [strcpyStore .normalizedPath rootStr] else []

def parentStores (cwd : CStr) : List Store :=
  if cwd = rootStr then [strcpyStore .normalizedPath rootStr]
  else strcpyStore .temp cwd :: match strrchr slash cwd with
    | some (i + 1) => [⟨.temp, i + 1, 1⟩, strcpyStore .normalizedPath (cwd.take (i + 1))]
    | _ => [strcpyStore .normalizedPath rootStr]

def cleanUpStores (temp : CStr) : List Store :=
  collapseStores temp 0 false ++ trimStores (collapseSlashes temp 0 false)

def normalizeStores (fuel : Nat) (cwd path : CStr) : List Store :=
  if path = dotStr then [strcpyStore .normalizedPath cwd]
  else if path = dotDotStr then parentStores cwd
  else resolveDotsStores fuel cwd path ++
    ((vfsResolveDots fuel cwd path).map cleanUpStores).getD []

/-! ## `vfs_create` and `vfs_mkdir` -/

/-- `split_path`, as `fs_touch` and `fs_mkdir` call it. -/
def splitPathStores (path : CStr) : List Store :=
  match strrchr slash path with
  | some i =>
    (if i = 0 then [strcpyStore .parentPath rootStr]
      else [⟨.parentPath, 0, i⟩, ⟨.parentPath, i, 1⟩]) ++ [strcpyStore .name (path.drop (i + 1))]
  | none => [strcpyStore .parentPath [], strcpyStore .name path]

/-- Behind the normalisation: the path inside the mount, and its parts if that is
a RAM file system. -/
def belowStores (v : VfsTables) (absolute : CStr) : List Store :=
  match findSlot v absolute with
  | none => []
  | some i =>
    let relative := Path.relativePath ⟨((v.mounts[i]?).getD .zero).mountpoint, true⟩ absolute
    strcpyStore .relativePath relative ::
      if v.opsAt i = some .ramfs then splitPathStores relative else []

/-- All stores of `vfs_create(path)` and `vfs_mkdir(path)`. -/
def makeStores (fuel : Nat) (v : VfsTables) (path : CStr) : List Store :=
  normalizeStores fuel v.currentWorkingDirectory path ++
    ((vfsNormalizePath fuel v.currentWorkingDirectory path).map (belowStores v)).getD []

/-! ## Which paths fit -/

/-- The rows in use after a component has come up: full rows take no more. -/
def keepStep (stack : List CStr) (c : CStr) : List CStr :=
  if stack.length < maxComponents then specStep stack c else stack

/-- The names that a path leaves in the rows. -/
def namesOf (cwd path : CStr) : List CStr :=
  if path = dotDotStr then (components cwd).dropLast
  else (components (workingPath cwd path)).foldl keepStep []

/-- A name that comes up while the rows have room fits one. -/
def RowsFit (stack tokens : List CStr) : Prop := ∀ pre c post, tokens = pre ++ c :: post →
  (pre.foldl keepStep stack).length < maxComponents → c ≠ dotDotStr → c.length < nameSize

/-- The last name and the path to it fit the arrays of a RAM file system. -/
def PartsFit (names : List CStr) : Prop :=
  (joinWords slash names.dropLast).length < parentPathSize ∧
    ∀ c, names.getLast? = some c → c.length < nameSize

/-- The paths that stay inside the buffers. -/
structure PathFits (v : VfsTables) (path : CStr) : Prop where
  text : path = dotDotStr ∨
    (workingPath v.currentWorkingDirectory path).length < vfsMaxPath ∧
      RowsFit [] (components (workingPath v.currentWorkingDirectory path))
  parts : ∀ i m, findSlot v (joinPath (namesOf v.currentWorkingDirectory path)) = some i →
    v.mounts[i]? = some m → m.ops = some .ramfs →
      PartsFit ((namesOf v.currentWorkingDirectory path).drop (components m.mountpoint).length)

section

variable {v : VfsTables} {cwd path : CStr} {stores stores' : List Store} {ts stack : List CStr}

@[simp] theorem allInside_nil : AllInside [] := fun _ hs => nomatch hs

@[simp] theorem allInside_cons {s : Store} : AllInside (s :: stores) ↔ s.Inside ∧ AllInside stores :=
  List.forall_mem_cons

@[simp] theorem allInside_append :
    AllInside (stores ++ stores') ↔ AllInside stores ∧ AllInside stores' :=
  List.forall_mem_append

/-! ## The working path -/

theorem workingPathStores_inside (hcwd : cwd.length < vfsMaxPath) :
    AllInside (workingPathStores cwd path) ↔ (workingPath cwd path).length < vfsMaxPath := by
  unfold workingPathStores workingPath
  split
  · simp only [allInside_cons, allInside_nil, and_true, Store.Inside, strcpyStore, Buffer.size,
      Nat.zero_add, Nat.succ_le_iff]
  · split
    · rename_i hroot
      subst hroot
      simp only [allInside_cons, allInside_nil, and_true, Store.Inside, strcpyStore, strcatStore,
        Buffer.size, List.append_nil, List.length_append]
      omega
    · simp only [allInside_cons, allInside_nil, and_true, Store.Inside, strcpyStore, strcatStore,
        Buffer.size, List.length_append, List.length_singleton]
      omega

theorem strtokStores_inside {total : Nat} (last : CStr) (h : total < vfsMaxPath) :
    AllInside (strtokStores total last) := by
  unfold strtokStores
  simp only
  split
  · exact allInside_nil
  · simp only [allInside_cons, allInside_nil, and_true, Store.Inside, Buffer.size]
    omega

/-! ## The rows -/

theorem keepStep_of_full {c : CStr} (h : ¬ stack.length < maxComponents) : keepStep stack c = stack :=
  if_neg h

theorem foldl_keepStep_of_full (h : ¬ stack.length < maxComponents) :
    ts.foldl keepStep stack = stack := by
  induction ts with
  | nil => rfl
  | cons t ts ih => rw [List.foldl_cons, keepStep_of_full h, ih]

theorem runTokens_keep : ∀ {stack : List CStr}, dotStr ∉ ts →
    runTokens ts stack = some (ts.foldl keepStep stack) := by
  induction ts with
  | nil => intro stack _; rfl
  | cons t ts ih =>
    intro stack hdot
    have ht : t ≠ dotStr := fun he => hdot (by simp [he])
    rw [runTokens, if_neg ht]
    split
    · rename_i hroom
      rw [ih fun hm => hdot (List.mem_cons_of_mem _ hm), List.foldl_cons, keepStep,
        if_pos hroom, specStep, if_neg ht, pushComponent]
    · rename_i hfull
      rw [foldl_keepStep_of_full hfull]

theorem rowsFit_cons {t : CStr} : RowsFit stack (t :: ts) ↔
    (stack.length < maxComponents → t ≠ dotDotStr → t.length < nameSize) ∧
      RowsFit (keepStep stack t) ts := by
  constructor
  · intro h
    exact ⟨h [] t ts rfl, fun pre c post he => h (t :: pre) c post (by rw [he]; rfl)⟩
  · rintro ⟨hfirst, hrest⟩ pre c post he
    cases pre with
    | nil =>
      obtain ⟨rfl, -⟩ := List.cons.inj he
      exact hfirst
    | cons p pre =>
      obtain ⟨rfl, hsplit⟩ := List.cons.inj he
      exact hrest pre c post hsplit

theorem rowsFit_of_full (h : ¬ stack.length < maxComponents) : RowsFit stack ts := by
  intro pre c post _ hroom
  rw [foldl_keepStep_of_full h] at hroom
  exact absurd hroom h

theorem tokenStores_inside {total : Nat} (htotal : total < vfsMaxPath) :
    ∀ {ts stack : List CStr} {token : Option CStr} {last : CStr} {fuel : Nat}, dotStr ∉ ts →
    Pending token last ts → ts.length < fuel →
    (AllInside (tokenStores total fuel token last stack) ↔ RowsFit stack ts) := by
  intro ts
  induction ts with
  | nil =>
    rintro stack token last fuel - ⟨rfl, -⟩ hf
    refine iff_of_true ?_ fun pre c post he => absurd he (by simp)
    cases fuel with
    | zero => exact allInside_nil
    | succ fuel => exact allInside_nil
  | cons t ts ih =>
    rintro stack token last fuel hdot ⟨rfl, hlast⟩ hf
    obtain ⟨fuel, rfl⟩ : ∃ k, fuel = k + 1 := ⟨fuel - 1, by omega⟩
    rw [List.head?_cons, tokenStores]
    by_cases hroom : stack.length < maxComponents
    · have ht : t ≠ dotStr := fun he => hdot (by simp [he])
      rw [List.tail_cons] at hlast
      have hpush : keepStep stack t = pushComponent stack t := by
        rw [keepStep, if_pos hroom, specStep, if_neg ht, pushComponent]
      have hih : AllInside (tokenStores total fuel (strtok [slash] last).1
          (strtok [slash] last).2 (pushComponent stack t)) ↔ RowsFit (pushComponent stack t) ts :=
        ih (fun hm => hdot (List.mem_cons_of_mem _ hm)) (hlast ▸ pending_strtok last)
          (by simpa using hf)
      simp only [if_pos hroom, if_neg ht, allInside_append, strtokStores_inside last htotal,
        and_true, hih, rowsFit_cons, hpush]
      refine and_congr_left fun _ => ?_
      by_cases hdd : t = dotDotStr
      · simp [hdd]
      · simp only [hdd, if_false, allInside_cons, allInside_nil, and_true, Store.Inside, strcpyStore,
          Buffer.size, if_pos hroom, ne_eq, not_false_eq_true, forall_const]
        omega
    · rw [if_neg hroom]
      exact iff_of_true allInside_nil (rowsFit_of_full hroom)

/-! ## The other stores of the normalisation -/

theorem appendStores_inside : ∀ {cs : List CStr} {resolved : CStr},
    resolved.length + (joinWords slash cs).length < vfsMaxPath →
    AllInside (appendStores resolved cs) := by
  intro cs
  induction cs with
  | nil => intro resolved _; exact allInside_nil
  | cons c cs ih =>
    intro resolved h
    rw [joinWords_cons, List.length_cons, List.length_append] at h
    rw [appendStores, allInside_cons, allInside_cons]
    refine ⟨?_, ?_, ih ?_⟩
    · simp only [Store.Inside, strcatStore, Buffer.size, List.length_singleton]
      omega
    · simp only [Store.Inside, strcatStore, Buffer.size, List.length_append, List.length_singleton]
      omega
    · simp only [List.length_append, List.length_singleton]
      omega

theorem rebuildStores_inside {cs : List CStr} (h : (joinPath cs).length < vfsMaxPath) :
    AllInside (rebuildStores cs) := by
  unfold rebuildStores
  split
  · rw [allInside_cons]
    exact ⟨by decide, allInside_nil⟩
  · rename_i hne
    rw [joinPath, if_neg hne] at h
    rw [allInside_cons]
    exact ⟨by decide, appendStores_inside (by simpa using h)⟩

theorem oneByte_inside {n : Nat} (h : n < vfsMaxPath) : Store.Inside ⟨.normalizedPath, n, 1⟩ := h

theorem collapseStores_inside (src : CStr) : ∀ {written : Nat} {last : Bool},
    written < vfsMaxPath → AllInside (collapseStores src written last) := by
  induction src with
  | nil =>
    intro written last h
    rw [collapseStores, allInside_cons]
    exact ⟨oneByte_inside h, allInside_nil⟩
  | cons c src ih =>
    intro written last h
    rw [collapseStores]
    split
    · rename_i hroom
      have hnext : written + 1 < vfsMaxPath := Nat.add_lt_of_lt_sub hroom
      split
      · split
        · exact ih h
        · rw [allInside_cons]
          exact ⟨oneByte_inside h, ih hnext⟩
      · rw [allInside_cons]
        exact ⟨oneByte_inside h, ih hnext⟩
    · rw [allInside_cons]
      exact ⟨oneByte_inside h, allInside_nil⟩

theorem length_collapseSlashes (src : CStr) : ∀ {written : Nat} {last : Bool},
    written < vfsMaxPath → written + (collapseSlashes src written last).length < vfsMaxPath := by
  induction src with
  | nil => intro written last h; exact h
  | cons c src ih =>
    intro written last h
    rw [collapseSlashes]
    split
    · rename_i hroom
      have hnext : written + 1 < vfsMaxPath := Nat.add_lt_of_lt_sub hroom
      have hcopied : ∀ last, written + (collapseSlashes src (written + 1) last).length + 1 <
          vfsMaxPath := fun last => by
        have := @ih _ last hnext
        omega
      split
      · split
        · exact ih h
        · exact hcopied true
      · exact hcopied false
    · exact h

theorem cleanUpStores_inside (temp : CStr) : AllInside (cleanUpStores temp) := by
  have hlen := @length_collapseSlashes temp 0 false (by decide)
  rw [cleanUpStores, allInside_append, trimStores, allInside_append]
  refine ⟨collapseStores_inside temp (by decide), ?_, ?_⟩
  · split
    · rw [allInside_cons]
      exact ⟨oneByte_inside (by omega), allInside_nil⟩
    · exact allInside_nil
  · split
    · rw [allInside_cons]
      exact ⟨by decide, allInside_nil⟩
    · exact allInside_nil

theorem parentStores_inside (hcwd : cwd.length < vfsMaxPath) : AllInside (parentStores cwd) := by
  have hcopy : Store.Inside (strcpyStore .temp cwd) := by
    simp only [Store.Inside, strcpyStore, Buffer.size, Nat.zero_add]
    exact hcwd
  unfold parentStores
  split
  · rw [allInside_cons]
    exact ⟨by decide, allInside_nil⟩
  · rw [allInside_cons]
    refine ⟨hcopy, ?_⟩
    split
    · rename_i i hi
      have hlt : i + 1 < cwd.length := lt_of_strrchr hi
      simp only [allInside_cons, allInside_nil, and_true, Store.Inside, strcpyStore, Buffer.size,
        List.length_take]
      omega
    · rw [allInside_cons]
      exact ⟨by decide, allInside_nil⟩

/-! ## The names that are left -/

theorem namesOf_front (hnot : dotStr ∉ components (workingPath cwd path)) (hpath : path ≠ dotDotStr) :
    ∃ pre post, components (workingPath cwd path) = pre ++ post ∧
      namesOf cwd path = specStack pre := by
  obtain ⟨pre, ⟨post, hpre⟩, hdot, hnames⟩ := runTokens_front (@runTokens_keep _ [] hnot)
  refine ⟨pre, post, hpre.symm, ?_⟩
  rw [namesOf, if_neg hpath, hnames, ← foldl_specStep hdot, specStack]

theorem plainWords_namesOf (hcwd : Canonical cwd)
    (hnot : dotStr ∉ components (workingPath cwd path)) : PlainWords (namesOf cwd path) := by
  by_cases hpath : path = dotDotStr
  · obtain ⟨cs, hcs, rfl⟩ := hcwd.exists_components
    rw [namesOf, if_pos hpath, components_joinPath hcs]
    exact fun c hc => hcs c (List.mem_of_mem_dropLast hc)
  · obtain ⟨pre, post, hsplit, hnames⟩ := namesOf_front hnot hpath
    rw [hnames]
    exact plainWords_foldl (by simp [PlainWords]) fun c hc =>
      mem_components (hsplit ▸ List.mem_append_left post hc)

theorem length_joinPath_dropLast {cs : List CStr} (h : PlainWords cs) :
    (joinPath cs.dropLast).length ≤ (joinPath cs).length := by
  rcases List.eq_nil_or_concat cs with rfl | ⟨init, c, rfl⟩
  · exact Nat.le_refl _
  · rw [List.concat_eq_append] at h ⊢
    rw [List.dropLast_concat]
    exact (length_joinPath_lt h (List.cons_ne_nil _ _)).le

theorem length_namesOf (hcwd : Canonical cwd) (hlen : cwd.length < vfsMaxPath)
    (hnot : dotStr ∉ components (workingPath cwd path))
    (htext : path = dotDotStr ∨ (workingPath cwd path).length < vfsMaxPath) :
    (joinPath (namesOf cwd path)).length < vfsMaxPath := by
  by_cases hpath : path = dotDotStr
  · obtain ⟨cs, hcs, rfl⟩ := hcwd.exists_components
    rw [namesOf, if_pos hpath, components_joinPath hcs]
    exact Nat.lt_of_le_of_lt (length_joinPath_dropLast hcs) hlen
  · obtain ⟨pre, post, hsplit, hnames⟩ := namesOf_front hnot hpath
    rw [hnames]
    exact Nat.lt_of_le_of_lt (length_front hcwd hsplit) (htext.resolve_left hpath)

section

variable {fuel : Nat} (hcwd : Canonical cwd) (hdot : dotStr ∉ components path)
  (hf : (components (workingPath cwd path)).length < fuel)
include hcwd hdot hf

theorem resolveDotsLoop_names (hpath : path ≠ dotDotStr) :
    resolveDotsLoop fuel (strtok [slash] (workingPath cwd path)).1
      (strtok [slash] (workingPath cwd path)).2 [] = some (namesOf cwd path) := by
  rw [namesOf, if_neg hpath]
  exact resolveDotsLoop_some (pending_strtok _)
    (runTokens_keep (dot_not_mem_workingPath hcwd hdot)) fuel hf

theorem vfsNormalizePath_names (hlen : cwd.length < vfsMaxPath)
    (htext : path = dotDotStr ∨ (workingPath cwd path).length < vfsMaxPath) :
    vfsNormalizePath fuel cwd path = some (joinPath (namesOf cwd path)) := by
  have hne : path ≠ dotStr := by
    rintro rfl
    exact hdot (by decide)
  have hnot := dot_not_mem_workingPath hcwd hdot
  rw [vfsNormalizePath, if_neg hne]
  by_cases hpath : path = dotDotStr
  · obtain ⟨cs, hcs, rfl⟩ := hcwd.exists_components
    rw [if_pos hpath, namesOf, if_pos hpath, parentOfCwd_joinPath hcs, components_joinPath hcs]
  · simp only [if_neg hpath, normalizeGeneral, vfsResolveDots,
      resolveDotsLoop_names hcwd hdot hf hpath, Option.map_some, rebuildPath_eq]
    exact congrArg some (cleanup_joinPath (plainWords_namesOf hcwd hnot)
      (length_namesOf hcwd hlen hnot htext))

theorem normalizeStores_inside (hlen : cwd.length < vfsMaxPath) :
    AllInside (normalizeStores fuel cwd path) ↔ path = dotDotStr ∨ (workingPath cwd path).length < vfsMaxPath ∧
      RowsFit [] (components (workingPath cwd path)) := by
  have hne : path ≠ dotStr := by
    rintro rfl
    exact hdot (by decide)
  have hnot := dot_not_mem_workingPath hcwd hdot
  rw [normalizeStores, if_neg hne]
  by_cases hpath : path = dotDotStr
  · rw [if_pos hpath]
    exact iff_of_true (parentStores_inside hlen) (.inl hpath)
  rw [if_neg hpath, or_iff_right hpath, resolveDotsStores]
  simp only [allInside_append, workingPathStores_inside hlen,
    resolveDotsLoop_names hcwd hdot hf hpath, Option.map_some, Option.getD_some]
  constructor
  · rintro ⟨⟨⟨⟨htext, -⟩, hrows⟩, -⟩, -⟩
    exact ⟨htext, (tokenStores_inside htext hnot (pending_strtok _) hf).mp hrows⟩
  · rintro ⟨htext, hrows⟩
    refine ⟨⟨⟨⟨htext, strtokStores_inside _ htext⟩, ?_⟩, ?_⟩, ?_⟩
    · exact (tokenStores_inside htext hnot (pending_strtok _) hf).mpr hrows
    · exact rebuildStores_inside (length_namesOf hcwd hlen hnot (.inr htext))
    · cases vfsResolveDots fuel cwd path with
      | none => exact allInside_nil
      | some temp => exact cleanUpStores_inside temp

end

/-! ## The parts of the path inside the mount -/

theorem splitPathStores_inside {rs : List CStr} (h : PlainWords rs) :
    AllInside (splitPathStores (joinPath rs)) ↔ PartsFit rs := by
  rcases List.eq_nil_or_concat rs with rfl | ⟨init, c, rfl⟩
  · exact iff_of_true (by decide) ⟨by decide, fun _ hc => nomatch hc⟩
  rw [List.concat_eq_append] at h ⊢
  have hs : slash ∉ c := (h c (by simp)).1
  have hjoin : joinPath (init ++ [c]) = joinWords slash init ++ slash :: c := by
    rw [joinPath_of_ne (by simp), joinWords_append, joinWords_cons, joinWords_nil, List.append_nil]
  have hname : (joinWords slash init ++ slash :: c).drop ((joinWords slash init).length + 1) = c := by
    rw [List.drop_append, List.drop_eq_nil_of_le (Nat.le_succ _), Nat.add_sub_cancel_left]
    rfl
  have hlast : (init ++ [c]).getLast? = some c := List.getLast?_concat
  simp only [PartsFit, splitPathStores, hjoin, strrchr_append hs, hname, List.dropLast_concat, hlast,
    Option.some.injEq, forall_eq']
  by_cases hi : (joinWords slash init).length = 0
  · rw [if_pos hi, hi]
    simp only [List.cons_append, List.nil_append, allInside_cons, allInside_nil, and_true,
      Store.Inside, strcpyStore, Buffer.size, rootStr, List.length_singleton, parentPathSize]
    omega
  · rw [if_neg hi]
    simp only [List.cons_append, List.nil_append, allInside_cons, allInside_nil, and_true,
      Store.Inside, strcpyStore, Buffer.size]
    omega

/-- The mountpoint that is found is spelt by the first names of the path, and the
rest of the path by those behind it. -/
theorem relativePath_names {names : List CStr} {i : Nat} (h : PlainWords names)
    (hfind : findSlot v (joinPath names) = some i) : ∃ m, v.mounts[i]? = some m ∧
      relativePath ⟨((v.mounts[i]?).getD .zero).mountpoint, true⟩ (joinPath names) =
        joinPath (names.drop (components m.mountpoint).length) := by
  obtain ⟨m, hm, -, ⟨⟨rest, hrest⟩, hend⟩, hne⟩ := findSlot_some hfind
  refine ⟨m, hm, ?_⟩
  rw [hm, Option.getD_some, relativePath]
  by_cases hroot : m.mountpoint = rootStr
  · rw [if_pos hroot, hroot]
    rfl
  rw [if_neg hroot]
  rw [← hrest, List.getElem?_append_right le_rfl, Nat.sub_self] at hend ⊢
  cases rest with
  | nil =>
    rw [List.append_nil] at hrest
    rw [if_neg (by simp), hrest, components_joinPath h, List.drop_length]
    rfl
  | cons c rest =>
    obtain rfl : c = slash := by
      obtain hend | hend | hend := hend
      · cases hend
      · exact Option.some.inj hend
      · exact absurd hend hroot
    rw [if_pos List.getElem?_cons_zero]
    dsimp only
    rw [List.drop_left]
    have hnames : names ≠ [] := by
      rintro rfl
      have hl := congrArg List.length hrest
      have hpos := List.length_pos_iff.mpr hne
      simp only [joinPath, if_true, rootStr, List.length_append, List.length_cons,
        List.length_nil] at hl
      omega
    rw [joinPath_of_ne hnames] at hrest
    -- the slash behind the mountpoint is in front of one of the names
    have hslash : (joinWords slash names)[m.mountpoint.length]? = some slash := by
      rw [← hrest, List.getElem?_append_right le_rfl, Nat.sub_self]
      rfl
    obtain ⟨ds, ⟨es, rfl⟩, hds, hdrop⟩ := drop_joinWords (fun c hc => (h c hc).1) hslash
    rw [← hrest, List.drop_left] at hdrop
    rw [joinWords_append, hdrop] at hrest
    have hes : PlainWords es := fun c hc => h c (List.mem_append_left _ hc)
    have hmp : m.mountpoint = joinWords slash es := List.append_cancel_right hrest
    have hes0 : es ≠ [] := by
      rintro rfl
      exact hne hmp
    rw [hmp, ← joinPath_of_ne hes0, components_joinPath hes, List.drop_left, hdrop,
      joinPath_of_ne hds]

theorem length_relativePath {m : Mount} {absolute : CStr} (h : absolute ≠ []) :
    (relativePath m absolute).length ≤ absolute.length := by
  unfold relativePath
  split
  · exact Nat.le_refl _
  · split
    · rw [List.length_drop]
      exact Nat.sub_le _ _
    · exact List.length_pos_iff.mpr h

theorem belowStores_inside {names : List CStr} (h : PlainWords names)
    (hlen : (joinPath names).length < vfsMaxPath) : AllInside (belowStores v (joinPath names)) ↔
      ∀ i m, findSlot v (joinPath names) = some i → v.mounts[i]? = some m → m.ops = some .ramfs →
        PartsFit (names.drop (components m.mountpoint).length) := by
  unfold belowStores
  cases hfind : findSlot v (joinPath names) with
  | none => exact iff_of_true allInside_nil fun i m hi => nomatch hi
  | some i =>
    obtain ⟨m, hm, hrel⟩ := relativePath_names h hfind
    have hne : joinPath names ≠ [] := fun he => by
      have := head_joinPath names
      rw [he] at this
      cases this
    have hcopy := length_relativePath (m := ⟨((v.mounts[i]?).getD .zero).mountpoint, true⟩) hne
    have hops : v.opsAt i = m.ops := by
      rw [VfsTables.opsAt, hm]
      rfl
    have hinside : Store.Inside (strcpyStore .relativePath
        (relativePath ⟨((v.mounts[i]?).getD .zero).mountpoint, true⟩ (joinPath names))) := by
      simp only [Store.Inside, strcpyStore, Buffer.size, Nat.zero_add]
      omega
    simp only [allInside_cons, hinside, true_and, hops, Option.some.injEq]
    constructor
    · rintro hsplit _ m' rfl hm' hramfs
      obtain rfl := Option.some.inj (hm.symm.trans hm')
      rw [if_pos hramfs, hrel] at hsplit
      exact (splitPathStores_inside fun c hc => h c (List.mem_of_mem_drop hc)).mp hsplit
    · intro hparts
      split
      · rename_i hramfs
        rw [hrel]
        exact (splitPathStores_inside fun c hc => h c (List.mem_of_mem_drop hc)).mpr
          (hparts i m rfl hm hramfs)
      · exact allInside_nil

/-- **When no path buffer is overrun.** From a canonical working directory of at
most 255 characters and with a path without a `"."`, all stores that `vfs_create`
and `vfs_mkdir` make on the way to the parts of a RAM path are inside their arrays
just when the path is `".."` or its text fits the working buffer and each name
that comes up while the rows have room fits one, and the names inside the mount,
if that is a RAM file system, fit the arrays for the parts. -/
theorem stores_inside_iff {fuel : Nat} (hcwd : Canonical v.currentWorkingDirectory)
    (hlen : v.currentWorkingDirectory.length < vfsMaxPath)
    (hdot : dotStr ∉ components path)
    (hf : (components (workingPath v.currentWorkingDirectory path)).length < fuel) :
    AllInside (makeStores fuel v path) ↔ PathFits v path := by
  have hnot := dot_not_mem_workingPath hcwd hdot
  have hbelow : path = dotDotStr ∨ (workingPath v.currentWorkingDirectory path).length < vfsMaxPath →
      AllInside (((vfsNormalizePath fuel v.currentWorkingDirectory path).map
        (belowStores v)).getD []) = AllInside
          (belowStores v (joinPath (namesOf v.currentWorkingDirectory path))) := fun htext => by
    rw [vfsNormalizePath_names hcwd hdot hf hlen htext, Option.map_some, Option.getD_some]
  rw [makeStores, allInside_append, normalizeStores_inside hcwd hdot hf hlen]
  constructor
  · rintro ⟨htext, hrest⟩
    have hshort := htext.imp_right And.left
    rw [hbelow hshort] at hrest
    exact ⟨htext, (belowStores_inside (plainWords_namesOf hcwd hnot)
      (length_namesOf hcwd hlen hnot hshort)).mp hrest⟩
  · rintro ⟨htext, hparts⟩
    have hshort := htext.imp_right And.left
    rw [hbelow hshort]
    exact ⟨htext, (belowStores_inside (plainWords_namesOf hcwd hnot)
      (length_namesOf hcwd hlen hnot hshort)).mpr hparts⟩

end

/-! ## A RAM file system at the root -/

def ramRoot : VfsTables := (vfsMount vfsInit rootStr fsRamfs 0 .ramfs).2

theorem canonical_ramRoot : Canonical ramRoot.currentWorkingDirectory := ⟨rfl, .inl rfl⟩

/-- A name of 70 characters is copied to a row of 64 bytes. -/
theorem long_name_overruns_row : ¬ ∀ (fuel : Nat) (v : VfsTables) (path : CStr),
    Canonical v.currentWorkingDirectory → v.currentWorkingDirectory.length < vfsMaxPath →
    path.length < vfsMaxPath → dotStr ∉ components path → AllInside (makeStores fuel v path) := by
  intro h
  have hplain : PlainWords [List.replicate 70 0x61] := by
    intro c hc
    obtain rfl := List.mem_singleton.mp hc
    refine ⟨fun hm => ?_, by decide, by decide, by decide⟩
    exact absurd (List.eq_of_mem_replicate hm) (by decide)
  have hdot : dotStr ∉ components (joinPath [List.replicate 70 0x61]) := by
    rw [components_joinPath hplain]
    exact dot_not_mem_plainWords hplain
  have hstores := h 3 ramRoot (joinPath [List.replicate 70 0x61]) canonical_ramRoot (by decide)
    (by decide) hdot
  exact absurd hstores (by decide +kernel)

/-- `"/a/b"` fits. -/
theorem stores_inside_iff_example : PathFits ramRoot [slash, 0x61, slash, 0x62] :=
  (@stores_inside_iff ramRoot [slash, 0x61, slash, 0x62] 3 canonical_ramRoot (by decide)
    (by decide +kernel) (by decide +kernel)).mp (by decide +kernel)

end ContinuumOS.Vfs.Buffers
