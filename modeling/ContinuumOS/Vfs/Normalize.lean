import ContinuumOS.Vfs.Termination

/-! # Path normalisation computes one fold

On paths without a `"."` component (other than the whole path `"."`) the two
fast paths, the token loop, the rebuild and the slash clean-up together compute
the `'/'`-joined stack of components (`normalForm`). The result is canonical
and a fixed point, so `vfs_chdir` keeps the working directory canonical. -/
namespace ContinuumOS.Vfs.Normalize
open ContinuumOS.Lib.Words ContinuumOS.Libc.String
open ContinuumOS.Vfs.Path ContinuumOS.Vfs.Termination

/-! ## Canonical paths -/

/-- A component that names something. -/
def Plain (c : CStr) : Prop := c ≠ [] ∧ c ≠ dotStr ∧ c ≠ dotDotStr

/-- Starts with a slash and, unless it is the root, has only plain components
between its slashes and after the last one. -/
def Canonical (p : CStr) : Prop :=
  p.head? = some slash ∧ (p = rootStr ∨ ∀ c ∈ p.tail.splitOn slash, Plain c)

/-- The path that a stack of components spells. -/
def joinPath (cs : List CStr) : CStr := if cs = [] then rootStr else joinWords slash cs

/-- Plain components without a slash: what a canonical path is made of. -/
def PlainWords (cs : List CStr) : Prop := ∀ c ∈ cs, slash ∉ c ∧ Plain c

theorem isWord_iff {c : CStr} : IsWord (fun x => [slash].contains x) c ↔ c ≠ [] ∧ slash ∉ c := by
  refine and_congr_right fun _ => ⟨fun h hm => ?_, fun h x hx => ?_⟩
  · simpa using h slash hm
  · have : x ≠ slash := fun he => h (he ▸ hx)
    simpa using this

theorem PlainWords.isWord {cs : List CStr} (h : PlainWords cs) :
    ∀ c ∈ cs, IsWord (fun x => [slash].contains x) c :=
  fun c hc => isWord_iff.mpr ⟨(h c hc).2.1, (h c hc).1⟩

theorem joinWords_eq_intercalate : ∀ (cs : List CStr), cs ≠ [] →
    joinWords slash cs = slash :: [slash].intercalate cs
  | [c], _ => by simp [List.intercalate]
  | c :: d :: cs, _ => by
    have ih := joinWords_eq_intercalate (d :: cs) (by simp)
    rw [joinWords_cons, ih]
    simp [List.intercalate]

theorem canonical_joinPath {cs : List CStr} (h : PlainWords cs) : Canonical (joinPath cs) := by
  unfold joinPath
  split
  · exact ⟨rfl, .inl rfl⟩
  · rename_i hne
    rw [joinWords_eq_intercalate _ hne]
    refine ⟨rfl, .inr ?_⟩
    rw [List.tail_cons, List.splitOn_intercalate slash (fun c hc => (h c hc).1) hne]
    exact fun c hc => (h c hc).2

theorem Canonical.exists_components {p : CStr} (h : Canonical p) :
    ∃ cs, PlainWords cs ∧ p = joinPath cs := by
  obtain ⟨hhead, hroot | hall⟩ := h
  · exact ⟨[], by simp [PlainWords], by simp [joinPath, hroot]⟩
  · obtain ⟨tl, rfl⟩ : ∃ tl, p = slash :: tl := by
      cases p with
      | nil => cases hhead
      | cons c tl => exact ⟨tl, by simpa using hhead⟩
    rw [List.tail_cons] at hall
    have hne : tl.splitOn slash ≠ [] := List.splitOnP_ne_nil _ _
    refine ⟨tl.splitOn slash, fun c hc => ⟨?_, hall c hc⟩, ?_⟩
    · have hw : c ∈ words (fun x => x == slash) tl :=
        List.mem_filter.mpr ⟨hc, by simpa using (hall c hc).1⟩
      exact fun hm => by simpa using (isWord_of_mem_words hw).2 slash hm
    · rw [joinPath, if_neg hne, joinWords_eq_intercalate _ hne, List.intercalate_splitOn]

theorem components_joinPath {cs : List CStr} (h : PlainWords cs) :
    components (joinPath cs) = cs := by
  unfold joinPath components
  split
  · rename_i hc; subst hc; decide
  · exact words_joinWords (by simp) cs h.isWord

theorem head_joinPath (cs : List CStr) : (joinPath cs).head? = some slash := by
  unfold joinPath
  split
  · rfl
  · rename_i hne
    obtain ⟨c, cs, rfl⟩ := List.exists_cons_of_ne_nil hne
    simp

/-! ## The specification -/

/-- One component of the specification: a `"."` does nothing, `".."` drops the
last name, a name is put on the stack. -/
def specStep (stack : List CStr) (c : CStr) : List CStr :=
  if c = dotStr then stack else if c = dotDotStr then stack.dropLast else stack ++ [c]

/-- The stack of names after the components of a path. -/
def specStack (cs : List CStr) : List CStr := cs.foldl specStep []

/-- What normalisation is for: the joined stack of the components of the path,
taken from the root or from the working directory. -/
def normalForm (cwd path : CStr) : CStr :=
  joinPath (specStack (components (workingPath cwd path)))

/-- The paths the specification speaks of, relative to a working directory: no
`"."` component but the whole path, every component inside a row of 64 bytes,
the joined text inside the path buffer, and a stack with a free row whenever a
component is still to come. -/
structure PathOk (cwd path : CStr) : Prop where
  noDot : path = dotStr ∨ dotStr ∉ components path
  rows : ∀ c ∈ components (workingPath cwd path), c.length < 64
  buffer : (workingPath cwd path).length < vfsMaxPath
  stack : ∀ pre c post, components (workingPath cwd path) = pre ++ c :: post →
    (specStack pre).length < maxComponents

theorem foldl_specStep {cs : List CStr} : ∀ {stack : List CStr}, dotStr ∉ cs →
    cs.foldl specStep stack = cs.foldl pushComponent stack := by
  induction cs with
  | nil => intros; rfl
  | cons c cs ih =>
    intro stack h
    have hc : c ≠ dotStr := fun he => h (by simp [he])
    simp only [List.foldl_cons]
    rw [ih fun hm => h (by simp [hm])]
    simp [specStep, pushComponent, hc]

/-- The stack holds only names: `".."` never enters it, and `"."` does not occur. -/
theorem plainWords_foldl {cs : List CStr} : ∀ {stack : List CStr}, PlainWords stack →
    (∀ c ∈ cs, c ≠ [] ∧ slash ∉ c) → PlainWords (cs.foldl specStep stack) := by
  induction cs with
  | nil => intro stack h _; exact h
  | cons c cs ih =>
    intro stack h hw
    refine ih ?_ fun d hd => hw d (by simp [hd])
    unfold specStep
    split
    · exact h
    · split
      · exact fun d hd => h d (List.dropLast_subset _ hd)
      · rename_i h₁ h₂
        intro d hd
        rcases List.mem_append.mp hd with hd | hd
        · exact h d hd
        · obtain rfl : d = c := by simpa using hd
          have := hw d (by simp)
          exact ⟨this.2, this.1, h₁, h₂⟩

theorem mem_components {s c : CStr} (h : c ∈ components s) : c ≠ [] ∧ slash ∉ c :=
  isWord_iff.mp (isWord_of_mem_words h)

theorem plainWords_specStack (s : CStr) : PlainWords (specStack (components s)) :=
  plainWords_foldl (by simp [PlainWords]) fun _ hc => mem_components hc

theorem canonical_normalForm (cwd path : CStr) : Canonical (normalForm cwd path) :=
  canonical_joinPath (plainWords_specStack _)

theorem length_joinWords_foldl (cs : List CStr) : ∀ stack : List CStr,
    (joinWords slash (cs.foldl specStep stack)).length ≤
      (joinWords slash stack).length + (joinWords slash cs).length := by
  induction cs with
  | nil => intro stack; simp
  | cons c cs ih =>
    intro stack
    rw [List.foldl_cons]
    refine (ih _).trans ?_
    have hstep : (joinWords slash (specStep stack c)).length ≤
        (joinWords slash stack).length + (c.length + 1) := by
      unfold specStep
      split
      · omega
      · split
        · rcases List.eq_nil_or_concat stack with rfl | ⟨init, l, rfl⟩
          · simp
          · simp [joinWords_append]
            omega
        · simp [joinWords_append]
    simp only [joinWords_cons, List.length_cons, List.length_append]
    omega

theorem components_cons_slash (s : CStr) : components (slash :: s) = components s :=
  words_cons_sep (by simp) s

theorem length_normalForm {cwd : CStr} (path : CStr) (hcwd : Canonical cwd) :
    (normalForm cwd path).length ≤ (workingPath cwd path).length := by
  obtain ⟨s, hs⟩ : ∃ s, workingPath cwd path = slash :: s := by
    unfold workingPath
    split
    · rename_i h
      cases path with
      | nil => cases h
      | cons c path => exact ⟨path, by simpa using h⟩
    · obtain ⟨hhead, -⟩ := hcwd
      cases cwd with
      | nil => cases hhead
      | cons c cwd =>
        obtain rfl : c = slash := by simpa using hhead
        exact ⟨_, rfl⟩
  have h₁ := length_joinWords_foldl (components (slash :: s)) []
  have h₂ := length_joinWords_words (p := fun c => [slash].contains c) slash s
  have h₃ : components (slash :: s) = words (fun c => [slash].contains c) s :=
    components_cons_slash s
  unfold normalForm joinPath
  rw [hs]
  split
  · simp [rootStr]
  · simp only [joinWords_nil, List.length_nil, Nat.zero_add] at h₁
    rw [h₃] at h₁
    simp only [specStack, h₃, List.length_cons]
    omega

/-! ## The code computes the specification -/

theorem rebuildPath_eq (cs : List CStr) : rebuildPath cs = joinPath cs := by
  have hfold : ∀ (cs : List CStr) (acc : CStr),
      cs.foldl (fun resolved c => resolved ++ [slash] ++ c) acc = acc ++ joinWords slash cs := by
    intro cs
    induction cs with
    | nil => simp
    | cons c cs ih => intro acc; rw [List.foldl_cons, ih]; simp
  unfold rebuildPath joinPath
  split
  · rfl
  · simpa using hfold cs []

theorem collapseSlashes_word {w : CStr} : ∀ {rest : CStr} {n : Nat} {last : Bool},
    w ≠ [] → slash ∉ w → n + w.length < vfsMaxPath →
    collapseSlashes (w ++ rest) n last = w ++ collapseSlashes rest (n + w.length) false := by
  induction w with
  | nil => intro rest n last h; exact absurd rfl h
  | cons c w ih =>
    intro rest n last _ hs hn
    have hc : c ≠ slash := fun he => hs (by simp [he])
    have hroom : n < vfsMaxPath - 1 := by
      simp only [List.length_cons, vfsMaxPath] at hn ⊢; omega
    simp only [List.cons_append, collapseSlashes, if_pos hroom, if_neg hc]
    by_cases hw : w = []
    · subst hw; simp
    · rw [ih hw (fun hm => hs (by simp [hm])) (by simp only [List.length_cons] at hn; omega)]
      rw [show n + 1 + w.length = n + (c :: w).length by simp; omega]

theorem collapseSlashes_joinWords {cs : List CStr} : ∀ {n : Nat},
    (∀ c ∈ cs, c ≠ [] ∧ slash ∉ c) → n + (joinWords slash cs).length < vfsMaxPath →
    collapseSlashes (joinWords slash cs) n false = joinWords slash cs := by
  induction cs with
  | nil => intros; simp [collapseSlashes]
  | cons c cs ih =>
    intro n h hn
    simp only [joinWords_cons, List.length_cons, List.length_append] at hn ⊢
    have hroom : n < vfsMaxPath - 1 := by
      simp only [vfsMaxPath] at hn ⊢; omega
    obtain ⟨hc, hs⟩ := h c (by simp)
    simp only [collapseSlashes, if_pos hroom, Bool.false_eq_true, if_false, if_true]
    rw [collapseSlashes_word hc hs (by omega), ih (fun d hd => h d (by simp [hd])) (by omega)]

theorem joinWords_getLast {cs : List CStr} (hne : cs ≠ []) (h : ∀ c ∈ cs, c ≠ [] ∧ slash ∉ c) :
    (joinWords slash cs).getLast? ≠ some slash := by
  obtain ⟨init, c, rfl⟩ := List.eq_nil_or_concat cs |>.resolve_left hne
  obtain ⟨hc, hs⟩ := h c (by simp)
  rw [List.concat_eq_append, joinWords_append, joinWords_cons, joinWords_nil, List.append_nil,
    ← List.singleton_append, ← List.append_assoc, List.getLast?_append]
  cases hl : c.getLast? with
  | none => exact absurd (List.getLast?_eq_none_iff.mp hl) hc
  | some l =>
    intro he
    obtain rfl : l = slash := by simpa using he
    exact hs (List.mem_of_getLast? hl)

theorem cleanup_joinPath {cs : List CStr} (h : PlainWords cs)
    (hlen : (joinPath cs).length < vfsMaxPath) :
    trimSlash (collapseSlashes (joinPath cs) 0 false) = joinPath cs := by
  have hw : ∀ c ∈ cs, c ≠ [] ∧ slash ∉ c := fun c hc => ⟨(h c hc).2.1, (h c hc).1⟩
  by_cases hne : cs = []
  · subst hne; decide
  · rw [joinPath, if_neg hne] at hlen ⊢
    rw [collapseSlashes_joinWords hw (by simpa using hlen)]
    have hcons : joinWords slash cs ≠ [] := by
      rw [joinWords_eq_intercalate _ hne]; simp
    simp [trimSlash, joinWords_getLast hne hw, hcons]

theorem runTokens_eq_some {ts : List CStr} : ∀ {stack : List CStr}, dotStr ∉ ts →
    (∀ pre c post, ts = pre ++ c :: post →
      (pre.foldl pushComponent stack).length < maxComponents) →
    runTokens ts stack = some (ts.foldl pushComponent stack) := by
  induction ts with
  | nil => intros; rfl
  | cons t ts ih =>
    intro stack hdot hroom
    have ht : t ≠ dotStr := fun he => hdot (by simp [he])
    have hlen : stack.length < maxComponents := hroom [] t ts rfl
    rw [runTokens, if_pos hlen, if_neg ht, List.foldl_cons]
    exact ih (fun hm => hdot (by simp [hm]))
      fun pre c post he => hroom (t :: pre) c post (by rw [he]; rfl)

/-- The general path computes the normal form when no `"."` is in the joined
path. -/
theorem normalizeGeneral_eq {cwd : CStr} (path : CStr) (hcwd : Canonical cwd)
    (hdot : dotStr ∉ components (workingPath cwd path))
    (hlen : (workingPath cwd path).length < vfsMaxPath)
    (hroom : ∀ pre c post, components (workingPath cwd path) = pre ++ c :: post →
      (specStack pre).length < maxComponents)
    (fuel : Nat) (hf : (components (workingPath cwd path)).length < fuel) :
    normalizeGeneral fuel cwd path = some (normalForm cwd path) := by
  have hroom' : ∀ pre c post, components (workingPath cwd path) = pre ++ c :: post →
      (pre.foldl pushComponent []).length < maxComponents := by
    intro pre c post he
    have hpre : dotStr ∉ pre := fun hm => hdot (by rw [he]; simp [hm])
    rw [← foldl_specStep hpre]
    exact hroom pre c post he
  have hrun := runTokens_eq_some hdot hroom'
  rw [← foldl_specStep hdot] at hrun
  simp only [normalizeGeneral, vfsResolveDots, Option.map_some,
    resolveDotsLoop_some (pending_strtok _) hrun fuel hf, rebuildPath_eq]
  have hshort := length_normalForm path hcwd
  exact congrArg some
    (cleanup_joinPath (plainWords_specStack _) (Nat.lt_of_le_of_lt hshort hlen))

theorem head_workingPath {cwd : CStr} (h : Canonical cwd) (path : CStr) :
    (workingPath cwd path).head? = some slash := by
  unfold workingPath
  split
  · assumption
  · obtain ⟨hhead, -⟩ := h
    cases cwd with
    | nil => cases hhead
    | cons c cwd => simpa using hhead

theorem workingPath_of_absolute (cwd : CStr) {p : CStr} (h : p.head? = some slash) :
    workingPath cwd p = p := if_pos h

theorem ne_of_absolute {p : CStr} (h : p.head? = some slash) : p ≠ dotStr ∧ p ≠ dotDotStr :=
  ⟨fun he => by rw [he] at h; exact absurd h (by decide),
    fun he => by rw [he] at h; exact absurd h (by decide)⟩

theorem components_workingPath {cwd path : CStr} (h : path.head? ≠ some slash) :
    components (workingPath cwd path) = components cwd ++ components path := by
  unfold workingPath components
  rw [if_neg h]
  split
  · rename_i hr
    rw [hr, List.append_nil, rootStr, List.singleton_append, words_cons_sep (by simp)]
    rfl
  · rw [List.append_assoc, List.singleton_append, words_append_sep _ _ (by simp)]

theorem specStack_plainWords : ∀ {cs : List CStr}, PlainWords cs → specStack cs = cs := by
  have key : ∀ (cs stack : List CStr), PlainWords cs → cs.foldl specStep stack = stack ++ cs := by
    intro cs
    induction cs with
    | nil => simp
    | cons c cs ih =>
      intro stack h
      obtain ⟨-, -, h₁, h₂⟩ := h c (by simp)
      rw [List.foldl_cons, ih _ fun d hd => h d (by simp [hd])]
      simp [specStep, h₁, h₂]
  intro cs h
  exact key cs [] h

/-- The components of a canonical path that `strtok` still has to read never
find the stack full, if the path has at most 32 of them. -/
theorem room_of_plainWords {cs : List CStr} (h : PlainWords cs) (hlen : cs.length ≤ maxComponents) :
    ∀ pre c post, cs = pre ++ c :: post → (specStack pre).length < maxComponents := by
  intro pre c post he
  have hpre : PlainWords pre := fun d hd => h d (by rw [he]; simp [hd])
  rw [specStack_plainWords hpre]
  rw [he] at hlen
  simp only [List.length_append, List.length_cons] at hlen
  omega

theorem dot_not_mem_plainWords {cs : List CStr} (h : PlainWords cs) : dotStr ∉ cs :=
  fun hm => (h _ hm).2.2.1 rfl

theorem normalizeGeneral_joinPath {cwd : CStr} {cs : List CStr} (hcwd : Canonical cwd)
    (h : PlainWords cs) (hlen : (joinPath cs).length < vfsMaxPath)
    (hcount : cs.length ≤ maxComponents) (fuel : Nat) (hf : cs.length < fuel) :
    normalizeGeneral fuel cwd (joinPath cs) = some (joinPath cs) := by
  have habs : workingPath cwd (joinPath cs) = joinPath cs :=
    workingPath_of_absolute _ (head_joinPath cs)
  have hcs := components_joinPath h
  have := normalizeGeneral_eq (joinPath cs) hcwd
    (by rw [habs, hcs]; exact dot_not_mem_plainWords h) (by rw [habs]; exact hlen)
    (by rw [habs, hcs]; exact room_of_plainWords h hcount) fuel (by rw [habs, hcs]; exact hf)
  rw [this, normalForm, habs, hcs, specStack_plainWords h]

theorem length_specStack_le {cs : List CStr}
    (h : ∀ pre c post, cs = pre ++ c :: post → (specStack pre).length < maxComponents) :
    (specStack cs).length ≤ maxComponents := by
  rcases List.eq_nil_or_concat cs with rfl | ⟨pre, c, he⟩
  · simp [specStack]
  · rw [List.concat_eq_append] at he
    have hpre := h pre c [] he
    rw [he, specStack, List.foldl_append, List.foldl_cons, List.foldl_nil]
    change (specStep (specStack pre) c).length ≤ maxComponents
    unfold specStep
    split
    · omega
    · split
      · rw [List.length_dropLast]; omega
      · rw [List.length_append, List.length_singleton]; omega

/-! ## The fast paths -/

theorem parentOfCwd_joinPath {cs : List CStr} (h : PlainWords cs) :
    parentOfCwd (joinPath cs) = joinPath cs.dropLast := by
  rcases List.eq_nil_or_concat cs with rfl | ⟨init, c, hcs⟩
  · decide
  · rw [List.concat_eq_append] at hcs
    subst hcs
    have hs : slash ∉ c := (h c (by simp)).1
    have hc : c ≠ [] := (h c (by simp)).2.1
    have hjoin : joinPath (init ++ [c]) = joinWords slash init ++ slash :: c := by
      rw [joinPath, if_neg (by simp), joinWords_append, joinWords_cons, joinWords_nil,
        List.append_nil]
    have hroot : joinWords slash init ++ slash :: c ≠ rootStr := by
      intro he
      have := congrArg List.length he
      have hcl := List.length_pos_iff.mpr hc
      simp only [List.length_append, List.length_cons, rootStr, List.length_nil] at this
      omega
    rw [hjoin, parentOfCwd, if_neg hroot, strrchr_append hs, List.dropLast_concat]
    by_cases hi : init = []
    · subst hi; rfl
    · rw [joinPath, if_neg hi]
      obtain ⟨n, hn⟩ : ∃ n, (joinWords slash init).length = n + 1 := by
        rw [joinWords_eq_intercalate _ hi]; exact ⟨_, rfl⟩
      simp only [hn]
      rw [← hn, List.take_left]

theorem workingPath_dotDot {cwd : CStr} :
    components (workingPath cwd dotDotStr) = components cwd ++ [dotDotStr] := by
  rw [components_workingPath (by decide)]
  congr 1

theorem workingPath_dot {cwd : CStr} :
    components (workingPath cwd dotStr) = components cwd ++ [dotStr] := by
  rw [components_workingPath (by decide)]
  congr 1

theorem normalForm_dot {cs : List CStr} (h : PlainWords cs) :
    normalForm (joinPath cs) dotStr = joinPath cs := by
  rw [normalForm, workingPath_dot, components_joinPath h, specStack, List.foldl_append]
  change joinPath (specStep (specStack cs) dotStr) = _
  rw [specStack_plainWords h, specStep, if_pos rfl]

theorem normalForm_dotDot {cs : List CStr} (h : PlainWords cs) :
    normalForm (joinPath cs) dotDotStr = joinPath cs.dropLast := by
  rw [normalForm, workingPath_dotDot, components_joinPath h, specStack, List.foldl_append]
  change joinPath (specStep (specStack cs) dotDotStr) = _
  rw [specStack_plainWords h, specStep, if_neg (by decide), if_pos rfl]

theorem dot_not_mem_workingPath {cwd path : CStr} (hcwd : Canonical cwd)
    (h : dotStr ∉ components path) : dotStr ∉ components (workingPath cwd path) := by
  by_cases ha : path.head? = some slash
  · rwa [workingPath_of_absolute _ ha]
  · obtain ⟨cs, hcs, rfl⟩ := hcwd.exists_components
    rw [components_workingPath ha, components_joinPath hcs]
    exact fun hm => (List.mem_append.mp hm).elim (dot_not_mem_plainWords hcs) h

theorem PathOk.dot_not_mem {cwd path : CStr} (h : PathOk cwd path) (hcwd : Canonical cwd)
    (hp : path ≠ dotStr) : dotStr ∉ components (workingPath cwd path) :=
  dot_not_mem_workingPath hcwd (h.noDot.resolve_left hp)

theorem vfsNormalizePath_eq {cwd path : CStr} (hcwd : Canonical cwd) (h : PathOk cwd path)
    (fuel : Nat) (hf : (components (workingPath cwd path)).length < fuel) :
    vfsNormalizePath fuel cwd path = some (normalForm cwd path) := by
  obtain ⟨cs, hcs, rfl⟩ := hcwd.exists_components
  unfold vfsNormalizePath
  split
  · rename_i hp; rw [hp, normalForm_dot hcs]
  · rename_i hp
    split
    · rename_i hp; rw [hp, normalForm_dotDot hcs, parentOfCwd_joinPath hcs]
    · exact normalizeGeneral_eq _ hcwd (h.dot_not_mem hcwd hp) h.buffer h.stack fuel hf

/-! ## Changing the working directory -/

theorem normalize_workingPath {cwd path : CStr} (hcwd : Canonical cwd) (h : PathOk cwd path)
    (hp : path ≠ dotStr) (fuel : Nat) (hf : (components (workingPath cwd path)).length < fuel) :
    vfsNormalizePath fuel cwd (workingPath cwd path) = some (normalForm cwd path) := by
  have ha := head_workingPath hcwd path
  have hw := workingPath_of_absolute cwd ha
  obtain ⟨h₁, h₂⟩ := ne_of_absolute ha
  rw [vfsNormalizePath, if_neg h₁, if_neg h₂]
  have := normalizeGeneral_eq (workingPath cwd path) hcwd
    (by rw [hw]; exact h.dot_not_mem hcwd hp) (by rw [hw]; exact h.buffer)
    (by rw [hw]; exact h.stack) fuel (by rw [hw]; exact hf)
  rw [this, normalForm, normalForm, hw]

/-- Calls of `vfs_chdir` one after the other, each with a path of the
specification. A call that never comes back is the last one. -/
inductive ChdirRun : VfsState → List CStr → VfsState → Prop
  | done (vfs) : ChdirRun vfs [] vfs
  | returned {vfs vfs₁ vfs' path paths st fuel} (ok : PathOk vfs.currentWorkingDirectory path)
      (call : vfsChdir fuel vfs path = some (st, vfs₁)) (rest : ChdirRun vfs₁ paths vfs') :
      ChdirRun vfs (path :: paths) vfs'
  | hangs {vfs path paths} (ok : PathOk vfs.currentWorkingDirectory path)
      (call : ∀ fuel, vfsChdir fuel vfs path = none) : ChdirRun vfs (path :: paths) vfs

theorem normalize_workingPath_dot {cwd : CStr} (hcwd : Canonical cwd) (h : PathOk cwd dotStr)
    (fuel : Nat) : vfsNormalizePath fuel cwd (workingPath cwd dotStr) = none := by
  have ha := head_workingPath hcwd dotStr
  obtain ⟨h₁, h₂⟩ := ne_of_absolute ha
  rw [vfsNormalizePath, if_neg h₁, if_neg h₂]
  refine normalizeGeneral_hangs ?_ fuel
  rw [workingPath_of_absolute _ ha, workingPath_dot]
  obtain ⟨cs, hcs, rfl⟩ := hcwd.exists_components
  rw [components_joinPath hcs]
  have hlen := h.stack cs dotStr [] (by rw [workingPath_dot, components_joinPath hcs])
  rw [specStack_plainWords hcs] at hlen
  refine ⟨cs, [], rfl, dot_not_mem_plainWords hcs, fun q hq => ?_⟩
  have hqp : PlainWords q := fun d hd => hcs d (hq.subset hd)
  rw [stackOf, ← foldl_specStep (dot_not_mem_plainWords hqp)]
  change (specStack q).length < _
  rw [specStack_plainWords hqp]
  exact Nat.lt_of_le_of_lt hq.length_le hlen

theorem vfsChdir_cwd {vfs vfs' : VfsState} {path : CStr} {st : Status} {fuel : Nat}
    (hcwd : Canonical vfs.currentWorkingDirectory) (h : PathOk vfs.currentWorkingDirectory path)
    (hr : vfsChdir fuel vfs path = some (st, vfs')) :
    vfs' = vfs ∨
      vfs' = { vfs with currentWorkingDirectory := normalForm vfs.currentWorkingDirectory path } := by
  unfold vfsChdir at hr
  split at hr
  · obtain ⟨res, -, hr⟩ := Option.bind_eq_some_iff.mp hr
    cases res with
    | error e => cases hr; exact .inl rfl
    | ok m =>
      obtain ⟨p, hp, he⟩ := Option.map_eq_some_iff.mp hr
      cases he
      by_cases hdot : path = dotStr
      · subst hdot
        rw [normalize_workingPath_dot hcwd h] at hp
        cases hp
      · right
        have hN := normalize_workingPath hcwd h hdot
          (fuel + ((components (workingPath vfs.currentWorkingDirectory path)).length + 1))
          (by omega)
        obtain ⟨h₁, h₂⟩ := ne_of_absolute (head_workingPath hcwd path)
        rw [vfsNormalizePath, if_neg h₁, if_neg h₂] at hp hN
        rw [normalizeGeneral_mono hp] at hN
        rw [Option.some.inj hN]
  · cases hr; exact .inl rfl

theorem ChdirRun.canonical {vfs vfs' : VfsState} {paths : List CStr}
    (hrun : ChdirRun vfs paths vfs') (hcwd : Canonical vfs.currentWorkingDirectory) :
    Canonical vfs'.currentWorkingDirectory := by
  induction hrun with
  | done => exact hcwd
  | returned ok call rest ih =>
    refine ih ?_
    rcases vfsChdir_cwd hcwd ok call with rfl | rfl
    · exact hcwd
    · exact canonical_normalForm _ _
  | hangs ok call => exact hcwd

theorem vfsChdir_returns {vfs : VfsState} {path : CStr}
    (hcwd : Canonical vfs.currentWorkingDirectory) (h : PathOk vfs.currentWorkingDirectory path)
    (hp : path ≠ dotStr) : ∃ fuel st vfs', vfsChdir fuel vfs path = some (st, vfs') := by
  refine ⟨(components (workingPath vfs.currentWorkingDirectory path)).length + 1, ?_⟩
  simp only [vfsChdir, vfsResolvePath, vfsNormalizePath_eq hcwd h _ (Nat.lt_succ_self _),
    normalize_workingPath hcwd h hp _ (Nat.lt_succ_self _)]
  split
  · rw [Option.map_some, Option.bind_some]
    cases vfsFindMount vfs (normalForm vfs.currentWorkingDirectory path) with
    | none => exact ⟨_, _, rfl⟩
    | some m => exact ⟨_, _, rfl⟩
  · exact ⟨_, _, rfl⟩

/-- **Normalisation is the fold of the components.** From a canonical working
directory, on every path of the specification: the code returns the normal
form; the normal form is canonical; normalising it again, from any canonical
directory, gives it back; the general path gives for `".."` what the fast path
gives. Changing directory therefore keeps the working directory canonical over
any calls, and every call comes back except with the path `"."`. -/
theorem normalisation_spec {vfs : VfsState} (hcwd : Canonical vfs.currentWorkingDirectory) :
    (∀ path, PathOk vfs.currentWorkingDirectory path → ∃ N, ∀ fuel, N < fuel →
      vfsNormalizePath fuel vfs.currentWorkingDirectory path =
        some (normalForm vfs.currentWorkingDirectory path) ∧
      Canonical (normalForm vfs.currentWorkingDirectory path) ∧
      (∀ cwd', Canonical cwd' →
        vfsNormalizePath fuel cwd' (normalForm vfs.currentWorkingDirectory path) =
          some (normalForm vfs.currentWorkingDirectory path)) ∧
      (path = dotDotStr → normalizeGeneral fuel vfs.currentWorkingDirectory path =
        vfsNormalizePath fuel vfs.currentWorkingDirectory path)) ∧
    (∀ paths vfs', ChdirRun vfs paths vfs' → Canonical vfs'.currentWorkingDirectory) ∧
    (∀ path, PathOk vfs.currentWorkingDirectory path → path ≠ dotStr →
      ∃ fuel st vfs', vfsChdir fuel vfs path = some (st, vfs')) := by
  refine ⟨fun path h => ⟨(components (workingPath vfs.currentWorkingDirectory path)).length +
    maxComponents, fun fuel hf => ?_⟩, fun paths vfs' hrun => hrun.canonical hcwd,
    fun path h hp => vfsChdir_returns hcwd h hp⟩
  have hmain := vfsNormalizePath_eq hcwd h fuel (by omega)
  refine ⟨hmain, canonical_normalForm _ _, fun cwd' hcwd' => ?_, fun hp => ?_⟩
  · have hplain := plainWords_specStack (workingPath vfs.currentWorkingDirectory path)
    have hcount := length_specStack_le h.stack
    obtain ⟨h₁, h₂⟩ := ne_of_absolute (canonical_normalForm vfs.currentWorkingDirectory path).1
    rw [vfsNormalizePath, if_neg h₁, if_neg h₂]
    exact normalizeGeneral_joinPath hcwd' hplain
      (Nat.lt_of_le_of_lt (length_normalForm _ hcwd) h.buffer) hcount fuel (by omega)
  · rw [hmain]
    exact normalizeGeneral_eq _ hcwd (h.dot_not_mem hcwd (by rw [hp]; decide)) h.buffer h.stack
      fuel (by omega)

theorem length_foldl_specStep (cs : List CStr) : ∀ stack : List CStr,
    (cs.foldl specStep stack).length ≤ stack.length + cs.length := by
  induction cs with
  | nil => intro stack; simp
  | cons c cs ih =>
    intro stack
    have hstep : (specStep stack c).length ≤ stack.length + 1 := by
      unfold specStep
      split
      · omega
      · split
        · simp; omega
        · simp
    have := ih (specStep stack c)
    simp only [List.foldl_cons, List.length_cons]
    omega

/-- `"../b//c/"` from the directory `"/a"`. -/
theorem normalisation_spec_example :
    Canonical [slash, 0x61] ∧
    (∃ N, ∀ fuel, N < fuel → vfsNormalizePath fuel [slash, 0x61]
      [dot, dot, slash, 0x62, slash, slash, 0x63, slash] = some [slash, 0x62, slash, 0x63]) := by
  have hcwd : Canonical [slash, 0x61] := by
    refine ⟨rfl, .inr ?_⟩
    intro c hc
    obtain rfl : c = [0x61] := by
      have he : List.splitOn slash (List.tail [slash, 0x61]) = [[0x61]] := by decide
      rw [he] at hc
      simpa using hc
    exact ⟨by decide, by decide, by decide⟩
  have hcomp : components (workingPath [slash, 0x61]
      [dot, dot, slash, 0x62, slash, slash, 0x63, slash]) =
        [[0x61], dotDotStr, [0x62], [0x63]] := by decide
  have hok : PathOk [slash, 0x61] [dot, dot, slash, 0x62, slash, slash, 0x63, slash] := by
    refine ⟨.inr (by decide), ?_, by decide, ?_⟩
    · rw [hcomp]; decide
    · rw [hcomp]
      intro pre c post he
      have hlen := congrArg List.length he
      have hstack := length_foldl_specStep pre []
      simp only [List.length_cons, List.length_nil, List.length_append] at hlen hstack
      simp only [specStack, maxComponents]
      omega
  refine ⟨hcwd, ?_⟩
  obtain ⟨N, hN⟩ := (@normalisation_spec ⟨true, [slash, 0x61], [⟨rootStr, true⟩]⟩ hcwd).1 _ hok
  exact ⟨N, fun fuel hf => (hN fuel hf).1⟩

end ContinuumOS.Vfs.Normalize
