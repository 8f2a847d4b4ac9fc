import ContinuumOS.Vfs.Resolution

/-! # Paths deeper than the component stack

`vfs_resolve_dots` keeps the names of a path in 32 rows. Its loop ends when the
rows are full, and the components that are still to come are dropped without an
error. This module says which paths are then still resolved to the object that
they name. -/
namespace ContinuumOS.Vfs.Depth
open ContinuumOS.Libc.String
open ContinuumOS.Vfs.Path ContinuumOS.Vfs.Termination ContinuumOS.Vfs.Normalize
open ContinuumOS.Vfs.Files ContinuumOS.Vfs.Resolution

/-- The names fill the rows for the first time behind `pre`; `post` is still to
come. -/
structure FirstFull (tokens pre post : List CStr) : Prop where
  split : tokens = pre ++ post
  full : (specStack pre).length = maxComponents
  first : ∀ q, q <+: pre → q ≠ pre → (specStack q).length < maxComponents

/-- What comes after the rows are full leaves the same names behind. -/
def RestCancels (tokens : List CStr) : Prop := ∀ pre post, FirstFull tokens pre post →
  post.foldl specStep (specStack pre) = specStack pre

/-- The slot of the mount table and the path there that `absolute` names. -/
def objectAt (v : VfsTables) (absolute : CStr) : Option (Nat × CStr) :=
  (findSlot v absolute).map fun i =>
    (i, relativePath ⟨((v.mounts[i]?).getD .zero).mountpoint, true⟩ absolute)

/-- The path is normalised to the fold of its components, and the calls on it work
on what that names. -/
def Faithful (v : VfsTables) (path : CStr) : Prop := ∃ N, ∀ fuel, N < fuel →
  vfsNormalizePath fuel v.currentWorkingDirectory path =
    some (normalForm v.currentWorkingDirectory path) ∧
  resolve fuel v path = some (objectAt v (normalForm v.currentWorkingDirectory path))

section

variable {v : VfsTables} {cwd path : CStr} {ts pre post : List CStr}

/-! ## Where the loop stops -/

/-- The loop runs over a front of the tokens: all of them, or up to where the rows
are full. -/
theorem runTokens_stops : ∀ {ts stack : List CStr}, dotStr ∉ ts → stack.length ≤ maxComponents →
    ∃ pre post, ts = pre ++ post ∧ runTokens ts stack = some (pre.foldl specStep stack) ∧
      (post = [] ∨ (pre.foldl specStep stack).length = maxComponents) ∧
      ∀ q, q <+: pre → q ≠ pre → (q.foldl specStep stack).length < maxComponents := by
  intro ts
  induction ts with
  | nil =>
    intro stack _ _
    exact ⟨[], [], rfl, rfl, .inl rfl, fun q hq hne => absurd (List.prefix_nil.mp hq) hne⟩
  | cons t ts ih =>
    intro stack hdot hlen
    by_cases hroom : stack.length < maxComponents
    · have ht : t ≠ dotStr := fun he => hdot (by simp [he])
      have hpush : specStep stack t = pushComponent stack t := by
        rw [specStep, if_neg ht, pushComponent]
      have hstep : (specStep stack t).length ≤ maxComponents := by
        have := length_foldl_specStep [t] stack
        simp only [List.foldl_cons, List.foldl_nil, List.length_singleton] at this
        omega
      obtain ⟨pre, post, rfl, hrun, hend, hfirst⟩ :=
        ih (fun hm => hdot (List.mem_cons_of_mem _ hm)) hstep
      refine ⟨t :: pre, post, rfl, ?_, hend, fun q hq hne => ?_⟩
      · rw [runTokens, if_pos hroom, if_neg ht, ← hpush, hrun, List.foldl_cons]
      · cases q with
        | nil => exact hroom
        | cons c q =>
          obtain ⟨rfl, hfront⟩ := List.cons_prefix_cons.mp hq
          exact hfirst q hfront fun he => hne (by rw [he])
    · have hfull : stack.length = maxComponents := by omega
      refine ⟨[], t :: ts, rfl, ?_, .inr hfull, fun q hq hne => ?_⟩
      · rw [runTokens, if_neg hroom]
        rfl
      · exact absurd (List.prefix_nil.mp hq) hne

theorem FirstFull.unique {pre' post' : List CStr} (h : FirstFull ts pre post)
    (h' : FirstFull ts pre' post') : pre' = pre := by
  have hp : pre <+: ts := ⟨post, h.split.symm⟩
  have hp' : pre' <+: ts := ⟨post', h'.split.symm⟩
  by_contra hne
  have hfull := h.full
  have hfull' := h'.full
  rcases List.prefix_or_prefix_of_prefix hp' hp with hq | hq
  · have := h.first _ hq hne
    omega
  · have := h'.first _ hq (Ne.symm hne)
    omega

/-- The names that are left when the loop stops are those of the whole path just
when what was dropped cancels. -/
theorem restCancels_iff (hsplit : ts = pre ++ post)
    (hend : post = [] ∨ (specStack pre).length = maxComponents)
    (hfirst : ∀ q, q <+: pre → q ≠ pre → (specStack q).length < maxComponents) :
    RestCancels ts ↔ specStack pre = specStack ts := by
  have happend : specStack ts = post.foldl specStep (specStack pre) := by
    rw [hsplit, specStack, List.foldl_append, specStack]
  constructor
  · intro h
    rcases hend with rfl | hfull
    · rw [happend, List.foldl_nil]
    · rw [happend, h pre post ⟨hsplit, hfull, hfirst⟩]
  · intro h pre' post' h'
    have hpre : pre' = pre := by
      rcases hend with rfl | hfull
      · rw [List.append_nil] at hsplit
        subst hsplit
        by_contra hne
        have hlt := hfirst pre' ⟨post', h'.split.symm⟩ hne
        have hfull := h'.full
        omega
      · exact FirstFull.unique ⟨hsplit, hfull, hfirst⟩ h'
    subst hpre
    obtain rfl : post' = post := List.append_cancel_left (h'.split.symm.trans hsplit)
    rw [← happend, h]

/-! ## What a path is normalised to -/

theorem joinPath_injective {cs ds : List CStr} (hc : PlainWords cs) (hd : PlainWords ds)
    (h : joinPath cs = joinPath ds) : cs = ds := by
  rw [← components_joinPath hc, ← components_joinPath hd, h]

theorem normalizeGeneral_stops (hcwd : Canonical cwd) (hdot : dotStr ∉ components path)
    (hbuffer : (workingPath cwd path).length < vfsMaxPath) :
    ∃ pre post, components (workingPath cwd path) = pre ++ post ∧
      (∀ fuel, (components (workingPath cwd path)).length < fuel →
        normalizeGeneral fuel cwd path = some (joinPath (specStack pre))) ∧
      (RestCancels (components (workingPath cwd path)) ↔
        joinPath (specStack pre) = normalForm cwd path) := by
  have hnot := dot_not_mem_workingPath hcwd hdot
  obtain ⟨pre, post, hsplit, hrun, hend, hfirst⟩ :=
    @runTokens_stops _ [] hnot (Nat.zero_le _)
  have hplain : PlainWords (specStack pre) :=
    plainWords_foldl (by simp [PlainWords]) fun c hc =>
      mem_components (hsplit ▸ List.mem_append_left post hc)
  refine ⟨pre, post, hsplit, fun fuel hf => ?_, ?_⟩
  · have hshort := length_front hcwd hsplit
    simp only [normalizeGeneral, vfsResolveDots,
      resolveDotsLoop_some (pending_strtok _) hrun fuel hf, Option.map_some, rebuildPath_eq]
    exact congrArg some (cleanup_joinPath hplain (Nat.lt_of_le_of_lt hshort hbuffer))
  · rw [restCancels_iff hsplit hend hfirst]
    refine ⟨fun h => by rw [h, normalForm], fun h => ?_⟩
    exact joinPath_injective hplain (plainWords_specStack _) h

theorem normalize_iff (hcwd : Canonical cwd) (hdot : dotStr ∉ components path)
    (hbuffer : (workingPath cwd path).length < vfsMaxPath) :
    (∃ N, ∀ fuel, N < fuel → vfsNormalizePath fuel cwd path = some (normalForm cwd path)) ↔
      path = dotDotStr ∨ RestCancels (components (workingPath cwd path)) := by
  have hne : path ≠ dotStr := by
    rintro rfl
    exact hdot (by decide)
  by_cases hpath : path = dotDotStr
  · refine iff_of_true ⟨0, fun fuel _ => ?_⟩ (.inl hpath)
    obtain ⟨cs, hcs, rfl⟩ := hcwd.exists_components
    rw [vfsNormalizePath, if_neg hne, if_pos hpath, hpath, normalForm_dotDot hcs,
      parentOfCwd_joinPath hcs]
  obtain ⟨pre, post, -, hstops, hcancels⟩ := normalizeGeneral_stops hcwd hdot hbuffer
  have hgeneral : ∀ fuel, vfsNormalizePath fuel cwd path = normalizeGeneral fuel cwd path :=
    fun fuel => by rw [vfsNormalizePath, if_neg hne, if_neg hpath]
  rw [or_iff_right hpath, hcancels]
  constructor
  · rintro ⟨N, h⟩
    have hlarge := h (N + (components (workingPath cwd path)).length + 1) (by omega)
    rw [hgeneral, hstops _ (by omega)] at hlarge
    exact Option.some.inj hlarge
  · intro h
    exact ⟨_, fun fuel hf => by rw [hgeneral, hstops fuel hf, h]⟩

/-- **When a deep path is not shortened.** From a canonical working directory, on
a path without a `"."` that fits the buffer, normalisation gives the fold of the
components, and the calls on the path work on what it names, just when the path
is `".."` or the components behind the place where the rows are full leave the
same names. -/
theorem faithful_iff (hcwd : Canonical v.currentWorkingDirectory)
    (hdot : dotStr ∉ components path)
    (hbuffer : (workingPath v.currentWorkingDirectory path).length < vfsMaxPath) :
    Faithful v path ↔ path = dotDotStr ∨
      RestCancels (components (workingPath v.currentWorkingDirectory path)) := by
  rw [← normalize_iff hcwd hdot hbuffer]
  refine ⟨fun ⟨N, h⟩ => ⟨N, fun fuel hf => (h fuel hf).1⟩, fun ⟨N, h⟩ => ⟨N, fun fuel hf => ?_⟩⟩
  have hfits : fitsBuffers v.currentWorkingDirectory path = true := by
    simp [fitsBuffers, hbuffer]
  refine ⟨h fuel hf, ?_⟩
  rw [resolve, if_pos hfits, h fuel hf, Option.map_some, objectAt]

end

/-! ## Thirty-three directories -/

/-- `"/a"`, `n` times. -/
def deepPath (n : Nat) : CStr := joinPath (List.replicate n [0x61])

theorem plainWords_deep (n : Nat) : PlainWords (List.replicate n [0x61]) := by
  intro c hc
  obtain rfl := List.eq_of_mem_replicate hc
  exact ⟨by decide, by decide, by decide, by decide⟩

theorem components_deepPath (n : Nat) :
    components (workingPath rootStr (deepPath n)) = List.replicate n [0x61] := by
  rw [deepPath, workingPath_of_absolute _ (head_joinPath _), components_joinPath (plainWords_deep n)]

/-- The 33rd directory is resolved to the directory above it. -/
theorem deep_path_shortened : ¬ ∀ cwd path, Canonical cwd → dotStr ∉ components path →
    (∀ c ∈ components path, c.length < 64) → (workingPath cwd path).length < vfsMaxPath →
    ∃ N, ∀ fuel, N < fuel → vfsNormalizePath fuel cwd path = some (normalForm cwd path) := by
  intro h
  have hcomp : components (deepPath 33) = List.replicate 33 [0x61] :=
    components_joinPath (plainWords_deep 33)
  have hroot : Canonical rootStr := ⟨rfl, .inl rfl⟩
  have hdot : dotStr ∉ components (deepPath 33) := by
    rw [hcomp]
    exact dot_not_mem_plainWords (plainWords_deep 33)
  have hlen : (workingPath rootStr (deepPath 33)).length < vfsMaxPath := by decide
  have hnorm := h rootStr (deepPath 33) hroot hdot (by rw [hcomp]; decide) hlen
  obtain hpath | hrest := (normalize_iff hroot hdot hlen).mp hnorm
  · exact absurd hpath (by decide)
  · rw [components_deepPath] at hrest
    have hcancel := hrest (List.replicate 32 [0x61]) [[0x61]]
      ⟨by decide, by decide, fun q hq hne => ?_⟩
    · exact absurd hcancel (by decide)
    · have hq' : PlainWords q := fun d hd => plainWords_deep 32 d (hq.subset hd)
      have hlt := lt_of_le_of_ne hq.length_le fun he => hne (hq.eq_of_length he)
      rw [specStack_plainWords hq']
      exact hlt.trans_eq List.length_replicate

/-- A path of 32 directories is resolved to itself. -/
theorem faithful_iff_example : Faithful vfsInit (deepPath 32) := by
  have hdot : dotStr ∉ components (deepPath 32) := by
    rw [show components (deepPath 32) = List.replicate 32 [0x61] from
      components_joinPath (plainWords_deep 32)]
    exact dot_not_mem_plainWords (plainWords_deep 32)
  refine (faithful_iff ⟨rfl, .inl rfl⟩ hdot (by decide)).mpr (.inr fun pre post h => ?_)
  have hsplit : List.replicate 32 [0x61] = pre ++ post := (components_deepPath 32).symm.trans h.split
  have hlen := congrArg List.length hsplit
  have hfull := h.full
  have hle := length_foldl_specStep pre []
  -- only all of the components fill the rows
  obtain rfl : post = [] := by
    refine List.length_eq_zero_iff.mp ?_
    rw [List.length_append, List.length_replicate] at hlen
    rw [specStack, maxComponents] at hfull
    rw [List.length_nil] at hle
    omega
  rfl

end ContinuumOS.Vfs.Depth
