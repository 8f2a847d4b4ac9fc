import ContinuumOS.Vfs.Path

/-! # When path normalisation ends

The token loop of `vfs_resolve_dots` calls `strtok` at the end of its body,
which `continue` on a `"."` skips: the loop then sees the same token for ever.
It ends exactly when no `"."` comes up while the component stack still has
room, and with it ends `vfs_normalize_path`. -/
namespace ContinuumOS.Vfs.Termination
open ContinuumOS.Lib.Words ContinuumOS.Libc.String ContinuumOS.Vfs.Path

/-- The components of a path, as `strtok` with `"/"` reads them. -/
def components (s : CStr) : List CStr := words (fun c => [slash].contains c) s

/-- The component stack after some tokens without a `"."`. -/
def stackOf (tokens : List CStr) : List CStr := tokens.foldl pushComponent []

/-- A `"."` comes up, the first of the list, before the stack has ever been
full. -/
def DotReached (tokens : List CStr) : Prop :=
  ∃ pre post, tokens = pre ++ dotStr :: post ∧ dotStr ∉ pre ∧
    ∀ q, q <+: pre → (stackOf q).length < maxComponents

/-- What the token loop makes of a list of tokens: `none` when it is stuck. -/
def runTokens : List CStr → List CStr → Option (List CStr)
  | [], stack => some stack
  | t :: ts, stack =>
    if stack.length < maxComponents then
      if t = dotStr then none else runTokens ts (pushComponent stack t)
    else some stack

/-- `token` and `last` are what the loop holds before the tokens `ts`. -/
def Pending (token : Option CStr) (last : CStr) (ts : List CStr) : Prop :=
  token = ts.head? ∧ components last = ts.tail

theorem pending_strtok (s : CStr) :
    Pending (strtok [slash] s).1 (strtok [slash] s).2 (components s) := by
  cases h : components s with
  | nil =>
    rw [strtok_of_words_nil h]
    exact ⟨rfl, by simp [components]⟩
  | cons w ws =>
    obtain ⟨r, hr, hw⟩ := strtok_of_words_cons h
    rw [hr]
    exact ⟨rfl, hw⟩

theorem resolveDotsLoop_some {ts : List CStr} : ∀ {token last stack r},
    Pending token last ts → runTokens ts stack = some r →
    ∀ fuel, ts.length < fuel → resolveDotsLoop fuel token last stack = some r := by
  induction ts with
  | nil =>
    rintro token last stack r ⟨rfl, -⟩ h fuel hf
    obtain ⟨fuel, rfl⟩ : ∃ k, fuel = k + 1 := ⟨fuel - 1, by simp at hf; omega⟩
    simpa [resolveDotsLoop, runTokens] using h
  | cons t ts ih =>
    rintro token last stack r ⟨rfl, hl⟩ h fuel hf
    obtain ⟨fuel, rfl⟩ : ∃ k, fuel = k + 1 := ⟨fuel - 1, by simp at hf; omega⟩
    simp only [runTokens] at h
    simp only [List.head?_cons, resolveDotsLoop]
    split at h
    · rename_i hlen
      split at h
      · cases h
      · rename_i hdot
        rw [if_pos hlen, if_neg hdot]
        refine ih ?_ h fuel (by simpa using hf)
        rw [List.tail_cons] at hl
        exact hl ▸ pending_strtok last
    · rename_i hlen
      rw [if_neg hlen, ← h]

theorem resolveDotsLoop_stuck {last : CStr} {stack : List CStr}
    (h : stack.length < maxComponents) :
    ∀ fuel, resolveDotsLoop fuel (some dotStr) last stack = none
  | 0 => rfl
  | fuel + 1 => by
    rw [resolveDotsLoop, if_pos h, if_pos rfl]
    exact resolveDotsLoop_stuck h fuel

theorem resolveDotsLoop_none {ts : List CStr} : ∀ {token last stack},
    Pending token last ts → runTokens ts stack = none →
    ∀ fuel, resolveDotsLoop fuel token last stack = none := by
  induction ts with
  | nil => intro token last stack _ h; simp [runTokens] at h
  | cons t ts ih =>
    rintro token last stack ⟨rfl, hl⟩ h fuel
    simp only [runTokens] at h
    split at h
    · rename_i hlen
      split at h
      · rename_i hdot
        subst hdot
        exact resolveDotsLoop_stuck hlen fuel
      · rename_i hdot
        cases fuel with
        | zero => rfl
        | succ fuel =>
          simp only [List.head?_cons, resolveDotsLoop, if_pos hlen, if_neg hdot]
          rw [List.tail_cons] at hl
          exact ih (hl ▸ pending_strtok last) h fuel
    · cases h

theorem resolveDotsLoop_mono : ∀ {fuel : Nat} {token last stack r},
    resolveDotsLoop fuel token last stack = some r →
    ∀ more, resolveDotsLoop (fuel + more) token last stack = some r
  | 0, _, _, _, _, h, _ => by cases h
  | fuel + 1, none, last, stack, r, h, more => by
    rw [Nat.add_right_comm]; exact h
  | fuel + 1, some token, last, stack, r, h, more => by
    rw [Nat.add_right_comm]
    simp only [resolveDotsLoop] at h ⊢
    split at h
    · rename_i hlen
      rw [if_pos hlen]
      split at h
      · rename_i hdot
        rw [if_pos hdot]
        exact resolveDotsLoop_mono h more
      · rename_i hdot
        rw [if_neg hdot]
        exact resolveDotsLoop_mono h more
    · rename_i hlen
      rw [if_neg hlen]
      exact h

theorem runTokens_eq_none {ts : List CStr} : ∀ {stack : List CStr},
    runTokens ts stack = none ↔ ∃ pre post, ts = pre ++ dotStr :: post ∧ dotStr ∉ pre ∧
      ∀ q, q <+: pre → (q.foldl pushComponent stack).length < maxComponents := by
  induction ts with
  | nil => intro stack; simp [runTokens]
  | cons t ts ih =>
    intro stack
    simp only [runTokens]
    split
    · rename_i hlen
      split
      · rename_i hdot
        subst hdot
        refine iff_of_true rfl ⟨[], ts, rfl, by simp, ?_⟩
        intro q hq
        rw [List.prefix_nil.mp hq]
        exact hlen
      · rename_i hdot
        rw [ih]
        constructor
        · rintro ⟨pre, post, rfl, hpre, hq⟩
          refine ⟨t :: pre, post, rfl, by simp [hpre, Ne.symm hdot], ?_⟩
          intro q hp
          cases q with
          | nil => exact hlen
          | cons c q =>
            obtain ⟨rfl, hp'⟩ := List.cons_prefix_cons.mp hp
            exact hq q hp'
        · rintro ⟨pre, post, he, hpre, hq⟩
          cases pre with
          | nil => exact absurd (List.cons.inj he).1 hdot
          | cons c pre =>
            obtain ⟨rfl, rfl⟩ := List.cons.inj he
            refine ⟨pre, post, rfl, fun h => hpre (by simp [h]), fun q hp => ?_⟩
            exact hq (t :: q) (List.cons_prefix_cons.mpr ⟨rfl, hp⟩)
    · rename_i hlen
      refine iff_of_false (by simp) ?_
      rintro ⟨pre, post, -, -, hq⟩
      exact hlen (hq [] List.nil_prefix)

theorem normalizeGeneral_ends {cwd path : CStr}
    (h : ¬ DotReached (components (workingPath cwd path))) :
    ∃ r, ∀ fuel, (components (workingPath cwd path)).length < fuel →
      normalizeGeneral fuel cwd path = some r := by
  cases hr : runTokens (components (workingPath cwd path)) [] with
  | none => exact absurd (runTokens_eq_none.mp hr) h
  | some stack =>
    refine ⟨trimSlash (collapseSlashes (rebuildPath stack) 0 false), fun fuel hf => ?_⟩
    simp only [normalizeGeneral, vfsResolveDots,
      resolveDotsLoop_some (pending_strtok _) hr fuel hf, Option.map_some]

theorem normalizeGeneral_hangs {cwd path : CStr}
    (h : DotReached (components (workingPath cwd path))) (fuel : Nat) :
    normalizeGeneral fuel cwd path = none := by
  simp only [normalizeGeneral, vfsResolveDots,
    resolveDotsLoop_none (pending_strtok _) (runTokens_eq_none.mpr h) fuel, Option.map_none]

theorem normalizeGeneral_mono {fuel : Nat} {cwd path r : CStr}
    (h : normalizeGeneral fuel cwd path = some r) (more : Nat) :
    normalizeGeneral (fuel + more) cwd path = some r := by
  simp only [normalizeGeneral, vfsResolveDots, Option.map_map, Option.map_eq_some_iff] at h ⊢
  obtain ⟨stack, hs, he⟩ := h
  exact ⟨stack, resolveDotsLoop_mono hs more, he⟩

/-- **Normalisation ends exactly on paths that bring up no `"."` in the loop.**
The two fast paths end; any other path ends unless a `"."` component of the
joined path is read before the stack of 32 components was full. -/
theorem vfsNormalizePath_ends_iff (cwd path : CStr) :
    (∃ fuel r, vfsNormalizePath fuel cwd path = some r) ↔
      path = dotStr ∨ path = dotDotStr ∨ ¬ DotReached (components (workingPath cwd path)) := by
  by_cases h₁ : path = dotStr
  · simp [vfsNormalizePath, h₁]
  by_cases h₂ : path = dotDotStr
  · refine iff_of_true ⟨0, parentOfCwd cwd, ?_⟩ (.inr (.inl h₂))
    rw [vfsNormalizePath, if_neg h₁, if_pos h₂]
  simp only [vfsNormalizePath, h₁, h₂, if_false, false_or]
  constructor
  · rintro ⟨fuel, r, hr⟩ hd
    rw [normalizeGeneral_hangs hd] at hr
    cases hr
  · intro hd
    obtain ⟨r, hr⟩ := normalizeGeneral_ends hd
    exact ⟨_, r, hr _ (Nat.lt_succ_self _)⟩

/-- `"/."` from the root directory: the loop never gets past the `"."`. -/
theorem normalisation_hangs_on_root_dot :
    ¬ ∃ fuel r, vfsNormalizePath fuel rootStr [slash, dot] = some r := by
  rw [vfsNormalizePath_ends_iff]
  have h : DotReached (components (workingPath rootStr [slash, dot])) :=
    ⟨[], [], by decide, by simp, fun q hq => by rw [List.prefix_nil.mp hq]; decide⟩
  simp only [h, not_true_eq_false, or_false]
  decide

end ContinuumOS.Vfs.Termination
