import ContinuumOS.Vfs.Visible

/-! # Calls that never come back

Every call on a path begins with `vfs_resolve_path`, and `vfs_readdir` and
`vfs_chdir` normalise once more. A call comes back exactly when each of these
normalisations ends and what it does with the result does. `vfs_chdir` puts the
working directory in front of the path before it normalises, so the fast paths
for `"."` and `".."` do not help it. -/
namespace ContinuumOS.Vfs.Hanging
open ContinuumOS.Lib.Effect ContinuumOS.Libc.String ContinuumOS.Ramfs.Nodes
open ContinuumOS.Vfs.Path ContinuumOS.Vfs.Termination ContinuumOS.Vfs.Adapters
open ContinuumOS.Vfs.Files ContinuumOS.Vfs.Listing ContinuumOS.Vfs.Calls
open ContinuumOS.Vfs.Visible

/-- Normalisation of the path ends: a fast path, or no `"."` in the loop. -/
def Ends (cwd path : CStr) : Prop :=
  path = dotStr ∨ path = dotDotStr ∨ ¬ DotReached (components (workingPath cwd path))

/-! ## Calls with rounds to spend -/

section

variable {β γ : Type} {f : Nat → Option β}

/-- The call comes back, however many rounds more than enough it is given. -/
def Returns (f : Nat → Option β) : Prop := ∃ N, ∀ fuel, N ≤ fuel → (f fuel).isSome = true

/-- The result stays with more rounds to spend. -/
def Stable (f : Nat → Option β) : Prop :=
  ∀ fuel r, f fuel = some r → ∀ more, f (fuel + more) = some r

theorem Stable.le (hf : Stable f) {N fuel : Nat} {r : β} (h : f N = some r) (hle : N ≤ fuel) :
    f fuel = some r := by
  obtain ⟨more, rfl⟩ := Nat.exists_eq_add_of_le hle
  exact hf N r h more

theorem Stable.map (hf : Stable f) (g : β → γ) : Stable fun fuel => (f fuel).map g := by
  intro fuel c h more
  obtain ⟨r, hr, rfl⟩ := Option.map_eq_some_iff.mp h
  exact Option.map_eq_some_iff.mpr ⟨r, hf fuel r hr more, rfl⟩

theorem Stable.returns_iff (hf : Stable f) : Returns f ↔ ∃ fuel r, f fuel = some r := by
  constructor
  · rintro ⟨N, hN⟩
    exact ⟨N, Option.isSome_iff_exists.mp (hN N le_rfl)⟩
  · rintro ⟨N, r, hr⟩
    exact ⟨N, fun fuel hle => Option.isSome_iff_exists.mpr ⟨r, hf.le hr hle⟩⟩

theorem returns_map (f : Nat → Option β) (g : β → γ) :
    Returns (fun fuel => (f fuel).map g) ↔ Returns f := by
  simp only [Returns, Option.isSome_map]

theorem Stable.returns_bind (hf : Stable f) {g : Nat → β → Option γ} :
    Returns (fun fuel => (f fuel).bind (g fuel)) ↔
      Returns f ∧ ∀ r, (∃ fuel, f fuel = some r) → Returns fun fuel => g fuel r := by
  constructor
  · rintro ⟨N, hN⟩
    have hfirst : Returns f := ⟨N, fun fuel hle => by
      obtain ⟨c, hc⟩ := Option.isSome_iff_exists.mp (hN fuel hle)
      obtain ⟨r, hr, -⟩ := Option.bind_eq_some_iff.mp hc
      exact Option.isSome_iff_exists.mpr ⟨r, hr⟩⟩
    refine ⟨hfirst, fun r ⟨M, hr⟩ => ⟨max N M, fun fuel hle => ?_⟩⟩
    have hcall : ((f fuel).bind (g fuel)).isSome = true := hN fuel ((le_max_left _ _).trans hle)
    rwa [hf.le hr ((le_max_right _ _).trans hle), Option.bind_some] at hcall
  · rintro ⟨hfirst, hg⟩
    obtain ⟨N, r, hr⟩ := hf.returns_iff.mp hfirst
    obtain ⟨M, hM⟩ := hg r ⟨N, hr⟩
    refine ⟨max N M, fun fuel hle => ?_⟩
    show ((f fuel).bind (g fuel)).isSome = true
    rw [hf.le hr ((le_max_left _ _).trans hle), Option.bind_some]
    exact hM fuel ((le_max_right _ _).trans hle)

end

/-! ## The calls on a path -/

/-- The calls that begin with `vfs_resolve_path` and pass on what it finds. -/
inductive PathCall where
  | openFile
  | stat
  | mkdir (a : Alloc)
  | rmdir
  | create (a : Alloc)
  | remove

namespace PathCall

def run (fuel : Nat) (path : CStr) : PathCall → Eff Kernel Code
  | .openFile => do return (← vfsOpen fuel path).1
  | .stat => do return (← vfsStat fuel path).1
  | .mkdir a => vfsMkdir fuel a path
  | .rmdir => vfsRmdir fuel path
  | .create a => vfsCreate fuel a path
  | .remove => vfsRemove fuel path

/-- What the call does once the path is resolved. -/
def onwards (fuel : Nat) : PathCall → Nat → Ops → CStr → Eff Kernel Code
  | .openFile, i, ops, relative => do
    let k ← Eff.get
    match k.vfs.freeFile with
    | none => return .noSpace
    | some j =>
      let handle := { k.vfs.openFiles.getD j .zero with mount := some i }
      let (result, handle) ← onStores (ops.openFile relative handle)
      if result = .success then
        setVfs { k.vfs with openFiles := k.vfs.openFiles.set j handle }
        return result
      else
        setVfs { k.vfs with
          openFiles := k.vfs.openFiles.set j { handle with inUse := false, mount := none } }
        return result
  | .stat, _, ops, relative => do return (← onStores (statOf ops relative)).1
  | .mkdir a, _, ops, relative => onStores (Ops.mkdir a ops relative)
  | .rmdir, _, ops, relative => onStores (Ops.rmdir fuel ops relative)
  | .create a, _, ops, relative => onStores (Ops.create a ops relative)
  | .remove, _, ops, relative => onStores (Ops.remove fuel ops relative)

/-- What the call does with what `vfsLookup` gives. -/
def behind (call : PathCall) (fuel : Nat) : Except Code (Nat × Ops × CStr) → Eff Kernel Code
  | .error code => return code
  | .ok (i, ops, relative) => call.onwards fuel i ops relative

theorem run_eq (call : PathCall) (fuel : Nat) (path : CStr) (k : Kernel) :
    call.run fuel path k =
      (vfsLookup fuel path k).bind fun r => call.behind fuel r.1 r.2 := by
  cases call with
  | openFile =>
    rw [run, vfsOpen, bind_run, bind_run, Option.bind_assoc]
    refine Option.bind_congr fun r _ => ?_
    obtain ⟨code | ⟨i, ops, relative⟩, k'⟩ := r
    · rfl
    simp only [behind, onwards, bind_run, get_run, Option.bind_some]
    cases k'.vfs.freeFile with
    | none => rfl
    | some j =>
      simp only [bind_run, Option.bind_assoc]
      refine Option.bind_congr fun r _ => ?_
      by_cases h : r.1.1 = .success
      · simp only [h, if_true]
        rfl
      · simp only [h, if_false]
        rfl
  | stat =>
    rw [run, vfsStat, bind_run, bind_run, Option.bind_assoc]
    refine Option.bind_congr fun r _ => ?_
    obtain ⟨code | found, k'⟩ := r <;> rfl
  | mkdir a => exact Option.bind_congr fun r _ => by obtain ⟨code | found, k'⟩ := r <;> rfl
  | rmdir => exact Option.bind_congr fun r _ => by obtain ⟨code | found, k'⟩ := r <;> rfl
  | create a => exact Option.bind_congr fun r _ => by obtain ⟨code | found, k'⟩ := r <;> rfl
  | remove => exact Option.bind_congr fun r _ => by obtain ⟨code | found, k'⟩ := r <;> rfl

end PathCall

/-! ## Their resolutions -/

variable {k : Kernel} {v : VfsTables} {cwd path : CStr}

theorem stable_normalize (cwd path : CStr) :
    Stable fun fuel => vfsNormalizePath fuel cwd path := by
  intro fuel r h more
  simp only [vfsNormalizePath] at h ⊢
  split at h
  · rename_i hdot
    rwa [if_pos hdot]
  rename_i hdot
  rw [if_neg hdot]
  split at h
  · rename_i hdots
    rwa [if_pos hdots]
  · rename_i hdots
    rw [if_neg hdots]
    exact normalizeGeneral_mono h more

theorem returns_normalize (cwd path : CStr) :
    Returns (fun fuel => vfsNormalizePath fuel cwd path) ↔ Ends cwd path :=
  (stable_normalize cwd path).returns_iff.trans (vfsNormalizePath_ends_iff cwd path)

theorem resolve_of_fits (hfits : fitsBuffers v.currentWorkingDirectory path = true) (fuel : Nat) :
    resolve fuel v path = (vfsNormalizePath fuel v.currentWorkingDirectory path).map
      fun absolute => (findSlot v absolute).map fun i =>
        (i, relativePath ⟨((v.mounts[i]?).getD .zero).mountpoint, true⟩ absolute) := by
  rw [resolve, if_pos hfits]

theorem stable_resolve (hfits : fitsBuffers v.currentWorkingDirectory path = true) :
    Stable fun fuel => resolve fuel v path := by
  simp only [resolve_of_fits hfits]
  exact (stable_normalize _ path).map _

theorem returns_resolve (hfits : fitsBuffers v.currentWorkingDirectory path = true) :
    Returns (fun fuel => resolve fuel v path) ↔ Ends v.currentWorkingDirectory path := by
  simp only [resolve_of_fits hfits]
  exact (returns_map _ _).trans (returns_normalize _ path)

theorem stable_vfsLookup (hinit : k.vfs.initialized = true)
    (hfits : fitsBuffers k.vfs.currentWorkingDirectory path = true) :
    Stable fun fuel => vfsLookup fuel path k := by
  simp only [vfsLookup, hinit, not_true_eq_false, if_false]
  exact (stable_resolve hfits).map _

theorem returns_vfsLookup (hinit : k.vfs.initialized = true)
    (hfits : fitsBuffers k.vfs.currentWorkingDirectory path = true) :
    Returns (fun fuel => vfsLookup fuel path k) ↔ Ends k.vfs.currentWorkingDirectory path := by
  simp only [vfsLookup, hinit, not_true_eq_false, if_false]
  exact (returns_map _ _).trans (returns_resolve hfits)

/-- Each of the calls comes back exactly when the resolution does and, if it
finds a mount with operations, what the call does there. -/
theorem PathCall.returns_iff (hinit : k.vfs.initialized = true)
    (hfits : fitsBuffers k.vfs.currentWorkingDirectory path = true) (call : PathCall) :
    Returns (fun fuel => call.run fuel path k) ↔
      Ends k.vfs.currentWorkingDirectory path ∧ ∀ i ops relative,
        (∃ fuel, Resolves fuel k.vfs path i ops relative) →
          Returns fun fuel => call.onwards fuel i ops relative k := by
  simp only [call.run_eq]
  rw [(stable_vfsLookup hinit hfits).returns_bind, returns_vfsLookup hinit hfits]
  refine and_congr_right fun _ =>
    ⟨fun h i ops relative ⟨fuel, hres⟩ => ?_, fun h r ⟨fuel, hr⟩ => ?_⟩
  · exact h _ ⟨fuel, vfsLookup_ok hres⟩
  · obtain ⟨found, k'⟩ := r
    obtain ⟨rfl, ⟨i, ops, relative, rfl, hres⟩ | ⟨code, rfl, -, -⟩⟩ := vfsLookup_cases hr
    · exact h i ops relative ⟨fuel, hres⟩
    · exact ⟨0, fun _ _ => rfl⟩

theorem returns_readdir (hinit : v.initialized = true)
    (hfits : fitsBuffers v.currentWorkingDirectory path = true)
    (readdir : Ops → CStr → Nat → Except Code (List Dirent)) (maxEntries : Nat) :
    Returns (fun fuel => vfsReaddir fuel v readdir path maxEntries) ↔
      Ends v.currentWorkingDirectory path := by
  simp only [vfsReaddir, hinit, not_true_eq_false, if_false]
  rw [(stable_resolve hfits).returns_bind, returns_resolve hfits]
  refine and_iff_left_of_imp fun hends r _ => ?_
  cases r with
  | none => exact ⟨0, fun _ _ => rfl⟩
  | some found =>
    cases hops : v.opsAt found.1 with
    | none =>
      simp only [hops]
      exact ⟨0, fun _ _ => rfl⟩
    | some ops =>
      simp only [hops]
      cases readdir ops found.2 maxEntries with
      | error code => exact ⟨0, fun _ _ => rfl⟩
      | ok entries =>
        exact (returns_map _ _).mpr ((returns_normalize _ path).mpr hends)

theorem returns_chdir {vfs : VfsState} (hinit : vfs.initialized = true) :
    Returns (fun fuel => vfsChdir fuel vfs path) ↔
      Ends vfs.currentWorkingDirectory path ∧
        ((∃ fuel m, vfsResolvePath fuel vfs path = some (.ok m)) →
          Ends vfs.currentWorkingDirectory (workingPath vfs.currentWorkingDirectory path)) := by
  have hstable : Stable fun fuel => vfsResolvePath fuel vfs path :=
    (stable_normalize _ path).map _
  simp only [vfsChdir, hinit, if_true]
  rw [hstable.returns_bind]
  refine and_congr ((returns_map _ _).trans (returns_normalize _ path))
    ⟨fun h hresolves => ?_, fun h r hr => ?_⟩
  · obtain ⟨fuel, m, hm⟩ := hresolves
    exact (returns_normalize _ _).mp ((returns_map _ _).mp (h _ ⟨fuel, hm⟩))
  · obtain ⟨fuel, hr⟩ := hr
    cases r with
    | error status => exact ⟨0, fun _ _ => rfl⟩
    | ok m =>
      exact (returns_map _ _).mpr
        ((returns_normalize _ _).mpr (h ⟨fuel, m, hr⟩))

/-- **The calls on a path come back exactly when their normalisations end.** For
every path that fits the buffers: normalising and resolving it end on a fast path,
or when no `"."` comes up in the loop. The calls that resolve a path come back
exactly then, as far as the file system's own operation does, and so does
`vfs_readdir`. `vfs_chdir` also needs the path that it has joined to the working
directory itself to be without such a `"."`, unless nothing is mounted there. -/
theorem path_calls_end_iff (k : Kernel) (path : CStr) (hinit : k.vfs.initialized = true)
    (hfits : fitsBuffers k.vfs.currentWorkingDirectory path = true) :
    let cwd := k.vfs.currentWorkingDirectory
    (Returns (fun fuel => vfsNormalizePath fuel cwd path) ↔ Ends cwd path) ∧
    (Returns (fun fuel => vfsResolvePath fuel k.vfs.paths path) ↔ Ends cwd path) ∧
    (∀ call : PathCall, Returns (fun fuel => call.run fuel path k) ↔
      Ends cwd path ∧ ∀ i ops relative, (∃ fuel, Resolves fuel k.vfs path i ops relative) →
        Returns fun fuel => call.onwards fuel i ops relative k) ∧
    (∀ readdir maxEntries, Returns (fun fuel => vfsReaddir fuel k.vfs readdir path maxEntries) ↔
      Ends cwd path) ∧
    (Returns (fun fuel => vfsChdir fuel k.vfs.paths path) ↔
      Ends cwd path ∧ ((∃ fuel m, vfsResolvePath fuel k.vfs.paths path = some (.ok m)) →
        Ends cwd (workingPath cwd path))) :=
  ⟨returns_normalize _ _,
    (returns_map _ _).trans (returns_normalize _ _),
    fun call => call.returns_iff hinit hfits, returns_readdir hinit hfits, returns_chdir hinit⟩

/-- A RAM file system mounted at the root, and the working directory `"/a"`. -/
def inDirectory : Kernel :=
  { mountedSys.kernel with
    vfs := { mountedSys.kernel.vfs with currentWorkingDirectory := [slash, 0x61] } }

/-- `"."` is normalised at once, but `vfs_chdir(".")` never comes back: it goes on to
normalise `"/a/."`. -/
theorem path_calls_end_iff_dot :
    Returns (fun fuel => vfsNormalizePath fuel [slash, 0x61] dotStr) ∧
      ¬ Returns (fun fuel => vfsChdir fuel inDirectory.vfs.paths dotStr) := by
  obtain ⟨hnormalize, -, -, -, hchdir⟩ :=
    path_calls_end_iff inDirectory dotStr rfl (by decide +kernel)
  refine ⟨hnormalize.mpr (.inl rfl), fun h => ?_⟩
  have hresolves : vfsResolvePath 0 inDirectory.vfs.paths dotStr =
      some (.ok (⟨rootStr, true⟩, [slash, 0x61])) := by decide +kernel
  obtain hdot | hdot | hdot := (hchdir.mp h).2 ⟨0, _, hresolves⟩
  · exact absurd hdot (by decide)
  · exact absurd hdot (by decide)
  · refine hdot ⟨[[0x61]], [], by decide, by decide, fun q hq => ?_⟩
    obtain rfl | ⟨t, rfl, ht⟩ := List.prefix_cons_iff.mp hq
    · decide
    · rw [List.prefix_nil.mp ht]
      decide

end ContinuumOS.Vfs.Hanging
