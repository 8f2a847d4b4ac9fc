import ContinuumOS.Vfs.Normalize
import Mathlib.Data.List.Nodup

/-! # A path resolves to the deepest mount above it

`vfs_find_mount` compares bytes and tests the byte behind the mountpoint. On
canonical paths that test says that the components of the mountpoint are the
first components of the path (`belowMount_iff`), so the search over the slots
finds the mount with the most components, and what `vfs_resolve_path` strips
off is exactly its mountpoint. -/
namespace ContinuumOS.Vfs.Mounts
open ContinuumOS.Lib.Words ContinuumOS.Libc.String
open ContinuumOS.Vfs.Path ContinuumOS.Vfs.Termination ContinuumOS.Vfs.Normalize

/-! ## The specification -/

/-- A mount table as `vfs_mount` leaves it when it is given canonical
mountpoints, the root among them. -/
structure TableOk (vfs : VfsState) : Prop where
  initialized : vfs.initialized = true
  distinct : ((vfs.mounts.filter fun m => m.mounted).map fun m => m.mountpoint).Nodup
  canonical : ∀ m ∈ vfs.mounts, m.mounted = true → Canonical m.mountpoint
  root : ∃ m ∈ vfs.mounts, m.mounted = true ∧ m.mountpoint = rootStr

/-- The mountpoint is the path or one of the directories above it. -/
def Above (mountpoint path : CStr) : Prop := components mountpoint <+: components path

instance (mountpoint path : CStr) : Decidable (Above mountpoint path) :=
  inferInstanceAs (Decidable (_ <+: _))

/-- A path inside a file system, put behind its mountpoint. -/
def joinMount (mountpoint relative : CStr) : CStr :=
  if mountpoint = rootStr then relative
  else if relative = rootStr then mountpoint
  else mountpoint ++ relative

/-- What resolving the path `absolute` should give: the mounted file system with
the longest mountpoint above the path, and the rest of the path. -/
structure ResolvesTo (vfs : VfsState) (absolute : CStr) (m : Mount) (relative : CStr) : Prop where
  mem : m ∈ vfs.mounts
  mounted : m.mounted = true
  above : Above m.mountpoint absolute
  longest : ∀ n ∈ vfs.mounts, n.mounted = true → Above n.mountpoint absolute → n ≠ m →
    (components n.mountpoint).length < (components m.mountpoint).length ∧
      n.mountpoint.length < m.mountpoint.length
  canonical : Canonical relative
  join : joinMount m.mountpoint relative = absolute

/-! ## The byte test is the test of components -/

theorem joinPath_of_ne {cs : List CStr} (h : cs ≠ []) : joinPath cs = joinWords slash cs := by
  unfold joinPath
  exact if_neg h

theorem joinPath_ne_root {cs : List CStr} (h : PlainWords cs) (hne : cs ≠ []) :
    joinPath cs ≠ rootStr := by
  intro heq
  have hcs := components_joinPath h
  rw [heq] at hcs
  exact hne (hcs.symm.trans (by decide))

theorem joinPath_append {ps rs : List CStr} (hp : ps ≠ []) :
    joinPath (ps ++ rs) = joinPath ps ++ joinWords slash rs := by
  rw [joinPath_of_ne (List.append_ne_nil_of_left_ne_nil hp rs), joinPath_of_ne hp,
    joinWords_append]

theorem length_joinPath_lt {ps rs : List CStr} (h : PlainWords (ps ++ rs)) (hr : rs ≠ []) :
    (joinPath ps).length < (joinPath (ps ++ rs)).length := by
  obtain ⟨r, rs, rfl⟩ := List.exists_cons_of_ne_nil hr
  have hword : 0 < r.length := List.length_pos_iff.mpr (h r (by simp)).2.1
  by_cases hp : ps = []
  · subst hp
    rw [List.nil_append, joinPath_of_ne (List.cons_ne_nil _ _), joinWords_cons]
    simp only [joinPath, if_true, rootStr, List.length_cons, List.length_append, List.length_nil]
    omega
  · rw [joinPath_append hp, joinWords_cons]
    simp only [List.length_append, List.length_cons]
    omega

/-- The condition of `vfs_find_mount`: the mountpoint is the beginning of the
path, and ends there where a component of the path ends. -/
def BelowMount (mountpoint path : CStr) : Prop :=
  mountpoint <+: path ∧
    (path[mountpoint.length]? = none ∨ path[mountpoint.length]? = some slash ∨
      mountpoint = rootStr)

theorem belowMount_iff {mountpoint path : CStr} (hm : Canonical mountpoint)
    (hp : Canonical path) : BelowMount mountpoint path ↔ Above mountpoint path := by
  obtain ⟨ms, hms, rfl⟩ := hm.exists_components
  obtain ⟨ps, hps, rfl⟩ := hp.exists_components
  rw [Above, components_joinPath hms, components_joinPath hps]
  by_cases hroot : ms = []
  · -- the root is above every path
    subst hroot
    have hhead := head_joinPath ps
    refine iff_of_true ⟨?_, .inr (.inr rfl)⟩ List.nil_prefix
    cases h : joinPath ps with
    | nil => rw [h] at hhead; cases hhead
    | cons c r =>
      rw [h, List.head?_cons, Option.some.injEq] at hhead
      exact ⟨r, by rw [hhead]; rfl⟩
  constructor
  · rintro ⟨⟨rest, hrest⟩, hend⟩
    rw [← hrest, List.getElem?_append_right le_rfl, Nat.sub_self] at hend
    have hcomp := components_joinPath hps
    rw [← hrest] at hcomp
    -- the bytes behind the mountpoint are more components, or nothing
    cases rest with
    | nil =>
      rw [List.append_nil, components_joinPath hms] at hcomp
      exact hcomp ▸ List.prefix_rfl
    | cons c rest =>
      obtain hend | hend | hend := hend
      · cases hend
      · rw [List.getElem?_cons_zero, Option.some.injEq] at hend
        subst hend
        rw [components, words_append_sep _ _ (by simp)] at hcomp
        exact ⟨words (fun c => [slash].contains c) rest, by
          rw [← hcomp]
          exact congrArg (· ++ _) (components_joinPath hms).symm⟩
      · exact absurd hend (joinPath_ne_root hms hroot)
  · rintro ⟨rs, rfl⟩
    rw [joinPath_append hroot]
    refine ⟨List.prefix_append _ _, ?_⟩
    rw [List.getElem?_append_right le_rfl, Nat.sub_self]
    cases rs with
    | nil => exact .inl rfl
    | cons r rs => exact .inr (.inl (by rw [joinWords_cons, List.getElem?_cons_zero]))

/-! ## The search over the slots -/

instance (mountpoint path : CStr) : Decidable (BelowMount mountpoint path) :=
  inferInstanceAs (Decidable (_ ∧ _))

/-- A mounted file system that the path may belong to. -/
def Candidate (path : CStr) (m : Mount) : Prop :=
  m.mounted = true ∧ BelowMount m.mountpoint path

instance (path : CStr) (m : Mount) : Decidable (Candidate path m) :=
  inferInstanceAs (Decidable (_ ∧ _))

theorem findMountStep_eq (path : CStr) (best : Option Mount × Nat) (m : Mount) :
    findMountStep path best m =
      if Candidate path m ∧ best.2 < m.mountpoint.length then (some m, m.mountpoint.length)
      else best := by
  unfold findMountStep Candidate BelowMount
  simp only [Bool.and_eq_true, Bool.or_eq_true, beq_iff_eq, decide_eq_true_eq,
    List.isPrefixOf_iff_prefix, and_assoc, or_assoc]

/-- The best mount among the slots seen: no candidate is longer, and its length
is the one on record. -/
structure BestOf (path : CStr) (seen : List Mount) (best : Option Mount × Nat) : Prop where
  bound : ∀ n ∈ seen, Candidate path n → n.mountpoint.length ≤ best.2
  found : ∀ m, best.1 = some m → m ∈ seen ∧ Candidate path m ∧ best.2 = m.mountpoint.length
  missing : best.1 = none → best.2 = 0

theorem BestOf.step {path : CStr} {seen : List Mount} {best : Option Mount × Nat}
    (h : BestOf path seen best) (m : Mount) :
    BestOf path (seen ++ [m]) (findMountStep path best m) := by
  rw [findMountStep_eq]
  split
  · rename_i hm
    refine ⟨fun n hn hc => ?_, fun n hn => ?_, (nomatch ·)⟩
    · obtain hn | hn := List.mem_append.mp hn
      · exact (h.bound n hn hc).trans hm.2.le
      · rw [List.mem_singleton.mp hn]
    · obtain rfl := Option.some.inj hn
      exact ⟨by simp, hm.1, rfl⟩
  · rename_i hm
    refine ⟨fun n hn hc => ?_, fun n hn => ?_, h.missing⟩
    · obtain hn | hn := List.mem_append.mp hn
      · exact h.bound n hn hc
      · obtain rfl := List.mem_singleton.mp hn
        exact Nat.le_of_not_lt fun hlt => hm ⟨hc, hlt⟩
    · obtain ⟨hmem, hrest⟩ := h.found n hn
      exact ⟨List.mem_append_left _ hmem, hrest⟩

theorem BestOf.foldl {path : CStr} (slots : List Mount) : ∀ {seen best}, BestOf path seen best →
    BestOf path (seen ++ slots) (slots.foldl (findMountStep path) best) := by
  induction slots with
  | nil => intro seen best h; rwa [List.append_nil]
  | cons m slots ih =>
    intro seen best h
    have hstep := ih (h.step m)
    rwa [List.append_assoc, List.singleton_append] at hstep

theorem vfsFindMount_spec {vfs : VfsState} (h : TableOk vfs) {path : CStr}
    (hp : Canonical path) : ∃ m, vfsFindMount vfs path = some m ∧ m ∈ vfs.mounts ∧
      Candidate path m ∧ ∀ n ∈ vfs.mounts, Candidate path n →
        n.mountpoint.length ≤ m.mountpoint.length := by
  have hstart : BestOf path [] (none, 0) := ⟨by simp, by simp, fun _ => rfl⟩
  have hbest := hstart.foldl vfs.mounts
  rw [List.nil_append] at hbest
  rw [vfsFindMount, if_pos h.initialized]
  cases hfound : (vfs.mounts.foldl (findMountStep path) (none, 0)).1 with
  | some m =>
    obtain ⟨hmem, hcand, hlen⟩ := hbest.found m hfound
    exact ⟨m, rfl, hmem, hcand, hlen ▸ hbest.bound⟩
  | none =>
    -- the root is a candidate, so some mount is found
    obtain ⟨r, hr, hmounted, hroot⟩ := h.root
    have habove : Above r.mountpoint path := by
      rw [Above, hroot]
      exact List.nil_prefix
    have hle := hbest.bound r hr
      ⟨hmounted, (belowMount_iff (h.canonical r hr hmounted) hp).mpr habove⟩
    rw [hbest.missing hfound, hroot] at hle
    exact absurd hle (by decide)

/-! ## The rest of the path -/

theorem relativePath_append {m : Mount} {ms rs : List CStr} (hm : m.mountpoint = joinPath ms)
    (h : PlainWords (ms ++ rs)) : relativePath m (joinPath (ms ++ rs)) = joinPath rs := by
  have hms : PlainWords ms := fun c hc => h c (List.mem_append_left _ hc)
  rw [relativePath, hm]
  by_cases hroot : ms = []
  · subst hroot
    exact if_pos rfl
  rw [if_neg (joinPath_ne_root hms hroot), joinPath_append hroot,
    List.getElem?_append_right le_rfl, Nat.sub_self, List.drop_left]
  cases rs with
  | nil => rfl
  | cons r rs =>
    rw [joinPath_of_ne (List.cons_ne_nil _ _), joinWords_cons]
    exact if_pos rfl

theorem joinMount_joinPath {ms rs : List CStr} (h : PlainWords (ms ++ rs)) :
    joinMount (joinPath ms) (joinPath rs) = joinPath (ms ++ rs) := by
  have hms : PlainWords ms := fun c hc => h c (List.mem_append_left _ hc)
  have hrs : PlainWords rs := fun c hc => h c (List.mem_append_right _ hc)
  unfold joinMount
  by_cases hroot : ms = []
  · subst hroot
    exact if_pos rfl
  rw [if_neg (joinPath_ne_root hms hroot), joinPath_append hroot]
  by_cases hr : rs = []
  · subst hr
    rw [joinWords_nil, List.append_nil]
    exact if_pos rfl
  · rw [if_neg (joinPath_ne_root hrs hr), joinPath_of_ne hr]

/-! ## Mount resolution -/

/-- Of two mountpoints above one path, the one with fewer components is the
shorter one; with as many, they are the same. -/
theorem above_lt {a b path : CStr} (ha : Canonical a) (hb : Canonical b)
    (hap : Above a path) (hbp : Above b path) (hle : a.length ≤ b.length) (hne : a ≠ b) :
    (components a).length < (components b).length ∧ a.length < b.length := by
  obtain ⟨as, has, rfl⟩ := ha.exists_components
  obtain ⟨bs, hbs, rfl⟩ := hb.exists_components
  rw [Above, components_joinPath has] at hap
  rw [Above, components_joinPath hbs] at hbp
  rw [components_joinPath has, components_joinPath hbs]
  obtain ⟨rs, rfl⟩ | ⟨rs, rfl⟩ := List.prefix_or_prefix_of_prefix hap hbp
  · have hr : rs ≠ [] := fun hr => hne (by rw [hr, List.append_nil])
    refine ⟨?_, length_joinPath_lt hbs hr⟩
    have hpos := List.length_pos_iff.mpr hr
    rw [List.length_append]
    omega
  · have hr : rs ≠ [] := fun hr => hne (by rw [hr, List.append_nil])
    have hlt := length_joinPath_lt has hr
    omega

theorem resolvesTo {vfs : VfsState} (h : TableOk vfs) {path : CStr} (hp : Canonical path) :
    ∃ m, vfsFindMount vfs path = some m ∧ ResolvesTo vfs path m (relativePath m path) := by
  obtain ⟨m, hfind, hmem, ⟨hmounted, hbelow⟩, hlongest⟩ := vfsFindMount_spec h hp
  have hm := h.canonical m hmem hmounted
  have habove := (belowMount_iff hm hp).mp hbelow
  obtain ⟨ms, hms, heq⟩ := hm.exists_components
  obtain ⟨ps, hps, rfl⟩ := hp.exists_components
  have hprefix := habove
  rw [Above, heq, components_joinPath hms, components_joinPath hps] at hprefix
  obtain ⟨rs, rfl⟩ := hprefix
  have hrel := relativePath_append heq hps
  refine ⟨m, hfind, hmem, hmounted, habove, fun n hn hnm hna hne => ?_, ?_, ?_⟩
  · have hnc := h.canonical n hn hnm
    have hle := hlongest n hn ⟨hnm, (belowMount_iff hnc (canonical_joinPath hps)).mpr hna⟩
    refine above_lt hnc hm hna habove hle fun hsame => hne ?_
    exact List.inj_on_of_nodup_map h.distinct (List.mem_filter.mpr ⟨hn, hnm⟩)
      (List.mem_filter.mpr ⟨hmem, hmounted⟩) hsame
  · rw [hrel]
    exact canonical_joinPath fun c hc => hps c (List.mem_append_right _ hc)
  · rw [hrel, heq]
    exact joinMount_joinPath hps

/-- **A path resolves to the deepest mount above it.** Over a table of distinct
canonical mountpoints with the root among them, in any order of the slots:
whenever `vfs_normalize_path` makes a canonical path of its argument,
`vfs_resolve_path` selects the mount with the longest mountpoint above that
path and returns the canonical rest, which joined to the mountpoint is the path
again. Every canonical path inside the buffers of the normalisation is its own
normal form, so this holds of it. -/
theorem mount_resolution {vfs : VfsState} (h : TableOk vfs) :
    (∀ fuel path absolute, vfsNormalizePath fuel vfs.currentWorkingDirectory path = some absolute →
      Canonical absolute → ∃ m relative, vfsResolvePath fuel vfs path = some (.ok (m, relative)) ∧
        ResolvesTo vfs absolute m relative) ∧
    (∀ absolute, Canonical absolute → Canonical vfs.currentWorkingDirectory →
      PathOk vfs.currentWorkingDirectory absolute → ∃ N, ∀ fuel, N < fuel → ∃ m relative,
        vfsResolvePath fuel vfs absolute = some (.ok (m, relative)) ∧
          ResolvesTo vfs absolute m relative) := by
  have hmain : ∀ fuel path absolute,
      vfsNormalizePath fuel vfs.currentWorkingDirectory path = some absolute →
      Canonical absolute → ∃ m relative, vfsResolvePath fuel vfs path = some (.ok (m, relative)) ∧
        ResolvesTo vfs absolute m relative := by
    intro fuel path absolute hnorm hcan
    obtain ⟨m, hfind, hres⟩ := resolvesTo h hcan
    refine ⟨m, relativePath m absolute, ?_, hres⟩
    rw [vfsResolvePath, hnorm, Option.map_some, hfind]
  refine ⟨hmain, fun absolute hcan hcwd hok => ?_⟩
  obtain ⟨cs, hcs, rfl⟩ := hcan.exists_components
  refine ⟨(components (workingPath vfs.currentWorkingDirectory (joinPath cs))).length,
    fun fuel hf => hmain fuel _ _ ?_ hcan⟩
  rw [vfsNormalizePath_eq hcwd hok fuel hf, normalForm,
    workingPath_of_absolute _ (head_joinPath cs), components_joinPath hcs, specStack_plainWords hcs]

theorem tableOk_example : TableOk
    ⟨true, rootStr, [⟨[slash, 0x6D, 0x78], true⟩, ⟨rootStr, true⟩, ⟨[slash, 0x6D], true⟩]⟩ := by
  refine ⟨rfl, by decide, fun m hm _ => ?_, ⟨rootStr, true⟩, by simp, rfl, rfl⟩
  simp only [List.mem_cons, List.not_mem_nil, or_false] at hm
  obtain rfl | rfl | rfl := hm
  · exact canonical_joinPath (show PlainWords [[0x6D, 0x78]] by
      simp [PlainWords, Plain, slash, dotStr, dotDotStr, dot])
  · exact canonical_joinPath (show PlainWords [] by simp [PlainWords])
  · exact canonical_joinPath (show PlainWords [[0x6D]] by
      simp [PlainWords, Plain, slash, dotStr, dotDotStr, dot])

/-- `"/mx//f"` belongs to `"/mx"`, not to `"/m"`. -/
theorem mount_resolution_example :
    ∃ relative, vfsResolvePath 8
        ⟨true, rootStr, [⟨[slash, 0x6D, 0x78], true⟩, ⟨rootStr, true⟩, ⟨[slash, 0x6D], true⟩]⟩
        [slash, 0x6D, 0x78, slash, slash, 0x66] =
          some (.ok (⟨[slash, 0x6D, 0x78], true⟩, relative)) ∧
      joinMount [slash, 0x6D, 0x78] relative = [slash, 0x6D, 0x78, slash, 0x66] := by
  have hcan : Canonical [slash, 0x6D, 0x78, slash, 0x66] :=
    canonical_joinPath (show PlainWords [[0x6D, 0x78], [0x66]] by
      simp [PlainWords, Plain, slash, dotStr, dotDotStr, dot])
  obtain ⟨m, relative, hrun, hres⟩ := (mount_resolution tableOk_example).1 8
    [slash, 0x6D, 0x78, slash, slash, 0x66] _ (by decide +kernel) hcan
  have hm : m = ⟨[slash, 0x6D, 0x78], true⟩ := by
    by_contra hne
    have hlt := (hres.longest ⟨[slash, 0x6D, 0x78], true⟩ (by simp) rfl (by decide +kernel)
      (Ne.symm hne)).1
    have hmem := hres.mem
    simp only [List.mem_cons, List.not_mem_nil, or_false] at hmem
    obtain rfl | rfl | rfl := hmem
    · exact hne rfl
    · exact absurd hlt (by decide +kernel)
    · exact absurd hlt (by decide +kernel)
  subst hm
  exact ⟨relative, hrun, hres.join⟩

end ContinuumOS.Vfs.Mounts
