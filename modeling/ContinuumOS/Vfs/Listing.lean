import ContinuumOS.Vfs.Resolution

/-! # Listing a directory

`vfs_readdir` lists what the file system has and adds a directory for each
mountpoint below the path. The file system's own `readdir` is a parameter: the
additions are right behind whatever it lists. -/
namespace ContinuumOS.Vfs.Listing
open ContinuumOS.Lib.Words ContinuumOS.Libc.String
open ContinuumOS.Ramfs.Nodes
open ContinuumOS.Vfs.Path ContinuumOS.Vfs.Termination ContinuumOS.Vfs.Normalize
open ContinuumOS.Vfs.Mounts ContinuumOS.Vfs.Adapters ContinuumOS.Vfs.Files

/-- `VFS_TYPE_FILE` and `VFS_TYPE_DIRECTORY` -/
inductive DirentType where
  | file
  | directory
  deriving DecidableEq, Repr

/-- `vfs_dirent_t` -/
structure Dirent where
  name : CStr
  type : DirentType
  size : Nat
  deriving DecidableEq, Repr

/-- The entry of a mountpoint. -/
def mountEntry (name : CStr) : Dirent := ⟨name.take (nameSize - 1), .directory, 0⟩

/-- The path with a slash at its end. -/
def withSlash (normalized : CStr) : CStr :=
  if 0 < normalized.length ∧ normalized.getLast? ≠ some slash then normalized ++ [slash]
  else normalized

/-- One round of the loop over the mounts; `path` ends with a slash. -/
def addMount (path : CStr) (maxEntries : Nat) (entries : List Dirent) (m : MountSlot) :
    List Dirent :=
  if entries.length < maxEntries ∧ m.mounted = true then
    if m.mountpoint = path ∨ (path.length = 1 ∧ m.mountpoint = rootStr) then entries
    else if path <+: m.mountpoint then
      let remaining := m.mountpoint.drop path.length
      if strchr slash remaining = none then
        if entries.any fun e => e.name == remaining then entries
        else entries ++ [mountEntry remaining]
      else entries
    else entries
  else entries

/-- The entries, or the code that the call returns. -/
def vfsReaddir (fuel : Nat) (v : VfsTables) (readdir : Ops → CStr → Nat → Except Code (List Dirent))
    (path : CStr) (maxEntries : Nat) : Option (Except Code (List Dirent)) :=
  if ¬ v.initialized then some (.error .error)
  else (resolve fuel v path).bind fun
    | none => some (.error .notFound)
    | some (i, relative) =>
      match v.opsAt i with
      | none => some (.error .error)
      | some ops =>
        match readdir ops relative maxEntries with
        | .error code => some (.error code)
        | .ok entries =>
          (vfsNormalizePath fuel v.currentWorkingDirectory path).map fun normalized =>
            .ok (v.mounts.foldl (addMount (withSlash normalized) maxEntries) entries)

/-! ## What a listing should be -/

/-- The mounts of a table of distinct canonical mountpoints with names that fit an
entry. -/
structure MountsOk (mounts : List MountSlot) : Prop where
  distinct : ((mounts.filter fun m => m.mounted).map fun m => m.mountpoint).Nodup
  canonical : ∀ m ∈ mounts, m.mounted = true → Canonical m.mountpoint
  names : ∀ m ∈ mounts, m.mounted = true → ∀ c ∈ components m.mountpoint, c.length < nameSize

/-- The name below `path` at which a file system is mounted, if it is mounted
directly below it. -/
def childName (path : CStr) (m : MountSlot) : Option CStr :=
  if m.mounted = true ∧ (components m.mountpoint).dropLast = components path then
    (components m.mountpoint).getLast?
  else none

/-- The names that the listing of `path` lacks. -/
def missingNames (path : CStr) (mounts : List MountSlot) (listing : List Dirent) : List CStr :=
  (mounts.filterMap (childName path)).filter fun c => !(listing.map Dirent.name).contains c

/-- The listing with the missing mountpoints behind it, as far as there is room. -/
def fullListing (path : CStr) (mounts : List MountSlot) (listing : List Dirent) (maxEntries : Nat) :
    List Dirent :=
  (listing ++ (missingNames path mounts listing).map fun c => Dirent.mk c .directory 0).take
    maxEntries

section

variable {v : VfsTables} {path : CStr} {mounts : List MountSlot} {m : MountSlot}
variable {listing entries : List Dirent} {maxEntries : Nat}

theorem childName_eq_some {c : CStr} : childName path m = some c ↔
    m.mounted = true ∧ components m.mountpoint = components path ++ [c] := by
  rw [childName, Option.ite_none_right_eq_some]
  constructor
  · rintro ⟨⟨hm, hdrop⟩, hlast⟩
    obtain ⟨init, hinit⟩ := List.getLast?_eq_some_iff.mp hlast
    rw [hinit, List.dropLast_concat] at hdrop
    exact ⟨hm, by rw [hinit, hdrop]⟩
  · rintro ⟨hm, hsplit⟩
    rw [hsplit]
    exact ⟨⟨hm, List.dropLast_concat⟩, List.getLast?_concat⟩

/-! ## The test for a direct child -/

theorem strchr_eq_none {c : UInt8} : ∀ {s : CStr}, strchr c s = none ↔ c ∉ s
  | [] => by simp [strchr]
  | x :: xs => by
    have ih := strchr_eq_none (c := c) (s := xs)
    by_cases hx : x = c
    · simp [strchr, hx]
    · simp [strchr, hx, ih, Ne.symm hx]

theorem withSlash_joinPath {ps : List CStr} (h : PlainWords ps) :
    withSlash (joinPath ps) = joinWords slash ps ++ [slash] := by
  by_cases hp : ps = []
  · subst hp
    rfl
  · have hlast := joinWords_getLast hp fun c hc => ⟨(h c hc).2.1, (h c hc).1⟩
    have hpos : 0 < (joinWords slash ps).length := by
      rw [joinWords_eq_intercalate _ hp]
      exact Nat.zero_lt_succ _
    rw [joinPath_of_ne hp, withSlash, if_pos ⟨hpos, hlast⟩]

theorem components_behind {ps ms : List CStr} {rest : CStr} (hps : PlainWords ps)
    (hms : PlainWords ms) (h : joinPath ms = joinWords slash ps ++ slash :: rest) :
    ms = ps ++ components rest := by
  have hwords : components (joinWords slash ps) = ps := by
    by_cases hp : ps = []
    · subst hp
      rfl
    · rw [← joinPath_of_ne hp, components_joinPath hps]
  rw [← components_joinPath hms, h, components, words_append_sep _ _ (by simp)]
  exact congrArg (· ++ _) hwords

theorem components_name {c : CStr} (hne : c ≠ []) (hs : slash ∉ c) : components c = [c] :=
  words_of_isWord (isWord_iff.mpr ⟨hne, hs⟩)

theorem joinPath_child (ps : List CStr) (c : CStr) :
    joinPath (ps ++ [c]) = joinWords slash ps ++ slash :: c := by
  rw [joinPath_of_ne (by simp), joinWords_append, joinWords_cons, joinWords_nil, List.append_nil]

/-- What the loop does for a mount, in terms of names. -/
def addChild (maxEntries : Nat) (entries : List Dirent) : Option CStr → List Dirent
  | none => entries
  | some c =>
    if entries.length < maxEntries ∧ c ∉ entries.map Dirent.name then
      entries ++ [⟨c, .directory, 0⟩]
    else entries

theorem addChild_of_full (h : ¬ entries.length < maxEntries) (child : Option CStr) :
    addChild maxEntries entries child = entries := by
  cases child with
  | none => rfl
  | some c => exact if_neg fun hc => h hc.1

theorem any_name {c : CStr} :
    (entries.any fun e => e.name == c) = true ↔ c ∈ entries.map Dirent.name := by
  simp only [List.any_eq_true, beq_iff_eq, List.mem_map]

/-- **The test for a direct child** is right on canonical paths. -/
theorem addMount_eq (hp : Canonical path) (hm : m.mounted = true → Canonical m.mountpoint)
    (hnames : m.mounted = true → ∀ c ∈ components m.mountpoint, c.length < nameSize) :
    addMount (withSlash path) maxEntries entries m =
      addChild maxEntries entries (childName path m) := by
  unfold addMount
  by_cases hroom : entries.length < maxEntries
  swap
  · rw [if_neg fun h => hroom h.1, addChild_of_full hroom]
  by_cases hmounted : m.mounted = true
  swap
  · rw [if_neg fun h => hmounted h.2, childName, if_neg fun h => hmounted h.1]
    rfl
  obtain ⟨ps, hps, rfl⟩ := hp.exists_components
  obtain ⟨ms, hms, hmp⟩ := (hm hmounted).exists_components
  have hnames := hnames hmounted
  have hchild : ∀ c, childName (joinPath ps) m = some c ↔ ms = ps ++ [c] := fun c => by
    rw [childName_eq_some, hmp, components_joinPath hms, components_joinPath hps]
    exact and_iff_right hmounted
  have hnone : (∀ c, ms ≠ ps ++ [c]) → childName (joinPath ps) m = none := fun h => by
    cases hc : childName (joinPath ps) m with
    | none => rfl
    | some c => exact absurd ((hchild c).mp hc) (h c)
  rw [if_pos ⟨hroom, hmounted⟩, withSlash_joinPath hps]
  split
  · -- the path itself
    rename_i hskip
    rw [hnone fun c hc => ?_]
    · rfl
    obtain hself | ⟨-, hroot⟩ := hskip
    · have hms' := components_behind hps hms (hmp.symm.trans hself)
      rw [hc, show components ([] : CStr) = [] from rfl] at hms'
      exact absurd (List.append_cancel_left hms') (by simp)
    · rw [hmp, hc] at hroot
      exact joinPath_ne_root (hc ▸ hms) (by simp) hroot
  rename_i hskip
  split
  · rename_i hpre
    obtain ⟨rest, hrest⟩ := hpre
    rw [← hrest, List.drop_left]
    rw [List.append_assoc, List.singleton_append] at hrest
    have hbehind := components_behind hps hms (hmp.symm.trans hrest.symm)
    simp only [strchr_eq_none]
    by_cases hs : slash ∈ rest
    · -- a deeper mountpoint
      rw [if_neg (not_not.mpr hs), hnone fun c hc => ?_]
      · rfl
      rw [hmp, hc, joinPath_child] at hrest
      obtain rfl := (List.cons.inj (List.append_cancel_left hrest)).2
      exact (hms rest (by rw [hc]; simp)).1 hs
    · have hne : rest ≠ [] := by
        rintro rfl
        exact hskip (.inl hrest.symm)
      rw [components_name hne hs] at hbehind
      have hlen : rest.length < nameSize := by
        refine hnames rest ?_
        rw [hmp, components_joinPath hms, hbehind]
        simp
      have hentry : mountEntry rest = ⟨rest, .directory, 0⟩ := by
        have hle : rest.length ≤ nameSize - 1 := Nat.le_pred_of_lt hlen
        rw [mountEntry, List.take_of_length_le hle]
      rw [if_pos hs, (hchild rest).mpr hbehind, addChild, hentry]
      simp only [any_name, hroom, true_and]
      by_cases hin : rest ∈ entries.map Dirent.name
      · rw [if_pos hin, if_neg (not_not.mpr hin)]
      · rw [if_neg hin, if_pos hin]
  · -- the path is not above the mountpoint
    rename_i hpre
    rw [hnone fun c hc => hpre ?_]
    · rfl
    rw [hmp, hc, joinPath_child]
    exact ⟨c, by simp⟩

/-! ## The whole loop -/

theorem foldl_addChild (listing : List Dirent) (hlen : listing.length ≤ maxEntries) :
    ∀ (children : List (Option CStr)), (children.filterMap id).Nodup →
    children.foldl (addChild maxEntries) listing =
      (listing ++ ((children.filterMap id).filter fun c =>
        !(listing.map Dirent.name).contains c).map fun c => Dirent.mk c .directory 0).take
        maxEntries := by
  intro children
  induction children using List.reverseRecOn with
  | nil =>
    intro _
    simp [List.take_of_length_le hlen]
  | append_singleton children child ih =>
    intro hnodup
    rw [List.filterMap_append, List.nodup_append] at hnodup
    rw [List.foldl_append, List.foldl_cons, List.foldl_nil, ih hnodup.1, List.filterMap_append,
      List.filter_append, List.map_append, ← List.append_assoc]
    generalize hfound : (children.filterMap id).filter (fun c =>
      !(listing.map Dirent.name).contains c) = found at *
    generalize hseen : listing ++ found.map (fun c => Dirent.mk c .directory 0) = seen
    have hseenNames : seen.map Dirent.name = listing.map Dirent.name ++ found := by
      rw [← hseen, List.map_append, List.map_map]
      simp [Function.comp_def]
    cases child with
    | none => simp [addChild]
    | some c =>
      have hnew : c ∉ children.filterMap id := fun hc =>
        hnodup.2.2 c hc c (by simp) rfl
      have hfoundNot : c ∉ found := fun hc => hnew (List.mem_of_mem_filter (hfound ▸ hc))
      have hkeep : ((List.filterMap id [some c]).filter fun c =>
          !(listing.map Dirent.name).contains c) =
            if c ∈ listing.map Dirent.name then [] else [c] := by
        generalize listing.map Dirent.name = names
        by_cases hc : c ∈ names <;> simp [hc]
      rw [hkeep]
      by_cases hroom : seen.length < maxEntries
      · rw [List.take_of_length_le hroom.le, addChild, hseenNames]
        by_cases hc : c ∈ listing.map Dirent.name
        · rw [if_neg fun h => h.2 (List.mem_append_left _ hc), if_pos hc, List.map_nil,
            List.append_nil, List.take_of_length_le hroom.le]
        · have hnot : c ∉ listing.map Dirent.name ++ found := by
            rw [List.mem_append, not_or]
            exact ⟨hc, hfoundNot⟩
          rw [if_pos ⟨hroom, hnot⟩, if_neg hc, List.map_singleton, List.take_of_length_le]
          rw [List.length_append, List.length_singleton]
          exact hroom
      · have hfull : ¬ (seen.take maxEntries).length < maxEntries := by
          rw [List.length_take]
          omega
        rw [addChild_of_full hfull, List.take_append_of_le_length (by omega)]

theorem foldl_addMount (ok : MountsOk mounts) (hp : Canonical path) :
    mounts.foldl (addMount (withSlash path) maxEntries) listing =
      (mounts.map (childName path)).foldl (addChild maxEntries) listing := by
  rw [List.foldl_map]
  refine List.foldl_ext _ _ _ fun entries m hm => ?_
  exact addMount_eq hp (ok.canonical m hm) (ok.names m hm)

theorem childName_iff {c : CStr} (hm : m.mounted = true → Canonical m.mountpoint) :
    childName path m = some c ↔
      m.mounted = true ∧ m.mountpoint = joinPath (components path ++ [c]) ∧
        PlainWords (components path ++ [c]) := by
  rw [childName_eq_some]
  refine and_congr_right fun hmounted => ?_
  obtain ⟨ms, hms, hmp⟩ := (hm hmounted).exists_components
  rw [hmp, components_joinPath hms]
  constructor
  · rintro rfl
    exact ⟨rfl, hms⟩
  · rintro ⟨heq, hplain⟩
    rw [← components_joinPath hms, heq, components_joinPath hplain]

theorem children_nodup (ok : MountsOk mounts) :
    (mounts.filterMap (childName path)).Nodup := by
  have hdistinct := ok.distinct
  rw [List.Nodup, List.pairwise_map, List.pairwise_filter] at hdistinct
  rw [List.Nodup, List.pairwise_filterMap]
  refine hdistinct.imp_of_mem fun {a b} ha hb hne c hc d hd hcd => ?_
  obtain ⟨hma, hmpa, -⟩ := (childName_iff (ok.canonical a ha)).mp hc
  obtain ⟨hmb, hmpb, -⟩ := (childName_iff (ok.canonical b hb)).mp hd
  exact hne hma hmb (by rw [hmpa, hmpb, hcd])

theorem mem_missingNames {c : CStr} (ok : MountsOk mounts) :
    c ∈ missingNames path mounts listing ↔ c ∉ listing.map Dirent.name ∧
      ∃ m ∈ mounts, m.mounted = true ∧ m.mountpoint = joinPath (components path ++ [c]) ∧
        PlainWords (components path ++ [c]) := by
  rw [missingNames, List.mem_filter, List.mem_filterMap, and_comm]
  refine and_congr (by simp) (exists_congr fun m => and_congr_right fun hm => ?_)
  exact childName_iff (ok.canonical m hm)

theorem normalizeGeneral_absolute {fuel : Nat} {cwd : CStr} (h : path.head? = some slash) :
    normalizeGeneral fuel cwd path = normalizeGeneral fuel rootStr path := by
  rw [normalizeGeneral, normalizeGeneral, vfsResolveDots, vfsResolveDots,
    workingPath_of_absolute _ h, workingPath_of_absolute _ h]

theorem vfsNormalizePath_canonical {fuel : Nat} {cwd : CStr} (hp : Canonical path)
    (hcount : (components path).length < maxComponents) (hlen : path.length < vfsMaxPath)
    (hf : (components path).length < fuel) : vfsNormalizePath fuel cwd path = some path := by
  obtain ⟨hdot, hdotDot⟩ := ne_of_absolute hp.1
  have hroot : Canonical rootStr := ⟨rfl, .inl rfl⟩
  rw [vfsNormalizePath, if_neg hdot, if_neg hdotDot, normalizeGeneral_absolute hp.1]
  obtain ⟨ps, hps, rfl⟩ := hp.exists_components
  rw [components_joinPath hps] at hcount hf
  exact normalizeGeneral_joinPath hroot hps hlen hcount.le fuel hf

/-- **A listing shows files and mountpoints once.** Over distinct canonical
mountpoints, whatever the file system of the path lists: `vfs_readdir` returns
that, and behind it, as far as there is room, a directory for each name that it
lacks and at which a file system is mounted directly below the path. No name is
added twice. -/
theorem readdir_lists {i : Nat} {ops : Ops}
    {readdir : Ops → CStr → Nat → Except Code (List Dirent)} (hinit : v.initialized = true)
    (ok : MountsOk v.mounts) (hp : Canonical path)
    (hcount : (components path).length < maxComponents) (hlen : path.length < vfsMaxPath - 1)
    (hslot : findSlot v path = some i) (hops : v.opsAt i = some ops)
    (hread : readdir ops (relativePath ⟨((v.mounts[i]?).getD .zero).mountpoint, true⟩ path)
      maxEntries = .ok listing) (hle : listing.length ≤ maxEntries) :
    (∃ N, ∀ fuel, N < fuel → vfsReaddir fuel v readdir path maxEntries =
      some (.ok (fullListing path v.mounts listing maxEntries))) ∧
    (missingNames path v.mounts listing).Nodup ∧
    ∀ c, c ∈ missingNames path v.mounts listing ↔ c ∉ listing.map Dirent.name ∧
      ∃ m ∈ v.mounts, m.mounted = true ∧ m.mountpoint = joinPath (components path ++ [c]) ∧
        PlainWords (components path ++ [c]) := by
  refine ⟨⟨(components path).length, fun fuel hf => ?_⟩, (children_nodup ok).filter _,
    fun c => mem_missingNames ok⟩
  have hshort : path.length < vfsMaxPath := hlen.trans_le (Nat.sub_le _ _)
  have hnorm : vfsNormalizePath fuel v.currentWorkingDirectory path = some path :=
    vfsNormalizePath_canonical hp hcount hshort hf
  have hfits : fitsBuffers v.currentWorkingDirectory path = true := by
    simp [fitsBuffers, workingPath_of_absolute _ hp.1, hshort]
  have hchildren : (v.mounts.map (childName path)).filterMap id =
      v.mounts.filterMap (childName path) := by
    rw [List.filterMap_map]
    rfl
  have hfold := foldl_addChild listing hle (v.mounts.map (childName path))
    (hchildren.symm ▸ children_nodup ok)
  simp only [vfsReaddir, hinit, not_true_eq_false, if_false, resolve, hfits, if_true, hnorm,
    Option.map_some, hslot, Option.bind_some, hops, hread, foldl_addMount ok hp, hfold, hchildren]
  rfl

end

/-! ## Mounts below the root -/

/-- `"/"`, `"/m"` and `"/m/n"`. -/
def nested : VfsTables := { vfsInit with mounts :=
  [⟨rootStr, fsRamfs, 0, some .ramfs, true⟩, ⟨[slash, 0x6D], fsFat32, 0, some .fat32, true⟩,
    ⟨[slash, 0x6D, slash, 0x6E], fsFat32, 0, some .fat32, true⟩] }

/-- The root holds the file `"f"`. -/
def oneFile : Ops → CStr → Nat → Except Code (List Dirent) := fun _ _ _ => .ok [⟨[0x66], .file, 3⟩]

theorem mountsOk_nested : MountsOk nested.mounts := by
  refine ⟨by decide, fun m hm _ => ?_, by decide⟩
  simp only [nested, List.mem_cons, List.not_mem_nil, or_false] at hm
  obtain rfl | rfl | rfl := hm
  · exact canonical_joinPath (show PlainWords [] by simp [PlainWords])
  · exact canonical_joinPath (show PlainWords [[0x6D]] by
      simp [PlainWords, Plain, slash, dotStr, dotDotStr, dot])
  · exact canonical_joinPath (show PlainWords [[0x6D], [0x6E]] by
      simp [PlainWords, Plain, slash, dotStr, dotDotStr, dot])

/-- The listing of the root has the file and `"m"`. -/
theorem readdir_lists_nested : ∃ N, ∀ fuel, N < fuel → vfsReaddir fuel nested oneFile rootStr 5 =
    some (.ok [⟨[0x66], .file, 3⟩, ⟨[0x6D], .directory, 0⟩]) := by
  have hroot : Canonical rootStr := ⟨rfl, .inl rfl⟩
  have hread : oneFile .ramfs (relativePath ⟨rootStr, true⟩ rootStr) 5 =
      .ok [⟨[0x66], .file, 3⟩] := rfl
  obtain ⟨⟨N, hN⟩, -⟩ := readdir_lists rfl mountsOk_nested hroot (by decide) (by decide)
    (show findSlot nested rootStr = some 0 by decide) rfl hread (by decide)
  exact ⟨N, fun fuel hf => (hN fuel hf).trans (by decide)⟩

end ContinuumOS.Vfs.Listing
