import ContinuumOS.Vfs.Files
import ContinuumOS.Vfs.Mounts

/-! # What a path resolves to

Whatever path is given, as long as it fits the buffers: from a canonical working
directory the normalisation comes back with a canonical path, the search of the
mount table with a mounted slot, and the path inside that file system is
canonical again. The slots are those that `Vfs.Mounts` speaks of. -/
namespace ContinuumOS.Vfs.Resolution
open ContinuumOS.Lib.Words ContinuumOS.Libc.String
open ContinuumOS.Vfs.Path ContinuumOS.Vfs.Termination ContinuumOS.Vfs.Normalize
open ContinuumOS.Vfs.Mounts ContinuumOS.Vfs.Files

variable {fuel i : Nat} {v : VfsTables} {cwd path absolute relative : CStr}

/-! ## The path is canonical -/

theorem runTokens_front {ts : List CStr} : ∀ {stack r : List CStr}, runTokens ts stack = some r →
    ∃ pre, pre <+: ts ∧ dotStr ∉ pre ∧ r = pre.foldl pushComponent stack := by
  induction ts with
  | nil =>
    intro stack r h
    obtain rfl := Option.some.inj h
    exact ⟨[], List.prefix_rfl, by simp, rfl⟩
  | cons t ts ih =>
    intro stack r h
    rw [runTokens] at h
    split at h
    · split at h
      · cases h
      · rename_i hdot
        obtain ⟨pre, hpre, hnot, hr⟩ := ih h
        refine ⟨t :: pre, List.cons_prefix_cons.mpr ⟨rfl, hpre⟩, fun hm => ?_, hr⟩
        obtain he | hm := List.mem_cons.mp hm
        · exact hdot he.symm
        · exact hnot hm
    · obtain rfl := Option.some.inj h
      exact ⟨[], List.nil_prefix, by simp, rfl⟩

theorem runTokens_of_loop {ts stack r : List CStr} {token : Option CStr} {last : CStr}
    (hp : Pending token last ts) (h : resolveDotsLoop fuel token last stack = some r) :
    runTokens ts stack = some r := by
  cases hrun : runTokens ts stack with
  | none =>
    rw [resolveDotsLoop_none hp hrun] at h
    cases h
  | some q =>
    have hq := resolveDotsLoop_some hp hrun (fuel + (ts.length + 1)) (by omega)
    rw [resolveDotsLoop_mono h] at hq
    exact hq.symm

/-- The names after a front of the components take no more room than the path. -/
theorem length_front (hcwd : Canonical cwd) {pre post : List CStr}
    (h : components (workingPath cwd path) = pre ++ post) :
    (joinPath (specStack pre)).length ≤ (workingPath cwd path).length := by
  obtain ⟨s, hs⟩ : ∃ s, workingPath cwd path = slash :: s := by
    have hhead := head_workingPath hcwd path
    cases hw : workingPath cwd path with
    | nil => rw [hw] at hhead; cases hhead
    | cons c s =>
      rw [hw, List.head?_cons, Option.some.injEq] at hhead
      exact ⟨s, by rw [hhead]⟩
  have hfold := length_joinWords_foldl pre []
  have hwords := length_joinWords_words (p := fun c => [slash].contains c) slash s
  have hjoin := congrArg (fun ts => (joinWords slash ts).length) h
  rw [hs, components_cons_slash] at hjoin
  simp only [joinWords_append, List.length_append] at hjoin
  rw [hs, joinPath]
  split
  · simp [rootStr]
  · rw [joinWords_nil, List.length_nil, Nat.zero_add] at hfold
    rw [List.length_cons]
    exact hfold.trans ((Nat.le_add_right _ _).trans (hjoin.symm.trans_le hwords))

theorem vfsResolveDots_names {resolved : CStr} (hcwd : Canonical cwd)
    (h : vfsResolveDots fuel cwd path = some resolved) : ∃ names, PlainWords names ∧
      resolved = joinPath names ∧ resolved.length ≤ (workingPath cwd path).length := by
  obtain ⟨r, hloop, rfl⟩ := Option.map_eq_some_iff.mp h
  obtain ⟨pre, ⟨post, hpre⟩, hdot, rfl⟩ :=
    runTokens_front (runTokens_of_loop (pending_strtok _) hloop)
  have hmem : ∀ c ∈ pre, c ≠ [] ∧ slash ∉ c := fun c hc =>
    mem_components (hpre ▸ List.mem_append_left post hc)
  rw [← foldl_specStep hdot, rebuildPath_eq]
  exact ⟨_, plainWords_foldl (by simp [PlainWords]) hmem, rfl, length_front hcwd hpre.symm⟩

/-- **Normalisation gives a canonical path**, on every path inside the buffers. -/
theorem canonical_normalize (hcwd : Canonical cwd) (hfits : fitsBuffers cwd path = true)
    (h : vfsNormalizePath fuel cwd path = some absolute) : Canonical absolute := by
  unfold vfsNormalizePath at h
  split at h
  · exact Option.some.inj h ▸ hcwd
  split at h
  · obtain ⟨cs, hcs, rfl⟩ := hcwd.exists_components
    rw [parentOfCwd_joinPath hcs] at h
    exact Option.some.inj h ▸ canonical_joinPath fun c hc => hcs c (List.mem_of_mem_dropLast hc)
  · rename_i hdot hdotDot
    obtain ⟨resolved, hresolved, rfl⟩ := Option.map_eq_some_iff.mp h
    obtain ⟨names, hnames, rfl, hlen⟩ := vfsResolveDots_names hcwd hresolved
    have hbuffer : (workingPath cwd path).length < vfsMaxPath := by
      simpa [fitsBuffers, hdot, hdotDot] using hfits
    rw [cleanup_joinPath hnames (hlen.trans_lt hbuffer)]
    exact canonical_joinPath hnames

/-! ## The slot is mounted -/

/-- Slot `i`, as path resolution sees it. -/
def viewAt (v : VfsTables) (i : Nat) : Mount :=
  let m := (v.mounts[i]?).getD .zero
  ⟨m.mountpoint, m.mounted⟩

theorem findSlotStep_eq (path : CStr) (best : Option Nat × Nat) (slot : MountSlot × Nat) :
    findSlotStep path best slot =
      if Candidate path ⟨slot.1.mountpoint, slot.1.mounted⟩ ∧
          best.2 < slot.1.mountpoint.length then
        (some slot.2, slot.1.mountpoint.length) else best := by
  unfold findSlotStep Candidate BelowMount
  simp only [Bool.and_eq_true, Bool.or_eq_true, beq_iff_eq, decide_eq_true_eq,
    List.isPrefixOf_iff_prefix, and_assoc, or_assoc]

theorem findSlot_foldl (look : Nat → Mount) (path : CStr) : ∀ (slots : List (MountSlot × Nat))
    (best : Option Nat × Nat),
    (∀ slot ∈ slots, look slot.2 = ⟨slot.1.mountpoint, slot.1.mounted⟩) →
    (slots.map fun slot => look slot.2).foldl (findMountStep path) (best.1.map look, best.2) =
      (((slots.foldl (findSlotStep path) best).1.map look,
        (slots.foldl (findSlotStep path) best).2) : Option Mount × Nat) := by
  intro slots
  induction slots with
  | nil => exact fun _ _ => rfl
  | cons slot slots ih =>
    intro best hlook
    have hslot := hlook slot (.head _)
    rw [List.map_cons, List.foldl_cons, List.foldl_cons,
      ← ih _ fun slot' h => hlook slot' (.tail _ h)]
    congr 1
    rw [findMountStep_eq, findSlotStep_eq, hslot]
    split
    · exact congrArg (·, _) (congrArg some hslot.symm)
    · rfl

theorem vfsFindMount_paths (v : VfsTables) (path : CStr) :
    vfsFindMount v.paths path = (findSlot v path).map (viewAt v) := by
  have hlook : ∀ slot ∈ v.mounts.zipIdx,
      viewAt v slot.2 = ⟨slot.1.mountpoint, slot.1.mounted⟩ := fun slot hslot => by
    rw [viewAt, List.mem_zipIdx_iff_getElem?.mp hslot, Option.getD_some]
  have hfold := findSlot_foldl (viewAt v) path _ (none, 0) hlook
  have hmounts : (v.mounts.zipIdx.map fun slot => viewAt v slot.2) = v.paths.mounts := by
    rw [List.map_congr_left hlook, VfsTables.paths]
    refine List.ext_getElem? fun j => ?_
    rw [List.getElem?_map, List.getElem?_map, List.getElem?_zipIdx, Option.map_map]
    rfl
  rw [vfsFindMount, findSlot, ← hmounts]
  change (if v.initialized = true then _ else _) = _
  split
  · exact congrArg Prod.fst hfold
  · rfl

theorem foldl_findSlot {slots : List (MountSlot × Nat)} : ∀ {best : Option Nat × Nat},
    (slots.foldl (findSlotStep path) best).1 = some i → best.1 = some i ∨
      ∃ m, (m, i) ∈ slots ∧ Candidate path ⟨m.mountpoint, m.mounted⟩ ∧ m.mountpoint ≠ [] := by
  induction slots with
  | nil => exact fun h => .inl h
  | cons slot slots ih =>
    intro best h
    rw [List.foldl_cons] at h
    obtain hfound | ⟨m, hm, hc⟩ := ih h
    · rw [findSlotStep_eq] at hfound
      split at hfound
      · rename_i hstep
        obtain rfl := Option.some.inj hfound
        have hpos := Nat.zero_lt_of_lt hstep.2
        exact .inr ⟨slot.1, .head _, hstep.1, List.length_pos_iff.mp hpos⟩
      · exact .inl hfound
    · exact .inr ⟨m, .tail _ hm, hc⟩

theorem findSlot_some (h : findSlot v path = some i) : ∃ m, v.mounts[i]? = some m ∧
    m.mounted = true ∧ BelowMount m.mountpoint path ∧ m.mountpoint ≠ [] := by
  rw [findSlot] at h
  split at h
  · obtain hnone | ⟨m, hm, hc, hne⟩ := foldl_findSlot h
    · cases hnone
    · exact ⟨m, List.mem_zipIdx_iff_getElem?.mp hm, hc.1, hc.2, hne⟩
  · cases h

/-! ## The rest of the path -/

theorem drop_joinWords {cs : List CStr} : ∀ {n : Nat}, (∀ c ∈ cs, slash ∉ c) →
    (joinWords slash cs)[n]? = some slash →
    ∃ ds, ds <:+ cs ∧ ds ≠ [] ∧ (joinWords slash cs).drop n = joinWords slash ds := by
  induction cs with
  | nil => intro n _ hn; cases hn
  | cons c cs ih =>
    intro n hc hn
    cases n with
    | zero => exact ⟨c :: cs, List.suffix_rfl, List.cons_ne_nil _ _, rfl⟩
    | succ n =>
      rw [joinWords_cons, List.getElem?_cons_succ] at hn
      -- the slash is not in the first name
      have hle : c.length ≤ n := by
        by_contra hlt
        rw [List.getElem?_append_left (by omega)] at hn
        exact hc c (.head _) (List.mem_of_getElem? hn)
      rw [List.getElem?_append_right hle] at hn
      obtain ⟨ds, hds, hne, hdrop⟩ := ih (fun d hd => hc d (.tail _ hd)) hn
      refine ⟨ds, hds.trans (List.suffix_cons c cs), hne, ?_⟩
      rw [joinWords_cons, List.drop_succ_cons, List.drop_append, List.drop_eq_nil_of_le hle,
        List.nil_append, hdrop]

theorem canonical_drop {n : Nat} (h : Canonical absolute) (hn : absolute[n]? = some slash) :
    Canonical (absolute.drop n) := by
  obtain ⟨cs, hcs, rfl⟩ := h.exists_components
  by_cases hroot : cs = []
  · subst hroot
    obtain rfl : n = 0 := by
      have hlt := (List.getElem?_eq_some_iff.mp hn).1
      simp only [joinPath, if_true, rootStr, List.length_singleton] at hlt
      omega
    exact h
  rw [joinPath_of_ne hroot] at hn ⊢
  obtain ⟨ds, hds, hne, hdrop⟩ := drop_joinWords (fun c hc => (hcs c hc).1) hn
  rw [hdrop, ← joinPath_of_ne hne]
  exact canonical_joinPath fun c hc => hcs c (hds.subset hc)

theorem canonical_relativePath (m : Mount) (h : Canonical absolute) :
    Canonical (relativePath m absolute) := by
  unfold relativePath
  split
  · exact h
  split
  · rename_i hslash
    exact canonical_drop h hslash
  · exact canonical_joinPath (fun _ hc => nomatch hc : PlainWords [])

/-- **What a path resolves to**: a mounted slot, and a canonical path there. -/
theorem resolve_some (hcwd : Canonical v.currentWorkingDirectory)
    (h : resolve fuel v path = some (some (i, relative))) :
    (∃ m, v.mounts[i]? = some m ∧ m.mounted = true) ∧ Canonical relative := by
  unfold resolve at h
  split at h
  · rename_i hfits
    obtain ⟨absolute, hnorm, hslot⟩ := Option.map_eq_some_iff.mp h
    obtain ⟨j, hfind, hpair⟩ := Option.map_eq_some_iff.mp hslot
    obtain ⟨rfl, rfl⟩ := Prod.mk.inj hpair
    obtain ⟨m, hm, hmounted, -⟩ := findSlot_some hfind
    exact ⟨⟨m, hm, hmounted⟩, canonical_relativePath _ (canonical_normalize hcwd hfits hnorm)⟩
  · cases h

theorem vfsResolvePath_of_resolve (h : resolve fuel v path = some (some (i, relative))) :
    vfsResolvePath fuel v.paths path = some (.ok (viewAt v i, relative)) := by
  unfold resolve at h
  split at h
  · obtain ⟨absolute, hnorm, hslot⟩ := Option.map_eq_some_iff.mp h
    obtain ⟨j, hfind, hpair⟩ := Option.map_eq_some_iff.mp hslot
    obtain ⟨rfl, rfl⟩ := Prod.mk.inj hpair
    obtain ⟨m, hm, hmounted, -⟩ := findSlot_some hfind
    change (vfsNormalizePath fuel v.currentWorkingDirectory path).map _ = _
    rw [hnorm, Option.map_some, vfsFindMount_paths, hfind]
    simp only [Option.map_some, viewAt, hm, Option.getD_some, hmounted]
  · cases h

end ContinuumOS.Vfs.Resolution
