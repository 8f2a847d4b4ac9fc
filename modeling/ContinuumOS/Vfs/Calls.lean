import ContinuumOS.Vfs.Resolution
import ContinuumOS.Fat32.Lookups

/-! # What the calls change

One lemma for each call. A call on an open file leaves the mounts, the working
directory and the nodes of the RAM file system alone (`rest`), but for
`vfs_write`, which may give a node a new buffer. A call on a path leaves the
tables alone. An open that fails changes nothing. -/
namespace ContinuumOS.Vfs.Calls
open ContinuumOS.Lib.Effect ContinuumOS.Libc.String
open ContinuumOS.Ramfs.Nodes ContinuumOS.Fat32.Volume ContinuumOS.Fat32.Paths
open ContinuumOS.Fat32.Files ContinuumOS.Fat32.Lookups
open ContinuumOS.Vfs.Adapters ContinuumOS.Vfs.Files

variable {α : Type}

/-! ## The adapters -/

/-- Both file systems without the answers to come. -/
def calm (s : Stores) : Stores := { s with fat32 := settled s.fat32 }

theorem onFat32_ramfs (m : Fat α) : Keeps Stores.ramfs (onFat32 m) := by
  intro s a s' h
  obtain ⟨r, -, hr⟩ := Option.map_eq_some_iff.mp h
  cases hr
  rfl

theorem onFat32_calm {m : Fat α} (hm : Settled m) : Keeps calm (onFat32 m) := by
  intro s a s' h
  obtain ⟨⟨b, w⟩, hw, hr⟩ := Option.map_eq_some_iff.mp h
  cases hr
  exact congrArg (fun w => ({ s with fat32 := w } : Stores)) (hm s.fat32 b w hw)

theorem loadNode_spec {p : Ptr} {n : FSNode} {s s' : Stores}
    (h : loadNode p s = some (n, s')) : s = s' ∧ s.ramfs.nodes p = some n := by
  obtain ⟨m, hm, hr⟩ := Option.map_eq_some_iff.mp h
  cases hr
  exact ⟨rfl, hm⟩

/-- The same handle, at another position. -/
def Moved (f f' : VfsFile) : Prop := { f' with position := f.position } = f

theorem Moved.refl (f : VfsFile) : Moved f f := rfl

/-- The handle of the structure: `fs_handle` and the mount. -/
def handleOf (f : VfsFile) : Nat × Option Nat := (f.fsHandle, f.mount)

theorem Moved.inUse {f f' : VfsFile} (h : Moved f f') : f'.inUse = f.inUse := by
  rw [← h]

theorem Moved.handleOf {f f' : VfsFile} (h : Moved f f') : handleOf f' = handleOf f := by
  rw [← h]
  rfl

/-- An open of a RAM file, and what it finds. -/
structure OpenedNode (s : FsState) (path : CStr) (p : Ptr) : Prop where
  found : fsFindByPath s path = some p
  notNull : p ≠ 0
  file : ∃ n, s.nodes p = some n ∧ n.type = .file

theorem ramfsVfsOpen_cases {path : CStr} {file file' : VfsFile} {code : Code} {s s' : Stores}
    (h : ramfsVfsOpen path file s = some ((code, file'), s')) : s' = s ∧
      (code = .success ∧ file'.inUse = true ∧ file'.mount = file.mount ∧
          OpenedNode s.ramfs path file'.fsHandle ∨
        code ≠ .success ∧ code ≠ .noSpace ∧ file' = file) := by
  rw [ramfsVfsOpen] at h
  obtain ⟨⟨p, t⟩, hp, h⟩ := Option.bind_eq_some_iff.mp h
  obtain ⟨⟨q, u⟩, hq, hpair⟩ := Option.map_eq_some_iff.mp hp
  obtain ⟨r, hfind, hr⟩ := Option.map_eq_some_iff.mp hq
  cases hr
  cases hpair
  simp only [ite_run] at h
  split at h
  · cases h
    exact ⟨rfl, .inr ⟨by decide, by decide, rfl⟩⟩
  rename_i hnull
  obtain ⟨⟨n, t⟩, hn, h⟩ := Option.bind_eq_some_iff.mp h
  obtain ⟨rfl, hm⟩ := loadNode_spec hn
  simp only [ite_run] at h
  split at h
  · cases h
    exact ⟨rfl, .inr ⟨by decide, by decide, rfl⟩⟩
  · rename_i htype
    cases h
    exact ⟨rfl, .inl ⟨rfl, rfl, rfl, hfind, hnull, n, hm, not_not.mp htype⟩⟩

theorem fat32VfsOpen_cases {path : CStr} {file file' : VfsFile} {code : Code} {s s' : Stores}
    (h : fat32VfsOpen path file s = some ((code, file'), s')) : s'.ramfs = s.ramfs ∧
      (code = .success ∧ file'.inUse = true ∧ file'.mount = file.mount ∨
        code ≠ .success ∧ code ≠ .noSpace ∧ file' = file ∧ calm s' = calm s) := by
  rw [fat32VfsOpen] at h
  simp only [ite_run] at h
  split at h
  · cases h
    exact ⟨rfl, .inr ⟨by decide, by decide, rfl, rfl⟩⟩
  obtain ⟨⟨found, t⟩, ht, h⟩ := Option.bind_eq_some_iff.mp h
  have hram := onFat32_ramfs _ _ _ _ ht
  have hcalm := onFat32_calm (lookupPath_settled path) _ _ _ ht
  cases found with
  | none =>
    cases h
    exact ⟨hram, .inr ⟨by decide, by decide, rfl, hcalm⟩⟩
  | some found =>
    simp only [ite_run] at h
    split at h
    · cases h
      exact ⟨hram, .inr ⟨by decide, by decide, rfl, hcalm⟩⟩
    obtain ⟨⟨fd, u⟩, hu, h⟩ := Option.bind_eq_some_iff.mp h
    have hram' := (onFat32_ramfs _ _ _ _ hu).trans hram
    cases fd with
    | some fd =>
      cases h
      exact ⟨hram', .inl ⟨rfl, rfl, rfl⟩⟩
    | none =>
      obtain ⟨⟨b, w⟩, hw, hr⟩ := Option.map_eq_some_iff.mp hu
      cases hr
      cases h
      refine ⟨hram', .inr ⟨by decide, by decide, rfl, ?_⟩⟩
      exact (congrArg (fun w => ({ t with fat32 := w } : Stores)) (open_refused hw)).trans hcalm

theorem openFile_cases (ops : Ops) {path : CStr} {file file' : VfsFile} {code : Code}
    {s s' : Stores} (h : ops.openFile path file s = some ((code, file'), s')) :
    s'.ramfs = s.ramfs ∧
      (code = .success ∧ file'.inUse = true ∧ file'.mount = file.mount ∧
          (ops = .ramfs → OpenedNode s.ramfs path file'.fsHandle) ∨
        code ≠ .success ∧ code ≠ .noSpace ∧ file' = file ∧ calm s' = calm s) := by
  cases ops with
  | ramfs =>
    obtain ⟨rfl, ⟨hc, hu, hm, hn⟩ | ⟨hc, hs, hf⟩⟩ := ramfsVfsOpen_cases h
    · exact ⟨rfl, .inl ⟨hc, hu, hm, fun _ => hn⟩⟩
    · exact ⟨rfl, .inr ⟨hc, hs, hf, rfl⟩⟩
  | fat32 =>
    obtain ⟨hram, ⟨hc, hu, hm⟩ | hrest⟩ := fat32VfsOpen_cases h
    · exact ⟨hram, .inl ⟨hc, hu, hm, nofun⟩⟩
    · exact ⟨hram, .inr hrest⟩

theorem ramfsVfsRead_spec {file file' : VfsFile} {size : Nat} {r : Option (List UInt8)}
    {s s' : Stores} (h : ramfsVfsRead file size s = some ((r, file'), s')) :
    s' = s ∧ Moved file file' := by
  rw [ramfsVfsRead] at h
  simp only [ite_run] at h
  split at h
  · cases h
    exact ⟨rfl, rfl⟩
  split at h
  · cases h
    exact ⟨rfl, rfl⟩
  obtain ⟨⟨n, t⟩, hn, h⟩ := Option.bind_eq_some_iff.mp h
  obtain ⟨rfl, hm⟩ := loadNode_spec hn
  simp only [ite_run] at h
  split at h
  · cases h
    exact ⟨rfl, rfl⟩
  split at h
  · cases h
    exact ⟨rfl, rfl⟩
  · cases h
    exact ⟨rfl, rfl⟩

/-- The state of the RAM file system after a write: a node may have got another
buffer and another size. -/
def Rewritten (s s' : FsState) : Prop :=
  s' = s ∨ ∃ p n data size, s.nodes p = some n ∧ s' = s.store p { n with data, size }

theorem ramfsVfsWrite_spec {g : Grown} {file file' : VfsFile} {src : List UInt8}
    {r : Option Nat} {s s' : Stores} (h : ramfsVfsWrite g file src s = some ((r, file'), s')) :
    Rewritten s.ramfs s'.ramfs ∧ Moved file file' := by
  rw [ramfsVfsWrite] at h
  simp only [ite_run] at h
  split at h
  · cases h
    exact ⟨.inl rfl, rfl⟩
  split at h
  · cases h
    exact ⟨.inl rfl, rfl⟩
  obtain ⟨⟨n, t⟩, hn, h⟩ := Option.bind_eq_some_iff.mp h
  obtain ⟨rfl, hm⟩ := loadNode_spec hn
  simp only [ite_run] at h
  split at h
  · split at h
    · cases h
      exact ⟨.inl rfl, rfl⟩
    · cases h
      exact ⟨.inr ⟨_, n, _, _, hm, rfl⟩, rfl⟩
  · cases h
    exact ⟨.inl rfl, rfl⟩

theorem read_spec (ops : Ops) {file file' : VfsFile} {size : Nat} {r : Option (List UInt8)}
    {s s' : Stores} (h : ops.read file size s = some ((r, file'), s')) :
    s'.ramfs = s.ramfs ∧ Moved file file' := by
  cases ops with
  | ramfs =>
    obtain ⟨rfl, hmoved⟩ := ramfsVfsRead_spec h
    exact ⟨rfl, hmoved⟩
  | fat32 =>
    change fat32VfsRead file size s = _ at h
    rw [fat32VfsRead] at h
    simp only [ite_run] at h
    split at h
    · cases h
      exact ⟨rfl, rfl⟩
    obtain ⟨⟨b, t⟩, ht, h⟩ := Option.bind_eq_some_iff.mp h
    have hram := onFat32_ramfs _ _ _ _ ht
    cases b with
    | none => cases h; exact ⟨hram, rfl⟩
    | some b => cases h; exact ⟨hram, rfl⟩

theorem write_spec (ops : Ops) {g : Grown} {file file' : VfsFile} {src : List UInt8}
    {r : Option Nat} {s s' : Stores} (h : ops.write g file src s = some ((r, file'), s')) :
    Rewritten s.ramfs s'.ramfs ∧ Moved file file' := by
  cases ops with
  | ramfs => exact ramfsVfsWrite_spec h
  | fat32 =>
    change fat32VfsWrite file src s = _ at h
    rw [fat32VfsWrite] at h
    simp only [ite_run] at h
    split at h
    · cases h
      exact ⟨.inl rfl, rfl⟩
    obtain ⟨⟨b, t⟩, ht, h⟩ := Option.bind_eq_some_iff.mp h
    have hram := onFat32_ramfs _ _ _ _ ht
    simp only [ite_run] at h
    split at h
    · cases h; exact ⟨.inl hram, rfl⟩
    · cases h; exact ⟨.inl hram, rfl⟩

theorem seek_spec (ops : Ops) {file file' : VfsFile} {position : Nat} {code : Code}
    {s s' : Stores} (h : ops.seek file position s = some ((code, file'), s')) :
    s'.ramfs = s.ramfs ∧ Moved file file' := by
  cases ops with
  | ramfs =>
    change some (ramfsVfsSeek file position, s) = _ at h
    rw [ramfsVfsSeek] at h
    split at h
    · cases h; exact ⟨rfl, rfl⟩
    split at h
    · cases h; exact ⟨rfl, rfl⟩
    · cases h; exact ⟨rfl, rfl⟩
  | fat32 =>
    change fat32VfsSeek file position s = _ at h
    rw [fat32VfsSeek] at h
    simp only [ite_run] at h
    split at h
    · cases h; exact ⟨rfl, rfl⟩
    obtain ⟨⟨b, t⟩, ht, h⟩ := Option.bind_eq_some_iff.mp h
    have hram := onFat32_ramfs _ _ _ _ ht
    simp only [ite_run] at h
    split at h
    · cases h; exact ⟨hram, rfl⟩
    · cases h; exact ⟨hram, rfl⟩

theorem fat32Close_returns (fd : Nat) (w : World) : ∃ w', fat32Close fd w = some ((), w') := by
  rw [fat32Close]
  simp only [bind_run, get_run, Option.bind_some]
  cases fileOf w fd with
  | none => exact ⟨_, rfl⟩
  | some f => exact ⟨_, rfl⟩

theorem close_spec (ops : Ops) (file : VfsFile) (s : Stores) :
    ∃ file' s', ops.close file s = some (file', s') ∧ s'.ramfs = s.ramfs := by
  cases ops with
  | ramfs => exact ⟨_, _, rfl, rfl⟩
  | fat32 =>
    change ∃ file' s', fat32VfsClose file s = some (file', s') ∧ _
    rw [fat32VfsClose]
    simp only [ite_run]
    split
    · obtain ⟨w, hw⟩ := fat32Close_returns file.fsHandle s.fat32
      refine ⟨file.cleared, { s with fat32 := w }, ?_, rfl⟩
      rw [bind_run, onFat32, hw]
      rfl
    · exact ⟨_, _, rfl, rfl⟩

/-! ## Calls on paths -/

variable {fuel i : Nat} {path relative : CStr} {ops : Ops} {code : Code} {k k' : Kernel}
  {file file' : VfsFile}

/-- The path leads to a mount and a path there. -/
structure Resolves (fuel : Nat) (v : VfsTables) (path : CStr) (i : Nat) (ops : Ops)
    (relative : CStr) : Prop where
  initialized : v.initialized = true
  slot : resolve fuel v path = some (some (i, relative))
  ops : v.opsAt i = some ops

theorem vfsLookup_ok (h : Resolves fuel k.vfs path i ops relative) :
    vfsLookup fuel path k = some (.ok (i, ops, relative), k) := by
  rw [vfsLookup, if_neg (not_not.mpr h.initialized), h.slot, Option.map_some]
  simp only [h.ops]

theorem vfsLookup_cases {r : Except Code (Nat × Ops × CStr)}
    (h : vfsLookup fuel path k = some (r, k')) : k' = k ∧
      ((∃ i ops relative, r = .ok (i, ops, relative) ∧ Resolves fuel k.vfs path i ops relative) ∨
        ∃ code, r = .error code ∧ code ≠ .success ∧ code ≠ .noSpace) := by
  unfold vfsLookup at h
  split at h
  · cases h
    exact ⟨rfl, .inr ⟨_, rfl, by decide, by decide⟩⟩
  rename_i hinit
  obtain ⟨found, hslot, hr⟩ := Option.map_eq_some_iff.mp h
  cases found with
  | none =>
    cases hr
    exact ⟨rfl, .inr ⟨_, rfl, by decide, by decide⟩⟩
  | some found =>
    cases hops : k.vfs.opsAt found.1 with
    | none =>
      simp only [hops] at hr
      cases hr
      exact ⟨rfl, .inr ⟨_, rfl, by decide, by decide⟩⟩
    | some ops =>
      simp only [hops] at hr
      cases hr
      exact ⟨rfl, .inl ⟨_, _, _, rfl, not_not.mp hinit, hslot, hops⟩⟩

theorem onStores_spec {m : Fs α} {a : α} (h : onStores m k = some (a, k')) :
    k'.vfs = k.vfs ∧ m k.stores = some (a, k'.stores) := by
  obtain ⟨⟨b, s⟩, hs, hr⟩ := Option.map_eq_some_iff.mp h
  cases hr
  exact ⟨rfl, hs⟩

theorem onPath_ok {operation : Ops → CStr → Fs Code} {s : Stores}
    (h : Resolves fuel k.vfs path i ops relative)
    (hrun : operation ops relative k.stores = some (code, s)) :
    onPath fuel operation path k = some (code, { k with stores := s }) := by
  rw [onPath, bind_run, vfsLookup_ok h]
  change onStores _ k = _
  rw [onStores, hrun]
  rfl

theorem onPath_cases {operation : Ops → CStr → Fs Code}
    (h : onPath fuel operation path k = some (code, k')) : k' = k ∨
      ∃ i ops relative, Resolves fuel k.vfs path i ops relative ∧ k'.vfs = k.vfs ∧
        operation ops relative k.stores = some (code, k'.stores) := by
  obtain ⟨⟨r, t⟩, ht, h⟩ := Option.bind_eq_some_iff.mp h
  obtain ⟨rfl, ⟨i, ops, relative, rfl, hres⟩ | ⟨code, rfl, -⟩⟩ := vfsLookup_cases ht
  · exact .inr ⟨i, ops, relative, hres, onStores_spec h⟩
  · cases h
    exact .inl rfl

/-! ## Opening -/

/-- Entries that are not in use are zero. -/
def Clean (v : VfsTables) : Prop := ∀ f ∈ v.openFiles, f.inUse = false → f = .zero

/-- A successful open: what the handle stands for, and where it is entered. -/
structure Opened (fuel : Nat) (path : CStr) (k : Kernel) (handle : VfsFile) (k' : Kernel) :
    Prop where
  slot : ∃ i ops relative, Resolves fuel k.vfs path i ops relative ∧ handle.mount = some i ∧
    (ops = .ramfs → OpenedNode k.stores.ramfs relative handle.fsHandle)
  entry : ∃ j, k.vfs.freeFile = some j ∧
    k'.vfs = { k.vfs with openFiles := k.vfs.openFiles.set j handle }
  inUse : handle.inUse = true

/-- An open that fails: nothing is different, and only a full table makes it fail
with `VFS_NO_SPACE`. -/
structure Refused (k : Kernel) (code : Code) (k' : Kernel) : Prop where
  failed : code ≠ .success
  others : ∃ fs, k'.vfs = { k.vfs with openFiles := fs }
  same : Clean k.vfs → k'.vfs = k.vfs
  stores : calm k'.stores = calm k.stores
  full : code = .noSpace → k.vfs.freeFile = none

theorem vfsOpen_cases {handle : Option VfsFile}
    (h : vfsOpen fuel path k = some ((code, handle), k')) : k'.stores.ramfs = k.stores.ramfs ∧
      ((∃ f, code = .success ∧ handle = some f ∧ Opened fuel path k f k') ∨
        handle = none ∧ Refused k code k') := by
  obtain ⟨⟨r, t⟩, ht, h⟩ := Option.bind_eq_some_iff.mp h
  obtain ⟨rfl, ⟨i, ops, relative, rfl, hres⟩ | ⟨code, rfl, hcode, hspace⟩⟩ := vfsLookup_cases ht
  case inr =>
    cases h
    exact ⟨rfl, .inr ⟨rfl, hcode, ⟨_, rfl⟩, fun _ => rfl, rfl, fun he => absurd he hspace⟩⟩
  simp only [bind_run, get_run, Option.bind_some] at h
  cases hfree : t.vfs.freeFile with
  | none =>
    rw [hfree] at h
    cases h
    exact ⟨rfl, .inr ⟨rfl, by decide, ⟨_, rfl⟩, fun _ => rfl, rfl, fun _ => hfree⟩⟩
  | some j =>
    rw [hfree] at h
    obtain ⟨⟨⟨result, f⟩, u⟩, hu, h⟩ := Option.bind_eq_some_iff.mp h
    obtain ⟨hvfs, hopen⟩ := onStores_spec hu
    obtain ⟨hram, ⟨rfl, hused, hmount, hnode⟩ | ⟨hcode, hspace, rfl, hcalm⟩⟩ :=
      openFile_cases ops hopen
    · cases h
      exact ⟨hram, .inl ⟨f, rfl, rfl, ⟨i, ops, relative, hres, hmount, hnode⟩, ⟨j, hfree, rfl⟩,
        hused⟩⟩
    · simp only [if_neg hcode] at h
      cases h
      refine ⟨hram, .inr ⟨rfl, hcode, ⟨_, rfl⟩, fun hclean => ?_, hcalm,
        fun he => absurd he hspace⟩⟩
      -- the entry was zero and is zero again
      obtain ⟨hj, hunused, -⟩ := List.findIdx?_eq_some_iff_getElem.mp hfree
      have hzero : t.vfs.openFiles[j] = .zero :=
        hclean _ (List.getElem_mem hj) (by simpa using hunused)
      have hentry : t.vfs.openFiles.getD j .zero = .zero := by
        rw [List.getD_eq_getElem?_getD, List.getElem?_eq_getElem hj, Option.getD_some, hzero]
      rw [hentry]
      have hset : t.vfs.openFiles.set j .zero = t.vfs.openFiles := by
        conv_lhs => rw [← hzero]
        exact List.set_getElem_self hj
      exact congrArg (fun fs => ({ t.vfs with openFiles := fs } : VfsTables)) hset

theorem vfsOpen_full (h : Resolves fuel k.vfs path i ops relative)
    (hfull : k.vfs.freeFile = none) : vfsOpen fuel path k = some ((.noSpace, none), k) := by
  rw [vfsOpen, bind_run, vfsLookup_ok h]
  simp only [Option.bind_some, bind_run, get_run, hfull]
  rfl

/-! ## Calls on open files -/

/-- All but the table of open files and the FAT32 volume. -/
def rest (k : Kernel) : VfsTables × FsState := ({ k.vfs with openFiles := [] }, k.stores.ramfs)

/-- The table after the entry of a file is cleared. -/
def withoutEntry (v : VfsTables) (file : VfsFile) : VfsTables :=
  { v with openFiles := match v.entryOf file with
    | none => v.openFiles
    | some j => v.openFiles.set j .zero }

theorem closeBelow_spec (file : VfsFile) (k : Kernel) : ∃ k', closeBelow file k = some ((), k') ∧
    k'.stores.ramfs = k.stores.ramfs ∧ k'.vfs = k.vfs := by
  rw [closeBelow]
  simp only [bind_run, get_run, Option.bind_some]
  cases reached k.vfs file with
  | none => exact ⟨_, rfl, rfl, rfl⟩
  | some ops =>
    obtain ⟨f, s, hs, hram⟩ := close_spec ops file k.stores
    refine ⟨{ k with stores := s }, ?_, hram, rfl⟩
    simp only [bind_run, onStores, hs]
    rfl

theorem closeEntry_spec (file : VfsFile) (k : Kernel) : ∃ k', closeEntry file k = some ((), k') ∧
    k'.stores.ramfs = k.stores.ramfs ∧ k'.vfs = withoutEntry k.vfs file := by
  obtain ⟨t, ht, hram, hvfs⟩ := closeBelow_spec file k
  rw [closeEntry]
  simp only [bind_run, get_run, Option.bind_some, ht, withoutEntry]
  cases k.vfs.entryOf file with
  | none => exact ⟨t, rfl, hram, hvfs⟩
  | some j => exact ⟨_, rfl, hram, by simp only [hvfs]⟩

/-- **A close comes back**, and clears one entry at most. -/
theorem vfsClose_spec (file : VfsFile) (k : Kernel) : ∃ k', vfsClose file k =
      some (if file.inUse then .zero else file, k') ∧ k'.stores.ramfs = k.stores.ramfs ∧
      k'.vfs = if file.inUse then withoutEntry k.vfs file else k.vfs := by
  rw [vfsClose]
  cases file.inUse with
  | false => exact ⟨k, rfl, rfl, rfl⟩
  | true =>
    obtain ⟨t, ht, hram, hvfs⟩ := closeEntry_spec file k
    refine ⟨t, ?_, hram, hvfs⟩
    rw [if_pos rfl, bind_run, ht]
    rfl

theorem vfsRead_cases {size : Nat} {r : Option (List UInt8)}
    (h : vfsRead file size k = some ((r, file'), k')) : rest k' = rest k ∧
      k'.vfs = k.vfs ∧ Moved file file' := by
  rw [vfsRead] at h
  simp only [bind_run, get_run, Option.bind_some] at h
  cases hr : reached k.vfs file with
  | none =>
    rw [hr] at h
    cases h
    exact ⟨rfl, rfl, rfl⟩
  | some ops =>
    rw [hr] at h
    obtain ⟨hvfs, hrun⟩ := onStores_spec h
    obtain ⟨hram, hmoved⟩ := read_spec ops hrun
    exact ⟨by rw [rest, hvfs, hram]; rfl, hvfs, hmoved⟩

theorem vfsSeek_cases {position : Nat}
    (h : vfsSeek file position k = some ((code, file'), k')) : rest k' = rest k ∧
      k'.vfs = k.vfs ∧ Moved file file' := by
  rw [vfsSeek] at h
  simp only [bind_run, get_run, Option.bind_some] at h
  cases hr : reached k.vfs file with
  | none =>
    rw [hr] at h
    cases h
    exact ⟨rfl, rfl, rfl⟩
  | some ops =>
    rw [hr] at h
    obtain ⟨hvfs, hrun⟩ := onStores_spec h
    obtain ⟨hram, hmoved⟩ := seek_spec ops hrun
    exact ⟨by rw [rest, hvfs, hram]; rfl, hvfs, hmoved⟩

theorem vfsWrite_cases {g : Grown} {src : List UInt8} {r : Option Nat}
    (h : vfsWrite g file src k = some ((r, file'), k')) :
    Rewritten k.stores.ramfs k'.stores.ramfs ∧ k'.vfs = k.vfs ∧ Moved file file' := by
  rw [vfsWrite] at h
  simp only [bind_run, get_run, Option.bind_some] at h
  cases hr : reached k.vfs file with
  | none =>
    rw [hr] at h
    cases h
    exact ⟨.inl rfl, rfl, rfl⟩
  | some ops =>
    rw [hr] at h
    obtain ⟨hvfs, hrun⟩ := onStores_spec h
    obtain ⟨hram, hmoved⟩ := write_spec ops hrun
    exact ⟨hram, hvfs, hmoved⟩

/-! ## What a handle reaches -/

/-- The slot holds a mount. -/
def mountedIn (v : VfsTables) (i : Nat) : Bool := (v.mounts[i]?).any MountSlot.mounted

variable {v v' : VfsTables}

theorem reached_eq_some {ops : Ops} : reached v file = some ops ↔
    file.inUse = true ∧ ∃ i, file.mount = some i ∧ v.opsAt i = some ops := by
  rw [reached]
  split
  · rename_i hused
    rw [Option.bind_eq_some_iff]
    exact (and_iff_right hused).symm
  · rename_i hfree
    exact iff_of_false nofun fun hused => hfree hused.1

theorem reached_zero (v : VfsTables) : reached v .zero = none := rfl

theorem reached_mono
    (hv : ∀ i ops, file.inUse = true → file.mount = some i → v'.opsAt i = some ops →
      v.opsAt i = some ops) (h : reached v file = none) : reached v' file = none := by
  by_contra hsome
  obtain ⟨ops, hops⟩ := Option.ne_none_iff_exists'.mp hsome
  obtain ⟨hused, i, hmount, hat⟩ := reached_eq_some.mp hops
  rw [reached_eq_some.mpr ⟨hused, i, hmount, hv i ops hused hmount hat⟩] at h
  cases h

theorem reached_moved (h : Moved file file') : reached v file' = reached v file := by
  rw [reached, reached, h.inUse, (Prod.mk.inj h.handleOf).2]

theorem reached_congr (h : v'.mounts = v.mounts) (file : VfsFile) :
    reached v' file = reached v file := by
  have hops : v'.opsAt = v.opsAt := funext fun i => by rw [VfsTables.opsAt, VfsTables.opsAt, h]
  rw [reached, reached, hops]

/-! ## Mounting and unmounting -/

/-- The slot that `vfs_mount` fills, if it goes through. -/
def slotFor (v : VfsTables) (mountpoint : CStr) (fsType : Nat) : Option Nat :=
  if v.initialized = true ∧ (fsType = fsRamfs ∨ fsType = fsFat32) ∧
      v.mountedAt mountpoint = none then v.freeMount else none

variable {mountpoint : CStr} {fsType : Nat}

theorem slotFor_free (h : slotFor v mountpoint fsType = some i) : v.freeMount = some i :=
  (Option.ite_none_right_eq_some.mp h).2

theorem getElem?_mounts_set {m : MountSlot} (hi : v.freeMount = some i) (j : Nat) :
    (v.mounts.set i m)[j]? = if i = j then some m else v.mounts[j]? := by
  rw [List.getElem?_set]
  split
  · rename_i hij
    rw [if_pos (List.findIdx?_eq_some_iff_getElem.mp hi).1]
  · rfl

theorem vfsMount_of_some (h : slotFor v mountpoint fsType = some i) (deviceId : Nat) (ops : Ops) :
    vfsMount v mountpoint fsType deviceId ops = (.success,
      { v with mounts := v.mounts.set i ⟨mountpoint, fsType, deviceId, some ops, true⟩ }) := by
  obtain ⟨⟨hinit, htype, hnone⟩, hfree⟩ := Option.ite_none_right_eq_some.mp h
  rw [vfsMount, if_neg (not_not.mpr hinit), if_neg (by tauto), hnone, if_neg (by simp), hfree]

theorem vfsMount_of_none (h : slotFor v mountpoint fsType = none) (deviceId : Nat) (ops : Ops) :
    (vfsMount v mountpoint fsType deviceId ops).1 ≠ .success ∧
      (vfsMount v mountpoint fsType deviceId ops).2 = v := by
  unfold vfsMount
  split
  · exact ⟨nofun, rfl⟩
  split
  · exact ⟨nofun, rfl⟩
  split
  · exact ⟨nofun, rfl⟩
  rename_i hinit htype hat
  rw [slotFor, if_pos ⟨not_not.mp hinit, by tauto, Option.not_isSome_iff_eq_none.mp hat⟩] at h
  rw [h]
  exact ⟨nofun, rfl⟩

theorem clearEntry_spec (entry : Option Nat) (k : Kernel) : ∃ k',
    clearEntry entry k = some ((), k') ∧ rest k' = rest k := by
  cases entry with
  | none => exact ⟨_, rfl, rfl⟩
  | some j => exact ⟨_, rfl, rfl⟩

theorem closeAll_spec (i : Nat) : ∀ (left j : Nat) (k : Kernel), ∃ k',
    closeAll i left j k = some ((), k') ∧ rest k' = rest k
  | 0, _, k => ⟨k, rfl, rfl⟩
  | left + 1, j, k => by
    rw [closeAll]
    simp only [bind_run, get_run, Option.bind_some, ite_run]
    split
    · obtain ⟨t, ht, hram, hvfs⟩ := closeEntry_spec (k.vfs.openFiles.getD j .zero) k
      obtain ⟨u, hu, hrest⟩ := clearEntry_spec (some j) t
      obtain ⟨k', hk, hrest'⟩ := closeAll_spec i left (j + 1) u
      refine ⟨k', ?_, ?_⟩
      · simp only [ht, Option.bind_some, hu]
        exact hk
      · rw [hrest', hrest, rest, rest, hram, hvfs]
        rfl
    · exact closeAll_spec i left (j + 1) k

theorem rest_vfs (h : rest k' = rest k) : ∃ fs, k'.vfs = { k.vfs with openFiles := fs } :=
  ⟨k'.vfs.openFiles, congrArg (fun r => ({ r.1 with openFiles := k'.vfs.openFiles } : VfsTables)) h⟩

theorem fat32Unmount_returns (w : World) : ∃ r, fat32Unmount w = some r := by
  rw [fat32Unmount]
  simp only [bind_run, get_run, Option.bind_some, ite_run]
  split
  · exact ⟨_, rfl⟩
  · exact ⟨_, rfl⟩

theorem unmountBelow_spec (i : Nat) (k : Kernel) : ∃ k', unmountBelow i k = some ((), k') ∧
    k'.stores.ramfs = k.stores.ramfs ∧ k'.vfs = k.vfs := by
  rw [unmountBelow]
  simp only [bind_run, get_run, Option.bind_some]
  cases hops : (k.vfs.opsAt i).bind Ops.unmount with
  | none => exact ⟨_, rfl, rfl, rfl⟩
  | some unmount =>
    -- only the FAT32 file system has an `unmount`
    obtain ⟨ops, -, hun⟩ := Option.bind_eq_some_iff.mp hops
    cases ops with
    | ramfs => cases hun
    | fat32 =>
      obtain rfl := Option.some.inj hun
      obtain ⟨⟨r, w⟩, hw⟩ := fat32Unmount_returns k.stores.fat32
      refine ⟨{ k with stores := { k.stores with fat32 := w } }, ?_, rfl, rfl⟩
      simp only [bind_run, onStores, fat32VfsUnmount, onFat32, hw]
      rfl

/-- An unmount of a mountpoint always comes back; it frees the slot, and what it
does besides is to close files and to unmount the volume. -/
theorem vfsUnmount_cases {mountpoint : CStr}
    (h : vfsUnmount mountpoint k = some (code, k')) : code ≠ .success ∧ k' = k ∨
      code = .success ∧ k'.stores.ramfs = k.stores.ramfs ∧
      ∃ i fs, k.vfs.mountedAt mountpoint = some i ∧ k'.vfs = { k.vfs with
        openFiles := fs
        mounts := k.vfs.mounts.modify i fun m => { m with mounted := false, ops := none } } := by
  rw [vfsUnmount] at h
  simp only [bind_run, get_run, Option.bind_some, ite_run] at h
  split at h
  · cases h
    exact .inl ⟨by decide, rfl⟩
  cases hat : k.vfs.mountedAt mountpoint with
  | none =>
    rw [hat] at h
    cases h
    exact .inl ⟨by decide, rfl⟩
  | some i =>
    obtain ⟨t, ht, hrest⟩ := closeAll_spec i vfsMaxOpenFiles 0 k
    obtain ⟨fs, hvfs⟩ := rest_vfs hrest
    obtain ⟨u, hu, hram, hsame⟩ := unmountBelow_spec i t
    simp only [hat, bind_run, ht, Option.bind_some, hu] at h
    cases h
    exact .inr ⟨rfl, hram.trans (congrArg Prod.snd hrest), i, fs, rfl,
      by simp only [hsame, hvfs]⟩

end ContinuumOS.Vfs.Calls
