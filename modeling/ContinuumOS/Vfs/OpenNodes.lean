import ContinuumOS.Vfs.RamfsCalls
import ContinuumOS.Lib.Slots

/-! # The nodes behind open RAM files

`ramfs_vfs_open` leaves the address of the node in the caller's structure and
enters it nowhere below. `fs_remove` asks the descriptors of the RAM file system
whether the file is open, and there it never is. A removal of an open file goes
through, and the address in the structure is that of a freed node. -/
namespace ContinuumOS.Vfs.OpenNodes
open ContinuumOS.Lib.Effect ContinuumOS.Lib.Runs ContinuumOS.Libc.String
open ContinuumOS.Ramfs.Nodes ContinuumOS.Ramfs.Lookup ContinuumOS.Ramfs.Runs
open ContinuumOS.Ramfs.Backing ContinuumOS.Ramfs.Soundness
open ContinuumOS.Vfs.Normalize ContinuumOS.Vfs.Adapters ContinuumOS.Vfs.Files
open ContinuumOS.Vfs.Resolution ContinuumOS.Vfs.Calls ContinuumOS.Vfs.Runs ContinuumOS.Vfs.RamfsCalls

/-- Runs without `vfs_unmount`. -/
def stepMounted (fuel : Nat) (s : Sys) (act : Act) : Option Sys :=
  if act.isUnmount then none else step fuel s act

/-- The handle is for a file of the tree, and reading and writing it do not touch
freed memory. -/
structure Valid (k : Kernel) (f : VfsFile) : Prop where
  file : FileAt k.stores.ramfs f.fsHandle
  read : ∀ size, (vfsRead f size k).isSome
  write : ∀ g src, (vfsWrite g f src k).isSome

/-- Every RAM file that is open is in the tree. -/
def ValidHandles (s : Sys) : Prop :=
  ∀ f ∈ s.handles, reached s.kernel.vfs f = some .ramfs → Valid s.kernel f

/-- The call is not the removal of a file that is open. -/
def Spares (fuel : Nat) (s : Sys) (act : Act) : Prop :=
  ∀ path, act = .remove path → ∀ i relative,
    Resolves (fuel + 1) s.kernel.vfs path i .ramfs relative →
      ∀ f ∈ s.handles, reached s.kernel.vfs f = some .ramfs →
        fsFindByPath s.kernel.stores.ramfs relative ≠ some f.fsHandle

variable {fuel : Nat} {s t : Sys} {act : Act} {f : VfsFile} {k : Kernel}

/-! ## Reading and writing a node that is there -/

theorem loadNode_file {st : Stores} {p : Ptr} {n : FSNode} (h : st.ramfs.nodes p = some n) :
    loadNode p st = some (n, st) := by
  rw [loadNode, h]
  rfl

theorem ramfsVfsRead_returns (hfile : FileAt k.stores.ramfs f.fsHandle) (size : Nat) :
    (ramfsVfsRead f size k.stores).isSome := by
  obtain ⟨n, hn, -⟩ := hfile.2
  rw [ramfsVfsRead]
  simp only [ite_run, bind_run, loadNode_file hn, get_run, Option.bind_some]
  split
  · rfl
  split
  · rfl
  split
  · rfl
  split
  · rfl
  · rfl

theorem ramfsVfsWrite_returns (hfile : FileAt k.stores.ramfs f.fsHandle) (g : Grown)
    (src : List UInt8) : (ramfsVfsWrite g f src k.stores).isSome := by
  obtain ⟨n, hn, -⟩ := hfile.2
  rw [ramfsVfsWrite]
  simp only [ite_run, bind_run, loadNode_file hn, Option.bind_some]
  split
  · rfl
  split
  · rfl
  split
  · split
    · rfl
    · rfl
  · rfl

theorem valid_of_file (hreached : reached k.vfs f = some .ramfs)
    (hfile : FileAt k.stores.ramfs f.fsHandle) : Valid k f := by
  refine ⟨hfile, fun size => ?_, fun g src => ?_⟩
  · rw [vfsRead, bind_run, get_run, Option.bind_some, hreached]
    exact (Option.isSome_map ..).trans (ramfsVfsRead_returns hfile size)
  · rw [vfsWrite, bind_run, get_run, Option.bind_some, hreached]
    exact (Option.isSome_map ..).trans (ramfsVfsWrite_returns hfile g src)

/-! ## The invariant -/

/-- The directories are those of a tree, no descriptor is open, and handles are for
slots in use and files of the tree. -/
structure Inv (s : Sys) : Prop where
  cwd : Canonical s.kernel.vfs.currentWorkingDirectory
  sound : Sound s.kernel.stores.ramfs
  closed : ∀ d ∈ s.kernel.stores.ramfs.fdTable, d.used = false
  mounted : ∀ f ∈ s.handles, f.inUse = true →
    ∃ i, f.mount = some i ∧ mountedIn s.kernel.vfs i = true
  file : ∀ f ∈ s.handles, reached s.kernel.vfs f = some .ramfs →
    FileAt s.kernel.stores.ramfs f.fsHandle

theorem Inv.valid (h : Inv s) : ValidHandles s := fun f hf hreached =>
  valid_of_file hreached (h.file f hf hreached)

theorem inv_start {a : Alloc} (hs : Booted s) (hram : s.kernel.stores.ramfs = fsInit a)
    (hnode : a.node ≠ 0) : Inv s := by
  have hnone : ∀ f, f ∉ s.handles := fun f hf => by rw [hs.handles] at hf; cases hf
  refine ⟨canonical_booted hs, hram ▸ sound_fsInit hnode, fun d hd => ?_,
    fun f hf => absurd hf (hnone f), fun f hf => absurd hf (hnone f)⟩
  rw [hram, fsInit, fsCreateNode, if_neg hnode] at hd
  rw [(List.mem_replicate.mp hd).2]

/-- A step that leaves the mounts as they are: what is left to show is about the
RAM file system and the handles. -/
theorem Inv.mounts (h : Inv s) (hchange : Change fuel s t act)
    (hmounts : t.kernel.vfs.mounts = s.kernel.vfs.mounts)
    (hsound : Sound t.kernel.stores.ramfs)
    (htable : t.kernel.stores.ramfs.fdTable = s.kernel.stores.ramfs.fdTable)
    (hfile : ∀ f ∈ t.handles, reached s.kernel.vfs f = some .ramfs →
      FileAt t.kernel.stores.ramfs f.fsHandle)
    (hin : ∀ f ∈ t.handles, f.inUse = true →
      ∃ i, f.mount = some i ∧ mountedIn s.kernel.vfs i = true) : Inv t := by
  refine ⟨hchange.cwd ▸ h.cwd, hsound, htable ▸ h.closed, fun f hf hused => ?_, fun f hf hreached => ?_⟩
  · obtain ⟨i, hi, hm⟩ := hin f hf hused
    refine ⟨i, hi, ?_⟩
    rwa [mountedIn, hmounts]
  · rw [reached_congr hmounts] at hreached
    exact hfile f hf hreached

theorem Inv.came (h : Inv s) (hact : Spares fuel s act) {path relative : CStr} {i : Nat}
    (hres : Resolves (fuel + 1) s.kernel.vfs path i .ramfs relative)
    (hcame : Came s.kernel.stores.ramfs act path relative t.kernel.stores.ramfs) (hf : f ∈ s.handles)
    (hreached : reached s.kernel.vfs f = some .ramfs) :
    FileAt t.kernel.stores.ramfs f.fsHandle := by
  have hfile := h.file f hf hreached
  cases hcame with
  | made _ _ made => exact file_of_made made.made hfile
  | removed answers spared =>
    by_cases hfind : fsFindByPath s.kernel.stores.ramfs relative = some f.fsHandle
    · obtain hremove | hsame := spared
      · exact absurd hfind (hact path hremove i relative hres f hf hreached)
      · exact hsame _ hfind hfile ▸ hfile
    · exact file_of_answers answers h.sound hfind hfile

theorem Inv.opened (h : Inv s) (hchange : Change fuel s t act) {path : CStr}
    (opened : Opened (fuel + 1) path s.kernel f t.kernel)
    (ramfs : t.kernel.stores.ramfs = s.kernel.stores.ramfs) (handles : t.handles = s.handles ++ [f]) :
    Inv t := by
  obtain ⟨j, -, hvfs⟩ := opened.entry
  obtain ⟨i, ops, relative, hres, hmount, hnode⟩ := opened.slot
  refine h.mounts hchange (by rw [hvfs]) (ramfs ▸ h.sound) (by rw [ramfs])
    (fun f hf hreached => ?_) (fun f hf hused => ?_)
  · rw [ramfs]
    rw [handles] at hf
    obtain hf | hf := List.mem_append.mp hf
    · exact h.file f hf hreached
    · obtain rfl := List.mem_singleton.mp hf
      obtain ⟨-, l, hl, hops⟩ := reached_eq_some.mp hreached
      rw [hmount] at hl
      rw [← Option.some.inj hl, hres.ops] at hops
      obtain ⟨hfind, hnull, n, hn, hfile⟩ := hnode (Option.some.inj hops)
      obtain ⟨q, hq, hreach⟩ := fsFindByPath_spec h.sound relative
      rw [(alike_backedState _).fsFindByPath, hfind] at hq
      obtain rfl := Option.some.inj hq
      exact ⟨(alike_backedState _).symm.reach (hreach.resolve_left hnull), n, hn, hfile⟩
  · rw [handles] at hf
    obtain hf | hf := List.mem_append.mp hf
    · exact h.mounted f hf hused
    · obtain rfl := List.mem_singleton.mp hf
      obtain ⟨m, hm, hmounted⟩ := (resolve_some h.cwd hres.slot).1
      refine ⟨i, hmount, ?_⟩
      rw [mountedIn, hm]
      exact hmounted

theorem Inv.moved (h : Inv s) (hchange : Change fuel s t act) {n : Nat} {f' : VfsFile}
    (handle : s.handles[n]? = some f) (moved : Moved f f') (vfs : t.kernel.vfs = s.kernel.vfs)
    (ramfs : Rewritten s.kernel.stores.ramfs t.kernel.stores.ramfs)
    (handles : t.handles = s.handles.set n f') : Inv t := by
  obtain ⟨hsound, halike, htable⟩ := rewritten_keeps ramfs h.sound
  have hmem := List.mem_of_getElem? handle
  refine h.mounts hchange (by rw [vfs]) hsound htable
    (fun f hf hreached => ?_) (fun f hf hused => ?_)
  · rw [handles] at hf
    obtain hf | rfl := List.mem_or_eq_of_mem_set hf
    · exact file_of_alike halike (h.file f hf hreached)
    · rw [reached_moved moved] at hreached
      rw [(Prod.mk.inj moved.handleOf).1]
      exact file_of_alike halike (h.file _ hmem hreached)
  · rw [handles] at hf
    obtain hf | rfl := List.mem_or_eq_of_mem_set hf
    · exact h.mounted f hf hused
    · rw [(Prod.mk.inj moved.handleOf).2]
      exact h.mounted _ hmem (moved.inUse ▸ hused)

theorem Inv.filled (h : Inv s) {i : Nat} {m : MountSlot} (slot : fills s.kernel act = some i)
    (vfs : t.kernel.vfs = { s.kernel.vfs with mounts := s.kernel.vfs.mounts.set i m })
    (ramfs : t.kernel.stores.ramfs = s.kernel.stores.ramfs) (handles : t.handles = s.handles) :
    Inv t := by
  have hfree := fills_free slot
  have hslots : ∀ j, t.kernel.vfs.mounts[j]? =
      if i = j then some m else s.kernel.vfs.mounts[j]? := fun j => by
    rw [vfs]
    exact getElem?_mounts_set hfree j
  have hne : ∀ j, mountedIn s.kernel.vfs j = true → i ≠ j := fun j hj he => by
    obtain ⟨hlt, hunmounted, -⟩ := List.findIdx?_eq_some_iff_getElem.mp hfree
    rw [← he, mountedIn, List.getElem?_eq_getElem hlt] at hj
    rw [Bool.not_eq_true'] at hunmounted
    exact absurd (hunmounted.symm.trans hj) nofun
  refine ⟨by rw [vfs]; exact h.cwd, ramfs ▸ h.sound, ramfs ▸ h.closed, fun f hf hused => ?_,
    fun f hf hreached => ?_⟩
  · obtain ⟨j, hj, hm⟩ := h.mounted f (handles ▸ hf) hused
    refine ⟨j, hj, ?_⟩
    rw [mountedIn, hslots, if_neg (hne j hm)]
    exact hm
  · obtain ⟨hused, j, hj, hops⟩ := reached_eq_some.mp hreached
    obtain ⟨l, hl, hm⟩ := h.mounted f (handles ▸ hf) hused
    obtain rfl : j = l := Option.some.inj (hj.symm.trans hl)
    rw [VfsTables.opsAt, hslots, if_neg (hne j hm)] at hops
    rw [ramfs]
    exact h.file f (handles ▸ hf) (reached_eq_some.mpr ⟨hused, j, hj, hops⟩)

theorem Inv.step (h : Inv s) (hact : Spares fuel s act) (hs : stepMounted fuel s act = some t) :
    Inv t := by
  obtain ⟨hstay, hs⟩ := Option.ite_none_left_eq_some.mp hs
  have hchange := step_change hs
  cases step_change hs with
  | quiet ramfs handles others _ =>
    obtain ⟨fs, hvfs⟩ := others
    refine h.mounts hchange (by rw [hvfs]) (ramfs ▸ h.sound) (by rw [ramfs]) ?_ ?_
    · rw [ramfs, handles]
      exact h.file
    · rw [handles]
      exact h.mounted
  | unmounted => exact absurd rfl hstay
  | opened opened ramfs handles => exact h.opened hchange opened ramfs handles
  | closed handle _ vfs ramfs handles =>
    refine h.mounts hchange (by rw [vfs]; rfl) (ramfs ▸ h.sound) (by rw [ramfs])
      (fun f hf hreached => ?_) (fun f hf hused => ?_)
    · rw [ramfs]
      rw [handles] at hf
      obtain hf | rfl := List.mem_or_eq_of_mem_set hf
      · exact h.file f hf hreached
      · cases hreached
    · rw [handles] at hf
      obtain hf | rfl := List.mem_or_eq_of_mem_set hf
      · exact h.mounted f hf hused
      · cases hused
  | moved handle moved vfs ramfs handles => exact h.moved hchange handle moved vfs ramfs handles
  | named named resolves run vfs handles =>
    have hcame := came_of_named h.cwd h.sound hs named resolves run
    refine h.mounts hchange (by rw [vfs]) (hcame.sound h.sound) hcame.table ?_ ?_
    · rw [handles]
      exact fun f hf => h.came hact resolves hcame hf
    · rw [handles]
      exact h.mounted
  | mounted slot _ _ vfs ramfs handles => exact h.filled slot vfs ramfs handles

/-! ## Removing a file that is open -/

theorem step_remove (h : Inv s) {path relative : CStr} {i : Nat}
    (hres : Resolves (fuel + 1) s.kernel.vfs path i .ramfs relative) (hf : f ∈ s.handles)
    (hreached : reached s.kernel.vfs f = some .ramfs)
    (hfind : fsFindByPath s.kernel.stores.ramfs relative = some f.fsHandle) :
    ∃ t, stepMounted fuel s (.remove path) = some t ∧ t.handles = s.handles ∧
      t.kernel.vfs = s.kernel.vfs ∧ ¬ FileAt t.kernel.stores.ramfs f.fsHandle := by
  obtain ⟨u, hu, hgone⟩ := remove_file h.sound (resolve_some h.cwd hres.slot).2 hfind
    (h.file f hf hreached) h.closed fuel
  have hop : Ops.remove (fuel + 1) .ramfs relative s.kernel.stores =
      some (.success, { s.kernel.stores with ramfs := u }) := by
    rw [Ops.remove, ramfsVfsRemove, bind_run, onRamfs, hu]
    rfl
  have hstep : stepMounted fuel s (.remove path) =
      some ⟨{ s.kernel with stores := { s.kernel.stores with ramfs := u } }, s.handles⟩ := by
    have hstay : ¬ (Act.remove path).isUnmount = true := nofun
    rw [stepMounted, if_neg hstay, step, Sys.run, vfsRemove, onPath_ok hres hop]
    rfl
  exact ⟨_, hstep, rfl, rfl, fun hfile => hgone hfile.1⟩

theorem rule_valid (fuel : Nat) : Rule (stepMounted fuel) Inv ValidHandles (Spares fuel) where
  sound := fun _ h => h.valid
  next := fun _ _ _ h hact hs => h.step hact hs
  fails := by
    intro s act h hact
    simp only [Spares, not_forall, not_not] at hact
    obtain ⟨path, rfl, i, relative, hres, f, hf, hreached, hfind⟩ := hact
    obtain ⟨t, ht, hhandles, hvfs, hgone⟩ := step_remove h hres hf hreached hfind
    refine ⟨t, ht, fun hvalid => hgone (hvalid f (hhandles ▸ hf) ?_).file⟩
    rw [hvfs]
    exact hreached

/-- **Open RAM files stay in the tree exactly as long as none of them is removed.**
In every state of a run without unmounts every open handle of a RAM file is for a
file of the tree, and can be read and written without touching freed memory, if
and only if no `vfs_remove` names the node of such a handle. -/
theorem valid_handles_iff {a : Alloc} (hs : Booted s) (hram : s.kernel.stores.ramfs = fsInit a)
    (hnode : a.node ≠ 0) (fuel : Nat) (acts : List Act) :
    (∀ t ∈ visited (stepMounted fuel) acts s, ValidHandles t) ↔
      Heeded (stepMounted fuel) (Spares fuel) acts s :=
  (rule_valid fuel).visited_iff acts (inv_start hs hram hnode)

/-- The file is made and opened. -/
def makeAndOpen : List Act := makeFile ++ ([.openFile examplePath] : List Act)

/-- The file is opened, and another one is made. -/
def makeOther : List Act := makeAndOpen ++ ([.create ⟨7, 8, 9⟩ otherPath] : List Act)

/-- The other one is removed. -/
theorem valid_handles_iff_example :
    Heeded (stepMounted 8) (Spares 8) (makeOther ++ ([.remove otherPath] : List Act)) bootedSys ∧
    ∀ t ∈ visited (stepMounted 8) (makeOther ++ ([.remove otherPath] : List Act)) bootedSys,
      ValidHandles t := by
  have hrun : (makeOther.foldlM (stepMounted 8) bootedSys).all (fun t => resolve 9 t.kernel.vfs otherPath == some (some (0, otherPath)) &&
        fsFindByPath t.kernel.stores.ramfs otherPath == some 7 &&
        t.handles.all fun f => f.fsHandle != 7) = true := by decide +kernel
  have hheeded : Heeded (stepMounted 8) (Spares 8) (makeOther ++ ([.remove otherPath] : List Act))
      bootedSys := by
    refine heeded_append (heeded_of_forall (fun act hact s path hpath => ?_) _) fun t ht => ?_
    · rw [hpath] at hact
      simp [makeOther, makeAndOpen, makeFile] at hact
    refine ⟨fun path hpath i relative hres f hf _ => ?_, fun _ _ => trivial⟩
    cases hpath
    rw [ht, Option.all_some, Bool.and_eq_true, Bool.and_eq_true] at hrun
    simp only [beq_iff_eq, List.all_eq_true, bne_iff_ne] at hrun
    obtain ⟨⟨hresolve, hfind⟩, hothers⟩ := hrun
    have hslot := Option.some.inj (Option.some.inj (hres.slot.symm.trans hresolve))
    obtain ⟨rfl, rfl⟩ := Prod.mk.inj hslot
    rw [hfind]
    exact fun he => hothers f hf (Option.some.inj he).symm
  exact ⟨hheeded,
    (valid_handles_iff (a := ⟨1, 2, 3⟩) booted_bootedSys rfl Nat.one_ne_zero 8 _).mpr hheeded⟩

/-- After its removal a read through the handle does not come back: it loads the
freed node. -/
theorem open_file_removed :
    (¬ ∀ t ∈ visited (stepMounted 8) (makeAndOpen ++ ([.remove examplePath] : List Act)) bootedSys,
      ValidHandles t) ∧
    ∃ t ∈ visited (stepMounted 8) (makeAndOpen ++ ([.remove examplePath] : List Act)) bootedSys,
      ∃ f ∈ t.handles, f.inUse = true ∧ t.kernel.stores.ramfs.nodes f.fsHandle = none ∧
        vfsRead f 1 t.kernel = none := by
  have hrun : ((makeAndOpen ++ ([.remove examplePath] : List Act)).foldlM (stepMounted 8)
      bootedSys).any (fun t => t.handles == [⟨4, some 0, 0, true⟩] &&
        reached t.kernel.vfs ⟨4, some 0, 0, true⟩ == some .ramfs &&
        (t.kernel.stores.ramfs.nodes 4).isNone &&
        (vfsRead ⟨4, some 0, 0, true⟩ 1 t.kernel).isNone) = true := by decide +kernel
  obtain ⟨t, ht, hshown⟩ := (Option.any_eq_true _ _).mp hrun
  simp only [Bool.and_eq_true, beq_iff_eq, Option.isNone_iff_eq_none, and_assoc] at hshown
  obtain ⟨hhandles, hreached, hgone, hread⟩ := hshown
  have hmem := mem_visited_of_foldlM ht
  have hf : ⟨4, some 0, 0, true⟩ ∈ t.handles := hhandles ▸ .head _
  refine ⟨fun hvalid => ?_, t, hmem, _, hf, rfl, hgone, hread⟩
  have hread' := (hvalid t hmem _ hf hreached).read 1
  rw [hread] at hread'
  cases hread'

end ContinuumOS.Vfs.OpenNodes
