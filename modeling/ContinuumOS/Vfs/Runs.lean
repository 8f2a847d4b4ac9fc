import ContinuumOS.Vfs.Calls
import ContinuumOS.Ramfs.Runs
import ContinuumOS.Lib.Runs

/-! # Runs of the virtual file system

The calls as the steps of a machine. Its state is the kernel and the structures
in which callers hold their handles: an open that succeeds adds one, and the
other calls on open files name one of them. `Change` says what a step can do;
what holds over runs is derived from it. -/
namespace ContinuumOS.Vfs.Runs
open ContinuumOS.Lib.Effect ContinuumOS.Libc.String
open ContinuumOS.Ramfs.Nodes ContinuumOS.Ramfs.Runs
open ContinuumOS.Vfs.Path ContinuumOS.Vfs.Adapters ContinuumOS.Vfs.Files ContinuumOS.Vfs.Calls

structure Sys where
  kernel : Kernel
  handles : List VfsFile

inductive Act where
  | mount (mountpoint : CStr) (fsType deviceId : Nat) (ops : Ops)
  | mountFat32 (mountpoint : CStr) (deviceId : Nat)
  | unmount (mountpoint : CStr)
  | openFile (path : CStr)
  | close (n : Nat)
  | read (n size : Nat)
  | write (n : Nat) (g : Grown) (src : List UInt8)
  | seek (n position : Nat)
  | create (a : Alloc) (path : CStr)
  | mkdir (a : Alloc) (path : CStr)
  | remove (path : CStr)
  | rmdir (path : CStr)

/-- A call that no structure is passed to. -/
def Sys.run {α : Type} (s : Sys) (call : Eff Kernel α) : Option Sys :=
  (call s.kernel).map fun r => { s with kernel := r.2 }

/-- A call on the handle with number `n`, if there is one. -/
def Sys.runOn (s : Sys) (n : Nat) (call : VfsFile → Eff Kernel VfsFile) : Option Sys :=
  match s.handles[n]? with
  | none => some s
  | some f => (call f s.kernel).map fun r => ⟨r.2, s.handles.set n r.1⟩

/-- `kmalloc` gives `NULL` or memory where no node is. -/
def mallocable (s : FsState) (a : Alloc) : Bool := a.node == 0 || (s.nodes a.node).isNone

/-- The state after a call; `none`: the call does not come back, or it is not
one that can be made. -/
def step (fuel : Nat) (s : Sys) : Act → Option Sys
  | .mount mountpoint fsType deviceId ops =>
    s.run (onVfs fun v => vfsMount v mountpoint fsType deviceId ops)
  | .mountFat32 mountpoint deviceId => s.run (fat32VfsMount mountpoint deviceId)
  | .unmount mountpoint => s.run (vfsUnmount mountpoint)
  | .openFile path =>
    (vfsOpen (fuel + 1) path s.kernel).map fun r => ⟨r.2, s.handles ++ r.1.2.toList⟩
  | .close n => s.runOn n vfsClose
  | .read n size => s.runOn n fun f => do return (← vfsRead f size).2
  | .write n g src => s.runOn n fun f => do return (← vfsWrite g f src).2
  | .seek n position => s.runOn n fun f => do return (← vfsSeek f position).2
  | .create a path =>
    if mallocable s.kernel.stores.ramfs a then s.run (vfsCreate (fuel + 1) a path) else none
  | .mkdir a path =>
    if mallocable s.kernel.stores.ramfs a then s.run (vfsMkdir (fuel + 1) a path) else none
  | .remove path => s.run (vfsRemove (fuel + 1) path)
  | .rmdir path => s.run (vfsRmdir (fuel + 1) path)

/-- After `vfs_init`; the file systems below are as they may be. -/
structure Booted (s : Sys) : Prop where
  vfs : s.kernel.vfs = vfsInit
  handles : s.handles = []

/-- What a call on a path asks of the RAM file system. -/
def Act.named : Act → Option (CStr × (CStr → Call))
  | .create a path => some (path, .touch a)
  | .mkdir a path => some (path, .mkdir a)
  | .remove path => some (path, .remove)
  | .rmdir path => some (path, .rmdir)
  | _ => none

/-- The slot that a call fills: the call is a mount that goes through. -/
def fills (k : Kernel) : Act → Option Nat
  | .mount mountpoint fsType _ _ => slotFor k.vfs mountpoint fsType
  | .mountFat32 mountpoint deviceId =>
    if (Fat32.Paths.fat32Mount deviceId k.stores.fat32).map Prod.fst = some true then
      slotFor k.vfs mountpoint fsFat32 else none
  | _ => none

def Act.isUnmount : Act → Bool
  | .unmount .. => true
  | _ => false

/-- What a step can do. -/
inductive Change (fuel : Nat) (s t : Sys) : Act → Prop
  /-- Nothing but the FAT32 volume is different; a free entry of the table of open
  files may have lost its mount. -/
  | quiet {act : Act} (ramfs : t.kernel.stores.ramfs = s.kernel.stores.ramfs)
      (handles : t.handles = s.handles)
      (others : ∃ fs, t.kernel.vfs = { s.kernel.vfs with openFiles := fs })
      (same : Clean s.kernel.vfs → t.kernel.vfs = s.kernel.vfs) : Change fuel s t act
  | mounted {act : Act} {i : Nat} {m : MountSlot} (slot : fills s.kernel act = some i)
      (mounted : m.mounted = true) (ops : m.ops.isSome = true)
      (vfs : t.kernel.vfs = { s.kernel.vfs with mounts := s.kernel.vfs.mounts.set i m })
      (ramfs : t.kernel.stores.ramfs = s.kernel.stores.ramfs) (handles : t.handles = s.handles) :
      Change fuel s t act
  | unmounted {mountpoint : CStr} {i : Nat} {fs : List VfsFile}
      (slot : s.kernel.vfs.mountedAt mountpoint = some i)
      (vfs : t.kernel.vfs = { s.kernel.vfs with
        openFiles := fs
        mounts := s.kernel.vfs.mounts.modify i fun m => { m with mounted := false, ops := none } })
      (ramfs : t.kernel.stores.ramfs = s.kernel.stores.ramfs) (handles : t.handles = s.handles) :
      Change fuel s t (.unmount mountpoint)
  | opened {path : CStr} {f : VfsFile} (opened : Opened (fuel + 1) path s.kernel f t.kernel)
      (ramfs : t.kernel.stores.ramfs = s.kernel.stores.ramfs)
      (handles : t.handles = s.handles ++ [f]) : Change fuel s t (.openFile path)
  | closed {n : Nat} {f : VfsFile} (handle : s.handles[n]? = some f) (inUse : f.inUse = true)
      (vfs : t.kernel.vfs = withoutEntry s.kernel.vfs f)
      (ramfs : t.kernel.stores.ramfs = s.kernel.stores.ramfs)
      (handles : t.handles = s.handles.set n .zero) : Change fuel s t (.close n)
  | moved {act : Act} {n : Nat} {f f' : VfsFile} (handle : s.handles[n]? = some f)
      (moved : Moved f f') (vfs : t.kernel.vfs = s.kernel.vfs)
      (ramfs : Rewritten s.kernel.stores.ramfs t.kernel.stores.ramfs)
      (handles : t.handles = s.handles.set n f') : Change fuel s t act
  | named {act : Act} {path relative : CStr} {call : CStr → Call} {i : Nat}
      (named : act.named = some (path, call))
      (resolves : Resolves (fuel + 1) s.kernel.vfs path i .ramfs relative)
      (run : (call relative).run (fuel + 1) s.kernel.stores.ramfs = some t.kernel.stores.ramfs)
      (vfs : t.kernel.vfs = s.kernel.vfs) (handles : t.handles = s.handles) : Change fuel s t act

variable {fuel : Nat} {s t : Sys} {act : Act}

theorem Change.unchanged (ramfs : t.kernel.stores.ramfs = s.kernel.stores.ramfs)
    (handles : t.handles = s.handles) (vfs : t.kernel.vfs = s.kernel.vfs) :
    Change fuel s t act := .quiet ramfs handles ⟨_, vfs⟩ fun _ => vfs

theorem run_spec {α : Type} {call : Eff Kernel α} (h : s.run call = some t) :
    ∃ a, call s.kernel = some (a, t.kernel) ∧ t.handles = s.handles := by
  obtain ⟨⟨a, k⟩, hk, hr⟩ := Option.map_eq_some_iff.mp h
  cases hr
  exact ⟨a, hk, rfl⟩

theorem runOn_spec {n : Nat} {call : VfsFile → Eff Kernel VfsFile} (h : s.runOn n call = some t) :
    t = s ∨ ∃ f f', s.handles[n]? = some f ∧ call f s.kernel = some (f', t.kernel) ∧
      t.handles = s.handles.set n f' := by
  unfold Sys.runOn at h
  split at h
  · cases h
    exact .inl rfl
  · rename_i f hf
    obtain ⟨⟨f', k⟩, hk, hr⟩ := Option.map_eq_some_iff.mp h
    cases hr
    exact .inr ⟨f, f', hf, hk, rfl⟩

theorem onRamfs_run {α : Type} {f : FsState → Option (α × FsState)} {g : α → Code}
    {s s' : Stores} {code : Code}
    (h : (onRamfs f >>= fun r => pure (g r)) s = some (code, s')) :
    (f s.ramfs).map Prod.snd = some s'.ramfs := by
  obtain ⟨⟨r, u⟩, hu, h⟩ := Option.bind_eq_some_iff.mp h
  obtain ⟨⟨r', fs⟩, hf, hr⟩ := Option.map_eq_some_iff.mp hu
  cases hr
  cases h
  rw [hf]
  rfl

theorem onFat32_run (m : Fat32.Volume.Fat Bool) :
    Keeps Stores.ramfs (onFat32 m >>= fun ok => pure (Code.ofBool ok)) :=
  .bind (onFat32_ramfs m) fun _ => .pure _

theorem named_change {path : CStr} {call : CStr → Call} {operation : Ops → CStr → Fs Code}
    (hnamed : act.named = some (path, call))
    (hram : ∀ relative s₀ code s₁, operation .ramfs relative s₀ = some (code, s₁) →
      (call relative).run (fuel + 1) s₀.ramfs = some s₁.ramfs)
    (hfat : ∀ relative, Keeps Stores.ramfs (operation .fat32 relative))
    (h : s.run (onPath (fuel + 1) operation path) = some t) : Change fuel s t act := by
  obtain ⟨code, hrun, hhandles⟩ := run_spec h
  obtain hsame | ⟨i, ops, relative, hres, hvfs, hop⟩ := onPath_cases hrun
  · exact .unchanged (by rw [hsame]) hhandles (by rw [hsame])
  · cases ops with
    | ramfs => exact .named hnamed hres (hram _ _ _ _ hop) hvfs hhandles
    | fat32 => exact .unchanged (hfat _ _ _ _ hop) hhandles hvfs

theorem fills_free {i : Nat} (h : fills s.kernel act = some i) :
    s.kernel.vfs.freeMount = some i := by
  cases act with
  | mount => exact slotFor_free h
  | mountFat32 => exact slotFor_free (Option.ite_none_right_eq_some.mp h).2
  | _ => cases h

theorem mount_change {k : Kernel} {mountpoint : CStr} {fsType deviceId : Nat} {ops : Ops}
    (hslot : fills s.kernel act = slotFor s.kernel.vfs mountpoint fsType)
    (hvfs : k.vfs = s.kernel.vfs) (hram : k.stores.ramfs = s.kernel.stores.ramfs)
    (hhandles : t.handles = s.handles)
    (hk : t.kernel = { k with vfs := (vfsMount k.vfs mountpoint fsType deviceId ops).2 }) :
    Change fuel s t act := by
  have hram' : t.kernel.stores.ramfs = s.kernel.stores.ramfs := by rw [hk]; exact hram
  cases hfor : slotFor s.kernel.vfs mountpoint fsType with
  | none =>
    refine .unchanged hram' hhandles ?_
    rw [hk, hvfs]
    exact (vfsMount_of_none hfor _ _).2
  | some i =>
    refine .mounted (hslot.trans hfor) (m := ⟨mountpoint, fsType, deviceId, some ops, true⟩) rfl rfl
      ?_ hram' hhandles
    rw [hk, hvfs, vfsMount_of_some hfor]

theorem moved_change {α : Type} {n : Nat} {call : VfsFile → Eff Kernel (α × VfsFile)}
    (hcall : ∀ f r f' k', call f s.kernel = some ((r, f'), k') →
      Rewritten s.kernel.stores.ramfs k'.stores.ramfs ∧ k'.vfs = s.kernel.vfs ∧ Moved f f')
    (h : s.runOn n (fun f => do return (← call f).2) = some t) : Change fuel s t act := by
  obtain rfl | ⟨f, f', hf, hk, hhandles⟩ := runOn_spec h
  · exact .unchanged rfl rfl rfl
  · obtain ⟨⟨⟨r, f''⟩, k⟩, hrun, hr⟩ := Option.bind_eq_some_iff.mp hk
    cases hr
    obtain ⟨hram, hvfs, hmoved⟩ := hcall f r _ _ hrun
    exact .moved hf hmoved hvfs hram hhandles

/-- **What a step can do.** -/
theorem step_change (h : step fuel s act = some t) : Change fuel s t act := by
  cases act with
  | mount mountpoint fsType deviceId ops =>
    obtain ⟨code, hrun, hhandles⟩ := run_spec h
    obtain ⟨-, hk⟩ := Prod.mk.inj (Option.some.inj hrun)
    exact mount_change rfl rfl rfl hhandles hk.symm
  | mountFat32 mountpoint deviceId =>
    obtain ⟨code, hrun, hhandles⟩ := run_spec h
    rw [fat32VfsMount] at hrun
    obtain ⟨⟨ok, k⟩, hok, hrun⟩ := Option.bind_eq_some_iff.mp hrun
    obtain ⟨hvfs, hmount⟩ := onStores_spec hok
    have hram := onFat32_ramfs _ _ _ _ hmount
    obtain ⟨⟨b, w⟩, hw, hr⟩ := Option.map_eq_some_iff.mp hmount
    simp only [ite_run] at hrun
    split at hrun
    · rename_i hmounted
      obtain ⟨-, hk⟩ := Prod.mk.inj (Option.some.inj hrun)
      refine mount_change (k := k) ?_ hvfs hram hhandles hk.symm
      refine if_pos ?_
      rw [hw, Option.map_some, (Prod.mk.inj hr).1, hmounted]
    · cases hrun
      exact .unchanged hram hhandles hvfs
  | unmount mountpoint =>
    obtain ⟨code, hrun, hhandles⟩ := run_spec h
    obtain ⟨-, hsame⟩ | ⟨-, hram, i, fs, hslot, hvfs⟩ := vfsUnmount_cases hrun
    · exact .unchanged (by rw [hsame]) hhandles (by rw [hsame])
    · exact .unmounted hslot hvfs hram hhandles
  | openFile path =>
    obtain ⟨⟨⟨code, f⟩, k⟩, hk, hr⟩ := Option.map_eq_some_iff.mp h
    obtain ⟨hram, ⟨g, -, rfl, hopened⟩ | ⟨rfl, hrefused⟩⟩ := vfsOpen_cases hk
    · cases hr
      exact .opened hopened hram rfl
    · cases hr
      exact .quiet hram (List.append_nil _) hrefused.others hrefused.same
  | close n =>
    obtain rfl | ⟨f, f', hf, hk, hhandles⟩ := runOn_spec h
    · exact .unchanged rfl rfl rfl
    obtain ⟨k, hclose, hram, hvfs⟩ := vfsClose_spec f s.kernel
    rw [hclose] at hk
    obtain ⟨rfl, rfl⟩ := Prod.mk.inj (Option.some.inj hk)
    cases hused : f.inUse with
    | true =>
      rw [hused] at hvfs hhandles
      exact .closed hf hused hvfs hram hhandles
    | false =>
      rw [hused] at hvfs hhandles
      refine .unchanged hram (hhandles.trans ?_) hvfs
      obtain ⟨hn, rfl⟩ := List.getElem?_eq_some_iff.mp hf
      exact List.set_getElem_self hn
  | read n size =>
    refine moved_change (fun f r f' k hk => ?_) h
    obtain ⟨hrest, hvfs, hmoved⟩ := vfsRead_cases hk
    exact ⟨.inl (congrArg Prod.snd hrest), hvfs, hmoved⟩
  | write n g src => exact moved_change (fun f r f' k hk => vfsWrite_cases hk) h
  | seek n position =>
    refine moved_change (fun f r f' k hk => ?_) h
    obtain ⟨hrest, hvfs, hmoved⟩ := vfsSeek_cases hk
    exact ⟨.inl (congrArg Prod.snd hrest), hvfs, hmoved⟩
  | create a path =>
    obtain ⟨-, hrun⟩ := Option.ite_none_right_eq_some.mp h
    exact named_change rfl
      (fun relative _ _ _ hop => onRamfs_run (f := fun s => fsTouch s a relative)
        (g := fun node => .ofBool (node ≠ 0)) hop)
      (fun relative => onFat32_run (Fat32.Paths.fat32Create relative)) hrun
  | mkdir a path =>
    obtain ⟨-, hrun⟩ := Option.ite_none_right_eq_some.mp h
    exact named_change rfl
      (fun relative _ _ _ hop => onRamfs_run (f := fun s => fsMkdir s a relative)
        (g := fun node => .ofBool (node ≠ 0)) hop)
      (fun relative => onFat32_run (Fat32.Paths.fat32MkdirPath relative)) hrun
  | remove path =>
    exact named_change rfl
      (fun relative _ _ _ hop => onRamfs_run (f := fun s => fsRemove (fuel + 1) s relative)
        (g := fun result => .ofBool (result = 0)) hop)
      (fun relative => onFat32_run (Fat32.Paths.fat32Remove relative)) h
  | rmdir path =>
    exact named_change rfl
      (fun relative _ _ _ hop => onRamfs_run (f := fun s => fsRmdir (fuel + 1) s relative)
        (g := fun result => .ofBool (result = 0)) hop)
      (fun relative => onFat32_run (Fat32.Paths.fat32RmdirPath relative)) h

theorem Change.cwd (h : Change fuel s t act) :
    t.kernel.vfs.currentWorkingDirectory = s.kernel.vfs.currentWorkingDirectory := by
  cases h with
  | quiet _ _ others _ =>
    obtain ⟨fs, hvfs⟩ := others
    rw [hvfs]
  | mounted _ _ _ vfs _ _ => rw [vfs]
  | unmounted _ vfs _ _ => rw [vfs]
  | opened opened _ _ =>
    obtain ⟨j, -, hvfs⟩ := opened.entry
    rw [hvfs]
  | closed _ _ vfs _ _ =>
    rw [vfs]
    rfl
  | moved _ _ vfs _ _ => rw [vfs]
  | named _ _ _ vfs _ => rw [vfs]

/-! ## A kernel to run -/

/-- The FAT32 driver before any mount, without a device. -/
def noVolume : Fat32.Volume.World where
  fs := ⟨0, 0, 0, 0, 0, 0, 0, 0, 0, 0, false, fun _ => 0⟩
  openFiles := fun _ => Fat32.Files.closedFile
  mounted := false
  sectors := fun _ _ => 0
  present := fun _ => false
  sectorCount := fun _ => 0
  mallocs := fun _ => true
  faults := fun _ => none
  heapBytes := fun _ => 0

/-- After `fs_init` and `vfs_init`. -/
def bootedSys : Sys := ⟨⟨vfsInit, ⟨fsInit ⟨1, 2, 3⟩, fun _ => 0, noVolume⟩⟩, []⟩

theorem booted_bootedSys : Booted bootedSys := ⟨rfl, rfl⟩

/-- `"/f"` on a RAM file system mounted at the root. -/
def makeFile : List Act := [.mount rootStr fsRamfs 0 .ramfs, .create ⟨4, 5, 6⟩ examplePath]

end ContinuumOS.Vfs.Runs
