import ContinuumOS.Ramfs.Creation
import ContinuumOS.Vfs.Listing
import ContinuumOS.Vfs.RamfsCalls

/-! # What a successful call leaves to see

`vfs_mkdir` and `vfs_create` return success for every node that is made. A full
directory does not list it, and the first child of a name hides it: `vfs_stat`
of the path then gives what was there before, or nothing. -/
namespace ContinuumOS.Vfs.Visible
open ContinuumOS.Lib.Effect ContinuumOS.Lib.Runs ContinuumOS.Libc.String
open ContinuumOS.Ramfs.Nodes ContinuumOS.Ramfs.Operations ContinuumOS.Ramfs.Runs
open ContinuumOS.Ramfs.Lookup ContinuumOS.Ramfs.Backing
open ContinuumOS.Ramfs.Soundness ContinuumOS.Ramfs.Creation
open ContinuumOS.Fat32.Paths ContinuumOS.Vfs.Path
open ContinuumOS.Vfs.Adapters ContinuumOS.Vfs.Files ContinuumOS.Vfs.Listing
open ContinuumOS.Vfs.Resolution ContinuumOS.Vfs.Calls ContinuumOS.Vfs.Runs
open ContinuumOS.Vfs.RamfsCalls

/-! ## `vfs_stat` -/

/-- `(node->type == FS_FILE) ? VFS_TYPE_FILE : VFS_TYPE_DIRECTORY` -/
def typeOf (type : FSNodeType) : DirentType := if type = .file then .file else .directory

/-- The code, and `*info` when the call stores it. -/
def ramfsVfsStat (path : CStr) : Fs (Code × Option Dirent) := do
  let node ← onRamfs fun s => (fsFindByPath s path).map fun p => (p, s)
  if node = 0 then return (.notFound, none)
  let n ← loadNode node
  return (.success, some ⟨n.name.take (vfsMaxName - 1), typeOf n.type, n.size⟩)

def fat32VfsStat (path : CStr) : Fs (Code × Option Dirent) := do
  let target := if path = [] then rootStr else path
  match ← onFat32 (fat32LookupPath target) with
  | none => return (.notFound, none)
  | some found =>
    if target = rootStr then return (.success, some ⟨rootStr, .directory, 0⟩)
    return (.success, some ⟨found.info.filename.take (vfsMaxName - 1),
      if found.info.isDirectory then .directory else .file, found.info.size⟩)

def statOf : Ops → CStr → Fs (Code × Option Dirent)
  | .ramfs => ramfsVfsStat
  | .fat32 => fat32VfsStat

def vfsStat (fuel : Nat) (path : CStr) : Eff Kernel (Code × Option Dirent) := do
  match ← vfsLookup fuel path with
  | .error code => return (code, none)
  | .ok (_, ops, relative) => onStores (statOf ops relative)

/-- `vfs_stat` of the path succeeds, with that type. -/
def Stats (fuel : Nat) (path : CStr) (type : FSNodeType) (k : Kernel) : Prop :=
  ∃ info k', vfsStat fuel path k = some ((.success, some info), k') ∧ info.type = typeOf type

variable {fuel : Nat} {s t : Sys} {k k' : Kernel} {path relative : CStr} {i : Nat}
variable {type type' : FSNodeType} {a : Alloc}

theorem typeOf_inj (h : typeOf type = typeOf type') : type = type' := by
  cases type <;> cases type' <;> first | rfl | cases h

theorem vfsStat_ramfs (h : Resolves fuel k.vfs path i .ramfs relative) :
    vfsStat fuel path k = onStores (ramfsVfsStat relative) k := by
  rw [vfsStat, bind_run, vfsLookup_ok h]
  rfl

theorem stats_iff (h : Resolves fuel k.vfs path i .ramfs relative) (hs : Sound k.stores.ramfs) :
    Stats fuel path type k ↔ LeadsTo k.stores.ramfs relative type := by
  obtain ⟨n, hn, hreach⟩ := fsFindByPath_spec hs relative
  rw [(alike_backedState _).fsFindByPath] at hn
  have hnull : k.stores.ramfs.nodes 0 = none := (alike_backedState _).symm.none hs.null
  have hrun : vfsStat fuel path k =
      onStores (if n = 0 then pure (Code.notFound, (none : Option Dirent)) else do
        let x ← loadNode n
        return (.success, some ⟨x.name.take (vfsMaxName - 1), typeOf x.type, x.size⟩)) k := by
    rw [vfsStat_ramfs h, onStores, onStores, ramfsVfsStat, bind_run, onRamfs, hn]
    rfl
  rw [Stats, hrun]
  by_cases hn0 : n = 0
  · rw [if_pos hn0]
    refine iff_of_false ?_ ?_
    · rintro ⟨info, k', hinfo, -⟩
      cases hinfo
    · rintro ⟨m, x, hm, hx, -⟩
      obtain rfl := Option.some.inj (hn.symm.trans hm)
      rw [hn0, hnull] at hx
      cases hx
  · rw [if_neg hn0]
    obtain ⟨x, hx⟩ := hs.live (hreach.resolve_left hn0)
    obtain ⟨x, hx, -⟩ := (alike_backedState _).symm.some hx
    have hload : (onStores (do
        let x ← loadNode n
        return (Code.success, some (Dirent.mk (x.name.take (vfsMaxName - 1)) (typeOf x.type)
          x.size))) : Eff Kernel (Code × Option Dirent)) k = some ((.success, some
            ⟨x.name.take (vfsMaxName - 1), typeOf x.type, x.size⟩), k) := by
      rw [onStores, bind_run, loadNode, hx]
      rfl
    rw [hload]
    constructor
    · rintro ⟨info, k', hinfo, htype⟩
      cases hinfo
      exact ⟨n, x, hn, hx, typeOf_inj htype⟩
    · rintro ⟨m, z, hm, hz, htype⟩
      obtain rfl := Option.some.inj (hn.symm.trans hm)
      obtain rfl := Option.some.inj (hx.symm.trans hz)
      exact ⟨_, k, rfl, congrArg typeOf htype⟩

/-! ## A call that returned success -/

theorem success_below {operation : Ops → CStr → Fs Code}
    (h : Resolves fuel k.vfs path i .ramfs relative)
    (hrun : onPath fuel operation path k = some (.success, k')) : k'.vfs = k.vfs ∧
      operation .ramfs relative k.stores = some (.success, k'.stores) := by
  rw [onPath, bind_run, vfsLookup_ok h] at hrun
  exact onStores_spec hrun

theorem made_below {f : FsState → Option (Ptr × FsState)} {u u' : Stores}
    (h : (onRamfs f >>= fun node => pure (Code.ofBool (node ≠ 0))) u = some (.success, u')) :
    ∃ r, r ≠ 0 ∧ f u.ramfs = some (r, u'.ramfs) := by
  obtain ⟨⟨r, v⟩, hv, h⟩ := Option.bind_eq_some_iff.mp h
  obtain ⟨⟨r', fs⟩, hf, hr⟩ := Option.map_eq_some_iff.mp hv
  cases hr
  obtain ⟨hcode, hu⟩ := Prod.mk.inj (Option.some.inj h)
  refine ⟨r', fun hnull => ?_, ?_⟩
  · rw [hnull] at hcode
    cases hcode
  · rw [hf, ← hu]

theorem mkdir_stats (h : Rooted t) (hfresh : Fresh a t.kernel.stores.ramfs)
    (hres : Resolves fuel t.kernel.vfs path i .ramfs relative)
    (hrun : vfsMkdir fuel a path t.kernel = some (.success, k)) :
    Stats fuel path .directory k ↔ Shows t.kernel.stores.ramfs relative .directory := by
  obtain ⟨hvfs, hop⟩ := success_below hres hrun
  obtain ⟨r, hr, hmkdir⟩ := made_below (f := fun s => fsMkdir s a relative) hop
  have hmade := mkdir_made h.sound hfresh hmkdir
  rw [stats_iff (hvfs ▸ hres) (hmade.made.inv h.sound)]
  exact leads_placed h.sound (resolve_some h.cwd hres.slot).2 (mkdir_placed hmkdir hr) hmade

theorem create_stats (h : Rooted t) (hfresh : Fresh a t.kernel.stores.ramfs)
    (hres : Resolves fuel t.kernel.vfs path i .ramfs relative)
    (hrun : vfsCreate fuel a path t.kernel = some (.success, k)) :
    Stats fuel path .file k ↔ Shows t.kernel.stores.ramfs relative .file := by
  obtain ⟨hvfs, hop⟩ := success_below hres hrun
  obtain ⟨r, hr, htouch⟩ := made_below (f := fun s => fsTouch s a relative) hop
  have hmade := touch_made h.sound hfresh htouch
  rw [stats_iff (hvfs ▸ hres) (hmade.made.inv h.sound)]
  exact leads_placed h.sound (resolve_some h.cwd hres.slot).2 (touch_placed htouch hr) hmade

/-- **A successful call is visible just where the node could show.** In every
state of a run, when `vfs_mkdir` or `vfs_create` of a path of a RAM file system
returns success, `vfs_stat` of the path then gives the matching type if and only
if the path led to a node of that type before, or led nowhere and its directory
was not full. -/
theorem success_visible_iff {b : Alloc} (hs : Booted s) (hram : s.kernel.stores.ramfs = fsInit b)
    (hnode : b.node ≠ 0) (fuel : Nat) (acts : List Act) :
    ∀ t ∈ visited (step fuel) acts s, ∀ (rounds : Nat) (a : Alloc) (path relative : CStr) (i : Nat)
      (k : Kernel), mallocable t.kernel.stores.ramfs a = true →
      Resolves rounds t.kernel.vfs path i .ramfs relative →
      (vfsMkdir rounds a path t.kernel = some (.success, k) →
        (Stats rounds path .directory k ↔ Shows t.kernel.stores.ramfs relative .directory)) ∧
      (vfsCreate rounds a path t.kernel = some (.success, k) →
        (Stats rounds path .file k ↔ Shows t.kernel.stores.ramfs relative .file)) := by
  intro t ht rounds a path relative i k hmalloc hres
  have hrooted := rooted_visited hs hram hnode acts t ht
  have hfresh := fresh_of_mallocable hmalloc
  exact ⟨mkdir_stats hrooted hfresh hres, create_stats hrooted hfresh hres⟩

/-- A RAM file system mounted at the root, after the boot. -/
def mountedSys : Sys :=
  ⟨⟨(vfsMount vfsInit rootStr fsRamfs 0 .ramfs).2, bootedSys.kernel.stores⟩, []⟩

theorem mounted_visited :
    mountedSys ∈ visited (step 8) [.mount rootStr fsRamfs 0 .ramfs] bootedSys :=
  visited_of_step (t := mountedSys) rfl (start_mem_visited _ _)

theorem resolves_mounted :
    Resolves 9 mountedSys.kernel.vfs examplePath 0 .ramfs examplePath :=
  ⟨rfl, by decide +kernel, rfl⟩

/-- The root of the example, without children. -/
def emptyRoot : FSNode := ⟨rootStr, .directory, 0, 0, 0, some (List.replicate maxChildren 0), 0⟩

theorem receives_mounted :
    Receives mountedSys.kernel.stores.ramfs examplePath 1 [0x66] emptyRoot :=
  ⟨⟨rootStr, rfl, rfl⟩, Nat.one_ne_zero, rfl, rfl⟩

/-- The first file of the root. -/
theorem success_visible_iff_example :
    ∃ k, vfsCreate 9 ⟨4, 5, 6⟩ examplePath mountedSys.kernel = some (.success, k) ∧
      Stats 9 examplePath .file k := by
  have hrun : ∃ u, Ops.create ⟨4, 5, 6⟩ .ramfs examplePath mountedSys.kernel.stores =
      some (.success, u) := ⟨_, rfl⟩
  obtain ⟨u, hu⟩ := hrun
  have hcreate : vfsCreate 9 ⟨4, 5, 6⟩ examplePath mountedSys.kernel =
      some (.success, { mountedSys.kernel with stores := u }) := onPath_ok resolves_mounted hu
  have hroom : Shows mountedSys.kernel.stores.ramfs examplePath .file :=
    .inr ⟨rfl, 1, [0x66], _, receives_mounted, by decide⟩
  refine ⟨_, hcreate, ?_⟩
  exact ((success_visible_iff (b := ⟨1, 2, 3⟩) booted_bootedSys rfl Nat.one_ne_zero 8 _ _
    mounted_visited 9 ⟨4, 5, 6⟩ examplePath examplePath 0 _ rfl resolves_mounted).2
      hcreate).mpr hroom

/-- The names `"/@"`, `"/A"` and so on, one for each child that fits the root, and
one more. -/
def childPath (i : Nat) : CStr := [slash, 0x40 + UInt8.ofNat i]

def fillRoot : List Act := (Act.mount rootStr fsRamfs 0 .ramfs) ::
  (List.range maxChildren).map fun i => .create ⟨4 + 3 * i, 5 + 3 * i, 6 + 3 * i⟩ (childPath i)

/-- The 33rd `vfs_mkdir` in the root returns success, and `vfs_stat` does not find
the directory. -/
theorem full_directory_hides : ∃ t ∈ visited (step 8) fillRoot bootedSys, ∃ k,
    mallocable t.kernel.stores.ramfs ⟨200, 201, 202⟩ = true ∧
    vfsMkdir 9 ⟨200, 201, 202⟩ (childPath maxChildren) t.kernel = some (.success, k) ∧
    ¬ Stats 9 (childPath maxChildren) .directory k := by
  have hrun : (fillRoot.foldlM (step 8) bootedSys).any (fun t =>
      mallocable t.kernel.stores.ramfs ⟨200, 201, 202⟩ &&
      (vfsMkdir 9 ⟨200, 201, 202⟩ (childPath maxChildren) t.kernel).any fun r =>
        r.1 == .success &&
          (vfsStat 9 (childPath maxChildren) r.2).any fun q => q.1.1 == .notFound) = true := by
    decide +kernel
  obtain ⟨t, ht, hshown⟩ := (Option.any_eq_true _ _).mp hrun
  obtain ⟨hmalloc, hmade⟩ := (Bool.and_eq_true _ _).mp hshown
  obtain ⟨⟨code, k⟩, hk, hmade⟩ := (Option.any_eq_true _ _).mp hmade
  obtain ⟨hcode, hlost⟩ := (Bool.and_eq_true _ _).mp hmade
  obtain ⟨⟨⟨answer, info⟩, k'⟩, hstat, hanswer⟩ := (Option.any_eq_true _ _).mp hlost
  obtain rfl : code = .success := eq_of_beq hcode
  obtain rfl : answer = .notFound := eq_of_beq hanswer
  refine ⟨t, mem_visited_of_foldlM ht, k, hmalloc, hk, ?_⟩
  rintro ⟨info', k'', hinfo, -⟩
  rw [hstat] at hinfo
  cases hinfo

end ContinuumOS.Vfs.Visible
