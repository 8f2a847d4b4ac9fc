import ContinuumOS.Vfs.Visible

/-! # Calls that get no memory

A RAM file that cannot grow is left as it is, and so is the directory of a file
without memory for its node. Every other allocation that fails does harm:
`fs_mkdir` adds the `NULL` of its node to the directory, and neither `fs_mkdir`
nor `fs_touch` looks at the second allocation. -/
namespace ContinuumOS.Vfs.OutOfMemory
open ContinuumOS.Lib.Effect ContinuumOS.Lib.Runs ContinuumOS.Libc.String
open ContinuumOS.Ramfs.Nodes ContinuumOS.Ramfs.Tree ContinuumOS.Ramfs.Operations
open ContinuumOS.Ramfs.Runs
open ContinuumOS.Ramfs.Backing ContinuumOS.Ramfs.Soundness
open ContinuumOS.Vfs.Path ContinuumOS.Vfs.Adapters ContinuumOS.Vfs.Files ContinuumOS.Vfs.Calls
open ContinuumOS.Vfs.Runs ContinuumOS.Vfs.RamfsCalls ContinuumOS.Vfs.Visible

/-- The calls that allocate, with what their allocations return. -/
inductive Request where
  | mkdir (a : Alloc) (path : CStr)
  | create (a : Alloc) (path : CStr)
  | write (file : VfsFile) (g : Grown) (src : List UInt8)

/-- The path leads to the directory `y` of a RAM file system and a name in it. -/
def Receiving (rounds : Nat) (k : Kernel) (path : CStr) (y : FSNode) : Prop :=
  ∃ i relative p name, Resolves rounds k.vfs path i .ramfs relative ∧
    Receives k.stores.ramfs relative p name y

namespace Request

/-- Does the call report more than an error or a count of 0? -/
def run (rounds : Nat) : Request → Eff Kernel Bool
  | mkdir a path => do return (← vfsMkdir rounds a path) = .success
  | create a path => do return (← vfsCreate rounds a path) = .success
  | write file g src => do
    let (count, _) ← vfsWrite g file src
    return 0 < count.getD 0

/-- An allocation that the call makes returns `NULL`: the node, the array of a
directory, the buffer of a file, or the longer buffer of a write. -/
def Starved (rounds : Nat) (k : Kernel) : Request → Prop
  | mkdir a path => (∃ y, Receiving rounds k path y) ∧ (a.node = 0 ∨ a.array = 0)
  | create a path => (∃ y, Receiving rounds k path y) ∧ (a.node = 0 ∨ a.data = 0)
  | write file g src => reached k.vfs file = some .ramfs ∧ file.fsHandle ≠ 0 ∧
      ∃ n, k.stores.ramfs.nodes file.fsHandle = some n ∧
        n.size < (file.position + src.length) % 2 ^ 32 ∧ g.data = 0

/-- The allocation is that of a write, that of a file's node, or that of a
directory's node in a directory that is full already. -/
def Harmless (rounds : Nat) (k : Kernel) : Request → Prop
  | mkdir a path => a.node = 0 ∧ ∃ y, Receiving rounds k path y ∧ maxChildren ≤ y.childCount
  | create a _ => a.node = 0
  | write .. => True

end Request

/-- Every directory lists nodes only. -/
def ListsValid (s : FsState) : Prop := ∀ p, ∀ c ∈ s.listed p, ∃ x, s.nodes c = some x

/-- The same paths, and files of the same sizes and contents. -/
structure SameFiles (k k' : Kernel) : Prop where
  paths : ∀ path, fsFindByPath k'.stores.ramfs path = fsFindByPath k.stores.ramfs path
  files : ∀ path n x, fsFindByPath k.stores.ramfs path = some n → k.stores.ramfs.nodes n = some x →
    x.type = .file → ∃ z, k'.stores.ramfs.nodes n = some z ∧ z.type = .file ∧ z.size = x.size ∧
      ∀ i < x.size, k'.stores.memory (z.data + i) = k.stores.memory (x.data + i)

/-- The call returns an error or a count of 0, and nothing is lost. -/
def Survives (rounds : Nat) (k : Kernel) (r : Request) : Prop :=
  ∃ k', r.run rounds k = some (false, k') ∧ ListsValid k'.stores.ramfs ∧ SameFiles k k'

variable {rounds : Nat} {k k' : Kernel} {r : Request} {s s' : FsState} {t : Sys}
variable {path name : CStr} {p node : Ptr} {y : FSNode} {a : Alloc}

theorem listsValid_sound (h : Sound s) : ListsValid s := by
  intro p c hc
  rw [← (alike_backedState s).listed] at hc
  obtain ⟨x, hx, -⟩ := Inv.parent h p c hc
  obtain ⟨z, hz, -⟩ := (alike_backedState s).symm.some hx
  exact ⟨z, hz⟩

theorem null_sound (h : Sound s) : s.nodes 0 = none := (alike_backedState s).symm.none h.null

theorem SameFiles.refl (k : Kernel) : SameFiles k k :=
  ⟨fun _ => rfl, fun _ _ x _ hx htype => ⟨x, hx, htype, rfl, fun _ _ => rfl⟩⟩

theorem survives_unchanged (h : Sound k.stores.ramfs) (hrun : r.run rounds k = some (false, k)) :
    Survives rounds k r := ⟨k, hrun, listsValid_sound h, .refl k⟩

/-! ## Making a node -/

theorem fsMkdir_receives (h : Receives s path p name y) (a : Alloc) : fsMkdir s a path =
    (fsAddChild (fsCreateNode s a name .directory).2 p (fsCreateNode s a name .directory).1).map
      fun s' => ((fsCreateNode s a name .directory).1, s') := by
  obtain ⟨parentPath, hsplit, hfind⟩ := h.split
  have hdir : ¬ y.type ≠ .directory := not_not.mpr h.directory
  rw [fsMkdir, hsplit]
  simp only [Option.bind_eq_bind, Option.bind_some, hfind, if_neg h.notNull, h.node, if_neg hdir,
    Option.map_eq_bind]
  rfl

/-- Without memory for the node, a directory with room is told to list `NULL`. -/
theorem fsAddChild_null_eq (hnull : s.nodes 0 = none) (h : Receives s path p name y) :
    fsAddChild s p 0 = if maxChildren ≤ y.childCount then some s else none := by
  have hdir : ¬ y.type ≠ .directory := not_not.mpr h.directory
  rw [fsAddChild, if_neg h.notNull, h.node]
  simp only [Option.bind_eq_bind, Option.bind_some, if_neg hdir]
  by_cases hfull : maxChildren ≤ y.childCount
  · rw [if_pos hfull, if_pos hfull]
  · rw [if_neg hfull, if_neg hfull]
    cases y.children with
    | none => rfl
    | some slots =>
      rw [Option.bind_some, FsState.store_ne _ _ (Ne.symm h.notNull), hnull]
      rfl

theorem fsMkdir_starved (hnull : s.nodes 0 = none) (h : Receives s path p name y)
    (hnode : a.node = 0) :
    fsMkdir s a path = if maxChildren ≤ y.childCount then some (0, s) else none := by
  rw [fsMkdir_receives h, fsCreateNode, if_pos hnode, fsAddChild_null_eq hnull h]
  split <;> rfl

theorem fsMkdir_node (h : Receives s path p name y) (hrun : fsMkdir s a path = some (node, s')) :
    node = a.node := by
  rw [fsMkdir_receives h, fsCreateNode] at hrun
  obtain ⟨t, -, hrun⟩ := Option.map_eq_some_iff.mp hrun
  by_cases hnode : a.node = 0
  · rw [if_pos hnode] at hrun
    rw [hnode]
    exact (Prod.mk.inj hrun).1.symm
  · rw [if_neg hnode] at hrun
    exact (Prod.mk.inj hrun).1.symm

theorem fsTouch_receives (h : Receives s path p name y) (a : Alloc) :
    fsTouch s a path = if a.node = 0 then some (0, s) else
      (fsAddChild (s.store a.node { name := name.take (nameSize - 1), type := .file, size := 0
                                    data := a.data, parent := 0, children := none
                                    childCount := 0 }) p a.node).map fun s' => (a.node, s') := by
  obtain ⟨parentPath, hsplit, hfind⟩ := h.split
  have hdir : ¬ y.type ≠ .directory := not_not.mpr h.directory
  rw [fsTouch, hsplit]
  simp only [Option.bind_eq_bind, Option.bind_some, hfind, if_neg h.notNull, h.node, if_neg hdir]
  by_cases hnode : a.node = 0
  · rw [fsCreateNode, if_pos hnode, if_pos hnode]
    rfl
  · simp only [fsCreateNode, if_neg hnode, FsState.store_self, FsState.store_store,
      Option.bind_some, Option.map_eq_bind]
    rfl

theorem fsTouch_node (h : Receives s path p name y) (hrun : fsTouch s a path = some (node, s')) :
    node = a.node := by
  rw [fsTouch_receives h] at hrun
  split at hrun
  · rename_i hnode
    rw [hnode]
    exact (Prod.mk.inj (Option.some.inj hrun)).1.symm
  · obtain ⟨t, -, hrun⟩ := Option.map_eq_some_iff.mp hrun
    exact (Prod.mk.inj hrun).1.symm

/-! ## The calls -/

theorem onPath_ramfs {operation : Ops → CStr → Fs Code} {f : FsState → Option (Ptr × FsState)}
    {i : Nat} {relative : CStr} (h : Resolves rounds k.vfs path i .ramfs relative)
    (hop : operation .ramfs relative = do
      let node ← onRamfs f
      return .ofBool (node ≠ 0)) :
    (do return (← onPath rounds operation path) = .success : Eff Kernel Bool) k =
      (f k.stores.ramfs).map fun r =>
        (decide (r.1 ≠ 0), { k with stores := { k.stores with ramfs := r.2 } }) := by
  rw [onPath, bind_run, bind_run, vfsLookup_ok h]
  simp only [Option.bind_some]
  rw [hop, onStores, bind_run, onRamfs]
  cases f k.stores.ramfs with
  | none => rfl
  | some r =>
    by_cases hr : r.1 = 0
    · simp [Code.ofBool, hr]
    · simp [Code.ofBool, hr]

theorem mkdir_survives_iff (hs : Sound k.stores.ramfs)
    (h : (Request.mkdir a path).Starved rounds k) :
    Survives rounds k (.mkdir a path) ↔ (Request.mkdir a path).Harmless rounds k := by
  obtain ⟨⟨y, hreceiving⟩, -⟩ := h
  obtain ⟨i, relative, p, name, hres, hreceives⟩ := id hreceiving
  have hrun : (Request.mkdir a path).run rounds k = _ :=
    onPath_ramfs hres (show Ops.mkdir a .ramfs relative = _ from rfl)
  constructor
  · rintro ⟨k', hk', -, -⟩
    rw [hrun] at hk'
    obtain ⟨⟨node, u⟩, hu, hk'⟩ := Option.map_eq_some_iff.mp hk'
    have hnode : a.node = 0 := by
      rw [← fsMkdir_node hreceives hu]
      simpa using (Prod.mk.inj hk').1
    rw [fsMkdir_starved (null_sound hs) hreceives hnode] at hu
    exact ⟨hnode, y, hreceiving, (Option.ite_none_right_eq_some.mp hu).1⟩
  · rintro ⟨hnode, z, ⟨i', relative', p', name', hres', hreceives'⟩, hfull⟩
    obtain ⟨rfl, rfl⟩ : i = i' ∧ relative = relative' := by
      have hslot := hres.slot.symm.trans hres'.slot
      simpa using hslot
    refine survives_unchanged hs ?_
    rw [hrun, fsMkdir_starved (null_sound hs) hreceives' hnode, if_pos hfull]
    rfl

theorem create_survives_iff (hs : Sound k.stores.ramfs)
    (h : (Request.create a path).Starved rounds k) :
    Survives rounds k (.create a path) ↔ (Request.create a path).Harmless rounds k := by
  obtain ⟨⟨y, i, relative, p, name, hres, hreceives⟩, -⟩ := h
  have hrun : (Request.create a path).run rounds k = _ :=
    onPath_ramfs hres (show Ops.create a .ramfs relative = _ from rfl)
  constructor
  · rintro ⟨k', hk', -, -⟩
    rw [hrun] at hk'
    obtain ⟨⟨node, u⟩, hu, hk'⟩ := Option.map_eq_some_iff.mp hk'
    rw [Request.Harmless, ← fsTouch_node hreceives hu]
    simpa using (Prod.mk.inj hk').1
  · intro (hnode : a.node = 0)
    refine survives_unchanged hs ?_
    rw [hrun, fsTouch_receives hreceives, if_pos hnode]
    rfl

theorem write_survives (hs : Sound k.stores.ramfs) {file : VfsFile} {g : Grown}
    {src : List UInt8} (h : (Request.write file g src).Starved rounds k) :
    Survives rounds k (.write file g src) := by
  obtain ⟨hreached, hhandle, n, hn, hgrows, hdata⟩ := h
  refine survives_unchanged hs ?_
  have hused : file.inUse = true := by
    by_contra hused
    rw [reached, if_neg hused] at hreached
    cases hreached
  have hwrite : ramfsVfsWrite g file src k.stores = some ((none, file), k.stores) := by
    simp only [ramfsVfsWrite, hused, not_true_eq_false, if_false, if_neg hhandle, bind_run, loadNode,
      hn, Option.map_some, Option.bind_some, if_pos hgrows, if_pos hdata]
    rfl
  simp only [Request.run, vfsWrite, bind_run, get_run, Option.bind_some, hreached, onStores,
    Ops.write, hwrite]
  rfl

/-- **Which failing allocations a call survives**, in every state of a run: that of
a write, that of a file's node, and that of a directory's node in a directory
that is full. At every other one the call does not come back, or returns
success. -/
theorem survives_iff {s : Sys} {b : Alloc} (hs : Booted s)
    (hram : s.kernel.stores.ramfs = fsInit b) (hnode : b.node ≠ 0) (fuel : Nat) (acts : List Act) :
    ∀ t ∈ visited (step fuel) acts s, ∀ (rounds : Nat) (r : Request), r.Starved rounds t.kernel →
      (Survives rounds t.kernel r ↔ r.Harmless rounds t.kernel) := by
  intro t ht rounds r hr
  have hrooted := rooted_visited hs hram hnode acts t ht
  cases r with
  | mkdir a path => exact mkdir_survives_iff hrooted.sound hr
  | create a path => exact create_survives_iff hrooted.sound hr
  | write file g src => exact iff_of_true (write_survives hrooted.sound hr) trivial

/-- A file without memory for its node. -/
theorem survives_iff_example : Survives 9 mountedSys.kernel (.create ⟨0, 5, 6⟩ examplePath) :=
  (survives_iff (b := ⟨1, 2, 3⟩) booted_bootedSys rfl Nat.one_ne_zero 8 _ _ mounted_visited 9
    (.create ⟨0, 5, 6⟩ examplePath)
    ⟨⟨_, 0, examplePath, 1, [0x66], resolves_mounted, receives_mounted⟩, .inl rfl⟩).mpr rfl

/-- A directory without memory for its node does not come back, and a file without
memory for its buffer is reported as made. -/
theorem starved_calls_harm :
    mountedSys ∈ visited (step 8) [.mount rootStr fsRamfs 0 .ramfs] bootedSys ∧
    (Request.mkdir ⟨0, 5, 6⟩ examplePath).Starved 9 mountedSys.kernel ∧
    ¬ Survives 9 mountedSys.kernel (.mkdir ⟨0, 5, 6⟩ examplePath) ∧
    (Request.create ⟨4, 5, 0⟩ examplePath).Starved 9 mountedSys.kernel ∧
    ¬ Survives 9 mountedSys.kernel (.create ⟨4, 5, 0⟩ examplePath) := by
  have hreceiving : ∃ y, Receiving 9 mountedSys.kernel examplePath y :=
    ⟨_, 0, examplePath, 1, [0x66], resolves_mounted, receives_mounted⟩
  refine ⟨mounted_visited, ⟨hreceiving, .inl rfl⟩, ?_, ⟨hreceiving, .inr rfl⟩, ?_⟩
  · rintro ⟨k', hk', -⟩
    have hfault : (Request.mkdir ⟨0, 5, 6⟩ examplePath).run 9 mountedSys.kernel = none :=
      Option.isNone_iff_eq_none.mp (by decide +kernel)
    rw [hfault] at hk'
    cases hk'
  · rintro ⟨k', hk', -⟩
    have hmade : ((Request.create ⟨4, 5, 0⟩ examplePath).run 9 mountedSys.kernel).map Prod.fst =
        some true := by decide +kernel
    rw [hk'] at hmade
    cases hmade

end ContinuumOS.Vfs.OutOfMemory
