import ContinuumOS.Lib.Effect
import ContinuumOS.Vfs.Transfers

/-! # Calls that do not look at the buffers

Only reads and writes of RAM files touch the memory that holds their bytes. Every
other call does the same whatever lies there, and leaves it alone. -/
namespace ContinuumOS.Vfs.Unseen
open ContinuumOS.Lib.Effect ContinuumOS.Lib.Memory ContinuumOS.Lib.Blindness
open ContinuumOS.Libc.String ContinuumOS.Ramfs.Nodes ContinuumOS.Fat32.Volume
open ContinuumOS.Vfs.Adapters ContinuumOS.Vfs.Files
open ContinuumOS.Vfs.Transfers

/-- The file systems over other bytes. -/
def setMemory (m : Mem) (s : Stores) : Stores := { s with memory := m }

def overMemory (m : Mem) (k : Kernel) : Kernel := { k with stores := setMemory m k.stores }

variable {α : Type} {k k' : Kernel} {f f' : VfsFile} {path : CStr} {fuel : Nat}

theorem blind_onRamfs (f : FsState → Option (α × FsState)) : Blind setMemory (onRamfs f) := by
  intro m s
  rw [onRamfs, onRamfs, Option.map_map]
  rfl

theorem blind_onFat32 (f : Fat α) : Blind setMemory (onFat32 f) := by
  intro m s
  rw [onFat32, onFat32, Option.map_map]
  rfl

theorem blind_loadNode (p : Ptr) : Blind setMemory (loadNode p) := by
  intro m s
  rw [loadNode, loadNode, Option.map_map]
  rfl

/-! ## The adapters -/

theorem blind_openFile (ops : Ops) (path : CStr) (file : VfsFile) :
    Blind setMemory (ops.openFile path file) := by
  cases ops with
  | ramfs =>
    refine .bind (blind_onRamfs _) fun node => .ite (fun _ => .pure _) fun _ => ?_
    exact .bind (blind_loadNode _) fun n => .ite (fun _ => .pure _) fun _ => .pure _
  | fat32 =>
    refine .ite (fun _ => .pure _) fun _ => .bind (blind_onFat32 _) fun found => ?_
    cases found with
    | none => exact .pure _
    | some found =>
      refine .ite (fun _ => .pure _) fun _ => .bind (blind_onFat32 _) fun fd => ?_
      cases fd with
      | none => exact .pure _
      | some fd => exact .pure _

theorem blind_fat32VfsRead (file : VfsFile) (size : Nat) :
    Blind setMemory (fat32VfsRead file size) := by
  refine .ite (fun _ => .pure _) fun _ => .bind (blind_onFat32 _) fun bytes => ?_
  cases bytes with
  | none => exact .pure _
  | some bytes => exact .pure _

theorem blind_fat32VfsWrite (file : VfsFile) (src : List UInt8) :
    Blind setMemory (fat32VfsWrite file src) :=
  .ite (fun _ => .pure _) fun _ => .bind (blind_onFat32 _) fun _ =>
    .ite (fun _ => .pure _) fun _ => .pure _

theorem blind_seek (ops : Ops) (file : VfsFile) (position : Nat) :
    Blind setMemory (ops.seek file position) := by
  cases ops with
  | ramfs => exact .pure _
  | fat32 =>
    exact .ite (fun _ => .pure _) fun _ => .bind (blind_onFat32 _) fun _ =>
      .ite (fun _ => .pure _) fun _ => .pure _

theorem blind_close (ops : Ops) (file : VfsFile) : Blind setMemory (ops.close file) := by
  cases ops with
  | ramfs => exact .pure _
  | fat32 =>
    exact .ite (fun _ => .bind (blind_onFat32 _) fun _ => .pure _) fun _ => .pure _

theorem blind_mkdir (a : Alloc) (ops : Ops) (path : CStr) : Blind setMemory (ops.mkdir a path) := by
  cases ops with
  | ramfs => exact .bind (blind_onRamfs _) fun _ => .pure _
  | fat32 => exact .bind (blind_onFat32 _) fun _ => .pure _

theorem blind_create (a : Alloc) (ops : Ops) (path : CStr) :
    Blind setMemory (ops.create a path) := by
  cases ops with
  | ramfs => exact .bind (blind_onRamfs _) fun _ => .pure _
  | fat32 => exact .bind (blind_onFat32 _) fun _ => .pure _

theorem blind_remove (fuel : Nat) (ops : Ops) (path : CStr) :
    Blind setMemory (ops.remove fuel path) := by
  cases ops with
  | ramfs => exact .bind (blind_onRamfs _) fun _ => .pure _
  | fat32 => exact .bind (blind_onFat32 _) fun _ => .pure _

theorem blind_rmdir (fuel : Nat) (ops : Ops) (path : CStr) :
    Blind setMemory (ops.rmdir fuel path) := by
  cases ops with
  | ramfs => exact .bind (blind_onRamfs _) fun _ => .pure _
  | fat32 => exact .bind (blind_onFat32 _) fun _ => .pure _

/-! ## The calls -/

theorem blind_onStores {m : Fs α} (h : Blind setMemory m) : Blind overMemory (onStores m) := by
  intro x k
  change (m (setMemory x k.stores)).map _ = _
  rw [h, onStores, Option.map_map, Option.map_map]
  rfl

theorem blind_onVfs (f : VfsTables → α × VfsTables) : Blind overMemory (onVfs f) := fun _ _ => rfl

theorem blind_vfsLookup (fuel : Nat) (path : CStr) : Blind overMemory (vfsLookup fuel path) := by
  intro m k
  rw [vfsLookup, vfsLookup]
  change (if ¬ k.vfs.initialized = true then _ else _) = _
  by_cases hinit : ¬ k.vfs.initialized = true
  · rw [if_pos hinit, if_pos hinit]
    rfl
  rw [if_neg hinit, if_neg hinit, Option.map_map]
  refine congrArg (Option.map · (resolve fuel k.vfs path)) (funext fun found => ?_)
  cases found with
  | none => rfl
  | some found =>
    rw [Function.comp]
    have hsame : (overMemory m k).vfs = k.vfs := rfl
    cases hops : k.vfs.opsAt found.1 with
    | none => simp only [hsame, hops]
    | some ops => simp only [hsame, hops]

theorem blind_vfsOpen (fuel : Nat) (path : CStr) : Blind overMemory (vfsOpen fuel path) := by
  refine .bind (blind_vfsLookup fuel path) fun found => ?_
  cases found with
  | error code => exact .pure _
  | ok found =>
    refine .get_bind (fun k => ?_) fun _ _ => rfl
    cases k.vfs.freeFile with
    | none => exact .pure _
    | some j =>
      refine .bind (blind_onStores (blind_openFile _ _ _)) fun r => ?_
      exact .ite (fun _ => .bind (.modify fun _ _ => rfl) fun _ => .pure _)
        fun _ => .bind (.modify fun _ _ => rfl) fun _ => .pure _

theorem blind_vfsSeek (file : VfsFile) (position : Nat) :
    Blind overMemory (vfsSeek file position) := by
  refine .get_bind (fun k => ?_) fun _ _ => rfl
  cases reached k.vfs file with
  | none => exact .pure _
  | some ops => exact blind_onStores (blind_seek ops file position)

theorem blind_closeEntry (file : VfsFile) : Blind overMemory (closeEntry file) := by
  refine .get_bind (fun k => .bind (.get_bind (fun k => ?_) fun _ _ => rfl) fun _ => ?_)
    fun _ _ => rfl
  · cases reached k.vfs file with
    | none => exact .pure _
    | some ops => exact .bind (blind_onStores (blind_close ops file)) fun _ => .pure _
  · cases k.vfs.entryOf file with
    | none => exact .pure _
    | some j => exact .modify fun _ _ => rfl

theorem blind_vfsClose (file : VfsFile) : Blind overMemory (vfsClose file) :=
  .ite (fun _ => .bind (blind_closeEntry file) fun _ => .pure _) fun _ => .pure _

theorem blind_onPath {operation : Ops → CStr → Fs Code}
    (h : ∀ ops path, Blind setMemory (operation ops path)) (fuel : Nat) (path : CStr) :
    Blind overMemory (onPath fuel operation path) := by
  refine .bind (blind_vfsLookup fuel path) fun found => ?_
  cases found with
  | error code => exact .pure _
  | ok found => exact blind_onStores (h _ _)

theorem blind_fat32VfsMount (mountpoint : CStr) (deviceId : Nat) :
    Blind overMemory (fat32VfsMount mountpoint deviceId) :=
  .bind (blind_onStores (blind_onFat32 _)) fun _ => .ite (fun _ => blind_onVfs _) fun _ => .pure _

theorem blind_closeAll (i left : Nat) : ∀ j, Blind overMemory (closeAll i left j) := by
  induction left with
  | zero => exact fun j => .pure _
  | succ left ih =>
    intro j
    refine .get_bind (fun k => ?_) fun _ _ => rfl
    refine .ite (fun _ => ?_) fun _ => ih (j + 1)
    exact .bind (blind_closeEntry _) fun _ => .bind (.modify fun _ _ => rfl) fun _ => ih (j + 1)

theorem blind_vfsUnmount (mountpoint : CStr) : Blind overMemory (vfsUnmount mountpoint) := by
  refine .get_bind (fun k => .ite (fun _ => .pure _) fun _ => ?_) fun _ _ => rfl
  cases k.vfs.mountedAt mountpoint with
  | none => exact .pure _
  | some i =>
    refine .bind (blind_closeAll i _ _) fun _ => .bind (.get_bind (fun k => ?_) fun _ _ => rfl)
      fun _ => .bind (.modify fun _ _ => rfl) fun _ => .pure _
    cases hops : (k.vfs.opsAt i).bind Ops.unmount with
    | none => exact .pure _
    | some unmount =>
      obtain ⟨ops, -, hun⟩ := Option.bind_eq_some_iff.mp hops
      cases ops with
      | ramfs => cases hun
      | fat32 =>
        obtain rfl := Option.some.inj hun
        exact .bind (blind_onStores (blind_onFat32 _)) fun _ => .pure _

theorem blind_sysOpen (path : CStr) : Blind setMemory (sysOpen path) :=
  .bind (blind_onRamfs _) fun _ => .ite (fun _ => .pure _) fun _ => blind_onRamfs _

theorem blind_sysClose (fd : Nat) : Blind setMemory (sysClose fd) := blind_onRamfs _

/-! ## Reads and writes elsewhere -/

/-- How `vfs_read` and `vfs_write` get to a file system. -/
def onReached (file : VfsFile) (call : Ops → Fs (Option α × VfsFile)) :
    Eff Kernel (Option α × VfsFile) := do
  match reached (← Eff.get).vfs file with
  | none => return (none, file)
  | some ops => onStores (call ops)

theorem onReached_any (call call' : Ops → Fs (Option α × VfsFile)) {r : Option α × VfsFile}
    (hsame : ∀ ops, reached k.vfs f = some ops → ∀ r t, call ops k.stores = some (r, t) →
      t.ramfs = k.stores.ramfs ∧ ∀ m, call' ops (setMemory m k.stores) = some (r, setMemory m t))
    (h : onReached f call k = some (r, k')) : k'.stores.ramfs = k.stores.ramfs ∧
      ∀ m, onReached f call' (overMemory m k) = some (r, overMemory m k') := by
  rw [onReached] at h
  simp only [bind_run, get_run, Option.bind_some] at h
  have hreached (m : Mem) : onReached f call' (overMemory m k) =
      (match reached k.vfs f with
        | none => (pure (none, f) : Eff Kernel _)
        | some ops => onStores (call' ops)) (overMemory m k) := rfl
  cases hops : reached k.vfs f with
  | none =>
    rw [hops] at h
    cases h
    exact ⟨rfl, fun m => (hreached m).trans (by rw [hops]; rfl)⟩
  | some ops =>
    rw [hops] at h
    obtain ⟨⟨r', t⟩, ht, hr⟩ := Option.map_eq_some_iff.mp h
    cases hr
    obtain ⟨hram, hany⟩ := hsame ops hops r' t ht
    refine ⟨hram, fun m => ?_⟩
    rw [hreached, hops]
    change (call' ops (setMemory m k.stores)).map _ = _
    rw [hany]
    rfl

theorem nowhere_any {call call' : Fs (Option α × VfsFile)} (hinUse : f.inUse = true)
    (hleads : ∀ x, ¬ Leads k f x) (hops : reached k.vfs f = some .ramfs)
    {rest rest' : FSNode → Fs (Option α × VfsFile)}
    (hcall : call = do
      if ¬ f.inUse then return (none, f)
      if f.fsHandle = 0 then return (none, f)
      let n ← loadNode f.fsHandle
      rest n)
    (hcall' : call' = do
      if ¬ f.inUse then return (none, f)
      if f.fsHandle = 0 then return (none, f)
      let n ← loadNode f.fsHandle
      rest' n) {r : Option α × VfsFile} {t : Stores} (h : call k.stores = some (r, t)) :
    t.ramfs = k.stores.ramfs ∧ ∀ m, call' (setMemory m k.stores) = some (r, setMemory m t) := by
  rw [hcall, if_neg (not_not.mpr hinUse)] at h
  rw [hcall', if_neg (not_not.mpr hinUse)]
  by_cases h0 : f.fsHandle = 0
  · rw [if_pos h0] at h ⊢
    cases h
    exact ⟨rfl, fun _ => rfl⟩
  · rw [if_neg h0] at h
    obtain ⟨n, t', hn, -⟩ := bind_eq_some h
    exact absurd ⟨hops, h0, (Calls.loadNode_spec hn).2⟩ (hleads n)

theorem vfsRead_any {size : Nat} {r : Option (List UInt8) × VfsFile}
    (hleads : ∀ x, ¬ Leads k f x) (h : vfsRead f size k = some (r, k')) :
    k'.stores.ramfs = k.stores.ramfs ∧
      ∀ m, vfsRead f size (overMemory m k) = some (r, overMemory m k') := by
  refine onReached_any (fun ops => ops.read f size) (fun ops => ops.read f size)
    (fun ops hops r t ht => ?_) h
  cases ops with
  | ramfs =>
    exact nowhere_any (Calls.reached_eq_some.mp hops).1 hleads hops rfl rfl ht
  | fat32 =>
    exact ⟨(Calls.read_spec .fat32 ht).1, fun m => (blind_fat32VfsRead f size).run ht m⟩

theorem vfsWrite_any {g : Grown} {src : List UInt8} {r : Option Nat × VfsFile}
    (hleads : ∀ x, ¬ Leads k f x) (h : vfsWrite g f src k = some (r, k')) :
    k'.stores.ramfs = k.stores.ramfs ∧
      ∀ g' m, vfsWrite g' f src (overMemory m k) = some (r, overMemory m k') := by
  have hany (g' : Grown) := onReached_any (fun ops => ops.write g f src)
    (fun ops => ops.write g' f src) (fun ops hops r t ht => by
      cases ops with
      | ramfs => exact nowhere_any (Calls.reached_eq_some.mp hops).1 hleads hops rfl rfl ht
      | fat32 =>
        have hkeeps : Keeps Stores.ramfs (fat32VfsWrite f src) :=
          .ite (fun _ => .pure _) fun _ => .bind (Calls.onFat32_ramfs _) fun _ =>
            .ite (fun _ => .pure _) fun _ => .pure _
        exact ⟨hkeeps _ _ _ ht, fun m => (blind_fat32VfsWrite f src).run ht m⟩) h
  exact ⟨(hany g).1, fun g' m => (hany g').2 m⟩

/-- How `sys_read` and `sys_write` get to the node of a descriptor. -/
def onDescriptor (fd : Nat) (rest : FileDescriptor → FSNode → Fs (Option α)) : Fs (Option α) := do
  match descriptor (← Eff.get).ramfs fd with
  | none => return none
  | some d =>
    if d.node = 0 then return none
    let n ← loadNode d.node
    if n.type ≠ .file then return none
    rest d n

theorem sysRead_onDescriptor (fd size : Nat) : ∃ rest, sysRead fd size = onDescriptor fd rest :=
  ⟨fun d n => do
    if d.offset > n.size then return none
    let readSize := if (d.offset + size) % 2 ^ 32 > n.size then n.size - d.offset else size
    let s ← Eff.get
    return some ((List.range readSize).map fun i => s.memory (n.data + d.offset + i)), rfl⟩

theorem sysWrite_onDescriptor (fd : Nat) (src : List UInt8) :
    ∃ rest : Grown → FileDescriptor → FSNode → Fs (Option Nat),
      ∀ g, sysWrite g fd src = onDescriptor fd (rest g) :=
  ⟨fun g d n => do
    let newSize := (d.offset + src.length) % 2 ^ 32
    if newSize > n.size then
      if g.data = 0 then return none
      Eff.modify fun s => { s with
        memory := g.memory
        ramfs := s.ramfs.store d.node { n with data := g.data, size := newSize } }
      fsCopy g.data d.offset src
    else fsCopy n.data d.offset src, fun _ => rfl⟩

theorem onDescriptor_any {fd : Nat} {rest : FileDescriptor → FSNode → Fs (Option α)}
    (rest' : FileDescriptor → FSNode → Fs (Option α)) {t t' : Stores} {r : Option α}
    (hno : ∀ d x, descriptor t.ramfs fd = some d → d.node ≠ 0 →
      t.ramfs.nodes d.node = some x → x.type ≠ .file) (h : onDescriptor fd rest t = some (r, t')) :
    t' = t ∧ ∀ m, onDescriptor fd rest' (setMemory m t) = some (r, setMemory m t) := by
  rw [onDescriptor] at h
  simp only [bind_run, get_run, Option.bind_some] at h
  have hrun (m : Mem) : onDescriptor fd rest' (setMemory m t) =
      (match descriptor t.ramfs fd with
        | none => (pure none : Fs _)
        | some d => do
          if d.node = 0 then return none
          let n ← loadNode d.node
          if n.type ≠ FSNodeType.file then return none
          rest' d n) (setMemory m t) := rfl
  cases hd : descriptor t.ramfs fd with
  | none =>
    rw [hd] at h
    cases h
    exact ⟨rfl, fun m => (hrun m).trans (by rw [hd]; rfl)⟩
  | some d =>
    rw [hd] at h
    simp only [hd] at hrun
    by_cases h0 : d.node = 0
    · simp only [if_pos h0] at h hrun
      cases h
      exact ⟨rfl, hrun⟩
    · simp only [if_neg h0] at h hrun
      obtain ⟨n, u, hn, h⟩ := bind_eq_some h
      obtain ⟨rfl, hnode⟩ := Calls.loadNode_spec hn
      have htype := hno d n hd h0 hnode
      rw [if_pos htype] at h
      cases h
      refine ⟨rfl, fun m => ?_⟩
      rw [hrun, bind_run, (blind_loadNode d.node).run hn m, Option.bind_some, if_pos htype]
      rfl

end ContinuumOS.Vfs.Unseen
