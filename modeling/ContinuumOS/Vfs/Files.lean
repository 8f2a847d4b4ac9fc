import ContinuumOS.Vfs.Adapters
import ContinuumOS.Vfs.Path

/-! # Mounts and open files

The calls of `src/kernel/vfs.cpp` on the mount table and the table of open
files. `&mounts[i]` is the number `i`. Paths are resolved as `Vfs.Path` says; a
path that does not fit the buffers of the resolution is a fault. -/
namespace ContinuumOS.Vfs.Files
open ContinuumOS.Lib.Effect ContinuumOS.Libc.String
open ContinuumOS.Ramfs.Nodes ContinuumOS.Fat32.Paths
open ContinuumOS.Vfs.Path ContinuumOS.Vfs.Adapters

/-- `VFS_MAX_MOUNTS` -/
def vfsMaxMounts : Nat := 8

/-- `VFS_MAX_OPEN_FILES` -/
def vfsMaxOpenFiles : Nat := 64

/-- `VFS_FS_RAMFS` and `VFS_FS_FAT32` -/
def fsRamfs : Nat := 1
def fsFat32 : Nat := 2

/-- `vfs_mount_t`; nothing reads `fs_data`. -/
structure MountSlot where
  mountpoint : CStr
  fsType : Nat
  deviceId : Nat
  ops : Option Ops
  mounted : Bool
  deriving DecidableEq, Repr

/-- A slot of zeros. -/
def MountSlot.zero : MountSlot := ⟨[], 0, 0, none, false⟩

/-- The static variables of `vfs.cpp`. -/
structure VfsTables where
  initialized : Bool
  currentWorkingDirectory : CStr
  mounts : List MountSlot
  openFiles : List VfsFile
  deriving DecidableEq, Repr

/-- The virtual file system and what lies below it. -/
structure Kernel where
  vfs : VfsTables
  stores : Stores

def vfsInit : VfsTables where
  initialized := true
  currentWorkingDirectory := rootStr
  mounts := List.replicate vfsMaxMounts .zero
  openFiles := List.replicate vfsMaxOpenFiles .zero

namespace VfsTables

/-- What path resolution reads. -/
def paths (v : VfsTables) : VfsState :=
  ⟨v.initialized, v.currentWorkingDirectory, v.mounts.map fun m => ⟨m.mountpoint, m.mounted⟩⟩

/-- `mount->ops` -/
def opsAt (v : VfsTables) (i : Nat) : Option Ops := (v.mounts[i]?).bind MountSlot.ops

/-- The slot mounted at a mountpoint. -/
def mountedAt (v : VfsTables) (mountpoint : CStr) : Option Nat :=
  v.mounts.findIdx? fun m => m.mounted && m.mountpoint == mountpoint

/-- The first slot without a mount. -/
def freeMount (v : VfsTables) : Option Nat := v.mounts.findIdx? fun m => !m.mounted

/-- The first entry of the table of open files that is not in use. -/
def freeFile (v : VfsTables) : Option Nat := v.openFiles.findIdx? fun f => !f.inUse

/-- The entry that `vfs_close` takes for the caller's structure. -/
def entryOf (v : VfsTables) (file : VfsFile) : Option Nat := v.openFiles.findIdx? fun f =>
  f.inUse && (f.fsHandle, f.mount) == (file.fsHandle, file.mount)

end VfsTables

/-! ## Mounting -/

def vfsMount (v : VfsTables) (mountpoint : CStr) (fsType deviceId : Nat) (ops : Ops) :
    Code × VfsTables :=
  if ¬ v.initialized then (.error, v)
  else if fsType ≠ fsRamfs ∧ fsType ≠ fsFat32 then (.error, v)
  else if (v.mountedAt mountpoint).isSome then (.alreadyMounted, v)
  else match v.freeMount with
    | none => (.noSpace, v)
    | some i => (.success,
        { v with mounts := v.mounts.set i ⟨mountpoint, fsType, deviceId, some ops, true⟩ })

/-- A call that works on the state of the file systems. -/
def onStores {α : Type} (m : Fs α) : Eff Kernel α := fun k =>
  (m k.stores).map fun r => (r.1, { k with stores := r.2 })

def setVfs (v : VfsTables) : Eff Kernel Unit := Eff.modify fun k => { k with vfs := v }

/-- A call that works on the tables alone. -/
def onVfs {α : Type} (f : VfsTables → α × VfsTables) : Eff Kernel α := fun k =>
  some ((f k.vfs).1, { k with vfs := (f k.vfs).2 })

def ramfsVfsMount (mountpoint : CStr) : Eff Kernel Code :=
  onVfs fun v => vfsMount v mountpoint fsRamfs 0 .ramfs

def fat32VfsMount (mountpoint : CStr) (deviceId : Nat) : Eff Kernel Code := do
  if ← onStores (onFat32 (fat32Mount deviceId)) then
    onVfs fun v => vfsMount v mountpoint fsFat32 deviceId .fat32
  else return .error

/-! ## Resolving -/

/-- The round of `vfs_find_mount` at slot `slot.2`. -/
def findSlotStep (path : CStr) (best : Option Nat × Nat) (slot : MountSlot × Nat) :
    Option Nat × Nat :=
  let mountLen := slot.1.mountpoint.length
  if slot.1.mounted && slot.1.mountpoint.isPrefixOf path &&
      (path[mountLen]? == none || path[mountLen]? == some slash ||
        slot.1.mountpoint == rootStr) &&
      decide (best.2 < mountLen) then (some slot.2, mountLen)
  else best

/-- `vfs_find_mount`, as the number of the slot. -/
def findSlot (v : VfsTables) (path : CStr) : Option Nat :=
  if v.initialized then (v.mounts.zipIdx.foldl (findSlotStep path) (none, 0)).1 else none

/-- The copies of `vfs_normalize_path` stay inside its buffers. -/
def fitsBuffers (cwd path : CStr) : Bool :=
  path == dotStr || path == dotDotStr || decide ((workingPath cwd path).length < vfsMaxPath)

/-- `vfs_resolve_path`: the slot and the path there, if there is one. -/
def resolve (fuel : Nat) (v : VfsTables) (path : CStr) : Option (Option (Nat × CStr)) :=
  if fitsBuffers v.currentWorkingDirectory path then
    (vfsNormalizePath fuel v.currentWorkingDirectory path).map fun absolute =>
      (findSlot v absolute).map fun i =>
        (i, relativePath ⟨((v.mounts[i]?).getD .zero).mountpoint, true⟩ absolute)
  else none

/-- How the calls on a path begin: the operations of the mount, or the code that
the call returns. -/
def vfsLookup (fuel : Nat) (path : CStr) : Eff Kernel (Except Code (Nat × Ops × CStr)) := fun k =>
  if ¬ k.vfs.initialized then some (.error .error, k)
  else (resolve fuel k.vfs path).map fun
    | none => (.error .notFound, k)
    | some (i, relative) =>
      match k.vfs.opsAt i with
      | none => (.error .error, k)
      | some ops => (.ok (i, ops, relative), k)

/-! ## Open files -/

/-- The code, and the caller's structure when the call stores it. -/
def vfsOpen (fuel : Nat) (path : CStr) : Eff Kernel (Code × Option VfsFile) := do
  match ← vfsLookup fuel path with
  | .error code => return (code, none)
  | .ok (i, ops, relative) =>
    let k ← Eff.get
    match k.vfs.freeFile with
    | none => return (.noSpace, none)
    | some j =>
      let handle := { k.vfs.openFiles.getD j .zero with mount := some i }
      let (result, handle) ← onStores (ops.openFile relative handle)
      if result = .success then
        setVfs { k.vfs with openFiles := k.vfs.openFiles.set j handle }
        return (result, some handle)
      else
        setVfs { k.vfs with
          openFiles := k.vfs.openFiles.set j { handle with inUse := false, mount := none } }
        return (result, none)

/-- The operations that a call on the caller's structure reaches. -/
def reached (v : VfsTables) (file : VfsFile) : Option Ops :=
  if file.inUse then file.mount.bind v.opsAt else none

/-- The bytes read, or `none` for an error code, and the caller's structure. -/
def vfsRead (file : VfsFile) (size : Nat) : Eff Kernel (Option (List UInt8) × VfsFile) := do
  match reached (← Eff.get).vfs file with
  | none => return (none, file)
  | some ops => onStores (ops.read file size)

def vfsWrite (g : Grown) (file : VfsFile) (src : List UInt8) :
    Eff Kernel (Option Nat × VfsFile) := do
  match reached (← Eff.get).vfs file with
  | none => return (none, file)
  | some ops => onStores (ops.write g file src)

def vfsSeek (file : VfsFile) (position : Nat) : Eff Kernel (Code × VfsFile) := do
  match reached (← Eff.get).vfs file with
  | none => return (.error, file)
  | some ops => onStores (ops.seek file position)

/-- The call of the file system's `close`. -/
def closeBelow (file : VfsFile) : Eff Kernel Unit := do
  match reached (← Eff.get).vfs file with
  | none => return ()
  | some ops =>
    let _ ← onStores (ops.close file)
    return ()

def clearEntry : Option Nat → Eff Kernel Unit
  | none => return ()
  | some j => Eff.modify fun k =>
    { k with vfs := { k.vfs with openFiles := k.vfs.openFiles.set j .zero } }

/-- The part of `vfs_close` that works on the tables: the entry is looked for
before the file system closes the file, and cleared after. -/
def closeEntry (file : VfsFile) : Eff Kernel Unit := do
  let entry := (← Eff.get).vfs.entryOf file
  closeBelow file
  clearEntry entry

/-- The caller's structure afterwards. -/
def vfsClose (file : VfsFile) : Eff Kernel VfsFile := do
  if file.inUse then
    closeEntry file
    return .zero
  else return file

/-! ## Unmounting -/

/-- The loop of `vfs_unmount` over the table of open files, from entry `j` on.
The structure that `vfs_close` is given is the entry itself. -/
def closeAll (i : Nat) : Nat → Nat → Eff Kernel Unit
  | 0, _ => pure ()
  | left + 1, j => do
    let file := (← Eff.get).vfs.openFiles.getD j .zero
    if file.inUse ∧ file.mount = some i then
      closeEntry file
      clearEntry (some j)
    closeAll i left (j + 1)

/-- The call of the file system's `unmount`, if it has one. -/
def unmountBelow (i : Nat) : Eff Kernel Unit := do
  match ((← Eff.get).vfs.opsAt i).bind Ops.unmount with
  | none => return ()
  | some unmount =>
    let _ ← onStores unmount
    return ()

def vfsUnmount (mountpoint : CStr) : Eff Kernel Code := do
  let k ← Eff.get
  if ¬ k.vfs.initialized then return .error
  match k.vfs.mountedAt mountpoint with
  | none => return .notFound
  | some i =>
    closeAll i vfsMaxOpenFiles 0
    unmountBelow i
    Eff.modify fun k => { k with vfs := { k.vfs with
      mounts := k.vfs.mounts.modify i fun m => { m with mounted := false, ops := none } } }
    return .success

/-! ## Names -/

/-- The calls that pass a path on: `vfs_mkdir`, `vfs_rmdir`, `vfs_create` and
`vfs_remove`. -/
def onPath (fuel : Nat) (operation : Ops → CStr → Fs Code) (path : CStr) : Eff Kernel Code := do
  match ← vfsLookup fuel path with
  | .error code => return code
  | .ok (_, ops, relative) => onStores (operation ops relative)

def vfsMkdir (fuel : Nat) (a : Alloc) (path : CStr) : Eff Kernel Code :=
  onPath fuel (Ops.mkdir a) path

def vfsRmdir (fuel : Nat) (path : CStr) : Eff Kernel Code := onPath fuel (Ops.rmdir fuel) path

def vfsCreate (fuel : Nat) (a : Alloc) (path : CStr) : Eff Kernel Code :=
  onPath fuel (Ops.create a) path

def vfsRemove (fuel : Nat) (path : CStr) : Eff Kernel Code := onPath fuel (Ops.remove fuel) path

end ContinuumOS.Vfs.Files
