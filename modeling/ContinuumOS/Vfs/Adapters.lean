import ContinuumOS.Ramfs.Nodes
import ContinuumOS.Fat32.Files

/-! # The adapters of the two file systems

`src/kernel/ramfs_vfs.cpp` and `src/kernel/fat32_vfs.cpp`: what the virtual file
system calls through a table of operations. A call works on the state of both
file systems and returns the caller's `vfs_file_t` as it leaves it. A RAM file
is read and written through the address of its node, so a call on an address
without a node does not come back. -/
namespace ContinuumOS.Vfs.Adapters
open ContinuumOS.Lib.Effect ContinuumOS.Lib.Memory ContinuumOS.Libc.String
open ContinuumOS.Ramfs.Nodes ContinuumOS.Fat32.Volume ContinuumOS.Fat32.Paths
open ContinuumOS.Fat32.Files

/-- The error codes of `vfs.h` that calls return. -/
inductive Code where
  | success
  | error
  | notFound
  | noSpace
  | notMounted
  | alreadyMounted
  deriving DecidableEq, Repr

/-- `vfs_file_t`; the mount is the number of its slot, `none` is `NULL`. -/
structure VfsFile where
  fsHandle : Nat
  mount : Option Nat
  position : Nat
  inUse : Bool
  deriving DecidableEq, Repr

/-- A structure of zeros. -/
def VfsFile.zero : VfsFile := ⟨0, none, 0, false⟩

/-- Both file systems, and the memory that holds the buffers of RAM files. -/
structure Stores where
  ramfs : FsState
  memory : Mem
  fat32 : World

abbrev Fs := Eff Stores

/-- A RAM file system operation that may fault. -/
def onRamfs {α : Type} (f : FsState → Option (α × FsState)) : Fs α := fun s =>
  (f s.ramfs).map fun r => (r.1, { s with ramfs := r.2 })

def onFat32 {α : Type} (m : Fat α) : Fs α := fun s =>
  (m s.fat32).map fun r => (r.1, { s with fat32 := r.2 })

/-- The node at an address. -/
def loadNode (p : Ptr) : Fs FSNode := fun s => (s.ramfs.nodes p).map fun n => (n, s)

/-- `VFS_SUCCESS`, or else `VFS_ERROR`. -/
def Code.ofBool (ok : Bool) : Code := if ok then .success else .error

/-! ## The RAM file system -/

def ramfsVfsOpen (path : CStr) (file : VfsFile) : Fs (Code × VfsFile) := do
  let node ← onRamfs fun s => (fsFindByPath s path).map fun p => (p, s)
  if node = 0 then return (.notFound, file)
  let n ← loadNode node
  if n.type ≠ .file then return (.error, file)
  return (.success, { file with fsHandle := node, position := 0, inUse := true })

/-- The bytes read; `none` is `VFS_ERROR`. -/
def ramfsVfsRead (file : VfsFile) (size : Nat) : Fs (Option (List UInt8) × VfsFile) := do
  if ¬ file.inUse then return (none, file)
  if file.fsHandle = 0 then return (none, file)
  let n ← loadNode file.fsHandle
  if n.data = 0 then return (none, file)
  if file.position ≥ n.size then return (some [], file)
  let size := min size (n.size - file.position)
  let s ← Eff.get
  return (some ((List.range size).map fun i => s.memory (n.data + file.position + i)),
    { file with position := (file.position + size) % 2 ^ 32 })

/-- What the `kmalloc` or `krealloc` of a write returns, and the memory behind it. -/
structure Grown where
  data : Ptr
  memory : Mem

/-- The end of `ramfs_vfs_write`: the bytes go to the file's buffer. -/
def ramfsCopy (data : Ptr) (file : VfsFile) (src : List UInt8) : Fs (Option Nat × VfsFile) := do
  Eff.modify fun s => { s with
    memory := store s.memory (data + file.position) src.length fun i => src.getD i 0 }
  return (some src.length, { file with position := (file.position + src.length) % 2 ^ 32 })

/-- The number of bytes written; `none` is `VFS_ERROR`. -/
def ramfsVfsWrite (g : Grown) (file : VfsFile) (src : List UInt8) : Fs (Option Nat × VfsFile) := do
  if ¬ file.inUse then return (none, file)
  if file.fsHandle = 0 then return (none, file)
  let n ← loadNode file.fsHandle
  let newSize := (file.position + src.length) % 2 ^ 32
  if newSize > n.size then
    if g.data = 0 then return (none, file)
    Eff.modify fun s => { s with
      memory := g.memory
      ramfs := s.ramfs.store file.fsHandle { n with data := g.data, size := newSize } }
    ramfsCopy g.data file src
  else ramfsCopy n.data file src

def ramfsVfsSeek (file : VfsFile) (position : Nat) : Code × VfsFile :=
  if ¬ file.inUse then (.error, file)
  else if file.fsHandle = 0 then (.error, file)
  else (.success, { file with position })

/-- Both adapters clear the structure but for its mount. -/
def VfsFile.cleared (file : VfsFile) : VfsFile :=
  { file with inUse := false, fsHandle := 0, position := 0 }

def ramfsVfsClose (file : VfsFile) : VfsFile := if file.inUse then file.cleared else file

def ramfsVfsMkdir (a : Alloc) (path : CStr) : Fs Code := do
  let node ← onRamfs fun s => fsMkdir s a path
  return .ofBool (node ≠ 0)

def ramfsVfsCreate (a : Alloc) (path : CStr) : Fs Code := do
  let node ← onRamfs fun s => fsTouch s a path
  return .ofBool (node ≠ 0)

def ramfsVfsRemove (fuel : Nat) (path : CStr) : Fs Code := do
  let result ← onRamfs fun s => fsRemove fuel s path
  return .ofBool (result = 0)

def ramfsVfsRmdir (fuel : Nat) (path : CStr) : Fs Code := do
  let result ← onRamfs fun s => fsRmdir fuel s path
  return .ofBool (result = 0)

/-! ## The FAT32 file system -/

def fat32VfsOpen (path : CStr) (file : VfsFile) : Fs (Code × VfsFile) := do
  if path = [] ∨ path = [slash] then return (.error, file)
  match ← onFat32 (fat32LookupPath path) with
  | none => return (.notFound, file)
  | some found =>
    if found.info.isDirectory then return (.error, file)
    match ← onFat32 (fat32Open path) with
    | none => return (.notFound, file)
    | some fd => return (.success, { file with fsHandle := fd, position := 0, inUse := true })

def fat32VfsRead (file : VfsFile) (size : Nat) : Fs (Option (List UInt8) × VfsFile) := do
  if ¬ file.inUse then return (none, file)
  match ← onFat32 (fat32Read file.fsHandle size) with
  | none => return (none, file)
  | some bytes =>
    return (some bytes, { file with position := (file.position + bytes.length) % 2 ^ 32 })

def fat32VfsWrite (file : VfsFile) (src : List UInt8) : Fs (Option Nat × VfsFile) := do
  if ¬ file.inUse then return (none, file)
  let written ← onFat32 (fat32Write file.fsHandle src)
  if 0 ≤ written then
    return (some written.toNat,
      { file with position := (file.position + written.toNat) % 2 ^ 32 })
  else return (none, file)

def fat32VfsSeek (file : VfsFile) (position : Nat) : Fs (Code × VfsFile) := do
  if ¬ file.inUse then return (.error, file)
  if ← onFat32 (fat32Seek file.fsHandle position) then
    return (.success, { file with position })
  else return (.error, file)

def fat32VfsClose (file : VfsFile) : Fs VfsFile := do
  if file.inUse then
    onFat32 (fat32Close file.fsHandle)
    return file.cleared
  else return file

/-- `fat32_unmount`; the descriptors stay as they are. -/
def fat32Unmount : Fat Bool := do
  let w ← Eff.get
  if ¬ w.mounted then return false
  Eff.modify fun w => { w with fs := { w.fs with fatLoaded := false }, mounted := false }
  return true

def fat32VfsUnmount : Fs Bool := onFat32 fat32Unmount

def fat32VfsMkdir (path : CStr) : Fs Code := do return .ofBool (← onFat32 (fat32MkdirPath path))

def fat32VfsRmdir (path : CStr) : Fs Code := do return .ofBool (← onFat32 (fat32RmdirPath path))

def fat32VfsCreate (path : CStr) : Fs Code := do return .ofBool (← onFat32 (fat32Create path))

def fat32VfsRemove (path : CStr) : Fs Code := do return .ofBool (← onFat32 (fat32Remove path))

/-! ## The tables of operations -/

/-- The table a mount points to: `ramfs_vfs_ops` or `fat32_vfs_ops`. -/
inductive Ops where
  | ramfs
  | fat32
  deriving DecidableEq, Repr

namespace Ops

def openFile : Ops → CStr → VfsFile → Fs (Code × VfsFile)
  | ramfs => ramfsVfsOpen
  | fat32 => fat32VfsOpen

def read : Ops → VfsFile → Nat → Fs (Option (List UInt8) × VfsFile)
  | ramfs => ramfsVfsRead
  | fat32 => fat32VfsRead

/-- Only RAM files grow on the heap. -/
def write (g : Grown) : Ops → VfsFile → List UInt8 → Fs (Option Nat × VfsFile)
  | ramfs => ramfsVfsWrite g
  | fat32 => fat32VfsWrite

def seek : Ops → VfsFile → Nat → Fs (Code × VfsFile)
  | ramfs => fun file position => pure (ramfsVfsSeek file position)
  | fat32 => fat32VfsSeek

def close : Ops → VfsFile → Fs VfsFile
  | ramfs => fun file => pure (ramfsVfsClose file)
  | fat32 => fat32VfsClose

/-- `NULL` in `ramfs_vfs_ops`. -/
def unmount : Ops → Option (Fs Bool)
  | ramfs => none
  | fat32 => some fat32VfsUnmount

def mkdir (a : Alloc) : Ops → CStr → Fs Code
  | ramfs => ramfsVfsMkdir a
  | fat32 => fat32VfsMkdir

def rmdir (fuel : Nat) : Ops → CStr → Fs Code
  | ramfs => ramfsVfsRmdir fuel
  | fat32 => fat32VfsRmdir

def create (a : Alloc) : Ops → CStr → Fs Code
  | ramfs => ramfsVfsCreate a
  | fat32 => fat32VfsCreate

def remove (fuel : Nat) : Ops → CStr → Fs Code
  | ramfs => ramfsVfsRemove fuel
  | fat32 => fat32VfsRemove

end Ops

end ContinuumOS.Vfs.Adapters
