import ContinuumOS.Heap.Placing
import ContinuumOS.Lib.Answering
import ContinuumOS.Vfs.Unseen

/-! # RAM files on the kernel heap

The calls of the virtual file system and the system calls on files over the kernel's
own heap: nodes, arrays and buffers come from `kmalloc` and `krealloc` of the memory
that holds them and go back to `kfree`, and other code allocates, stores and frees
there too. A ghost notes for whom a block was taken. -/
namespace ContinuumOS.Vfs.OnHeap
open ContinuumOS.Lib.Effect ContinuumOS.Lib.Memory ContinuumOS.Libc.String
open ContinuumOS.Heap.Model ContinuumOS.Ramfs.Nodes
open ContinuumOS.Fat32.Volume (World)
open ContinuumOS.Vfs.Path ContinuumOS.Vfs.Adapters ContinuumOS.Vfs.Files
open ContinuumOS.Vfs.Transfers ContinuumOS.Vfs.Unseen

/-- `sizeof(FSNode)` -/
def sizeofFSNode : Nat := 88

/-- The buffer of a new file, and `sizeof(FSNode *) * MAX_CHILDREN`. -/
def bufferSize : Nat := 1024
def arraySize : Nat := 4 * maxChildren

/-- For whom a block of the heap was taken. -/
inductive Owner where
  | node
  | array (node : Ptr)
  | buffer (node : Ptr)
  | other
  deriving DecidableEq, Repr

structure Sys where
  kernel : Kernel
  /-- The global `free_list` of the heap. -/
  freeList : Nat
  /-- The `children` pointers of the nodes. -/
  arrays : Ptr → Ptr
  owner : Nat → Option Owner
  handles : List VfsFile

/-- What other code does with the heap. -/
inductive Client where
  | kmalloc (n : Nat)
  | kfree (p : Nat)
  | krealloc (p n : Nat)
  | store (p i : Nat) (v : UInt8)

inductive Act where
  | init
  | mount (mountpoint : CStr) (fsType deviceId : Nat) (ops : Ops)
  | mountFat32 (mountpoint : CStr) (deviceId : Nat)
  | unmount (mountpoint : CStr)
  | create (path : CStr)
  | mkdir (path : CStr)
  | remove (path : CStr)
  | rmdir (path : CStr)
  | openFile (path : CStr)
  | read (n size : Nat)
  | write (n : Nat) (src : List UInt8)
  | seek (n position : Nat)
  | close (n : Nat)
  | sysOpen (path : CStr)
  | sysRead (fd size : Nat)
  | sysWrite (fd : Nat) (src : List UInt8)
  | sysClose (fd : Nat)
  | other (c : Client)

/-- What a call returns. -/
inductive Answer where
  | code (c : Code)
  | bytes (r : Option (List UInt8))
  | count (r : Option Nat)
  | nothing
  deriving DecidableEq, Repr

/-- After `init_heap`, before `fs_init`; the tables of `vfs.cpp`, the FAT32 volume and
the memory are as they may be. -/
def start (v : VfsTables) (w : World) (m : Mem) : Sys where
  kernel := ⟨v, ⟨⟨0, fun _ => none, List.replicate maxOpenFiles ⟨0, 0, false⟩⟩, (initHeap m).mem, w⟩⟩
  freeList := (initHeap m).freeList
  arrays := fun _ => 0
  owner := fun _ => none
  handles := []

namespace Sys

def memory (s : Sys) : Mem := s.kernel.stores.memory

def ramfs (s : Sys) : FsState := s.kernel.stores.ramfs

def heap (s : Sys) : HeapState := ⟨s.memory, s.freeList⟩

/-- Other contents of the memory, and other owners. -/
def overlaid (s : Sys) (m : Mem) (owner : Nat → Option Owner) : Sys :=
  { s with kernel := overMemory m s.kernel, owner }

/-- The owners after a block was taken. -/
def taken (owner : Nat → Option Owner) (p : Nat) (o : Owner) : Nat → Option Owner :=
  if p = 0 then owner else Function.update owner p (some o)

/-- The owners after a block was moved. -/
def moved (owner : Nat → Option Owner) (p q : Nat) (o : Owner) : Nat → Option Owner :=
  if q = 0 then owner else Function.update (Function.update owner p none) q (some o)

def kmalloc (s : Sys) (n : Nat) (o : Owner) : Option (Nat × Sys) :=
  (Heap.Model.kmalloc n s.heap).map fun r => (r.1, { s.overlaid r.2.mem (taken s.owner r.1 o) with
    freeList := r.2.freeList })

/-- The `kmalloc` of a call that may not get to it. -/
def kmallocIf (s : Sys) (gets : Bool) (n : Nat) (o : Owner) : Option (Nat × Sys) :=
  if gets then s.kmalloc n o else some (0, s)

def kfree (s : Sys) (p : Nat) : Sys :=
  { s.overlaid (Heap.Model.kfree p s.heap).mem (Function.update s.owner p none) with
    freeList := (Heap.Model.kfree p s.heap).freeList }

/-- For a pointer and a size that are not 0. -/
def krealloc (s : Sys) (p n : Nat) (o : Owner) : Option (Nat × Sys) :=
  (Heap.Model.krealloc p n s.heap).map fun r => (r.1, { s.overlaid r.2.mem (moved s.owner p r.1 o) with
    freeList := r.2.freeList })

/-- A call that no structure is passed to. -/
def run {α β : Type} (s : Sys) (answer : α → β) (call : Eff Kernel α) : Option (β × Sys) :=
  (call s.kernel).map fun r => (answer r.1, { s with kernel := r.2 })

/-- A call on the handle with number `n`, if there is one. -/
def runOn {α : Type} (s : Sys) (n : Nat) (answer : α → Answer)
    (call : VfsFile → Eff Kernel (α × VfsFile)) : Option (Answer × Sys) :=
  match s.handles[n]? with
  | none => some (.nothing, s)
  | some f => (call f s.kernel).map fun r =>
    (answer r.1.1, { s with kernel := r.2, handles := s.handles.set n r.1.2 })

/-! ## Making and freeing nodes -/

/-- The path of a call below the mount, if it is a mount of the RAM file system. -/
def ramPath (rounds : Nat) (s : Sys) (path : CStr) : Option (Option CStr) :=
  if ¬ s.kernel.vfs.initialized then some none
  else (resolve rounds s.kernel.vfs path).map fun
    | none => none
    | some (i, relative) => if s.kernel.vfs.opsAt i = some .ramfs then some relative else none

/-- Does the path of a new node lead to a directory? -/
def receives (s : FsState) (path : CStr) : Option Bool := do
  let (parentPath, _) ← splitPath path
  let parent ← fsFindByPath s parentPath
  if parent = 0 then some false
  else
    let p ← s.nodes parent
    some (p.type = .directory)

/-- Does the call get to its first `kmalloc`? -/
def allocates (rounds : Nat) (s : Sys) (path : CStr) : Option Bool :=
  (s.ramPath rounds path).bind fun
    | none => some false
    | some relative => receives s.ramfs relative

/-- The second block of a node: the buffer of a file or the array of a directory. -/
def secondSize : FSNodeType → Nat
  | .file => bufferSize
  | .directory => arraySize

def secondOwner (node : Ptr) : FSNodeType → Owner
  | .file => .buffer node
  | .directory => .array node

/-- What the two calls of `kmalloc` return. -/
def allocated (node second : Ptr) : FSNodeType → Alloc
  | .file => ⟨node, 0, second⟩
  | .directory => ⟨node, second, 0⟩

/-- The `children` pointer of a new node. -/
def pointTo (s : Sys) (a : Alloc) : Sys :=
  { s with arrays := Function.update s.arrays a.node a.array }

/-- The blocks of a new node, if the call gets to them. -/
def blocksFor (s : Sys) (starts : Bool) (type : FSNodeType) : Option (Alloc × Sys) := do
  let (node, s) ← s.kmallocIf starts sizeofFSNode .node
  let (second, s) ← s.kmallocIf (node ≠ 0) (secondSize type) (secondOwner node type)
  let a := allocated node second type
  some (a, s.pointTo a)

def make (rounds : Nat) (s : Sys) (type : FSNodeType) (call : Alloc → Eff Kernel Code)
    (path : CStr) : Option (Answer × Sys) := do
  let starts ← s.allocates rounds path
  let (a, s) ← s.blocksFor starts type
  s.run .code (call a)

/-- `fs_init`, which panics without a root. -/
def init (s : Sys) : Option (Answer × Sys) := do
  let (a, s) ← s.blocksFor true .directory
  if a.node = 0 then none
  else s.run (fun _ => .nothing) (onStores (onRamfs fun s =>
    some ((), { (fsCreateNode s a rootStr .directory).2 with root := a.node })))

/-- The node that a removal frees if it succeeds. -/
def doomed (rounds : Nat) (s : Sys) (path : CStr) : Option Ptr :=
  (s.ramPath rounds path).bind fun
    | none => some 0
    | some relative => fsFindByPath s.ramfs relative

/-- `fs_free_node` on the heap. -/
def freeNode (s : Sys) (node data : Ptr) : Sys := ((s.kfree data).kfree (s.arrays node)).kfree node

def removal (rounds : Nat) (s : Sys) (call : Eff Kernel Code) (path : CStr) :
    Option (Answer × Sys) := do
  let node ← s.doomed rounds path
  let data := ((s.ramfs.nodes node).map FSNode.data).getD 0
  let (code, s) ← s.run id call
  some (.code code, if node ≠ 0 ∧ code = .success then s.freeNode node data else s)

/-! ## Reading and writing -/

/-- The RAM file of a handle, and the place there. -/
def handlePlace (s : Sys) (n : Nat) : Option (Ptr × FSNode × Nat) := do
  let f ← s.handles[n]?
  let x ← s.ramfs.nodes f.fsHandle
  if reached s.kernel.vfs f = some .ramfs ∧ f.fsHandle ≠ 0 then
    some (f.fsHandle, x, f.position) else none

/-- The file of a descriptor, and the place there. -/
def descriptorPlace (s : Sys) (fd : Nat) : Option (Ptr × FSNode × Nat) := do
  let d ← descriptor s.ramfs fd
  let x ← s.ramfs.nodes d.node
  if d.node ≠ 0 ∧ x.type = .file then some (d.node, x, d.offset) else none

/-- The RAM file that a call reads or writes, and the place there. -/
def place (s : Sys) : Act → Option (Ptr × FSNode × Nat)
  | .read n _ => s.handlePlace n
  | .write n _ => s.handlePlace n
  | .sysRead fd _ => s.descriptorPlace fd
  | .sysWrite fd _ => s.descriptorPlace fd
  | _ => none

/-- The `kmalloc` or the `krealloc` for a longer buffer. -/
def growTo (s : Sys) (p : Ptr) (x : FSNode) (n : Nat) : Option (Ptr × Sys) :=
  if x.data = 0 then s.kmalloc n (.buffer p) else s.krealloc x.data n (.buffer p)

/-- The allocation of a write of so many bytes, if it gets to one. -/
def grow (s : Sys) (place : Option (Ptr × FSNode × Nat)) (length : Nat) : Option (Ptr × Sys) :=
  match place with
  | none => some (0, s)
  | some (p, x, c) =>
    if (c + length) % 2 ^ 32 ≤ x.size then some (0, s) else s.growTo p x ((c + length) % 2 ^ 32)

/-- A write after its allocation. -/
def write (s : Sys) (act : Act) (length : Nat) (call : Grown → Sys → Option (Answer × Sys)) :
    Option (Answer × Sys) := do
  let (data, t) ← s.grow (s.place act) length
  call ⟨data, t.memory⟩ t

/-! ## Other code -/

def client (s : Sys) : Client → Option Sys
  | .kmalloc n => (s.kmalloc n .other).map Prod.snd
  | .kfree p => some (s.kfree p)
  | .krealloc p n => (s.krealloc p n .other).map Prod.snd
  | .store p i v => some (s.overlaid (writeByte s.memory (p + i) v) s.owner)

/-- What other code may do: sizes that can be rounded up, and blocks of its own. -/
def Legit (s : Sys) : Client → Prop
  | .kmalloc n => n ≤ 2 ^ 32 - 16
  | .kfree p => s.owner p = some .other
  | .krealloc p n => s.owner p = some .other ∧ n ≠ 0 ∧ n ≤ 2 ^ 32 - 16
  | .store p i _ => s.owner p = some .other ∧ i < sizeAt s.memory (p - headerSize)

instance (s : Sys) : DecidablePred s.Legit
  | .kmalloc n => inferInstanceAs (Decidable (n ≤ 2 ^ 32 - 16))
  | .kfree p => inferInstanceAs (Decidable (s.owner p = some .other))
  | .krealloc p n => inferInstanceAs (Decidable (s.owner p = some .other ∧ n ≠ 0 ∧ n ≤ 2 ^ 32 - 16))
  | .store p i _ =>
    inferInstanceAs (Decidable (s.owner p = some .other ∧ i < sizeAt s.memory (p - headerSize)))

end Sys

/-- The answer of a call and the state afterwards; `none`: it does not come back. -/
def call (rounds : Nat) (s : Sys) : Act → Option (Answer × Sys)
  | .init => s.init
  | .mount mountpoint fsType deviceId ops =>
    s.run .code (onVfs fun v => vfsMount v mountpoint fsType deviceId ops)
  | .mountFat32 mountpoint deviceId => s.run .code (fat32VfsMount mountpoint deviceId)
  | .unmount mountpoint => s.run .code (vfsUnmount mountpoint)
  | .create path => s.make rounds .file (fun a => vfsCreate rounds a path) path
  | .mkdir path => s.make rounds .directory (fun a => vfsMkdir rounds a path) path
  | .remove path => s.removal rounds (vfsRemove rounds path) path
  | .rmdir path => s.removal rounds (vfsRmdir rounds path) path
  | .openFile path => (vfsOpen rounds path s.kernel).map fun r =>
      (.code r.1.1, { s with kernel := r.2, handles := s.handles ++ r.1.2.toList })
  | .read n size => s.runOn n .bytes fun f => vfsRead f size
  | .write n src => s.write (.write n src) src.length fun g s =>
      s.runOn n .count fun f => vfsWrite g f src
  | .seek n position => s.runOn n .code fun f => vfsSeek f position
  | .close n => s.runOn n (fun _ => .nothing) fun f => do return ((), ← vfsClose f)
  | .sysOpen path => s.run .count (onStores (Transfers.sysOpen path))
  | .sysRead fd size => s.run .bytes (onStores (Transfers.sysRead fd size))
  | .sysWrite fd src => s.write (.sysWrite fd src) src.length fun g s =>
      s.run .count (onStores (Transfers.sysWrite g fd src))
  | .sysClose fd => s.run (fun _ => .nothing) (onStores (Transfers.sysClose fd))
  | .other c => (s.client c).map fun s => (.nothing, s)

end ContinuumOS.Vfs.OnHeap
