import ContinuumOS.Lib.Cursors
import ContinuumOS.Vfs.Calls

/-! # Reads and writes of RAM files

Next to the adapter, `sys_read` and `sys_write` move the bytes of a RAM file, by a
descriptor of `ramfs.cpp`: `fs_read` and `fs_write` of `src/kernel/ramfs.cpp` and the
system calls of `src/kernel/syscalls.cpp`. Both ways of writing come to `written`,
and both ways of reading to a part of the bytes in the buffer. -/
namespace ContinuumOS.Vfs.Transfers
open ContinuumOS.Lib.Effect ContinuumOS.Lib.Memory ContinuumOS.Lib.Cursors
open ContinuumOS.Libc.String ContinuumOS.Ramfs.Nodes
open ContinuumOS.Vfs.Adapters ContinuumOS.Vfs.Files ContinuumOS.Vfs.Calls

/-- The bytes read; `none` is -1. -/
def fsRead (file : Ptr) (offset size : Nat) : Fs (Option (List UInt8)) := do
  if file = 0 then return none
  let n ← loadNode file
  if n.type ≠ .file then return none
  if offset > n.size then return none
  let readSize := if (offset + size) % 2 ^ 32 > n.size then n.size - offset else size
  let s ← Eff.get
  return some ((List.range readSize).map fun i => s.memory (n.data + offset + i))

/-- The end of `fs_write`: the bytes go to the file's buffer. -/
def fsCopy (data : Ptr) (offset : Nat) (src : List UInt8) : Fs (Option Nat) := do
  Eff.modify fun s => { s with
    memory := store s.memory (data + offset) src.length fun i => src.getD i 0 }
  return some src.length

/-- The number of bytes written; `none` is -1. -/
def fsWrite (g : Grown) (file : Ptr) (offset : Nat) (src : List UInt8) : Fs (Option Nat) := do
  if file = 0 then return none
  let n ← loadNode file
  if n.type ≠ .file then return none
  let newSize := (offset + src.length) % 2 ^ 32
  if newSize > n.size then
    if g.data = 0 then return none
    Eff.modify fun s => { s with
      memory := g.memory
      ramfs := s.ramfs.store file { n with data := g.data, size := newSize } }
    fsCopy g.data offset src
  else fsCopy n.data offset src

/-- The row of a descriptor that is open. -/
def descriptor (s : FsState) (fd : Nat) : Option FileDescriptor :=
  (s.fdTable[fd]?).filter FileDescriptor.used

/-- The descriptor; `none` is -1. -/
def sysOpen (path : CStr) : Fs (Option Nat) := do
  let node ← onRamfs fun s => (fsFindByPath s path).map fun p => (p, s)
  if node = 0 then return none
  onRamfs fun s => some (fsOpen s node)

def sysRead (fd size : Nat) : Fs (Option (List UInt8)) := do
  match descriptor (← Eff.get).ramfs fd with
  | none => return none
  | some d => fsRead d.node d.offset size

def sysWrite (g : Grown) (fd : Nat) (src : List UInt8) : Fs (Option Nat) := do
  match descriptor (← Eff.get).ramfs fd with
  | none => return none
  | some d => fsWrite g d.node d.offset src

def sysClose (fd : Nat) : Fs Unit := onRamfs fun s => some ((), fsClose s fd)

/-! ## What they come to -/

/-- The file systems after bytes went to a place of a buffer. -/
def put (s : Stores) (data c : Nat) (src : List UInt8) : Stores :=
  { s with memory := store s.memory (data + c) src.length fun i => src.getD i 0 }

/-- The answer and the file systems after a write of `src` at `c` to the node `x` at
`p`. -/
def written (g : Grown) (s : Stores) (p : Ptr) (x : FSNode) (c : Nat) (src : List UInt8) :
    Option Nat × Stores :=
  if x.size < (c + src.length) % 2 ^ 32 then
    if g.data = 0 then (none, s)
    else (some src.length, put { s with
      memory := g.memory
      ramfs := s.ramfs.store p { x with data := g.data, size := (c + src.length) % 2 ^ 32 } }
      g.data c src)
  else (some src.length, put s x.data c src)

variable {s : Stores} {k : Kernel} {f : VfsFile} {p : Ptr} {x : FSNode} {d : FileDescriptor}
  {fd : Nat} {src : List UInt8}

theorem loadNode_run (hx : s.ramfs.nodes p = some x) : loadNode p s = some (x, s) := by
  rw [loadNode, hx]
  rfl

/-- The handle behind the bytes that went over. -/
def advance (f : VfsFile) : Option Nat → VfsFile
  | none => f
  | some n => { f with position := (f.position + n) % 2 ^ 32 }

/-- The node that a handle leads to through the table of mounts. -/
structure Leads (k : Kernel) (f : VfsFile) (x : FSNode) : Prop where
  reached : reached k.vfs f = some .ramfs
  notNull : f.fsHandle ≠ 0
  node : k.stores.ramfs.nodes f.fsHandle = some x

theorem Leads.inUse (h : Leads k f x) : f.inUse = true := (reached_eq_some.mp h.reached).1

/-- **`vfs_write` on a RAM file.** -/
theorem vfsWrite_written (h : Leads k f x) (g : Grown) (src : List UInt8) :
    vfsWrite g f src k = some (((written g k.stores f.fsHandle x f.position src).1,
      advance f (written g k.stores f.fsHandle x f.position src).1),
      { k with stores := (written g k.stores f.fsHandle x f.position src).2 }) := by
  rw [vfsWrite]
  simp only [bind_run, get_run, Option.bind_some, h.reached]
  rw [onStores]
  change (ramfsVfsWrite g f src k.stores).map _ = _
  rw [ramfsVfsWrite, if_neg (not_not.mpr h.inUse), if_neg h.notNull, bind_run, loadNode_run h.node,
    Option.bind_some, written]
  by_cases hgrow : x.size < (f.position + src.length) % 2 ^ 32
  · simp only [if_pos hgrow, gt_iff_lt]
    by_cases hnull : g.data = 0
    · rw [if_pos hnull, if_pos hnull]
      rfl
    · rw [if_neg hnull, if_neg hnull]
      rfl
  · simp only [if_neg hgrow, gt_iff_lt]
    rfl

/-- **`sys_write` on a file.** -/
theorem sysWrite_written (hd : descriptor s.ramfs fd = some d) (hnull : d.node ≠ 0)
    (hx : s.ramfs.nodes d.node = some x) (hfile : x.type = .file) (g : Grown) (src : List UInt8) :
    sysWrite g fd src s = some (written g s d.node x d.offset src) := by
  rw [sysWrite]
  simp only [bind_run, get_run, Option.bind_some, hd]
  rw [fsWrite, if_neg hnull, bind_run, loadNode_run hx, Option.bind_some, if_neg (not_not.mpr hfile),
    written]
  by_cases hgrow : x.size < (d.offset + src.length) % 2 ^ 32
  · simp only [if_pos hgrow, gt_iff_lt]
    by_cases hzero : g.data = 0
    · rw [if_pos hzero, if_pos hzero]
      rfl
    · rw [if_neg hzero, if_neg hzero]
      rfl
  · simp only [if_neg hgrow, gt_iff_lt]
    rfl

/-- The bytes of a node from a place on, as many as there are. -/
def fetched (m : Mem) (x : FSNode) (c size : Nat) : List UInt8 :=
  bytesAt m (x.data + c) (min size (x.size - c))

/-- **`vfs_read` on a RAM file that has a buffer.** -/
theorem vfsRead_fetched (h : Leads k f x) (hdata : x.data ≠ 0) (size : Nat) :
    vfsRead f size k = some ((some (fetched k.stores.memory x f.position size),
      if x.size ≤ f.position then f
      else advance f (some (fetched k.stores.memory x f.position size).length)), k) := by
  rw [vfsRead]
  simp only [bind_run, get_run, Option.bind_some, h.reached]
  rw [onStores]
  change (ramfsVfsRead f size k.stores).map _ = _
  rw [ramfsVfsRead, if_neg (not_not.mpr h.inUse), if_neg h.notNull, bind_run, loadNode_run h.node,
    Option.bind_some, if_neg hdata, fetched]
  by_cases hend : x.size ≤ f.position
  · rw [if_pos hend, if_pos hend, Nat.sub_eq_zero_of_le hend, Nat.min_zero]
    rfl
  · rw [if_neg hend, if_neg hend, length_bytesAt]
    rfl

theorem vfsRead_nothing (h : Leads k f x) (hdata : x.data = 0) (size : Nat) :
    vfsRead f size k = some ((none, f), k) := by
  rw [vfsRead]
  simp only [bind_run, get_run, Option.bind_some, h.reached]
  rw [onStores]
  change (ramfsVfsRead f size k.stores).map _ = _
  rw [ramfsVfsRead, if_neg (not_not.mpr h.inUse), if_neg h.notNull, bind_run, loadNode_run h.node,
    Option.bind_some, if_pos hdata]
  rfl

/-- **`sys_read` on a file.** -/
theorem sysRead_fetched (hd : descriptor s.ramfs fd = some d) (hnull : d.node ≠ 0)
    (hx : s.ramfs.nodes d.node = some x) (hfile : x.type = .file) (hoffset : d.offset ≤ x.size)
    {size : Nat} (hsize : d.offset + size < 2 ^ 32) :
    sysRead fd size s = some (some (fetched s.memory x d.offset size), s) := by
  rw [sysRead]
  simp only [bind_run, get_run, Option.bind_some, hd]
  rw [fsRead, if_neg hnull, bind_run, loadNode_run hx, Option.bind_some, if_neg (not_not.mpr hfile),
    if_neg (Nat.not_lt.mpr hoffset), Nat.mod_eq_of_lt hsize, fetched]
  have hmin : (if d.offset + size > x.size then x.size - d.offset else size) =
      min size (x.size - d.offset) := by
    split <;> omega
  rw [hmin]
  rfl

theorem sysRead_past (hd : descriptor s.ramfs fd = some d) (hnull : d.node ≠ 0)
    (hx : s.ramfs.nodes d.node = some x) (hfile : x.type = .file) (hoffset : x.size < d.offset)
    (size : Nat) : sysRead fd size s = some (none, s) := by
  rw [sysRead]
  simp only [bind_run, get_run, Option.bind_some, hd]
  rw [fsRead, if_neg hnull, bind_run, loadNode_run hx, Option.bind_some, if_neg (not_not.mpr hfile),
    if_pos hoffset]
  rfl

end ContinuumOS.Vfs.Transfers
