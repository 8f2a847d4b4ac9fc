import ContinuumOS.Vfs.Path
import Mathlib.Logic.Function.Basic

/-! # The nodes of the RAM file system

The tree operations of `src/kernel/ramfs.cpp`. A pointer is an address, 0 is
`NULL`, and an access through a pointer that holds no node is a fault (`none`),
as is a copy past the end of a buffer. The array of children belongs to its
node alone and is part of it here. `kmalloc` is outside: every operation takes
the addresses that its calls of `kmalloc` return. `fs_remove_child` and the walk
to the root in `fs_rmdir` take a number of rounds (`fuel`). -/
namespace ContinuumOS.Ramfs.Nodes
open ContinuumOS.Libc.String ContinuumOS.Vfs.Path

/-- `MAX_CHILDREN` -/
def maxChildren : Nat := 32

/-- `MAX_OPEN_FILES` -/
def maxOpenFiles : Nat := 64

/-- `VFS_MAX_NAME` -/
def vfsMaxName : Nat := 64

/-- Sizes of the local buffers `parent_path` and `name` of `fs_mkdir` and
`fs_touch`. -/
def parentPathSize : Nat := 128
def nameSize : Nat := 64

abbrev Ptr := Nat

inductive FSNodeType where
  | file
  | directory
  deriving DecidableEq, Repr

structure FSNode where
  name : CStr
  type : FSNodeType
  size : Nat
  data : Ptr
  parent : Ptr
  /-- The array that `children` points to. -/
  children : Option (List Ptr)
  childCount : Nat
  deriving DecidableEq, Repr

/-- The children that count: the rest of the array is left over. -/
def FSNode.listed (n : FSNode) : List Ptr := (n.children.getD []).take n.childCount

structure FileDescriptor where
  node : Ptr
  offset : Nat
  used : Bool
  deriving DecidableEq, Repr

/-- The static variables of `ramfs.cpp` and the nodes in memory. -/
structure FsState where
  root : Ptr
  nodes : Ptr → Option FSNode
  fdTable : List FileDescriptor

namespace FsState

def store (s : FsState) (p : Ptr) (n : FSNode) : FsState :=
  { s with nodes := Function.update s.nodes p (some n) }

def release (s : FsState) (p : Ptr) : FsState :=
  { s with nodes := Function.update s.nodes p none }

/-- The children of the node at `p`. -/
def listed (s : FsState) (p : Ptr) : List Ptr := ((s.nodes p).map FSNode.listed).getD []

@[simp] theorem store_root (s : FsState) (p : Ptr) (n : FSNode) : (s.store p n).root = s.root := rfl

@[simp] theorem store_fdTable (s : FsState) (p : Ptr) (n : FSNode) :
    (s.store p n).fdTable = s.fdTable := rfl

@[simp] theorem release_root (s : FsState) (p : Ptr) : (s.release p).root = s.root := rfl

@[simp] theorem release_fdTable (s : FsState) (p : Ptr) : (s.release p).fdTable = s.fdTable := rfl

@[simp] theorem store_self (s : FsState) (p : Ptr) (n : FSNode) :
    (s.store p n).nodes p = some n := Function.update_self p _ _

theorem store_ne (s : FsState) {p q : Ptr} (n : FSNode) (h : q ≠ p) :
    (s.store p n).nodes q = s.nodes q := Function.update_of_ne h _ _

theorem store_store (s : FsState) (p : Ptr) (m n : FSNode) :
    (s.store p m).store p n = s.store p n := by
  simp only [store, Function.update_idem]

@[simp] theorem release_self (s : FsState) (p : Ptr) : (s.release p).nodes p = none :=
  Function.update_self p _ _

theorem release_ne (s : FsState) {p q : Ptr} (h : q ≠ p) : (s.release p).nodes q = s.nodes q :=
  Function.update_of_ne h _ _

theorem listed_of_node {s : FsState} {p : Ptr} {n : FSNode} (h : s.nodes p = some n) :
    s.listed p = n.listed := by
  rw [listed, h]
  rfl

theorem listed_of_none {s : FsState} {p : Ptr} (h : s.nodes p = none) : s.listed p = [] := by
  rw [listed, h]
  rfl

end FsState

/-- What the calls of `kmalloc` in one operation return. -/
structure Alloc where
  node : Ptr
  array : Ptr
  data : Ptr
  deriving DecidableEq, Repr

def fsCreateNode (s : FsState) (a : Alloc) (name : CStr) (type : FSNodeType) : Ptr × FsState :=
  if a.node = 0 then (0, s)
  else
    let children := if type = .directory ∧ a.array ≠ 0 then some (List.replicate maxChildren 0)
      else none
    (a.node, s.store a.node
      { name := name.take (nameSize - 1), type, size := 0, data := 0, parent := 0, children
        childCount := 0 })

def fsAddChild (s : FsState) (parent child : Ptr) : Option FsState :=
  if parent = 0 then some s
  else do
    let p ← s.nodes parent
    if p.type ≠ .directory then some s
    else if maxChildren ≤ p.childCount then some s
    else
      let slots ← p.children
      let s := s.store parent
        { p with children := some (slots.set p.childCount child), childCount := p.childCount + 1 }
      let c ← s.nodes child
      some (s.store child { c with parent })

/-- The shift of `fs_remove_child`: `children[j] = children[j + 1]` for `j` from
`i` on, below `last`. -/
def shiftLeft (slots : List Ptr) (i last : Nat) : List Ptr :=
  (List.range' i (last - i)).foldl (fun slots j => slots.set j (slots.getD (j + 1) 0)) slots

/-- The loop over the children of a removed directory: `child_count` is read
again in every round. -/
def removeEach (remove : FsState → Ptr → Option FsState) (child : Ptr) :
    Nat → Nat → FsState → Option FsState
  | 0, _, s => some s
  | rounds + 1, j, s => do
    let c ← s.nodes child
    if j < c.childCount then
      let s ← remove s (c.listed.getD j 0)
      removeEach remove child rounds (j + 1) s
    else some s

def fsRemoveChild : Nat → FsState → Ptr → Ptr → Option FsState
  | 0, _, _, _ => none
  | fuel + 1, s, parent, child =>
    if parent = 0 then some s
    else do
      let p ← s.nodes parent
      if p.type ≠ .directory then some s
      else
        match p.listed.idxOf? child with
        | none => some s
        | some i =>
          let c ← s.nodes child
          let s ← if c.type = .directory then
              -- the count only falls, so it bounds the rounds
              removeEach (fun s grandchild => fsRemoveChild fuel s child grandchild) child
                c.childCount 0 s
            else some s
          let p ← s.nodes parent
          let slots ← p.children
          some (s.store parent { p with
            children := some (shiftLeft slots i (p.childCount - 1))
            childCount := p.childCount - 1 })

/-- The first of the nodes that has the name, or `NULL`. -/
def findNamed (s : FsState) (name : CStr) : List Ptr → Option Ptr
  | [] => some 0
  | p :: ps => do
    let n ← s.nodes p
    if n.name = name then some p else findNamed s name ps

def fsFindChild (s : FsState) (parent : Ptr) (name : CStr) : Option Ptr :=
  if parent = 0 then some 0
  else do
    let p ← s.nodes parent
    if p.type ≠ .directory then some 0 else findNamed s name p.listed

/-- What `fs_find_by_path` does with one component. -/
def visit (s : FsState) (current : Ptr) (temp : CStr) : Option Ptr :=
  if temp = [] ∨ temp = dotStr then some current
  else if temp = dotDotStr then do
    let c ← s.nodes current
    some (if c.parent ≠ 0 then c.parent else current)
  else fsFindChild s current temp

/-- The loop over the bytes of the path: `temp` is the component read so far. -/
def findLoop (s : FsState) : CStr → CStr → Ptr → Option Ptr
  | [], temp, current => visit s current temp
  | c :: path, temp, current =>
    if c = slash then do
      let next ← visit s current temp
      if next = 0 then some 0 else findLoop s path [] next
    else if temp.length < vfsMaxName - 1 then findLoop s path (temp ++ [c]) current
    else some 0

def fsFindByPath (s : FsState) (path : CStr) : Option Ptr :=
  if path.head? ≠ some slash then some 0
  else if path = rootStr then some s.root
  else findLoop s path.tail [] s.root

/-- The parent's path and the last name, in the buffers of the callers. -/
def splitPath (path : CStr) : Option (CStr × CStr) :=
  let parts := match strrchr slash path with
    | some i => (if i = 0 then rootStr else path.take i, path.drop (i + 1))
    | none => ([], path)
  if parts.1.length < parentPathSize ∧ parts.2.length < nameSize then some parts else none

def fsMkdir (s : FsState) (a : Alloc) (path : CStr) : Option (Ptr × FsState) := do
  let (parentPath, name) ← splitPath path
  let parent ← fsFindByPath s parentPath
  if parent = 0 then some (0, s)
  else
    let p ← s.nodes parent
    if p.type ≠ .directory then some (0, s)
    else
      let (newDir, s) := fsCreateNode s a name .directory
      let s ← fsAddChild s parent newDir
      some (newDir, s)

def fsTouch (s : FsState) (a : Alloc) (path : CStr) : Option (Ptr × FsState) := do
  let (parentPath, name) ← splitPath path
  let parent ← fsFindByPath s parentPath
  if parent = 0 then some (0, s)
  else
    let p ← s.nodes parent
    if p.type ≠ .directory then some (0, s)
    else
      let (newFile, s) := fsCreateNode s a name .file
      if newFile = 0 then some (0, s)
      else
        let f ← s.nodes newFile
        let s := s.store newFile { f with data := a.data, size := 0 }
        let s ← fsAddChild s parent newFile
        some (newFile, s)

def fsFreeNode (s : FsState) (node : Ptr) : Option FsState :=
  if node = 0 then some s
  else do
    -- the data and the array of children are freed with the node
    let _ ← s.nodes node
    some (s.release node)

/-- The descriptor is open on the node. -/
def openOn (node : Ptr) (d : FileDescriptor) : Bool := d.used && d.node == node

/-- Taking a node out of its directory and freeing it, as `fs_remove` and
`fs_rmdir` end. -/
def unlink (fuel : Nat) (s : FsState) (node : Ptr) : Option (Int × FsState) := do
  let n ← s.nodes node
  let s ← if n.parent ≠ 0 then fsRemoveChild fuel s n.parent node else some s
  let s ← fsFreeNode s node
  some (0, s)

def fsRemove (fuel : Nat) (s : FsState) (path : CStr) : Option (Int × FsState) := do
  let node ← fsFindByPath s path
  if node = 0 then some (-1, s)
  else
    let n ← s.nodes node
    if n.type ≠ .file then some (-1, s)
    else if s.fdTable.any (openOn node) then some (-1, s)
    else unlink fuel s node

/-- The walk over the parents of an open node: does it meet `node`? -/
def walkUp (s : FsState) (node : Ptr) : Nat → Ptr → Option Bool
  | 0, _ => none
  | fuel + 1, current =>
    if current = 0 then some false
    else if current = node then some true
    else do
      let c ← s.nodes current
      walkUp s node fuel c.parent

/-- Does the directory hold a node that some descriptor is open on? -/
def holdsOpen (fuel : Nat) (s : FsState) (node : Ptr) : List FileDescriptor → Option Bool
  | [] => some false
  | d :: fds =>
    if d.used ∧ d.node ≠ 0 then do
      let opened ← s.nodes d.node
      let found ← walkUp s node fuel opened.parent
      if found then some true else holdsOpen fuel s node fds
    else holdsOpen fuel s node fds

def fsRmdir (fuel : Nat) (s : FsState) (path : CStr) : Option (Int × FsState) :=
  if path = rootStr then some (-1, s)
  else do
    let node ← fsFindByPath s path
    if node = 0 then some (-1, s)
    else
      let n ← s.nodes node
      if n.type ≠ .directory then some (-1, s)
      else if 0 < n.childCount then some (-1, s)
      else
        let busy ← holdsOpen fuel s node s.fdTable
        if busy then some (-1, s) else unlink fuel s node

/-- The first free row of the table of descriptors takes the node. -/
def fsOpen (s : FsState) (node : Ptr) : Option Nat × FsState :=
  match s.fdTable.findIdx? fun d => !d.used with
  | none => (none, s)
  | some i => (some i, { s with fdTable := s.fdTable.set i ⟨node, 0, true⟩ })

def fsClose (s : FsState) (fd : Nat) : FsState :=
  match s.fdTable[fd]? with
  | some d => if d.used then { s with fdTable := s.fdTable.set fd { d with used := false } } else s
  | none => s

/-- `fs_init`, over memory without a node and a table without an open file. -/
def fsInit (a : Alloc) : FsState :=
  let (root, s) := fsCreateNode
    { root := 0, nodes := fun _ => none
      fdTable := List.replicate maxOpenFiles ⟨0, 0, false⟩ } a rootStr .directory
  { s with root }

end ContinuumOS.Ramfs.Nodes
