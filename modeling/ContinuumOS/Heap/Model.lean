import ContinuumOS.Libc.Moving

/-! # The kernel heap

`init_heap`, `kmalloc`, `kfree` and `krealloc` of `src/kernel/heap.cpp` on
byte memory. A block header is 12 bytes: `size` at 0, `next` at 4, `free` at 8
(one byte) and padding. Pointers and `size_t` are 32 bits wide; `NULL` is 0. -/
namespace ContinuumOS.Heap.Model
open ContinuumOS.Lib.Memory ContinuumOS.Libc.Memory

/-- `KERNEL_HEAP_START` -/
def kernelHeapStart : Nat := 0x00800000

/-- `KERNEL_HEAP_SIZE` -/
def kernelHeapSize : Nat := 0x00800000

/-- `sizeof(heap_block_t)` -/
def headerSize : Nat := 12

/-- 32-bit addition. -/
def add32 (a b : Nat) : Nat := (a + b) % 2 ^ 32

/-- 32-bit subtraction. -/
def sub32 (a b : Nat) : Nat := (a + (2 ^ 32 - b % 2 ^ 32)) % 2 ^ 32

/-- Memory and the global `free_list`. -/
structure HeapState where
  mem : Mem
  freeList : Nat

/-- `block->size` -/
def sizeAt (m : Mem) (block : Nat) : Nat := readWord m block

/-- `block->next` -/
def nextAt (m : Mem) (block : Nat) : Nat := readWord m (block + 4)

/-- `block->free` as a truth value. -/
def freeAt (m : Mem) (block : Nat) : Bool := m (block + 8) != 0

def setSize (m : Mem) (block size : Nat) : Mem := writeWord m block size
def setNext (m : Mem) (block next : Nat) : Mem := writeWord m (block + 4) next
def setFree (m : Mem) (block : Nat) (free : UInt8) : Mem := writeByte m (block + 8) free

/-- `(size + 15) & ~15` in 32 bits. -/
def align16 (size : Nat) : Nat := add32 size 15 / 16 * 16

def initHeap (m : Mem) : HeapState :=
  let m := setSize m kernelHeapStart (kernelHeapSize - headerSize)
  let m := setNext m kernelHeapStart 0
  ⟨setFree m kernelHeapStart 1, kernelHeapStart⟩

/-- Rounds after which a walk along 32-bit pointers has met one of them twice:
the search that is still going then never ends. -/
def walkLimit : Nat := 2 ^ 32

/-- The first-fit search of `kmalloc` from `current` on: `some 0` when the list
ends, `none` when it does not. -/
def findFit (m : Mem) (size : Nat) : Nat → Nat → Option Nat
  | 0, _ => none
  | rounds + 1, current =>
    if current = 0 then some 0
    else if freeAt m current && decide (size ≤ sizeAt m current) then some current
    else findFit m size rounds (nextAt m current)

/-- Split `current` behind its first `size` bytes when the rest holds a header
and 16 bytes. -/
def splitBlock (m : Mem) (current size : Nat) : Mem :=
  if add32 (add32 size headerSize) 16 ≤ sizeAt m current then
    let newBlock := add32 (add32 current headerSize) size
    let m' := setSize m newBlock (sub32 (sub32 (sizeAt m current) size) headerSize)
    let m' := setNext m' newBlock (nextAt m' current)
    let m' := setFree m' newBlock 1
    let m' := setSize m' current size
    setNext m' current newBlock
  else m

/-- The result and the heap afterwards; `none` if the search never ends. -/
def kmalloc (size : Nat) (h : HeapState) : Option (Nat × HeapState) :=
  if size = 0 then some (0, h)
  else
    let size := align16 size
    if h.freeList = 0 then some (0, h)
    else
      (findFit h.mem size walkLimit h.freeList).map fun current =>
        if current = 0 then (0, h)
        else
          (add32 current headerSize,
            { h with mem := setFree (splitBlock h.mem current size) current 0 })

/-- Take the next block in when it is free. -/
def mergeNext (m : Mem) (block : Nat) : Mem :=
  let next := nextAt m block
  if next ≠ 0 ∧ freeAt m next = true then
    let m' := setSize m block (add32 (sizeAt m block) (add32 (sizeAt m next) headerSize))
    setNext m' block (nextAt m' (nextAt m' block))
  else m

def kfree (ptr : Nat) (h : HeapState) : HeapState :=
  if ptr = 0 then h
  else
    let block := sub32 ptr headerSize
    { h with mem := mergeNext (setFree h.mem block 1) block }

def krealloc (ptr size : Nat) (h : HeapState) : Option (Nat × HeapState) :=
  if size = 0 then some (0, kfree ptr h)
  else if ptr = 0 then kmalloc size h
  else
    let block := sub32 ptr headerSize
    if size ≤ sizeAt h.mem block then some (ptr, h)
    else
      (kmalloc size h).map fun (newPtr, h') =>
        if newPtr = 0 then (0, h')
        else
          (newPtr, kfree ptr { h' with mem := memcpy newPtr ptr (sizeAt h'.mem block) h'.mem })

end ContinuumOS.Heap.Model
