import ContinuumOS.Mem.Frames

/-! # Page tables

`vmm_init`, `vmm_map` and `vmm_map_range` of `src/kernel/paging.cpp`, and the
walk the processor makes through the tables they build. Tables are frames of
physical memory, which is a list of words here; a table at address `a` has its
entry `i` in word `a / 4 + i`. The frame allocator's bitmap is kept apart: no
frame it hands out holds a part of it. -/
namespace ContinuumOS.Mem.Paging
open ContinuumOS.Mem.Frames

/-- `IDENTITY_TABLES` -/
def identityTables : Nat := 8

/-- Present and writable. -/
def presentFlag : BitVec 32 := 0x1
def writableFlag : BitVec 32 := 0x2

/-- The part of an entry, or of an address, that names a page. -/
def frameMask : BitVec 32 := 0xFFFFF000

abbrev PhysMem := Nat → BitVec 32

/-- The frame allocator, physical memory and `kernel_page_directory`. -/
structure Vmm where
  pmm : PhysicalMemoryManager
  mem : PhysMem
  kernelPageDirectory : BitVec 32

/-- `table[index]` -/
def loadEntry (mem : PhysMem) (table : BitVec 32) (index : Nat) : BitVec 32 :=
  mem (table.toNat / 4 + index)

/-- `table[index] = entry` -/
def storeEntry (mem : PhysMem) (table : BitVec 32) (index : Nat) (entry : BitVec 32) : PhysMem :=
  Function.update mem (table.toNat / 4 + index) entry

/-- `memset(page, 0, PAGE_SIZE)` -/
def clearPage (mem : PhysMem) (page : BitVec 32) : PhysMem :=
  fun a => if page.toNat / 4 ≤ a ∧ a < page.toNat / 4 + 1024 then 0 else mem a

/-! ## Building the tables -/

/-- The entries of one table of the identity map. -/
def fillIdentityTable (mem : PhysMem) (table : BitVec 32) (tableIdx : Nat) : PhysMem :=
  (List.range 1024).foldl (fun mem i =>
    let physAddr : BitVec 32 := BitVec.ofNat 32 tableIdx * 0x400000 + BitVec.ofNat 32 i * 0x1000
    storeEntry mem table i ((physAddr &&& frameMask) ||| 0x03)) mem

/-- One round of the loop in `vmm_init`. -/
def addIdentityTable (s : Vmm) (tableIdx : Nat) : Vmm :=
  let (address, pmm) := allocateFrame s.pmm
  let table := BitVec.ofNat 32 address
  let mem := clearPage s.mem table
  let mem := fillIdentityTable mem table tableIdx
  { s with
    pmm := pmm
    mem := storeEntry mem s.kernelPageDirectory tableIdx ((table &&& frameMask) ||| 0x03) }

/-- The results of `allocate_frame` are not checked. -/
def vmmInit (pmm : PhysicalMemoryManager) (mem : PhysMem) : Vmm :=
  let (address, pmm) := allocateFrame pmm
  let directory := BitVec.ofNat 32 address
  (List.range identityTables).foldl addIdentityTable ⟨pmm, clearPage mem directory, directory⟩

/-- The head of `vmm_map`: the entry of the directory, with a new table when it
has none. `none` when there is no frame for it. -/
def tableEntry (s : Vmm) (pdIndex : Nat) : Option (BitVec 32 × Vmm) :=
  let pdeVal := loadEntry s.mem s.kernelPageDirectory pdIndex
  if pdeVal &&& 1 = 0 then
    let (address, pmm) := allocateFrame s.pmm
    if address = 0 then none
    else
      let newTable := BitVec.ofNat 32 address
      let mem := clearPage s.mem newTable
      let mem := storeEntry mem s.kernelPageDirectory pdIndex ((newTable &&& frameMask) ||| 0x03)
      some (loadEntry mem s.kernelPageDirectory pdIndex, { s with pmm := pmm, mem := mem })
  else some (pdeVal, s)

def vmmMap (s : Vmm) (virtualAddr physicalAddr : BitVec 32) (rw : Bool) : Vmm :=
  let pdIndex := ((virtualAddr >>> 22) &&& 0x3FF).toNat
  let ptIndex := ((virtualAddr >>> 12) &&& 0x3FF).toNat
  match tableEntry s pdIndex with
  | none => s
  | some (pdeVal, s) =>
    let table := pdeVal &&& frameMask
    let flags : BitVec 32 := if rw then 0x3 else 0x1
    { s with mem := storeEntry s.mem table ptIndex ((physicalAddr &&& frameMask) ||| flags) }

def pageMask : BitVec 32 := 4096 - 1

/-- `page_count`, computed in 32 bits. -/
def pageCount (virtualAddr size : BitVec 32) : Nat :=
  ((size + (virtualAddr &&& pageMask) + 4096 - 1) / 4096).toNat

/-- Page `page` of a range. -/
def mapRangePage (virtualAddr physicalAddr : BitVec 32) (rw : Bool) (s : Vmm) (page : Nat) : Vmm :=
  vmmMap s ((virtualAddr &&& ~~~pageMask) + BitVec.ofNat 32 page * 4096)
    ((physicalAddr &&& ~~~pageMask) + BitVec.ofNat 32 page * 4096) rw

def vmmMapRange (s : Vmm) (virtualAddr physicalAddr size : BitVec 32) (rw : Bool) : Vmm :=
  if size = 0 then s
  else if virtualAddr &&& pageMask ≠ physicalAddr &&& pageMask then s
  else
    (List.range (pageCount virtualAddr size)).foldl (mapRangePage virtualAddr physicalAddr rw) s

/-! ## What the processor sees -/

/-- An entry of the second level. -/
def decodeEntry (entry : BitVec 32) : Option (Nat × Bool) :=
  if entry &&& presentFlag = 0 then none
  else some ((entry >>> 12).toNat, entry &&& writableFlag != 0)

/-- The two-level walk: the physical page a virtual page stands for and whether
it can be written, `none` when it is not present. -/
def translate (s : Vmm) (page : Nat) : Option (Nat × Bool) :=
  let pde := loadEntry s.mem s.kernelPageDirectory (page / 1024)
  if pde &&& presentFlag = 0 then none
  else
    (decodeEntry (loadEntry s.mem (pde &&& frameMask) (page % 1024))).map fun (frame, writable) =>
      (frame, writable && pde &&& writableFlag != 0)

/-- What is asked of the kernel after `vmm_init`. -/
inductive Call
  | map (virtualAddr physicalAddr : BitVec 32) (rw : Bool)
  | mapRange (virtualAddr physicalAddr size : BitVec 32) (rw : Bool)

def Call.run (s : Vmm) : Call → Vmm
  | .map virtualAddr physicalAddr rw => vmmMap s virtualAddr physicalAddr rw
  | .mapRange virtualAddr physicalAddr size rw => vmmMapRange s virtualAddr physicalAddr size rw

/-- `vmm_map` of an address finds its table or a frame for it. -/
def Available (s : Vmm) (virtualAddr : BitVec 32) : Prop :=
  loadEntry s.mem s.kernelPageDirectory ((virtualAddr >>> 22) &&& 0x3FF).toNat &&& 1 ≠ 0 ∨
    (allocateFrame s.pmm).1 ≠ 0

/-- Offsets agree, the range does not wrap, and there are frames for its
tables. -/
def Call.Allowed (s : Vmm) : Call → Prop
  | .map virtualAddr _ _ => Available s virtualAddr
  | .mapRange virtualAddr physicalAddr size rw =>
    virtualAddr.toNat % pageSize = physicalAddr.toNat % pageSize ∧
    virtualAddr.toNat + size.toNat ≤ 2 ^ 32 ∧ physicalAddr.toNat + size.toNat ≤ 2 ^ 32 ∧
    ∀ page < pageCount virtualAddr size,
      Available ((List.range page).foldl (mapRangePage virtualAddr physicalAddr rw) s)
        ((virtualAddr &&& ~~~pageMask) + BitVec.ofNat 32 page * 4096)

/-- The nine frames of `vmm_init` are available. -/
def InitAvailable (pmm : PhysicalMemoryManager) : Prop :=
  ∀ n ≤ identityTables, (allocateFrame ((fun m => (allocateFrame m).2)^[n] pmm)).1 ≠ 0

/-- The states after `vmm_init` and some calls, the latest of them first.
Before `vmm_init`, frames were allocated and freed on a machine that holds its
kernel. -/
inductive Reached : Vmm → List Call → Prop
  | init {memUpper kernelEnd : BitVec 32} {memory : Nat → BitVec 32} {pmm : PhysicalMemoryManager}
      {held : List Nat} (fits : Fits memUpper kernelEnd)
      (runs : Runs (initializeManager memUpper kernelEnd memory) pmm held)
      (available : InitAvailable pmm) (mem : PhysMem) : Reached (vmmInit pmm mem) []
  | call {s : Vmm} {calls : List Call} (h : Reached s calls) (c : Call) (allowed : c.Allowed s) :
      Reached (c.run s) (c :: calls)

/-! ## The map the tables stand for -/

/-- What a call says about a page: nothing when it does not cover it. -/
def Call.expects (page : Nat) : Call → Option (Nat × Bool)
  | .map virtualAddr physicalAddr rw =>
    if page = virtualAddr.toNat / pageSize then some (physicalAddr.toNat / pageSize, rw) else none
  | .mapRange virtualAddr physicalAddr size rw =>
    -- the page meets [v, v + size)
    if page * pageSize < virtualAddr.toNat + size.toNat ∧
        virtualAddr.toNat < (page + 1) * pageSize ∧ size ≠ 0 then
      some (physicalAddr.toNat / pageSize + (page - virtualAddr.toNat / pageSize), rw)
    else none

/-- The last call that covers a page decides, the latest call comes first; a
page no call covers is itself below 32 MiB and not present above. -/
def mapping : List Call → Nat → Option (Nat × Bool)
  | [], page => if page < identityTables * 1024 then some (page, true) else none
  | c :: earlier, page => (Call.expects page c).or (mapping earlier page)

end ContinuumOS.Mem.Paging
