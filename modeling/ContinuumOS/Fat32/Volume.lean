import ContinuumOS.Lib.Effect
import ContinuumOS.Lib.Memory

/-! # The FAT32 driver's state and its block device

`fs_info`, `open_files` and `mounted` of `src/kernel/fat32.cpp`, the block
device layer of `src/kernel/blockdev.cpp` and the sector transfers of
`src/kernel/ide.cpp`. Fields of 32 bits are natural numbers; `% 2 ^ 32` stands
where the C arithmetic can wrap. What lies outside the driver is part of the
state: the answers of the coming `kmalloc` calls, whether the coming device
requests fail, and what fresh heap memory holds. -/
namespace ContinuumOS.Fat32.Volume
open ContinuumOS.Lib.Effect ContinuumOS.Lib.Memory

/-- `FAT32_END_CLUSTER` -/
def endCluster : Nat := 0x0FFFFFFF

/-- `FAT32_MAX_OPEN_FILES` -/
def maxOpenFiles : Nat := 16

def sectorSize : Nat := 512

/-- A buffer: bytes by offset. -/
abbrev Buf := Nat → UInt8

/-- `fat32_fs_t` -/
structure FsInfo where
  deviceId : Nat
  bytesPerSector : Nat
  sectorsPerCluster : Nat
  reservedSectors : Nat
  numFats : Nat
  fatSize : Nat
  rootCluster : Nat
  dataStartSector : Nat
  fatStartSector : Nat
  totalClusters : Nat
  /-- `fat_table != NULL` -/
  fatLoaded : Bool
  fatTable : Nat → Nat

/-- `fat32_file_t` -/
structure File where
  startCluster : Nat
  currentCluster : Nat
  fileSize : Nat
  position : Nat
  clusterPosition : Nat
  lastCluster : Nat
  dirCluster : Nat
  dirEntryCluster : Nat
  dirEntryIndex : Nat
  inUse : Bool
  deriving DecidableEq, Repr

/-- Numbers of sectors have literals. -/
instance (priority := 2000) sectorCount_neZero :
    @NeZero Nat (@Zero.ofOfNat0 Nat _) (2 ^ 28 + 1) := ⟨by decide⟩

structure World where
  fs : FsInfo
  openFiles : Nat → File
  mounted : Bool
  /-- Bytes of each device, by byte address. -/
  sectors : Nat → Buf
  present : Nat → Bool
  /-- Words 60 and 61 of IDENTIFY: at most `2 ^ 28` sectors. -/
  sectorCount : Nat → Fin (2 ^ 28 + 1)
  /-- Whether the coming `kmalloc` calls succeed. -/
  mallocs : Nat → Bool
  /-- The coming device requests: `some k` fails after `k` sectors. -/
  faults : Nat → Option Nat
  /-- What fresh heap memory holds. -/
  heapBytes : Buf

abbrev Fat := Eff World

/-- The rest of a stream. -/
def advance {α : Type} (s : Nat → α) : Nat → α := fun n => s (n + 1)

namespace World

/-- One `kmalloc` later. -/
def spend (w : World) : World := { w with mallocs := advance w.mallocs }

/-- One device request later. -/
def tick (w : World) : World := { w with faults := advance w.faults }

end World

/-- `kmalloc(size) != NULL` -/
def kmalloc (size : Nat) : Fat Bool := fun w =>
  if size = 0 then some (false, w) else some (w.mallocs 0, w.spend)

/-! ## The block device -/

/-- Overwrite `len` bytes from `a` on with the front of `src`. -/
def copyInto (m : Buf) (a len : Nat) (src : Buf) : Buf := store m a len src

/-- A transfer the device carries out: registered, in range, not empty. The
count is an 8-bit parameter on the way. -/
def transferOk (w : World) (dev sector count : Nat) : Bool :=
  w.present dev && decide (sector + count % 256 ≤ (w.sectorCount dev).val) && count % 256 != 0

/-- `blockdev_read` into a buffer that held `old`; `none` is an error code. -/
def blockdevRead (dev sector count : Nat) (old : Buf) : Fat (Option Buf) := fun w =>
  if transferOk w dev sector count then
    match w.faults 0 with
    | some _ => some (none, w.tick)
    | none =>
      some (some (copyInto old 0 (count % 256 * sectorSize)
        fun i => w.sectors dev (sector * sectorSize + i)), w.tick)
  else some (none, w)

/-- The device with `len` bytes from byte address `a` on replaced. -/
def writeBytes (w : World) (dev a len : Nat) (src : Buf) : World :=
  { w with sectors := fun d => if d = dev then copyInto (w.sectors d) a len src else w.sectors d }

/-- `blockdev_write`; a request that fails has written some of its sectors. -/
def blockdevWrite (dev sector count : Nat) (buf : Buf) : Fat Bool := fun w =>
  if transferOk w dev sector count then
    match w.faults 0 with
    | some k =>
      let len := min k (count % 256) * sectorSize
      some (false, writeBytes w.tick dev (sector * sectorSize) len buf)
    | none => some (true, writeBytes w.tick dev (sector * sectorSize) (count % 256 * sectorSize) buf)
  else some (false, w)

/-! ## Clusters -/

/-- `cluster_size` -/
def clusterSize (w : World) : Nat := w.fs.sectorsPerCluster * w.fs.bytesPerSector

def fat32ClusterToSector (w : World) (cluster : Nat) : Nat :=
  if cluster < 2 then 0
  else (w.fs.dataStartSector + (cluster - 2) * w.fs.sectorsPerCluster) % 2 ^ 32

/-- A buffer as `kmalloc` gives it: every byte of it is written before it is
read. -/
def freshBuf : Buf := fun _ => 0

def fat32ReadCluster (cluster : Nat) : Fat (Option Buf) := do
  let w ← Eff.get
  if ¬ w.mounted then return none
  let sector := fat32ClusterToSector w cluster
  if sector = 0 then return none
  blockdevRead w.fs.deviceId sector w.fs.sectorsPerCluster freshBuf

def fat32WriteCluster (cluster : Nat) (buf : Buf) : Fat Bool := do
  let w ← Eff.get
  if ¬ w.mounted then return false
  let sector := fat32ClusterToSector w cluster
  if sector = 0 then return false
  blockdevWrite w.fs.deviceId sector w.fs.sectorsPerCluster buf

/-! ## The table -/

/-- `(uint8_t*)fat_table` -/
def tableBytes (t : Nat → Nat) : Buf := fun i => wordByte (t (i / 4)) (i % 4)

/-- The loop of `fat32_flush_fat` over the copies from `copy` on. -/
def flushCopies : Nat → Nat → Fat Bool
  | 0, _ => return true
  | left + 1, copy => do
    let w ← Eff.get
    let sector := (w.fs.fatStartSector + copy * w.fs.fatSize) % 2 ^ 32
    if ← blockdevWrite w.fs.deviceId sector w.fs.fatSize (tableBytes w.fs.fatTable) then
      flushCopies left (copy + 1)
    else return false

def fat32FlushFat : Fat Bool := do
  let w ← Eff.get
  if ¬ w.mounted ∨ ¬ w.fs.fatLoaded then return false
  flushCopies w.fs.numFats 0

def fat32GetNextCluster (w : World) (cluster : Nat) : Nat :=
  if ¬ w.mounted ∨ ¬ w.fs.fatLoaded then endCluster
  else if w.fs.totalClusters ≤ cluster then endCluster
  else w.fs.fatTable cluster % 2 ^ 28

/-- `cluster >= 2 && cluster < FAT32_END_CLUSTER` -/
def isChained (cluster : Nat) : Bool := decide (2 ≤ cluster) && decide (cluster < endCluster)

/-- Rounds after which a walk over 28-bit cluster numbers has met one of them
twice: the walk that is still going then never ends. -/
def walkLimit : Nat := 2 ^ 28

/-- The loop of `fat32_get_last_cluster`. -/
def lastClusterLoop (t : Nat → Nat) : Nat → Nat → Option Nat
  | 0, _ => none
  | rounds + 1, cluster =>
    let next := t cluster % 2 ^ 28
    if isChained next then lastClusterLoop t rounds next else some cluster

/-- `none`: the walk never ends. -/
def fat32GetLastCluster (w : World) (start : Nat) : Option Nat :=
  if isChained start then lastClusterLoop w.fs.fatTable walkLimit start else some start

/-- The table with one entry replaced. -/
def setEntry (t : Nat → Nat) (cluster v : Nat) : Nat → Nat :=
  fun c => if c = cluster then v else t c

namespace World

def setTable (w : World) (t : Nat → Nat) : World := { w with fs := { w.fs with fatTable := t } }

/-- `fat_table[cluster] = v` -/
def setFat (w : World) (cluster v : Nat) : World := w.setTable (setEntry w.fs.fatTable cluster v)

def setFile (w : World) (fd : Nat) (f : File) : World :=
  { w with openFiles := fun i => if i = fd then f else w.openFiles i }

end World

/-- The first free cluster from 2 on. -/
def findFree (w : World) : Option Nat :=
  (List.range' 2 (w.fs.totalClusters - 2)).find? fun c => w.fs.fatTable c % 2 ^ 28 == 0

/-- Take `cluster` and hang it behind `previous` when that is a cluster. -/
def linkNew (w : World) (previous cluster : Nat) : World :=
  let w := w.setFat cluster endCluster
  if isChained previous then
    w.setFat previous ((w.fs.fatTable previous / 2 ^ 28 % 16 * 2 ^ 28) ||| cluster)
  else w

/-- 0 when no cluster could be had. -/
def fat32AllocateCluster (previous : Nat) : Fat Nat := do
  let w ← Eff.get
  if ← kmalloc (clusterSize w) then
    match findFree w with
    | none => return 0
    | some cluster =>
      Eff.modify fun w => linkNew w previous cluster
      if ← fat32WriteCluster cluster fun _ => 0 then
        if ← fat32FlushFat then return cluster else return 0
      else
        Eff.modify fun w => w.setFat cluster 0
        return 0
  else return 0

/-- The loop of `fat32_free_cluster_chain` on the table. -/
def freeLoop : Nat → Nat → (Nat → Nat) → Option (Nat → Nat)
  | 0, cluster, t => if isChained cluster then none else some t
  | rounds + 1, cluster, t =>
    if isChained cluster then freeLoop rounds (t cluster % 2 ^ 28) (setEntry t cluster 0) else some t

def fat32FreeClusterChain (start : Nat) : Fat Unit := do
  if isChained start then
    let w ← Eff.get
    match freeLoop walkLimit start w.fs.fatTable with
    | none => Eff.diverge
    | some t =>
      Eff.modify fun w => w.setTable t
      let _ ← fat32FlushFat
      return ()
  else return ()

end ContinuumOS.Fat32.Volume
