import ContinuumOS.Fat32.Directory

/-! # Mounting, paths, creating and removing

`fat32_mount`, `fat32_lookup_path` and the operations on paths. A result
`false` or `none` is the error code -1. -/
namespace ContinuumOS.Fat32.Paths
open ContinuumOS.Lib.Effect ContinuumOS.Lib.Memory ContinuumOS.Libc.String
open ContinuumOS.Fat32.Volume ContinuumOS.Fat32.Names ContinuumOS.Fat32.Directory

/-! ## Mounting -/

/-- The fields of `fat32_boot_sector_t` that are read. -/
structure BootSector where
  bytesPerSector : Nat
  sectorsPerCluster : Nat
  reservedSectors : Nat
  numFats : Nat
  fatSize16 : Nat
  totalSectors32 : Nat
  fatSize32 : Nat
  rootCluster : Nat
  signature : Nat
  deriving DecidableEq, Repr

/-- The packed record at the start of a buffer. -/
def readBootSector (buf : Buf) : BootSector where
  bytesPerSector := readHalf buf 11
  sectorsPerCluster := (buf 13).toNat
  reservedSectors := readHalf buf 14
  numFats := (buf 16).toNat
  fatSize16 := readHalf buf 22
  totalSectors32 := readWord buf 32
  fatSize32 := readWord buf 36
  rootCluster := readWord buf 44
  signature := readHalf buf 510

def fat32ValidateBootSector (boot : BootSector) : Bool :=
  decide (boot.signature = 0xAA55) && decide (boot.fatSize16 = 0) && decide (boot.fatSize32 ≠ 0) &&
    decide (boot.bytesPerSector = 512)

/-- `fs_info` as set up from a boot sector, with the table still to come. -/
def setUpFsInfo (fs : FsInfo) (device : Nat) (boot : BootSector) : FsInfo :=
  let dataStart := (boot.reservedSectors + boot.numFats * boot.fatSize32) % 2 ^ 32
  let dataSectors := (boot.totalSectors32 + 2 ^ 32 - dataStart) % 2 ^ 32
  { fs with
    deviceId := device
    bytesPerSector := boot.bytesPerSector
    sectorsPerCluster := boot.sectorsPerCluster
    reservedSectors := boot.reservedSectors
    numFats := boot.numFats
    fatSize := boot.fatSize32
    rootCluster := boot.rootCluster
    fatStartSector := boot.reservedSectors
    dataStartSector := dataStart
    totalClusters := dataSectors / boot.sectorsPerCluster }

/-- `fs_info.fat_table` points to memory that holds `buf`. -/
def World.loadTable (w : World) (buf : Buf) : World :=
  { w with fs := { w.fs with fatLoaded := true, fatTable := fun i => readWord buf (4 * i) } }

/-- The end of `fat32_mount`: memory for the table, and the table. -/
def readTable : Fat Bool := do
  let w ← Eff.get
  if ← kmalloc (w.fs.fatSize * w.fs.bytesPerSector % 2 ^ 32) then
    Eff.modify fun w => World.loadTable w w.heapBytes
    match ← blockdevRead w.fs.deviceId w.fs.fatStartSector w.fs.fatSize w.heapBytes with
    | none => return false
    | some buf =>
      Eff.modify fun w => { World.loadTable w buf with mounted := true }
      return true
  else
    Eff.modify fun w => { w with fs := { w.fs with fatLoaded := false } }
    return false

def fat32Mount (device : Nat) : Fat Bool := do
  let w ← Eff.get
  if w.mounted then return false
  match ← blockdevRead device 0 1 freshBuf with
  | none => return false
  | some buf =>
    let boot := readBootSector buf
    if ¬ fat32ValidateBootSector boot then return false
    -- a division by zero traps
    if boot.sectorsPerCluster = 0 then Eff.diverge
    Eff.modify fun w => { w with fs := setUpFsInfo w.fs device boot }
    readTable

/-! ## Paths -/

/-- What `fat32_lookup_path` gives. -/
structure Lookup where
  info : FileInfo
  parentDir : Nat
  entryCluster : Nat
  entryIndex : Nat
  deriving DecidableEq, Repr

/-- The root directory, which has no entry. -/
def rootLookup (w : World) : Lookup where
  info := ⟨[slash], [], false, attrDirectory, 0, w.fs.rootCluster⟩
  parentDir := w.fs.rootCluster
  entryCluster := w.fs.rootCluster
  entryIndex := 0

theorem isDirectory_rootLookup (w : World) : (rootLookup w).info.isDirectory = true := by
  change decide (attrDirectory &&& attrDirectory ≠ 0) = true
  decide

/-- The loop over the components from `cursor` on. Every round takes at least
one character. -/
def lookupLoop : Nat → CStr → Nat → Option Lookup → Fat (Option Lookup)
  | 0, _, _, last => return last
  | rounds + 1, cursor, currentDir, last => do
    let cursor := cursor.dropWhile (· == slash)
    if cursor = [] then return last
    let component := cursor.takeWhile (· ≠ slash)
    let rest := cursor.dropWhile (· ≠ slash)
    if component.length > 255 then return none
    if component = [dot] then lookupLoop rounds rest.tail currentDir last
    else if component = [dot, dot] then return none
    else
      match ← fat32FindEntryInDirectory currentDir component with
      | none => return none
      | some found =>
        let last := some ⟨found.info, currentDir, found.cluster, found.index⟩
        -- `rest` starts with the slash behind the component
        if rest = [] then return last
        else if ¬ found.info.isDirectory then return none
        else lookupLoop rounds rest.tail found.info.cluster last

/-- `FAT32_MAX_PATH - 1` -/
def maxPath : Nat := 255

def fat32LookupPath (path : CStr) : Fat (Option Lookup) := do
  let w ← Eff.get
  if ¬ w.mounted then return none
  if path = [] ∨ path = [slash] then return some (rootLookup w)
  let workingPath := path.take maxPath
  lookupLoop (workingPath.length + 1) workingPath w.fs.rootCluster none

/-- The path without trailing slashes; one character stays. -/
def stripSlashes (temp : CStr) : CStr :=
  let kept := (temp.reverse.dropWhile (· == slash)).reverse
  if kept = [] then temp.take 1 else kept

/-- Parent and name. -/
def fat32SplitPath (path : CStr) : Option (CStr × CStr) :=
  let temp := stripSlashes (path.take maxPath)
  match strrchr slash temp with
  | none => some ([slash], temp)
  | some 0 => if temp.drop 1 = [] then none else some ([slash], temp.drop 1)
  | some i => some (temp.take i, temp.drop (i + 1))

/-! ## Creating -/

/-- The part that `fat32_create` and `fat32_mkdir_path` share: a name is chosen,
slots are reserved and written. -/
def addEntry (dirCluster : Nat) (name : CStr) (attributes : UInt8) (cluster : Nat) : Fat Bool := do
  if name.length > 255 then return false
  match ← fat32PrepareShortName dirCluster name with
  | none => return false
  | some (short, needsLfn) =>
    let entryCount := (if needsLfn then lfnEntries name else 0) + 1
    if ← kmalloc (8 * entryCount) then
      match ← fat32DirectoryReserveEntries dirCluster entryCount with
      | none => return false
      | some locations =>
        if ← kmalloc (entryCount * slotSize) then
          fat32WriteDirectoryEntries locations (entryBytes name short needsLfn attributes cluster)
        else return false
    else return false

/-- The directory that a new path goes to, and its name there. -/
def findParent (path : CStr) : Fat (Option (Nat × CStr)) := do
  if (← fat32LookupPath path).isSome then return none
  match fat32SplitPath path with
  | none => return none
  | some (parent, name) =>
    if name.length = 0 then return none
    let parent := if parent = [] then [slash] else parent
    match ← fat32LookupPath parent with
    | none => return none
    | some dir => if dir.info.isDirectory then return some (dir.info.cluster, name) else return none

def fat32Create (path : CStr) : Fat Bool := do
  let w ← Eff.get
  if ¬ w.mounted ∨ path = [] then return false
  if path.head? ≠ some slash then return false
  match ← findParent path with
  | none => return false
  | some (dirCluster, name) => addEntry dirCluster name attrArchive 0

def fat32MkdirPath (path : CStr) : Fat Bool := do
  let w ← Eff.get
  if ¬ w.mounted ∨ path = [] then return false
  if path.head? ≠ some slash then return false
  if path = [slash] then return false
  match ← findParent path with
  | none => return false
  | some (dirCluster, name) =>
    let newCluster ← fat32AllocateCluster 0
    if newCluster = 0 then return false
    if ← fat32InitDirectory newCluster dirCluster then
      if ← addEntry dirCluster name attrDirectory newCluster then return true
      else
        fat32FreeClusterChain newCluster
        return false
    else
      fat32FreeClusterChain newCluster
      return false

/-! ## Removing -/

/-- The part that `fat32_remove` and `fat32_rmdir_path` share. -/
def dropEntry (found : Lookup) : Fat Bool := do
  if found.info.cluster ≥ 2 then fat32FreeClusterChain found.info.cluster
  fat32MarkEntryDeleted found.parentDir found.entryCluster found.entryIndex

def fat32Remove (path : CStr) : Fat Bool := do
  let w ← Eff.get
  if ¬ w.mounted ∨ path = [] then return false
  match ← fat32LookupPath path with
  | none => return false
  | some found => if found.info.isDirectory then return false else dropEntry found

def fat32RmdirPath (path : CStr) : Fat Bool := do
  let w ← Eff.get
  if ¬ w.mounted ∨ path = [] then return false
  if path = [slash] then return false
  match ← fat32LookupPath path with
  | none => return false
  | some found =>
    if ¬ found.info.isDirectory then return false
    match ← fat32ListDirectory found.info.cluster 1 with
    | none => return false
    | some files => if files.length > 0 then return false else dropEntry found

end ContinuumOS.Fat32.Paths
