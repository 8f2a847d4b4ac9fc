import ContinuumOS.Lib.Guards
import ContinuumOS.Fat32.Files

/-! # The driver with its accesses checked

The functions that write to the device or use an entry of `fat_table` once more,
each with a check in front of the access. What only reads the volume comes to the
table through `fat32_get_next_cluster`, which looks at no entry from
`total_clusters` on, and is taken as it is. -/
namespace ContinuumOS.Fat32.Checks
open ContinuumOS.Lib.Effect ContinuumOS.Lib.Memory ContinuumOS.Lib.Guards
open ContinuumOS.Libc.String
open ContinuumOS.Fat32.Volume ContinuumOS.Fat32.Names ContinuumOS.Fat32.Directory
open ContinuumOS.Fat32.Paths ContinuumOS.Fat32.Files

/-! ## Accesses -/

/-- What is checked. -/
inductive Access
  /-- A transfer of sectors to the device. -/
  | sectors (sector count : Nat)
  /-- The use of an entry of `fat_table`. -/
  | entry (cluster : Nat)
  deriving DecidableEq, Repr

/-- The sector is one of a copy of the table or of a data cluster. -/
def Inside (w : World) (sector : Nat) : Prop :=
  (∃ copy < w.fs.numFats, w.fs.fatStartSector + copy * w.fs.fatSize ≤ sector ∧
    sector < w.fs.fatStartSector + (copy + 1) * w.fs.fatSize) ∨
  ∃ cluster < w.fs.totalClusters + 2, 2 ≤ cluster ∧
    w.fs.dataStartSector + (cluster - 2) * w.fs.sectorsPerCluster ≤ sector ∧
    sector < w.fs.dataStartSector + (cluster - 1) * w.fs.sectorsPerCluster

/-- The table has an entry for the cluster. -/
def HasEntry (w : World) (cluster : Nat) : Prop := cluster < w.fs.fatSize * 128

/-- A request that the block device layer refuses writes nothing. -/
def Access.Within (w : World) : Access → Prop
  | .sectors sector count => transferOk w w.fs.deviceId sector count = true →
      ∀ i < count % 256, Inside w (sector + i)
  | .entry cluster => HasEntry w cluster

instance (w : World) (sector : Nat) : Decidable (Inside w sector) :=
  inferInstanceAs (Decidable (_ ∨ _))

instance (w : World) (cluster : Nat) : Decidable (HasEntry w cluster) :=
  inferInstanceAs (Decidable (_ < _))

instance (w : World) : (a : Access) → Decidable (a.Within w)
  | .sectors _ _ => inferInstanceAs (Decidable (_ → _))
  | .entry _ => inferInstanceAs (Decidable (_ < _))

abbrev Checked := Guarded World Access

def judge (a : Access) : Checked Unit := Guarded.check (fun w => decide (a.Within w)) a

/-! ## Clusters and the table -/

def blockdevWriteChecked (dev sector count : Nat) (buf : Buf) : Checked Bool := do
  judge (.sectors sector count)
  blockdevWrite dev sector count buf

def fat32WriteClusterChecked (cluster : Nat) (buf : Buf) : Checked Bool := do
  let w ← Guarded.get
  if ¬ w.mounted then return false
  let sector := fat32ClusterToSector w cluster
  if sector = 0 then return false
  blockdevWriteChecked w.fs.deviceId sector w.fs.sectorsPerCluster buf

def flushCopiesChecked : Nat → Nat → Checked Bool
  | 0, _ => return true
  | left + 1, copy => do
    let w ← Guarded.get
    let sector := (w.fs.fatStartSector + copy * w.fs.fatSize) % 2 ^ 32
    if ← blockdevWriteChecked w.fs.deviceId sector w.fs.fatSize (tableBytes w.fs.fatTable) then
      flushCopiesChecked left (copy + 1)
    else return false

def fat32FlushFatChecked : Checked Bool := do
  let w ← Guarded.get
  if ¬ w.mounted ∨ ¬ w.fs.fatLoaded then return false
  flushCopiesChecked w.fs.numFats 0

/-- The search of `findFree` over the clusters listed. -/
def findFreeChecked (t : Nat → Nat) : List Nat → Checked (Option Nat)
  | [] => return none
  | c :: rest => do
    judge (.entry c)
    if t c % 2 ^ 28 == 0 then return some c else findFreeChecked t rest

/-- The entries that `linkNew` changes. -/
def judgeLink (previous cluster : Nat) : Checked Unit := do
  judge (.entry cluster)
  if isChained previous then judge (.entry previous) else return ()

def fat32AllocateClusterChecked (previous : Nat) : Checked Nat := do
  let w ← Guarded.get
  if ← kmalloc (clusterSize w) then
    match ← findFreeChecked w.fs.fatTable (List.range' 2 (w.fs.totalClusters - 2)) with
    | none => return 0
    | some cluster =>
      judgeLink previous cluster
      Guarded.modify fun w => linkNew w previous cluster
      if ← fat32WriteClusterChecked cluster fun _ => 0 then
        if ← fat32FlushFatChecked then return cluster else return 0
      else
        judge (.entry cluster)
        Guarded.modify fun w => w.setFat cluster 0
        return 0
  else return 0

def freeLoopChecked : Nat → Nat → (Nat → Nat) → Checked (Nat → Nat)
  | 0, cluster, t => if isChained cluster then Guarded.diverge else return t
  | rounds + 1, cluster, t =>
    if isChained cluster then do
      judge (.entry cluster)
      freeLoopChecked rounds (t cluster % 2 ^ 28) (setEntry t cluster 0)
    else return t

def fat32FreeClusterChainChecked (start : Nat) : Checked Unit := do
  if isChained start then
    let w ← Guarded.get
    let t ← freeLoopChecked walkLimit start w.fs.fatTable
    Guarded.modify fun w => w.setTable t
    let _ ← fat32FlushFatChecked
    return ()
  else return ()

/-! ## Directories -/

def reserveLoopChecked (count : Nat) : Nat → Nat → List Location → Checked (Option (List Location))
  | 0, cluster, _ =>
    if isChained cluster then Guarded.diverge else return none
  | rounds + 1, cluster, run => do
    if ¬ isChained cluster then return none
    match ← fat32ReadCluster cluster with
    | none => return none
    | some buf =>
      let w ← Guarded.get
      match reserveCluster buf cluster count (entriesPerCluster w) 0 run with
      | .found locations => return some locations
      | .more run =>
        let next := fat32GetNextCluster w cluster
        if isChained next then reserveLoopChecked count rounds next run
        else
          let newCluster ← fat32AllocateClusterChecked cluster
          if newCluster = 0 then return none
          reserveLoopChecked count rounds newCluster run

def fat32DirectoryReserveEntriesChecked (dirCluster count : Nat) :
    Checked (Option (List Location)) := do
  if count = 0 then return some []
  let w ← Guarded.get
  if ← kmalloc (clusterSize w) then
    if ← kmalloc (8 * count) then reserveLoopChecked count walkLimit dirCluster []
    else return none
  else return none

def writeEntriesLoopChecked : List (Location × Buf) → Nat → Buf → Bool → Checked Bool
  | [], current, buf, dirty => if dirty then fat32WriteClusterChecked current buf else return true
  | (loc, e) :: rest, current, buf, dirty => do
    if loc.cluster ≠ current then
      let written ← if dirty then fat32WriteClusterChecked current buf else pure true
      if ¬ written then return false
      match ← fat32ReadCluster loc.cluster with
      | none => return false
      | some buf => writeEntriesLoopChecked rest loc.cluster (putSlot buf loc.index e) true
    else writeEntriesLoopChecked rest current (putSlot buf loc.index e) true

def fat32WriteDirectoryEntriesChecked (locations : List Location) (entries : List Buf) :
    Checked Bool := do
  if locations.length = 0 then return true
  let w ← Guarded.get
  if ← kmalloc (clusterSize w) then
    writeEntriesLoopChecked (locations.zip entries) 0 freshBuf false
  else return false

def eraseLfnLoopChecked (dirCluster : Nat) : Nat → Nat → Nat → Buf → Checked Bool
  | 0, _, _, _ => Guarded.diverge
  | rounds + 1, cluster, left, buf => do
    let (buf, dirty, front) := eraseLfnSlots left buf false
    let written ← if dirty then fat32WriteClusterChecked cluster buf else pure true
    if ¬ written then return false
    if ¬ front then return true
    let w ← Guarded.get
    match fat32DirectoryFindPreviousCluster w dirCluster cluster with
    | none => Guarded.diverge
    | some prev =>
      if prev < 2 then return true
      match ← fat32ReadCluster prev with
      | none => return false
      | some buf => eraseLfnLoopChecked dirCluster rounds prev (entriesPerCluster w) buf

def fat32MarkEntryDeletedChecked (dirCluster entryCluster entryIndex : Nat) : Checked Bool := do
  let w ← Guarded.get
  if ← kmalloc (clusterSize w) then
    match ← fat32ReadCluster entryCluster with
    | none => return false
    | some buf =>
      let buf := markSlot buf entryIndex
      if ← fat32WriteClusterChecked entryCluster buf then
        eraseLfnLoopChecked dirCluster walkLimit entryCluster entryIndex buf
      else return false
  else return false

def fat32InitDirectoryChecked (cluster parentCluster : Nat) : Checked Bool := do
  let w ← Guarded.get
  if ← kmalloc (clusterSize w) then
    fat32WriteClusterChecked cluster (emptyDirectory cluster parentCluster)
  else return false

def fat32UpdateFileEntryChecked (file : File) : Checked Bool := do
  if file.dirEntryCluster < 2 then return false
  let w ← Guarded.get
  if ← kmalloc (clusterSize w) then
    match ← fat32ReadCluster file.dirEntryCluster with
    | none => return false
    | some buf =>
      let e := setSlotFile (slotAt buf file.dirEntryIndex) file.startCluster file.fileSize
      fat32WriteClusterChecked file.dirEntryCluster (putSlot buf file.dirEntryIndex e)
  else return false

/-! ## Paths -/

def addEntryChecked (dirCluster : Nat) (name : CStr) (attributes : UInt8) (cluster : Nat) :
    Checked Bool := do
  if name.length > 255 then return false
  match ← fat32PrepareShortName dirCluster name with
  | none => return false
  | some (short, needsLfn) =>
    let entryCount := (if needsLfn then lfnEntries name else 0) + 1
    if ← kmalloc (8 * entryCount) then
      match ← fat32DirectoryReserveEntriesChecked dirCluster entryCount with
      | none => return false
      | some locations =>
        if ← kmalloc (entryCount * slotSize) then
          fat32WriteDirectoryEntriesChecked locations
            (entryBytes name short needsLfn attributes cluster)
        else return false
    else return false

def fat32CreateChecked (path : CStr) : Checked Bool := do
  let w ← Guarded.get
  if ¬ w.mounted ∨ path = [] then return false
  if path.head? ≠ some slash then return false
  match ← findParent path with
  | none => return false
  | some (dirCluster, name) => addEntryChecked dirCluster name attrArchive 0

def fat32MkdirPathChecked (path : CStr) : Checked Bool := do
  let w ← Guarded.get
  if ¬ w.mounted ∨ path = [] then return false
  if path.head? ≠ some slash then return false
  if path = [slash] then return false
  match ← findParent path with
  | none => return false
  | some (dirCluster, name) =>
    let newCluster ← fat32AllocateClusterChecked 0
    if newCluster = 0 then return false
    if ← fat32InitDirectoryChecked newCluster dirCluster then
      if ← addEntryChecked dirCluster name attrDirectory newCluster then return true
      else
        fat32FreeClusterChainChecked newCluster
        return false
    else
      fat32FreeClusterChainChecked newCluster
      return false

def dropEntryChecked (found : Lookup) : Checked Bool := do
  if found.info.cluster ≥ 2 then fat32FreeClusterChainChecked found.info.cluster
  fat32MarkEntryDeletedChecked found.parentDir found.entryCluster found.entryIndex

def fat32RemoveChecked (path : CStr) : Checked Bool := do
  let w ← Guarded.get
  if ¬ w.mounted ∨ path = [] then return false
  match ← fat32LookupPath path with
  | none => return false
  | some found => if found.info.isDirectory then return false else dropEntryChecked found

def fat32RmdirPathChecked (path : CStr) : Checked Bool := do
  let w ← Guarded.get
  if ¬ w.mounted ∨ path = [] then return false
  if path = [slash] then return false
  match ← fat32LookupPath path with
  | none => return false
  | some found =>
    if ¬ found.info.isDirectory then return false
    match ← fat32ListDirectory found.info.cluster 1 with
    | none => return false
    | some files => if files.length > 0 then return false else dropEntryChecked found

/-! ## Writing -/

def firstClusterChecked (f : File) : Checked (File × Bool) := do
  if f.startCluster < 2 then
    let allocated ← fat32AllocateClusterChecked f.startCluster
    if allocated = 0 then return (f, false)
    return ({ f with
      startCluster := allocated
      currentCluster := allocated
      lastCluster := allocated
      clusterPosition := 0 }, true)
  else return (f, true)

def clusterAtEndChecked (f : File) : Checked (File × Bool) := do
  if ¬ isChained f.currentCluster then
    let newCluster ← fat32AllocateClusterChecked
      (if f.lastCluster ≥ 2 then f.lastCluster else f.startCluster)
    if newCluster = 0 then return (f, false)
    return ({ f with
      currentCluster := if isChained f.lastCluster then newCluster else f.startCluster
      lastCluster := newCluster
      clusterPosition := 0 }, true)
  else return (f, true)

def nextClusterChecked (f : File) : Checked (File × Bool) := do
  let w ← Guarded.get
  if f.clusterPosition ≥ clusterSize w then
    judge (.entry f.currentCluster)
    let next := w.fs.fatTable f.currentCluster % 2 ^ 28
    if isChained next then return ({ f with currentCluster := next, clusterPosition := 0 }, true)
    else
      let newCluster ← fat32AllocateClusterChecked f.currentCluster
      if newCluster = 0 then return (f, false)
      return ({ f with
        lastCluster := newCluster
        currentCluster := newCluster
        clusterPosition := 0 }, true)
  else return (f, true)

def clusterToWriteChecked (f : File) : Checked (File × Bool) := do
  let (f, ok) ← firstClusterChecked f
  if ¬ ok then return (f, false)
  let (f, ok) ← clusterAtEndChecked f
  if ¬ ok then return (f, false)
  nextClusterChecked f

def writeChunkChecked (f : File) (src : List UInt8) : Checked (Option Nat) := do
  let w ← Guarded.get
  let offset := f.clusterPosition
  let toWrite := min src.length (clusterSize w - offset)
  let old ← if offset ≠ 0 ∨ toWrite < clusterSize w then fat32ReadCluster f.currentCluster
    else pure (some fun _ => 0)
  match old with
  | none => return none
  | some buf =>
    if ← fat32WriteClusterChecked f.currentCluster
        (store buf offset toWrite fun i => src.getD i 0) then
      return some toWrite
    else return none

def writeLoopChecked : Nat → File → List UInt8 → Nat → Checked (File × Nat × Bool)
  | 0, f, src, written =>
    if src = [] then return (f, written, true)
    else Guarded.diverge
  | rounds + 1, f, src, written => do
    if src = [] then return (f, written, true)
    let (f, ok) ← clusterToWriteChecked f
    if ¬ ok then return (f, written, false)
    match ← writeChunkChecked f src with
    | none => return (f, written, false)
    | some n => writeLoopChecked rounds (advanced f n) (src.drop n) (written + n)

def fat32WriteChecked (fd : Nat) (src : List UInt8) : Checked Int := do
  let w ← Guarded.get
  match fileOf w fd with
  | none => return -1
  | some f =>
    if src.length = 0 then return 0
    if ← kmalloc (clusterSize w) then
      let (f, written, ok) ← writeLoopChecked src.length f src 0
      setFile fd f
      if ¬ ok then return (if written > 0 then written else -1)
      if ← fat32UpdateFileEntryChecked f then return written else return -1
    else return -1

/-! ## The checks are all that was added -/

theorem blockdevWrite_follows (dev sector count : Nat) (buf : Buf) :
    Follows (blockdevWriteChecked dev sector count buf) (blockdevWrite dev sector count buf) :=
  .check_bind (.lift _)

theorem writeCluster_follows (c : Nat) (buf : Buf) :
    Follows (fat32WriteClusterChecked c buf) (fat32WriteCluster c buf) :=
  .bind .get fun _ => .ite (.pure _) (.ite (.pure _) (blockdevWrite_follows _ _ _ _))

theorem flushCopies_follows : ∀ left copy : Nat,
    Follows (flushCopiesChecked left copy) (flushCopies left copy)
  | 0, _ => .pure _
  | left + 1, copy => .bind .get fun _ => .bind (blockdevWrite_follows _ _ _ _) fun _ =>
    .ite (flushCopies_follows left (copy + 1)) (.pure _)

theorem flushFat_follows : Follows fat32FlushFatChecked fat32FlushFat :=
  .bind .get fun _ => .ite (.pure _) (flushCopies_follows _ _)

theorem findFree_follows (t : Nat → Nat) : ∀ l : List Nat,
    Follows (findFreeChecked t l) (pure (l.find? fun c => t c % 2 ^ 28 == 0))
  | [] => .pure _
  | c :: rest => by
    rw [findFreeChecked, List.find?_cons]
    refine .check_bind ?_
    cases t c % 2 ^ 28 == 0 with
    | true => exact .pure _
    | false => exact findFree_follows t rest

theorem judgeLink_follows (previous cluster : Nat) : Follows (judgeLink previous cluster) (pure ()) := by
  refine .check_bind ?_
  cases isChained previous with
  | true => exact .check _ _
  | false => exact .pure _

theorem allocateCluster_follows (previous : Nat) :
    Follows (fat32AllocateClusterChecked previous) (fat32AllocateCluster previous) := by
  refine .bind .get fun w => .bind (.lift _) fun b => .ite ?_ (.pure _)
  refine .bind_pure (findFree_follows _ _) ?_
  rw [findFree]
  cases List.find? _ _ with
  | none => exact .pure _
  | some cluster =>
    refine .bind_pure (judgeLink_follows _ _) (.bind (.modify _) fun _ =>
      .bind (writeCluster_follows _ _) fun b => .ite ?_ ?_)
    · exact .bind flushFat_follows fun b => .ite (.pure _) (.pure _)
    · exact .check_bind (.bind (.modify _) fun _ => .pure _)

theorem freeLoop_follows : ∀ (rounds cluster : Nat) (t : Nat → Nat),
    Follows (freeLoopChecked rounds cluster t) ((freeLoop rounds cluster t).elim Eff.diverge pure)
  | 0, cluster, t => by
    rw [freeLoopChecked, freeLoop]
    split
    · exact .diverge
    · exact .pure _
  | rounds + 1, cluster, t => by
    rw [freeLoopChecked, freeLoop]
    split
    · exact .check_bind (freeLoop_follows rounds _ _)
    · exact .pure _

theorem freeClusterChain_follows (start : Nat) :
    Follows (fat32FreeClusterChainChecked start) (fat32FreeClusterChain start) := by
  rw [fat32FreeClusterChainChecked, fat32FreeClusterChain]
  refine .ite (.bind .get fun w => ?_) (.pure _)
  have h := freeLoop_follows walkLimit start w.fs.fatTable
  cases hloop : freeLoop walkLimit start w.fs.fatTable with
  | none =>
    rw [hloop] at h
    exact h.bind_none
  | some t =>
    rw [hloop] at h
    exact .bind_pure h (.bind (.modify _) fun _ => .bind flushFat_follows fun _ => .pure _)

/-! ### Directories -/

theorem reserveLoop_follows (count : Nat) : ∀ (rounds cluster : Nat) (run : List Location),
    Follows (reserveLoopChecked count rounds cluster run) (reserveLoop count rounds cluster run)
  | 0, cluster, run => .ite .diverge (.pure _)
  | rounds + 1, cluster, run => by
    refine .ite (.pure _) (.bind (.lift _) fun r => ?_)
    cases r with
    | none => exact .pure _
    | some buf =>
      refine .bind .get fun w => ?_
      dsimp only
      cases reserveCluster buf cluster count (entriesPerCluster w) 0 run with
      | found locations => exact .pure _
      | more run =>
        refine .ite (reserveLoop_follows count rounds _ run) ?_
        exact .bind (allocateCluster_follows cluster) fun c => .ite (.pure _)
          (reserveLoop_follows count rounds c run)

theorem reserveEntries_follows (s count : Nat) :
    Follows (fat32DirectoryReserveEntriesChecked s count) (fat32DirectoryReserveEntries s count) :=
  .ite (.pure _) (.bind .get fun _ => .bind (.lift _) fun _ => .ite (.bind (.lift _) fun _ =>
    .ite (reserveLoop_follows _ _ _ _) (.pure _)) (.pure _))

theorem writeEntriesLoop_follows : ∀ (zs : List (Location × Buf)) (current : Nat) (buf : Buf)
    (dirty : Bool), Follows (writeEntriesLoopChecked zs current buf dirty)
      (writeEntriesLoop zs current buf dirty)
  | [], current, buf, dirty => .ite (writeCluster_follows current buf) (.pure _)
  | (loc, e) :: rest, current, buf, dirty => by
    refine .ite (.ite (.bind (writeCluster_follows current buf) ?written)
      (.bind (.pure true) ?written)) (writeEntriesLoop_follows rest _ _ _)
    refine fun written => .ite (.pure _) (.bind (.lift _) fun r => ?_)
    cases r with
    | none => exact .pure _
    | some buf => exact writeEntriesLoop_follows rest _ _ _

theorem writeDirectoryEntries_follows (locations : List Location) (entries : List Buf) :
    Follows (fat32WriteDirectoryEntriesChecked locations entries)
      (fat32WriteDirectoryEntries locations entries) :=
  .ite (.pure _) (.bind .get fun _ => .bind (.lift _) fun _ =>
    .ite (writeEntriesLoop_follows _ _ _ _) (.pure _))

theorem eraseLfnLoop_follows (s : Nat) : ∀ (rounds cluster left : Nat) (buf : Buf),
    Follows (eraseLfnLoopChecked s rounds cluster left buf) (eraseLfnLoop s rounds cluster left buf)
  | 0, _, _, _ => .diverge
  | rounds + 1, cluster, left, buf => by
    rw [eraseLfnLoopChecked, eraseLfnLoop]
    dsimp only
    refine .ite (.bind (writeCluster_follows _ _) ?written) (.bind (.pure true) ?written)
    refine fun written => .ite (.pure _) (.ite (.pure _) (.bind .get fun w => ?_))
    cases fat32DirectoryFindPreviousCluster w s cluster with
    | none => exact .diverge
    | some prev =>
      refine .ite (.pure _) (.bind (.lift _) fun r => ?_)
      cases r with
      | none => exact .pure _
      | some buf => exact eraseLfnLoop_follows s rounds _ _ _

theorem markEntryDeleted_follows (s c i : Nat) :
    Follows (fat32MarkEntryDeletedChecked s c i) (fat32MarkEntryDeleted s c i) := by
  refine .bind .get fun w => .bind (.lift _) fun b => .ite (.bind (.lift _) fun r => ?_) (.pure _)
  cases r with
  | none => exact .pure _
  | some buf =>
    exact .bind (writeCluster_follows _ _) fun b => .ite (eraseLfnLoop_follows _ _ _ _ _) (.pure _)

theorem initDirectory_follows (c parent : Nat) :
    Follows (fat32InitDirectoryChecked c parent) (fat32InitDirectory c parent) :=
  .bind .get fun _ => .bind (.lift _) fun _ => .ite (writeCluster_follows _ _) (.pure _)

theorem updateFileEntry_follows (f : File) :
    Follows (fat32UpdateFileEntryChecked f) (fat32UpdateFileEntry f) := by
  refine .ite (.pure _) (.bind .get fun w => .bind (.lift _) fun b =>
    .ite (.bind (.lift _) fun r => ?_) (.pure _))
  cases r with
  | none => exact .pure _
  | some buf => exact writeCluster_follows _ _

/-! ### Paths -/

theorem addEntry_follows (s : Nat) (name : CStr) (attributes : UInt8) (c : Nat) :
    Follows (addEntryChecked s name attributes c) (addEntry s name attributes c) := by
  refine .ite (.pure _) (.bind (.lift _) fun r => ?_)
  cases r with
  | none => exact .pure _
  | some r =>
    refine .bind (.lift _) fun b => .ite (.bind (reserveEntries_follows _ _) fun r => ?_) (.pure _)
    cases r with
    | none => exact .pure _
    | some locations =>
      exact .bind (.lift _) fun b => .ite (writeDirectoryEntries_follows _ _) (.pure _)

theorem create_follows (path : CStr) : Follows (fat32CreateChecked path) (fat32Create path) := by
  refine .bind .get fun w => .ite (.pure _) (.ite (.pure _) (.bind (.lift _) fun r => ?_))
  cases r with
  | none => exact .pure _
  | some r => exact addEntry_follows _ _ _ _

theorem mkdirPath_follows (path : CStr) :
    Follows (fat32MkdirPathChecked path) (fat32MkdirPath path) := by
  have hundo : ∀ c, Follows (fat32FreeClusterChainChecked c >>= fun _ => pure false)
      (fat32FreeClusterChain c >>= fun _ => pure false) :=
    fun c => .bind (freeClusterChain_follows c) fun _ => .pure _
  refine .bind .get fun w => .ite (.pure _) (.ite (.pure _) (.ite (.pure _)
    (.bind (.lift _) fun r => ?_)))
  cases r with
  | none => exact .pure _
  | some r =>
    refine .bind (allocateCluster_follows 0) fun c => .ite (.pure _)
      (.bind (initDirectory_follows _ _) fun b => .ite ?_ (hundo c))
    exact .bind (addEntry_follows _ _ _ _) fun b => .ite (.pure _) (hundo c)

theorem dropEntry_follows (found : Lookup) : Follows (dropEntryChecked found) (dropEntry found) := by
  rw [dropEntryChecked, dropEntry]
  dsimp only
  exact .ite (.bind (freeClusterChain_follows _) fun _ => markEntryDeleted_follows _ _ _)
    (markEntryDeleted_follows _ _ _)

theorem remove_follows (path : CStr) : Follows (fat32RemoveChecked path) (fat32Remove path) := by
  refine .bind .get fun w => .ite (.pure _) (.bind (.lift _) fun r => ?_)
  cases r with
  | none => exact .pure _
  | some found => exact .ite (.pure _) (dropEntry_follows found)

theorem rmdirPath_follows (path : CStr) :
    Follows (fat32RmdirPathChecked path) (fat32RmdirPath path) := by
  refine .bind .get fun w => .ite (.pure _) (.ite (.pure _) (.bind (.lift _) fun r => ?_))
  cases r with
  | none => exact .pure _
  | some found =>
    refine .ite (.pure _) (.bind (.lift _) fun r => ?_)
    cases r with
    | none => exact .pure _
    | some files => exact .ite (.pure _) (dropEntry_follows found)

/-! ### Writing -/

theorem firstCluster_follows (f : File) : Follows (firstClusterChecked f) (firstCluster f) :=
  .ite (.bind (allocateCluster_follows _) fun _ => .ite (.pure _) (.pure _)) (.pure _)

theorem clusterAtEnd_follows (f : File) : Follows (clusterAtEndChecked f) (clusterAtEnd f) :=
  .ite (.bind (allocateCluster_follows _) fun _ => .ite (.pure _) (.pure _)) (.pure _)

theorem nextCluster_follows (f : File) : Follows (nextClusterChecked f) (nextCluster f) :=
  .bind .get fun _ => .ite (.check_bind (.ite (.pure _) (.bind (allocateCluster_follows _)
    fun _ => .ite (.pure _) (.pure _)))) (.pure _)

theorem clusterToWrite_follows (f : File) : Follows (clusterToWriteChecked f) (clusterToWrite f) :=
  .bind (firstCluster_follows f) fun r => .ite (.pure _) (.bind (clusterAtEnd_follows r.1) fun r =>
    .ite (.pure _) (nextCluster_follows r.1))

theorem writeChunk_follows (f : File) (src : List UInt8) :
    Follows (writeChunkChecked f src) (writeChunk f src) := by
  refine .bind .get fun w => .ite (.bind (.lift _) ?old) (.bind (.pure _) ?old)
  intro old
  cases old with
  | none => exact .pure _
  | some buf => exact .bind (writeCluster_follows _ _) fun b => .ite (.pure _) (.pure _)

theorem writeLoop_follows : ∀ (rounds : Nat) (f : File) (src : List UInt8) (written : Nat),
    Follows (writeLoopChecked rounds f src written) (writeLoop rounds f src written)
  | 0, f, src, written => .ite (.pure _) .diverge
  | rounds + 1, f, src, written => by
    refine .ite (.pure _) (.bind (clusterToWrite_follows f) fun r => .ite (.pure _)
      (.bind (writeChunk_follows r.1 src) fun n => ?_))
    cases n with
    | none => exact .pure _
    | some n => exact writeLoop_follows rounds _ _ _

theorem write_follows (fd : Nat) (src : List UInt8) :
    Follows (fat32WriteChecked fd src) (fat32Write fd src) := by
  refine .bind .get fun w => ?_
  cases fileOf w fd with
  | none => exact .pure _
  | some f =>
    refine .ite (.pure _) (.bind (.lift _) fun b => .ite (.bind (writeLoop_follows _ _ _ _)
      fun r => .bind (.lift _) fun _ => .ite (.pure _) ?_) (.pure _))
    exact .bind (updateFileEntry_follows r.1) fun b => .ite (.pure _) (.pure _)

end ContinuumOS.Fat32.Checks
