import ContinuumOS.Fat32.Names

/-! # Directories

The scanner `fat32_iterate_directory` with its long-name state, the functions
that run it with a callback, and the functions that edit directory clusters. A
callback is a function of its context; like those of the source it does not
touch the volume. -/
namespace ContinuumOS.Fat32.Directory
open ContinuumOS.Lib.Effect ContinuumOS.Lib.Memory ContinuumOS.Libc.String
open ContinuumOS.Fat32.Volume ContinuumOS.Fat32.Names

/-- `fat32_file_info_t` -/
structure FileInfo where
  filename : CStr
  shortName : CStr
  hasLongName : Bool
  attributes : UInt8
  size : Nat
  cluster : Nat
  deriving DecidableEq, Repr

/-- `info.attributes & FAT32_ATTR_DIRECTORY` -/
def FileInfo.isDirectory (info : FileInfo) : Bool := info.attributes &&& attrDirectory ≠ 0

/-! ## The long-name state -/

/-- `lfn_name`, `lfn_expected`, `lfn_collected` and `lfn_checksum_value` -/
structure Lfn where
  name : Buf
  expected : Nat
  collected : Nat
  checksum : UInt8

/-- The state at the start of a scan. Of `lfn_name` only the first byte is set,
but no other is read before the whole of it is cleared. -/
def Lfn.init : Lfn := ⟨fun _ => 0, 0, 0, 0⟩

def Lfn.reset (st : Lfn) : Lfn :=
  { st with name := writeByte st.name 0 0, expected := 0, collected := 0 }

/-- `sizeof(lfn_name)` -/
def lfnNameSize : Nat := 256

/-- `fat32_utf16le_chunk_to_ascii` into `lfn_name`, from `written` on. -/
def fat32Utf16leChunkToAscii (dest : Buf) : List Nat → Nat → Buf
  | [], written =>
    if written < lfnNameSize then writeByte dest written 0 else writeByte dest (lfnNameSize - 1) 0
  | ch :: src, written =>
    if written + 1 < lfnNameSize then
      if ch = 0xFFFF ∨ ch = 0 then writeByte dest written 0
      else
        let out : UInt8 := if ch ≤ 0x7F then UInt8.ofNat ch else 0x3F
        fat32Utf16leChunkToAscii (writeByte dest written out) src (written + 1)
    else if written < lfnNameSize then writeByte dest written 0
    else writeByte dest (lfnNameSize - 1) 0

/-- The string that starts a buffer, of at most `n` characters. -/
def cstrOf (buf : Buf) (n : Nat) : CStr := ((List.range n).map buf).takeWhile (· ≠ 0)

/-- A long-name slot meets the state. -/
def Lfn.collect (st : Lfn) (e : Buf) : Lfn :=
  let order := e 0
  let seq := (order &&& 0x1F).toNat
  if seq = 0 then st.reset
  else
    let st := if order &&& 0x40 ≠ 0 then
        { st with name := fun _ => 0, expected := seq, collected := 0 } else st
    if seq > st.expected then st.reset
    else
      { st with
        name := fat32Utf16leChunkToAscii st.name ((List.range 13).map (lfnUnit e)) ((seq - 1) * 13)
        checksum := lfnChecksumOf e
        collected := st.collected + 1 }

/-- The long name collected so far belongs to this slot. -/
def Lfn.Names (st : Lfn) (e : Buf) : Prop :=
  st.expected > 0 ∧ st.collected = st.expected ∧ st.checksum = fat32LfnChecksum (slotName e) ∧
    st.name 0 ≠ 0

instance (st : Lfn) (e : Buf) : Decidable (st.Names e) := inferInstanceAs (Decidable (_ ∧ _))

/-- What the callback is told about a slot. -/
def slotInfo (st : Lfn) (e : Buf) : FileInfo :=
  let short := fat32ShortNameToString (slotName e)
  { filename := if st.Names e then cstrOf st.name 255 else short
    shortName := short
    hasLongName := decide (st.Names e)
    attributes := slotAttributes e
    size := slotFileSize e
    cluster := slotCluster e }

/-! ## Scanning -/

/-- `(entry->attributes & FAT32_ATTR_LONG_NAME) == FAT32_ATTR_LONG_NAME` -/
def isLongName (e : Buf) : Bool := slotAttributes e &&& attrLongName == attrLongName

/-- What a slot is to the scan. -/
inductive SlotKind
  | endOfDirectory
  | deleted
  | longName
  | volumeId
  | entry
  deriving DecidableEq, Repr

def slotKind (e : Buf) : SlotKind :=
  if e 0 = 0x00 then .endOfDirectory
  else if e 0 = 0xE5 then .deleted
  else if isLongName e then .longName
  else if slotAttributes e &&& attrVolumeId ≠ 0 then .volumeId
  else .entry

/-- `fat32_dir_iter_cb`, with the context passed on. -/
abbrev Callback (κ : Type) := Buf → FileInfo → Nat → Nat → κ → Int × κ

/-- A scan goes on or ends with a result. -/
inductive Progress (κ : Type)
  | more (st : Lfn) (context : κ)
  | done (result : Int) (context : κ)

/-- The loop over the `left` slots of a cluster from `index` on. -/
def scanCluster {κ : Type} (callback : Callback κ) (buf : Buf) (cluster : Nat) :
    Nat → Nat → Lfn → κ → Progress κ
  | 0, _, st, context => .more st context
  | left + 1, index, st, context =>
    let e := slotAt buf index
    match slotKind e with
    | .endOfDirectory => .done 0 context
    | .deleted => scanCluster callback buf cluster left (index + 1) st.reset context
    | .longName => scanCluster callback buf cluster left (index + 1) (st.collect e) context
    | .volumeId => scanCluster callback buf cluster left (index + 1) st.reset context
    | .entry =>
      let (result, context) := callback e (slotInfo st e) cluster index context
      if result > 0 then .done 0 context
      else if result < 0 then .done result context
      else scanCluster callback buf cluster left (index + 1) st.reset context

/-- `entries_per_cluster` -/
def entriesPerCluster (w : World) : Nat := clusterSize w / slotSize

/-- The loop over the clusters. -/
def iterateLoop {κ : Type} (callback : Callback κ) : Nat → Nat → Lfn → κ → Fat (Int × κ)
  | 0, cluster, _, context => if isChained cluster then Eff.diverge else return (0, context)
  | rounds + 1, cluster, st, context => do
    if ¬ isChained cluster then return (0, context)
    match ← fat32ReadCluster cluster with
    | none => return (-1, context)
    | some buf =>
      let w ← Eff.get
      match scanCluster callback buf cluster (entriesPerCluster w) 0 st context with
      | .done result context => return (result, context)
      | .more st context =>
        let next := fat32GetNextCluster w cluster
        if ¬ isChained next then return (0, context)
        iterateLoop callback rounds next st context

def fat32IterateDirectory {κ : Type} (dirCluster : Nat) (callback : Callback κ) (context : κ) :
    Fat (Int × κ) := do
  let w ← Eff.get
  if ← kmalloc (clusterSize w) then iterateLoop callback walkLimit dirCluster Lfn.init context
  else return (-1, context)

/-! ## Searches -/

def existsCallback (needle : ShortName) : Callback Bool := fun e _ _ _ found =>
  if slotName e = needle then (1, true) else (0, found)

/-- `none` is an error. -/
def fat32ShortNameExists (dirCluster : Nat) (name : ShortName) : Fat (Option Bool) := do
  let (result, found) ← fat32IterateDirectory dirCluster (existsCallback name) false
  if result < 0 then return none else return some found

/-- An entry and where it lies. -/
structure Found where
  info : FileInfo
  cluster : Nat
  index : Nat
  deriving DecidableEq, Repr

/-- An entry answers to its long and to its short name. -/
def answersTo (info : FileInfo) (target : CStr) : Bool :=
  fat32Casecmp info.filename target == 0 || fat32Casecmp info.shortName target == 0

def findCallback (target : CStr) : Callback (Option Found) := fun _ info cluster index found =>
  if answersTo info target then (1, some ⟨info, cluster, index⟩) else (0, found)

def fat32FindEntryInDirectory (dirCluster : Nat) (name : CStr) : Fat (Option Found) := do
  let w ← Eff.get
  if ¬ w.mounted ∨ name = [] then return none
  let (result, found) ← fat32IterateDirectory dirCluster (findCallback name) none
  if result < 0 then return none else return found

def listCallback (maxFiles : Nat) : Callback (List FileInfo) := fun _ info _ _ files =>
  if info.filename = [dot] ∨ info.filename = [dot, dot] then (0, files)
  else if files.length ≥ maxFiles then (1, files)
  else (0, files ++ [info])

/-- The entries listed; `none` is an error. -/
def fat32ListDirectory (dirCluster maxFiles : Nat) : Fat (Option (List FileInfo)) := do
  let w ← Eff.get
  if ¬ w.mounted then return none
  let (result, files) ← fat32IterateDirectory dirCluster (listCallback maxFiles) []
  if result < 0 then return none else return some files

/-! ## Choosing a short name -/

/-- The loop over the suffixes from `suffix` on. -/
def uniqueLoop (dirCluster : Nat) (base ext : CStr) : Nat → Nat → Fat (Option ShortName)
  | 0, _ => return none
  | left + 1, suffix => do
    if fat32CountDigits suffix ≥ 7 then return none
    let candidate := aliasCandidate base ext suffix
    match ← fat32ShortNameExists dirCluster candidate with
    | none => return none
    | some true => uniqueLoop dirCluster base ext left (suffix + 1)
    | some false => return some candidate

def fat32GenerateUniqueShortName (dirCluster : Nat) (name : CStr) : Fat (Option ShortName) :=
  uniqueLoop dirCluster (sanitizedBase name) (sanitizedExt name) 999999 1

/-- The short name and `needs_lfn`. -/
def fat32PrepareShortName (dirCluster : Nat) (name : CStr) : Fat (Option (ShortName × Bool)) := do
  match fat32BuildShortName name with
  | some candidate =>
    let lfnRequired : Bool := fat32ShortNameToString candidate ≠ name
    match ← fat32ShortNameExists dirCluster candidate with
    | none => return none
    | some false => return some (candidate, lfnRequired)
    | some true =>
      match ← fat32GenerateUniqueShortName dirCluster name with
      | none => return none
      | some candidate => return some (candidate, true)
  | none =>
    match ← fat32GenerateUniqueShortName dirCluster name with
    | none => return none
    | some candidate => return some (candidate, true)

/-! ## Reserving and writing slots -/

/-- `fat32_dir_entry_location_t` -/
structure Location where
  cluster : Nat
  index : Nat
  deriving DecidableEq, Repr

/-- Slots found, or the run of free slots so far. -/
inductive Reserve
  | found (locations : List Location)
  | more (run : List Location)

/-- `first == 0x00 || first == 0xE5` -/
def isFree (e : Buf) : Bool := e 0 == 0x00 || e 0 == 0xE5

/-- The loop over the `left` slots of a cluster from `idx` on. -/
def reserveCluster (buf : Buf) (cluster count : Nat) : Nat → Nat → List Location → Reserve
  | 0, _, run => .more run
  | left + 1, idx, run =>
    if isFree (slotAt buf idx) then
      let run := run ++ [⟨cluster, idx⟩]
      if run.length = count then .found run
      else reserveCluster buf cluster count left (idx + 1) run
    else reserveCluster buf cluster count left (idx + 1) []

/-- The loop over the clusters; a directory that ends is extended. -/
def reserveLoop (count : Nat) : Nat → Nat → List Location → Fat (Option (List Location))
  | 0, cluster, _ => if isChained cluster then Eff.diverge else return none
  | rounds + 1, cluster, run => do
    if ¬ isChained cluster then return none
    match ← fat32ReadCluster cluster with
    | none => return none
    | some buf =>
      let w ← Eff.get
      match reserveCluster buf cluster count (entriesPerCluster w) 0 run with
      | .found locations => return some locations
      | .more run =>
        let next := fat32GetNextCluster w cluster
        if isChained next then reserveLoop count rounds next run
        else
          let newCluster ← fat32AllocateCluster cluster
          if newCluster = 0 then return none
          reserveLoop count rounds newCluster run

def fat32DirectoryReserveEntries (dirCluster count : Nat) : Fat (Option (List Location)) := do
  if count = 0 then return some []
  let w ← Eff.get
  if ← kmalloc (clusterSize w) then
    if ← kmalloc (8 * count) then reserveLoop count walkLimit dirCluster []
    else return none
  else return none

/-- The loop over the slots to write; `buf` holds the cluster `current`. -/
def writeEntriesLoop : List (Location × Buf) → Nat → Buf → Bool → Fat Bool
  | [], current, buf, dirty => if dirty then fat32WriteCluster current buf else return true
  | (loc, e) :: rest, current, buf, dirty => do
    if loc.cluster ≠ current then
      let written ← if dirty then fat32WriteCluster current buf else pure true
      if ¬ written then return false
      match ← fat32ReadCluster loc.cluster with
      | none => return false
      | some buf => writeEntriesLoop rest loc.cluster (putSlot buf loc.index e) true
    else writeEntriesLoop rest current (putSlot buf loc.index e) true

def fat32WriteDirectoryEntries (locations : List Location) (entries : List Buf) : Fat Bool := do
  if locations.length = 0 then return true
  let w ← Eff.get
  if ← kmalloc (clusterSize w) then writeEntriesLoop (locations.zip entries) 0 freshBuf false
  else return false

/-! ## Deleting slots -/

/-- The loop of `fat32_directory_find_previous_cluster`; `none`: it never ends. -/
def findPreviousLoop (w : World) (target : Nat) : Nat → Nat → Option Nat
  | 0, current => if isChained current then none else some 0
  | rounds + 1, current =>
    if isChained current then
      let next := fat32GetNextCluster w current
      if next = target then some current
      else if isChained next then findPreviousLoop w target rounds next
      else some 0
    else some 0

/-- 0 when there is none. -/
def fat32DirectoryFindPreviousCluster (w : World) (dirCluster target : Nat) : Option Nat :=
  if dirCluster = target then some 0 else findPreviousLoop w target walkLimit dirCluster

/-- `entries[index].filename[0] = 0xE5` -/
def markSlot (buf : Buf) (index : Nat) : Buf := writeByte buf (index * slotSize) 0xE5

/-- Marks the long-name slots that end before slot `left`. The flags say whether
one was marked and whether the front of the cluster was reached. -/
def eraseLfnSlots : Nat → Buf → Bool → Buf × Bool × Bool
  | 0, buf, dirty => (buf, dirty, true)
  | left + 1, buf, dirty =>
    let e := slotAt buf left
    if isLongName e ∧ e 0 ≠ 0xE5 ∧ e 0 ≠ 0x00 then eraseLfnSlots left (markSlot buf left) true
    else (buf, dirty, false)

/-- The loop over the clusters, backwards; `buf` holds `cluster`. -/
def eraseLfnLoop (dirCluster : Nat) : Nat → Nat → Nat → Buf → Fat Bool
  | 0, _, _, _ => Eff.diverge
  | rounds + 1, cluster, left, buf => do
    let (buf, dirty, front) := eraseLfnSlots left buf false
    let written ← if dirty then fat32WriteCluster cluster buf else pure true
    if ¬ written then return false
    if ¬ front then return true
    let w ← Eff.get
    match fat32DirectoryFindPreviousCluster w dirCluster cluster with
    | none => Eff.diverge
    | some prev =>
      if prev < 2 then return true
      match ← fat32ReadCluster prev with
      | none => return false
      | some buf => eraseLfnLoop dirCluster rounds prev (entriesPerCluster w) buf

/-- Called with `remove_lfn` set. -/
def fat32MarkEntryDeleted (dirCluster entryCluster entryIndex : Nat) : Fat Bool := do
  let w ← Eff.get
  if ← kmalloc (clusterSize w) then
    match ← fat32ReadCluster entryCluster with
    | none => return false
    | some buf =>
      let buf := markSlot buf entryIndex
      if ← fat32WriteCluster entryCluster buf then
        eraseLfnLoop dirCluster walkLimit entryCluster entryIndex buf
      else return false
  else return false

/-! ## New directories and changed files -/

/-- `.` filled up with blanks. -/
def dotName : ShortName := .ofParts [dot] []

/-- `..` filled up with blanks. -/
def dotDotName : ShortName := .ofParts [dot, dot] []

/-- The first cluster of a new directory. -/
def emptyDirectory (cluster parentCluster : Nat) : Buf :=
  let parent := if parentCluster ≥ 2 then parentCluster else cluster
  putSlot (putSlot (fun _ => 0) 0 (dirEntry dotName attrDirectory cluster 0)) 1
    (dirEntry dotDotName attrDirectory parent 0)

def fat32InitDirectory (cluster parentCluster : Nat) : Fat Bool := do
  let w ← Eff.get
  if ← kmalloc (clusterSize w) then
    fat32WriteCluster cluster (emptyDirectory cluster parentCluster)
  else return false

/-- A slot with first cluster and size replaced. -/
def setSlotFile (e : Buf) (cluster size : Nat) : Buf := fun i =>
  if 20 ≤ i ∧ i < 22 then wordByte (cluster / 2 ^ 16 % 2 ^ 16) (i - 20)
  else if 26 ≤ i ∧ i < 28 then wordByte (cluster % 2 ^ 16) (i - 26)
  else if 28 ≤ i ∧ i < 32 then wordByte size (i - 28)
  else e i

def fat32UpdateFileEntry (file : File) : Fat Bool := do
  if file.dirEntryCluster < 2 then return false
  let w ← Eff.get
  if ← kmalloc (clusterSize w) then
    match ← fat32ReadCluster file.dirEntryCluster with
    | none => return false
    | some buf =>
      let e := setSlotFile (slotAt buf file.dirEntryIndex) file.startCluster file.fileSize
      fat32WriteCluster file.dirEntryCluster (putSlot buf file.dirEntryIndex e)
  else return false

end ContinuumOS.Fat32.Directory
