import ContinuumOS.Fat32.Paths

/-! # Open files

`fat32_open`, `fat32_read`, `fat32_write`, `fat32_seek` and `fat32_close`. The
loops pass the descriptor on and store it when they end; nothing they call
looks at `open_files`. -/
namespace ContinuumOS.Fat32.Files
open ContinuumOS.Lib.Effect ContinuumOS.Lib.Memory ContinuumOS.Libc.String
open ContinuumOS.Fat32.Volume ContinuumOS.Fat32.Directory
open ContinuumOS.Fat32.Paths

def setFile (fd : Nat) (f : File) : Fat Unit := Eff.modify fun w => w.setFile fd f

/-- The descriptor, if `fd` is one in use. -/
def fileOf (w : World) (fd : Nat) : Option File :=
  if fd < maxOpenFiles ∧ (w.openFiles fd).inUse then some (w.openFiles fd) else none

/-! ## Opening and closing -/

/-- The descriptor of a file just opened. -/
def openedFile (found : Lookup) (lastCluster : Nat) : File where
  startCluster := found.info.cluster
  currentCluster := found.info.cluster
  fileSize := found.info.size
  position := 0
  clusterPosition := 0
  lastCluster := lastCluster
  dirCluster := found.parentDir
  dirEntryCluster := found.entryCluster
  dirEntryIndex := found.entryIndex
  inUse := true

/-- The descriptor; `none` is -1. -/
def fat32Open (path : CStr) : Fat (Option Nat) := do
  let w ← Eff.get
  if ¬ w.mounted then return none
  match ← fat32LookupPath path with
  | none => return none
  | some found =>
    if found.info.isDirectory then return none
    let w ← Eff.get
    match (List.range maxOpenFiles).find? fun fd => !(w.openFiles fd).inUse with
    | none => return none
    | some fd =>
      match fat32GetLastCluster w found.info.cluster with
      | none => Eff.diverge
      | some last =>
        setFile fd (openedFile found last)
        return some fd

/-- A descriptor that is not in use. -/
def closedFile : File := ⟨0, 0, 0, 0, 0, 0, 0, 0, 0, false⟩

def fat32Close (fd : Nat) : Fat Unit := do
  let w ← Eff.get
  match fileOf w fd with
  | none => return ()
  | some _ => setFile fd closedFile

/-! ## Reading -/

/-- The loop of `fat32_read`: `size` bytes in all, `bytes` of them read. The
result is `none` when a cluster could not be read. A round reads a byte or
steps over the end of a cluster. -/
def readLoop (size : Nat) : Nat → File → List UInt8 → Fat (Option (List UInt8) × File)
  | 0, _, _ => Eff.diverge
  | rounds + 1, f, bytes => do
    if bytes.length < size ∧ f.currentCluster < endCluster then
      match ← fat32ReadCluster f.currentCluster with
      | none => return (none, f)
      | some buf =>
        let w ← Eff.get
        let bytesInCluster := (clusterSize w + 2 ^ 32 - f.clusterPosition) % 2 ^ 32
        let bytesToRead := min (size - bytes.length) bytesInCluster
        let bytes := bytes ++ (List.range' f.clusterPosition bytesToRead).map buf
        let f := { f with
          position := (f.position + bytesToRead) % 2 ^ 32
          clusterPosition := (f.clusterPosition + bytesToRead) % 2 ^ 32 }
        let f := if f.clusterPosition ≥ clusterSize w then
          { f with
            currentCluster := fat32GetNextCluster w f.currentCluster
            clusterPosition := 0 } else f
        readLoop size rounds f bytes
    else return (some bytes, f)

/-- The bytes read; `none` is -1. -/
def fat32Read (fd size : Nat) : Fat (Option (List UInt8)) := do
  let w ← Eff.get
  match fileOf w fd with
  | none => return none
  | some f =>
    if f.position ≥ f.fileSize then return some []
    let size := if (f.position + size) % 2 ^ 32 > f.fileSize then f.fileSize - f.position else size
    if ← kmalloc (clusterSize w) then
      let (bytes, f) ← readLoop size (2 * size + 2) f []
      setFile fd f
      return bytes
    else return none

/-! ## Writing -/

/-- A file without a cluster gets its first one. -/
def firstCluster (f : File) : Fat (File × Bool) := do
  if f.startCluster < 2 then
    let allocated ← fat32AllocateCluster f.startCluster
    if allocated = 0 then return (f, false)
    return ({ f with
      startCluster := allocated
      currentCluster := allocated
      lastCluster := allocated
      clusterPosition := 0 }, true)
  else return (f, true)

/-- A descriptor behind the end of its chain gets a new cluster there. -/
def clusterAtEnd (f : File) : Fat (File × Bool) := do
  if ¬ isChained f.currentCluster then
    let newCluster ← fat32AllocateCluster (if f.lastCluster ≥ 2 then f.lastCluster else f.startCluster)
    if newCluster = 0 then return (f, false)
    return ({ f with
      currentCluster := if isChained f.lastCluster then newCluster else f.startCluster
      lastCluster := newCluster
      clusterPosition := 0 }, true)
  else return (f, true)

/-- A descriptor at the end of its cluster steps to the next one, which is
allocated if there is none. -/
def nextCluster (f : File) : Fat (File × Bool) := do
  let w ← Eff.get
  if f.clusterPosition ≥ clusterSize w then
    let next := w.fs.fatTable f.currentCluster % 2 ^ 28
    if isChained next then return ({ f with currentCluster := next, clusterPosition := 0 }, true)
    else
      let newCluster ← fat32AllocateCluster f.currentCluster
      if newCluster = 0 then return (f, false)
      return ({ f with
        lastCluster := newCluster
        currentCluster := newCluster
        clusterPosition := 0 }, true)
  else return (f, true)

/-- A cluster to write to; the flag says whether there is one. -/
def clusterToWrite (f : File) : Fat (File × Bool) := do
  let (f, ok) ← firstCluster f
  if ¬ ok then return (f, false)
  let (f, ok) ← clusterAtEnd f
  if ¬ ok then return (f, false)
  nextCluster f

/-- The front of `src` is written to the cluster; the result is how many bytes. -/
def writeChunk (f : File) (src : List UInt8) : Fat (Option Nat) := do
  let w ← Eff.get
  let offset := f.clusterPosition
  let toWrite := min src.length (clusterSize w - offset)
  let old ← if offset ≠ 0 ∨ toWrite < clusterSize w then fat32ReadCluster f.currentCluster
    else pure (some fun _ => 0)
  match old with
  | none => return none
  | some buf =>
    if ← fat32WriteCluster f.currentCluster (store buf offset toWrite fun i => src.getD i 0) then
      return some toWrite
    else return none

/-- The descriptor after `n` bytes were written. -/
def advanced (f : File) (n : Nat) : File :=
  let position := (f.position + n) % 2 ^ 32
  { f with
    clusterPosition := f.clusterPosition + n
    position := position
    fileSize := if position > f.fileSize then position else f.fileSize }

/-- The loop of `fat32_write`: `src` is still to be written. The flag says
whether it was. A round writes at least one byte. -/
def writeLoop : Nat → File → List UInt8 → Nat → Fat (File × Nat × Bool)
  | 0, f, src, written => if src = [] then return (f, written, true) else Eff.diverge
  | rounds + 1, f, src, written => do
    if src = [] then return (f, written, true)
    let (f, ok) ← clusterToWrite f
    if ¬ ok then return (f, written, false)
    match ← writeChunk f src with
    | none => return (f, written, false)
    | some n => writeLoop rounds (advanced f n) (src.drop n) (written + n)

/-- The number of bytes written, or -1. -/
def fat32Write (fd : Nat) (src : List UInt8) : Fat Int := do
  let w ← Eff.get
  match fileOf w fd with
  | none => return -1
  | some f =>
    if src.length = 0 then return 0
    if ← kmalloc (clusterSize w) then
      let (f, written, ok) ← writeLoop src.length f src 0
      setFile fd f
      if ¬ ok then return (if written > 0 then written else -1)
      if ← fat32UpdateFileEntry f then return written else return -1
    else return -1

/-! ## Seeking -/

/-- The loop of `fat32_seek`: `position` is still to be skipped. -/
def seekLoop (w : World) : Nat → File → Nat → Option (File × Nat)
  | 0, _, _ => none
  | rounds + 1, f, position =>
    if position ≥ clusterSize w ∧ f.currentCluster < endCluster then
      seekLoop w rounds { f with
        currentCluster := fat32GetNextCluster w f.currentCluster
        position := f.position + clusterSize w } (position - clusterSize w)
    else some (f, position)

def fat32Seek (fd position : Nat) : Fat Bool := do
  let w ← Eff.get
  match fileOf w fd with
  | none => return false
  | some f =>
    let position := if position > f.fileSize then f.fileSize else position
    let start := { f with currentCluster := f.startCluster, position := 0, clusterPosition := 0 }
    match seekLoop w (position + 1) start position with
    | none => Eff.diverge
    | some (f, position) =>
      setFile fd { f with clusterPosition := position, position := f.position + position }
      return true

/-! ## Requests -/

/-- What can be asked of a mounted volume. -/
inductive Request
  | create (path : CStr)
  | mkdir (path : CStr)
  | remove (path : CStr)
  | rmdir (path : CStr)
  | open (path : CStr)
  | close (fd : Nat)
  | read (fd size : Nat)
  | write (fd : Nat) (src : List UInt8)
  | seek (fd position : Nat)

/-- Carries out a request and says whether it succeeded. -/
def Request.run : Request → Fat Bool
  | .create path => fat32Create path
  | .mkdir path => fat32MkdirPath path
  | .remove path => fat32Remove path
  | .rmdir path => fat32RmdirPath path
  | .open path => do return (← fat32Open path).isSome
  | .close fd => do
    fat32Close fd
    return true
  | .read fd size => do return (← fat32Read fd size).isSome
  | .write fd src => do return decide (0 ≤ (← fat32Write fd src))
  | .seek fd position => fat32Seek fd position

end ContinuumOS.Fat32.Files
