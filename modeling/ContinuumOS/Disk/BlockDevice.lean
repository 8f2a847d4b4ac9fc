import ContinuumOS.Disk.Detection
import ContinuumOS.Fat32.Volume

/-! # The block device layer

`src/kernel/blockdev.cpp` on top of the IDE driver, and the block device the
FAT32 driver is verified over: every run of requests gets the answers that
device gives, for some choice of the requests that fail. -/
namespace ContinuumOS.Disk.BlockDevice
open ContinuumOS.Disk.Ide ContinuumOS.Disk.Ata ContinuumOS.Disk.Polling ContinuumOS.Disk.Transfers
open ContinuumOS.Disk.Detection ContinuumOS.Fat32.Volume ContinuumOS.Lib.Effect
open ContinuumOS.Lib.Memory

/-- `BLOCKDEV_TYPE_IDE` -/
def blockdevTypeIde : UInt8 := 1

def blockdevSuccess : Int := 0
def blockdevError : Int := -1
def blockdevNotFound : Int := -2

def maxBlockDevices : Nat := 8

/-- `blockdev_info_t`; the name up to its terminator. -/
structure BlockdevInfo where
  type : UInt8
  deviceId : UInt8
  sectorCount : UInt32
  sectorSize : UInt16
  present : Bool
  name : List UInt8
  deriving DecidableEq, Repr

/-- `devices` and `device_count` -/
structure Registry where
  devices : Nat → BlockdevInfo
  deviceCount : Nat

def blockdevRegister (info : BlockdevInfo) (r : Registry) : Int × Registry :=
  if maxBlockDevices ≤ r.deviceCount then (blockdevError, r)
  else (blockdevSuccess, ⟨Function.update r.devices r.deviceCount info, r.deviceCount + 1⟩)

/-- The record of IDE drive `i`. -/
def infoOf (drive : IdeDrive) (i : Nat) : BlockdevInfo where
  type := blockdevTypeIde
  deviceId := UInt8.ofNat i
  sectorCount := drive.sectors
  sectorSize := 512
  present := true
  name := [104, 100, 48 + UInt8.ofNat i]

/-- The loop of `blockdev_init` over the drives from `i` on. -/
def registerDrives (t : Table) : Nat → Nat → Registry → Registry
  | 0, _, r => r
  | left + 1, i, r =>
    if maxBlockDevices ≤ r.deviceCount then r
    else
      match ideGetDrive t i with
      | some drive => registerDrives t left (i + 1) (blockdevRegister (infoOf drive i) r).2
      | none => registerDrives t left (i + 1) r

variable {σ : Type}

def blockdevInit (p : Ports σ) (stack : UInt16 × UInt8 → IdeDrive × Words) (s : σ) :
    (Registry × Table) × σ :=
  let found := ideInit p stack s
  ((registerDrives found.1 found.1.driveCount 0 ⟨fun _ => ⟨0, 0, 0, 0, false, []⟩, 0⟩, found.1), found.2)

def blockdevRead (p : Ports σ) (r : Registry) (t : Table) (device : UInt8) (sector : UInt32) (count : UInt8)
    (buffer : Words) (s : σ) : (Int × Words) × σ :=
  let dev := r.devices device.toNat
  if r.deviceCount ≤ device.toNat ∨ ¬ dev.present then ((blockdevNotFound, buffer), s)
  else if dev.sectorCount ≤ sector then ((blockdevError, buffer), s)
  else if dev.type = blockdevTypeIde then
    let x := ideReadSectors p t dev.deviceId.toNat sector count buffer s
    ((if x.1.1 then 0 else -1, x.1.2), x.2)
  else ((blockdevError, buffer), s)

def blockdevWrite (p : Ports σ) (r : Registry) (t : Table) (device : UInt8) (sector : UInt32) (count : UInt8)
    (buffer : Words) (s : σ) : Int × σ :=
  let dev := r.devices device.toNat
  if r.deviceCount ≤ device.toNat ∨ ¬ dev.present then (blockdevNotFound, s)
  else if dev.sectorCount ≤ sector ∨ dev.sectorCount < count.toUInt32 ∨
      dev.sectorCount < sector + count.toUInt32 then (blockdevError, s)
  else if dev.type = blockdevTypeIde then
    let x := ideWriteSectors p t dev.deviceId.toNat sector count buffer s
    (if x.1 then blockdevSuccess else blockdevError, x.2)
  else (blockdevError, s)

/-! ## Words as bytes -/

/-- The bytes of an array of words, little endian. -/
def bytesOf (m : Words) : Buf :=
  fun a => if a % 2 = 0 then (m (a / 2)).toUInt8 else (m (a / 2) >>> 8).toUInt8

theorem bytesOf_storeWords (m f : Words) (a len : Nat) :
    bytesOf (storeWords m a len f) = store (bytesOf m) (2 * a) (2 * len) (bytesOf f) := by
  funext x
  by_cases hx : 2 * a ≤ x ∧ x < 2 * a + 2 * len
  · have hword : storeWords m a len f (x / 2) = f ((x - 2 * a) / 2) := by
      rw [storeWords, if_pos (by omega)]
      exact congrArg f (by omega)
    rw [store_inside hx.1 hx.2, bytesOf, bytesOf, hword, show (x - 2 * a) % 2 = x % 2 by omega]
  · rw [store_outside (by omega), bytesOf, bytesOf, storeWords_outside (by omega)]

/-! ## Requests -/

inductive Request where
  | read (device : UInt8) (sector : UInt32) (count : UInt8) (buffer : Words)
  | write (device : UInt8) (sector : UInt32) (count : UInt8) (buffer : Words)

/-- What the caller learns: the bytes of its buffer, or an error; whether the
write went well. -/
inductive Answer where
  | data (bytes : Option Buf)
  | done (ok : Bool)

/-- A request served through the ports. -/
def serve (p : Ports σ) (r : Registry) (t : Table) (s : σ) : Request → Answer × σ
  | .read device sector count buffer =>
    let x := blockdevRead p r t device sector count buffer s
    (.data (if x.1.1 = blockdevSuccess then some (bytesOf x.1.2) else none), x.2)
  | .write device sector count buffer =>
    let x := blockdevWrite p r t device sector count buffer s
    (.done (decide (x.1 = blockdevSuccess)), x.2)

/-- The same request on the device the FAT32 driver is verified over. -/
def serveWorld : Request → Fat Answer
  | .read device sector count buffer => do
    let bytes ← Fat32.Volume.blockdevRead device.toNat sector.toNat count.toNat (bytesOf buffer)
    return .data bytes
  | .write device sector count buffer => do
    let ok ← Fat32.Volume.blockdevWrite device.toNat sector.toNat count.toNat (bytesOf buffer)
    return .done ok

def run (p : Ports σ) (r : Registry) (t : Table) : List Request → σ → List Answer × σ
  | [], s => ([], s)
  | req :: reqs, s =>
    let x := serve p r t s req
    let rest := run p r t reqs x.2
    (x.1 :: rest.1, rest.2)

def runWorld : List Request → Fat (List Answer)
  | [] => return []
  | req :: reqs => do
    let a ← serveWorld req
    let rest ← runWorld reqs
    return a :: rest

/-! ## The port-level device refines the verified one

A registry that stands for drives at different positions; a world of the FAT32
driver that shows the contents of these drives; and one request, then any run,
on both levels. -/

variable {p : Ports σ} {view : σ → UInt16 → Channel} {r : Registry} {t : Table} {s s' : σ}
  {w : World}

/-- The devices are IDE drives at positions of their own. -/
structure Wired (r : Registry) (t : Table) : Prop where
  count : r.deviceCount ≤ ideMaxDrives
  type : ∀ i < r.deviceCount, (r.devices i).type = blockdevTypeIde
  device : ∀ i < r.deviceCount, (r.devices i).deviceId.toNat = i
  present : ∀ i < r.deviceCount, (r.devices i).present = true
  sectors : ∀ i < r.deviceCount, (r.devices i).sectorCount = (t.drives i).sectors
  base : ∀ i < r.deviceCount, IsBase (t.drives i).basePort
  apart : ∀ i < r.deviceCount, ∀ j < r.deviceCount, i ≠ j → (t.drives i).basePort = (t.drives j).basePort →
    isSlave (t.drives i).driveNum ≠ isSlave (t.drives j).driveNum

/-- The world shows the drives as they are between two requests. -/
structure Mirrors (view : σ → UInt16 → Channel) (r : Registry) (t : Table) (s : σ) (w : World) : Prop where
  rest : AtRest view s
  sizes : ∀ i < r.deviceCount, (t.drives i).sectors.toNat = (driveOf view (t.drives i) s).size
  present : ∀ i, w.present i = decide (i < r.deviceCount)
  counts : ∀ i < r.deviceCount, (w.sectorCount i).val = (driveOf view (t.drives i) s).size
  sectors : ∀ i < r.deviceCount, w.sectors i = bytesOf (driveOf view (t.drives i) s).words

theorem Mirrors.same (h : Mirrors view r t s w) (hrest : AtRest view s')
    (hsame : ∀ b, (view s' b).drives = (view s b).drives) : Mirrors view r t s' w := by
  have hdrive : ∀ d, driveOf view d s' = driveOf view d s := fun d => by rw [driveOf, hsame]; rfl
  refine ⟨hrest, ?_, h.present, ?_, ?_⟩
  · intro i hi
    rw [hdrive, h.sizes i hi]
  · intro i hi
    rw [hdrive, h.counts i hi]
  · intro i hi
    rw [hdrive, h.sectors i hi]

/-! ## The drive that is written, and the others -/

theorem driveOf_written {d : IdeDrive} {lba : UInt32} {k : Nat} {buffer : Words}
    (h : ∀ b, (view s' b).drives = written view d lba k buffer s b) :
    driveOf view d s' = { driveOf view d s with
      words := storeWords (driveOf view d s).words (reached lba * sectorWords) (k * sectorWords) buffer } := by
  rw [driveOf, h, written, if_pos rfl, Function.update_self]

theorem driveOf_other {d e : IdeDrive} {lba : UInt32} {k : Nat} {buffer : Words}
    (h : ∀ b, (view s' b).drives = written view d lba k buffer s b)
    (hne : e.basePort = d.basePort → isSlave e.driveNum ≠ isSlave d.driveNum) :
    driveOf view e s' = driveOf view e s := by
  rw [driveOf, h, written]
  by_cases hb : e.basePort = d.basePort
  · rw [if_pos hb, Function.update_of_ne (hne hb)]
    rfl
  · rw [if_neg hb]
    rfl

theorem Mirrors.written (hw : Wired r t) (h : Mirrors view r t s w) (hrest : AtRest view s') {i : Nat}
    (hi : i < r.deviceCount) {lba : UInt32} (hlba : reached lba = lba.toNat) {k : Nat} {buffer : Words}
    (hwrite : ∀ b, (view s' b).drives = Transfers.written view (t.drives i) lba k buffer s b) :
    Mirrors view r t s' (writeBytes w i (lba.toNat * sectorSize) (k * sectorSize) (bytesOf buffer)) := by
  have hother : ∀ j < r.deviceCount, j ≠ i → driveOf view (t.drives j) s' = driveOf view (t.drives j) s :=
    fun j hj hji => driveOf_other hwrite (hw.apart j hj i hi hji)
  have hsize : ∀ j < r.deviceCount,
      (driveOf view (t.drives j) s').size = (driveOf view (t.drives j) s).size := by
    intro j hj
    by_cases hji : j = i
    · rw [hji, driveOf_written hwrite]
    · rw [hother j hj hji]
  refine ⟨hrest, ?_, h.present, ?_, ?_⟩
  · intro j hj
    rw [hsize j hj, h.sizes j hj]
  · intro j hj
    rw [hsize j hj, ← h.counts j hj]
    rfl
  · intro j hj
    by_cases hji : j = i
    · subst hji
      rw [driveOf_written hwrite, bytesOf_storeWords, hlba, ← h.sectors j hj]
      simp only [writeBytes, if_pos, copyInto]
      rw [show 2 * (lba.toNat * sectorWords) = lba.toNat * sectorSize by
          simp only [sectorWords, sectorSize]; omega,
        show 2 * (k * sectorWords) = k * sectorSize by simp only [sectorWords, sectorSize]; omega]
    · rw [hother j hj hji, ← h.sectors j hj]
      exact if_neg hji

/-! ## A request -/

/-- The choice of the next fault, in front of the later ones. -/
def consFault (f : Option Nat) (rest : Nat → Option Nat) : Nat → Option Nat
  | 0 => f
  | n + 1 => rest n

theorem transferOk_iff (hm : Mirrors view r t s w) {device : UInt8} (hd : device.toNat < r.deviceCount)
    (sector : UInt32) (count : UInt8) (f : Nat → Option Nat) :
    transferOk { w with faults := f } device.toNat sector.toNat count.toNat = true ↔
      sector.toNat + count.toNat ≤ (driveOf view (t.drives device.toNat) s).size ∧ count ≠ 0 := by
  have hcount : count.toNat % 256 = count.toNat := Nat.mod_eq_of_lt count.toNat_lt
  have hzero : count.toNat ≠ 0 ↔ count ≠ 0 :=
    ⟨fun h h0 => h (congrArg UInt8.toNat h0), fun h h0 => h (UInt8.toNat_inj.mp h0)⟩
  simp only [transferOk, hm.present, hm.counts _ hd, hcount, hd, decide_true, Bool.true_and,
    Bool.and_eq_true, decide_eq_true_eq, bne_iff_ne, hzero]

theorem transferOk_absent (hm : Mirrors view r t s w) {device : UInt8} (hd : ¬ device.toNat < r.deviceCount)
    (sector count : Nat) (f : Nat → Option Nat) :
    transferOk { w with faults := f } device.toNat sector count = false := by
  simp [transferOk, hm.present, hd]

theorem reached_eq (hp : Follows p view) (hw : Wired r t) {i : Nat} (hi : i < r.deviceCount)
    {lba : UInt32} (h : lba.toNat < (driveOf view (t.drives i) s).size) : reached lba = lba.toNat := by
  have hsize : (driveOf view (t.drives i) s).size ≤ 2 ^ 28 :=
    (hp.identity (isSlave (t.drives i).driveNum) (hw.base i hi)).2
  exact Nat.mod_eq_of_lt (by omega)

theorem bytesOf_wordsFrom (d : Drive) (lba i : Nat) :
    bytesOf (wordsFrom d lba) i = bytesOf d.words (lba * sectorSize + i) := by
  have h₁ : (lba * sectorSize + i) % 2 = i % 2 := by simp only [sectorSize]; omega
  have h₂ : (lba * sectorSize + i) / 2 = lba * sectorWords + i / 2 := by
    simp only [sectorSize, sectorWords]
    omega
  rw [bytesOf, bytesOf, h₁, h₂]
  rfl

/-- A request and its answer on both levels: the faults in front of the later
ones can be chosen so that the world answers the same. -/
def Answers (req : Request) (a : Answer) (w w' : World) : Prop :=
  ∀ rest, ∃ faults, serveWorld req { w with faults := faults } = some (a, { w' with faults := rest })

/-! ### The world's answers -/

section World
variable {device : UInt8} {sector : UInt32} {count : UInt8} {buffer : Words}

theorem answers_read_refused
    (h : ∀ f, transferOk { w with faults := f } device.toNat sector.toNat count.toNat = false) :
    Answers (.read device sector count buffer) (.data none) w w := by
  intro rest
  refine ⟨rest, ?_⟩
  simp only [serveWorld, bind_run, Fat32.Volume.blockdevRead, h, Bool.false_eq_true, if_false,
    Option.bind_some, pure_run]

theorem answers_read_failed
    (h : ∀ f, transferOk { w with faults := f } device.toNat sector.toNat count.toNat = true) :
    Answers (.read device sector count buffer) (.data none) w w := by
  intro rest
  refine ⟨consFault (some 0) rest, ?_⟩
  simp only [serveWorld, bind_run, Fat32.Volume.blockdevRead, h, if_true, consFault, Option.bind_some,
    pure_run]
  rfl

theorem answers_read_ok
    (h : ∀ f, transferOk { w with faults := f } device.toNat sector.toNat count.toNat = true) :
    Answers (.read device sector count buffer)
      (.data (some (copyInto (bytesOf buffer) 0 (count.toNat * sectorSize)
        fun i => w.sectors device.toNat (sector.toNat * sectorSize + i)))) w w := by
  intro rest
  refine ⟨consFault none rest, ?_⟩
  simp only [serveWorld, bind_run, Fat32.Volume.blockdevRead, h, if_true, consFault, Option.bind_some,
    pure_run, Nat.mod_eq_of_lt (show count.toNat < 256 from count.toNat_lt)]
  rfl

theorem answers_write_refused
    (h : ∀ f, transferOk { w with faults := f } device.toNat sector.toNat count.toNat = false) :
    Answers (.write device sector count buffer) (.done false) w w := by
  intro rest
  refine ⟨rest, ?_⟩
  simp only [serveWorld, bind_run, Fat32.Volume.blockdevWrite, h, Bool.false_eq_true, if_false,
    Option.bind_some, pure_run]

theorem answers_write_failed {k : Nat} (hk : k ≤ count.toNat)
    (h : ∀ f, transferOk { w with faults := f } device.toNat sector.toNat count.toNat = true) :
    Answers (.write device sector count buffer) (.done false) w
      (writeBytes w device.toNat (sector.toNat * sectorSize) (k * sectorSize) (bytesOf buffer)) := by
  intro rest
  refine ⟨consFault (some k) rest, ?_⟩
  simp only [serveWorld, bind_run, Fat32.Volume.blockdevWrite, h, if_true, consFault, Option.bind_some,
    pure_run, Nat.mod_eq_of_lt (show count.toNat < 256 from count.toNat_lt), Nat.min_eq_left hk]
  rfl

theorem answers_write_ok
    (h : ∀ f, transferOk { w with faults := f } device.toNat sector.toNat count.toNat = true) :
    Answers (.write device sector count buffer) (.done true) w
      (writeBytes w device.toNat (sector.toNat * sectorSize) (count.toNat * sectorSize)
        (bytesOf buffer)) := by
  intro rest
  refine ⟨consFault none rest, ?_⟩
  simp only [serveWorld, bind_run, Fat32.Volume.blockdevWrite, h, if_true, consFault, Option.bind_some,
    pure_run, Nat.mod_eq_of_lt (show count.toNat < 256 from count.toNat_lt)]
  rfl

end World

theorem atRest_update (hm : Mirrors view r t s w) {base : UInt16} {c : Channel}
    (hview : view s' = Function.update (view s) base c) (hc : c.phase = .idle) : AtRest view s' := by
  intro b hb
  rw [hview]
  by_cases hbase : b = base
  · rw [hbase, Function.update_self, hc]
  · rw [Function.update_of_ne hbase]
    exact hm.rest b hb

theorem device_there (hw : Wired r t) {device : UInt8} (hd : device.toNat < r.deviceCount) :
    ¬ (r.deviceCount ≤ device.toNat ∨ ¬ (r.devices device.toNat).present = true) := by
  rw [hw.present _ hd]
  simpa using hd

theorem read_within (hp : Follows p view) (hq : Prompt p view) (hw : Wired r t)
    (hm : Mirrors view r t s w) {device : UInt8} (hd : device.toNat < r.deviceCount) {sector : UInt32}
    (hlt : sector.toNat < (driveOf view (t.drives device.toNat) s).size) (count : UInt8) (buffer : Words) :
    Mirrors view r t (ideReadSectors p t device.toNat sector count buffer s).2 w ∧
      Answers (.read device sector count buffer)
        (.data (if (ideReadSectors p t device.toNat sector count buffer s).1.1 then
          some (bytesOf (ideReadSectors p t device.toNat sector count buffer s).1.2) else none)) w w := by
  have hreach := reached_eq hp hw hd hlt
  have hbase := hw.base _ hd
  obtain ⟨hsame, hexact⟩ := read_sectors_exact hp hbase (hm.rest _ hbase) sector count buffer
  obtain ⟨c, hview, hidle⟩ := read_sectors_prompt hp hq hbase (hm.rest _ hbase) sector count buffer
  generalize ideReadSectors p t device.toNat sector count buffer s = x at *
  refine ⟨hm.same (atRest_update hm hview hidle) hsame, ?_⟩
  by_cases hsuccess : x.1.1 = true
  · obtain ⟨hn, hrange, hwords⟩ := hexact hsuccess
    rw [hreach] at hrange hwords
    have hbytes : bytesOf x.1.2 = copyInto (bytesOf buffer) 0 (count.toNat * sectorSize)
        fun i => w.sectors device.toNat (sector.toNat * sectorSize + i) := by
      rw [hwords, bytesOf_storeWords, hm.sectors _ hd, copyInto,
        show 2 * (count.toNat * sectorWords) = count.toNat * sectorSize by
          simp only [sectorWords, sectorSize]; omega]
      exact congrArg _ (funext fun i => bytesOf_wordsFrom _ _ _)
    rw [if_pos hsuccess, hbytes]
    exact answers_read_ok fun f => (transferOk_iff hm hd sector count f).mpr ⟨hrange, hn⟩
  · rw [if_neg hsuccess]
    by_cases hok : sector.toNat + count.toNat ≤ (driveOf view (t.drives device.toNat) s).size ∧ count ≠ 0
    · exact answers_read_failed fun f => (transferOk_iff hm hd sector count f).mpr hok
    · exact answers_read_refused fun f =>
        Bool.eq_false_iff.mpr fun h => hok ((transferOk_iff hm hd sector count f).mp h)

theorem read_refines (hp : Follows p view) (hq : Prompt p view) (hw : Wired r t)
    (hm : Mirrors view r t s w) (device : UInt8) (sector : UInt32) (count : UInt8) (buffer : Words) :
    Mirrors view r t (serve p r t s (.read device sector count buffer)).2 w ∧
      Answers (.read device sector count buffer) (serve p r t s (.read device sector count buffer)).1 w w := by
  by_cases hd : device.toNat < r.deviceCount
  · by_cases hsector : (r.devices device.toNat).sectorCount ≤ sector
    · -- behind the end: neither level starts a transfer
      have hserve : serve p r t s (.read device sector count buffer) = (.data none, s) := by
        simp only [serve, BlockDevice.blockdevRead, if_neg (device_there hw hd), if_pos hsector]
        rfl
      rw [hserve]
      refine ⟨hm, answers_read_refused fun f => Bool.eq_false_iff.mpr fun h => ?_⟩
      obtain ⟨hle, hne⟩ := (transferOk_iff hm hd sector count f).mp h
      rw [← hm.sizes _ hd, ← hw.sectors _ hd] at hle
      have hge := UInt32.le_iff_toNat_le.mp hsector
      exact hne (UInt8.toNat_inj.mp (by change count.toNat = 0; omega))
    · have hlt : sector.toNat < (driveOf view (t.drives device.toNat) s).size := by
        rw [← hm.sizes _ hd, ← hw.sectors _ hd]
        exact UInt32.lt_iff_toNat_lt.mp (UInt32.not_le.mp hsector)
      have hserve : serve p r t s (.read device sector count buffer) =
          (.data (if (ideReadSectors p t device.toNat sector count buffer s).1.1 then
            some (bytesOf (ideReadSectors p t device.toNat sector count buffer s).1.2) else none),
            (ideReadSectors p t device.toNat sector count buffer s).2) := by
        simp only [serve, BlockDevice.blockdevRead, if_neg (device_there hw hd), if_neg hsector,
          hw.type _ hd, if_true, hw.device _ hd]
        cases (ideReadSectors p t device.toNat sector count buffer s).1.1 <;> rfl
      rw [hserve]
      exact read_within hp hq hw hm hd hlt count buffer
  · -- no such device
    have hgone : r.deviceCount ≤ device.toNat ∨ ¬ (r.devices device.toNat).present :=
      .inl (Nat.le_of_not_lt hd)
    have hserve : serve p r t s (.read device sector count buffer) = (.data none, s) := by
      simp only [serve, BlockDevice.blockdevRead, if_pos hgone]
      rfl
    rw [hserve]
    exact ⟨hm, answers_read_refused fun f => transferOk_absent hm hd sector.toNat count.toNat f⟩

theorem write_within (hp : Follows p view) (hq : Prompt p view) (hw : Wired r t)
    (hm : Mirrors view r t s w) {device : UInt8} (hd : device.toNat < r.deviceCount) {sector : UInt32}
    (hlt : sector.toNat < (driveOf view (t.drives device.toNat) s).size) {count : UInt8}
    (hrange : sector.toNat + count.toNat ≤ (driveOf view (t.drives device.toNat) s).size)
    (buffer : Words) :
    ∃ w', Mirrors view r t (ideWriteSectors p t device.toNat sector count buffer s).2 w' ∧
      Answers (.write device sector count buffer)
        (.done (ideWriteSectors p t device.toNat sector count buffer s).1) w w' := by
  have hreach := reached_eq hp hw hd hlt
  have hbase := hw.base _ hd
  obtain ⟨k, hk, c, hview, hidle, hwrite, hall⟩ :=
    write_sectors_prompt hp hq hbase (hm.rest _ hbase) sector count buffer
  have hzero : count = 0 → (ideWriteSectors p t device.toNat sector count buffer s).1 = false := by
    rintro rfl
    simp only [ideWriteSectors, if_true]
    split <;> rfl
  generalize ideWriteSectors p t device.toNat sector count buffer s = x at *
  have hrest := atRest_update hm hview hidle
  by_cases hn : count = 0
  · obtain rfl : k = 0 := by
      rw [hn] at hk
      exact Nat.le_zero.mp hk
    refine ⟨w, hm.same hrest fun b => (hwrite b).trans (written_zero _ _ _ _ b), ?_⟩
    rw [hzero hn]
    exact answers_write_refused fun f =>
      Bool.eq_false_iff.mpr fun h => ((transferOk_iff hm hd sector count f).mp h).2 hn
  have hok : ∀ f, transferOk { w with faults := f } device.toNat sector.toNat count.toNat = true :=
    fun f => (transferOk_iff hm hd sector count f).mpr ⟨hrange, hn⟩
  refine ⟨_, hm.written hw hrest hd hreach hwrite, ?_⟩
  by_cases hsuccess : x.1 = true
  · rw [hsuccess, hall hsuccess]
    exact answers_write_ok hok
  · rw [Bool.eq_false_iff.mpr hsuccess]
    exact answers_write_failed hk hok

/-- The bounds check of `blockdev_write` does not wrap on sectors the device has. -/
theorem write_bounds {size : UInt32} (sector : UInt32) (count : UInt8) (hsize : size.toNat ≤ 2 ^ 28) :
    ¬ (size ≤ sector ∨ size < count.toUInt32 ∨ size < sector + count.toUInt32) ↔
      sector.toNat < size.toNat ∧ sector.toNat + count.toNat ≤ size.toNat := by
  have hcount := count.toNat_lt
  rw [UInt32.le_iff_toNat_le, UInt32.lt_iff_toNat_lt, UInt32.lt_iff_toNat_lt, UInt32.toNat_add,
    UInt8.toNat_toUInt32]
  constructor
  · intro h
    rw [Nat.mod_eq_of_lt (by omega)] at h
    omega
  · intro h
    rw [Nat.mod_eq_of_lt (by omega)]
    omega

theorem write_refines (hp : Follows p view) (hq : Prompt p view) (hw : Wired r t)
    (hm : Mirrors view r t s w) (device : UInt8) (sector : UInt32) (count : UInt8) (buffer : Words) :
    ∃ w', Mirrors view r t (serve p r t s (.write device sector count buffer)).2 w' ∧
      Answers (.write device sector count buffer) (serve p r t s (.write device sector count buffer)).1
        w w' := by
  by_cases hd : device.toNat < r.deviceCount
  · have hsize : (r.devices device.toNat).sectorCount.toNat =
        (driveOf view (t.drives device.toNat) s).size := by
      rw [hw.sectors _ hd, hm.sizes _ hd]
    have hbounds := write_bounds sector count (by
      rw [hsize]
      exact (hp.identity (isSlave (t.drives device.toNat).driveNum) (hw.base _ hd)).2)
    by_cases hrefused : (r.devices device.toNat).sectorCount ≤ sector ∨
        (r.devices device.toNat).sectorCount < count.toUInt32 ∨
        (r.devices device.toNat).sectorCount < sector + count.toUInt32
    · have hserve : serve p r t s (.write device sector count buffer) = (.done false, s) := by
        simp only [serve, BlockDevice.blockdevWrite, if_neg (device_there hw hd), if_pos hrefused]
        rfl
      rw [hserve]
      refine ⟨w, hm, answers_write_refused fun f => Bool.eq_false_iff.mpr fun h => ?_⟩
      obtain ⟨hle, hne⟩ := (transferOk_iff hm hd sector count f).mp h
      have hpos : count.toNat ≠ 0 := fun h0 => hne (UInt8.toNat_inj.mp h0)
      exact hbounds.mpr ⟨by omega, by omega⟩ hrefused
    · obtain ⟨hlt, hrange⟩ := hbounds.mp hrefused
      rw [hsize] at hlt hrange
      have hserve : serve p r t s (.write device sector count buffer) =
          (.done (ideWriteSectors p t device.toNat sector count buffer s).1,
            (ideWriteSectors p t device.toNat sector count buffer s).2) := by
        simp only [serve, BlockDevice.blockdevWrite, if_neg (device_there hw hd), if_neg hrefused,
          hw.type _ hd, if_true, hw.device _ hd]
        cases (ideWriteSectors p t device.toNat sector count buffer s).1 <;> rfl
      rw [hserve]
      exact write_within hp hq hw hm hd hlt hrange buffer
  · have hgone : r.deviceCount ≤ device.toNat ∨ ¬ (r.devices device.toNat).present :=
      .inl (Nat.le_of_not_lt hd)
    have hserve : serve p r t s (.write device sector count buffer) = (.done false, s) := by
      simp only [serve, BlockDevice.blockdevWrite, if_pos hgone]
      rfl
    rw [hserve]
    exact ⟨w, hm, answers_write_refused fun f => transferOk_absent hm hd sector.toNat count.toNat f⟩

/-! ## A run -/

theorem serve_refines (hp : Follows p view) (hq : Prompt p view) (hw : Wired r t)
    (hm : Mirrors view r t s w) (req : Request) :
    ∃ w', Mirrors view r t (serve p r t s req).2 w' ∧ Answers req (serve p r t s req).1 w w' := by
  cases req with
  | read device sector count buffer => exact ⟨w, read_refines hp hq hw hm device sector count buffer⟩
  | write device sector count buffer => exact write_refines hp hq hw hm device sector count buffer

theorem run_refines (hp : Follows p view) (hq : Prompt p view) (hw : Wired r t) (reqs : List Request) :
    ∀ {s : σ} {w : World}, Mirrors view r t s w →
      ∃ faults w', Mirrors view r t (run p r t reqs s).2 w' ∧
        runWorld reqs { w with faults := faults } = some ((run p r t reqs s).1, w') := by
  induction reqs with
  | nil => exact fun {s w} hm => ⟨w.faults, w, hm, rfl⟩
  | cons req reqs ih =>
    intro s w hm
    obtain ⟨w₁, hm₁, hserve⟩ := serve_refines hp hq hw hm req
    -- the later faults first, then the one of this request in front of them
    obtain ⟨later, w₂, hm₂, hrun⟩ := ih hm₁
    obtain ⟨faults, hfirst⟩ := hserve later
    refine ⟨faults, w₂, hm₂, ?_⟩
    simp only [runWorld, bind_run, hfirst, Option.bind_some, hrun, pure_run, run]

/-! ## The registry -/

theorem ideGetDrive_existing {i : Nat} (hi : i < ideMaxDrives) (h : (t.drives i).existing = true) :
    ideGetDrive t i = some (t.drives i) := by
  refine if_neg ?_
  rw [h, not_or]
  exact ⟨Nat.not_le.mpr hi, by simp⟩

theorem registerDrives_spec (hmax : t.driveCount ≤ ideMaxDrives)
    (hex : ∀ i < t.driveCount, (t.drives i).existing = true) : ∀ (left i : Nat) (r : Registry),
    i + left = t.driveCount → r.deviceCount = i →
    (∀ j < i, r.devices j = infoOf (t.drives j) j) →
    (registerDrives t left i r).deviceCount = t.driveCount ∧
      ∀ j < t.driveCount, (registerDrives t left i r).devices j = infoOf (t.drives j) j
  | 0, i, r, hi, hr, hold => by
    obtain rfl : i = t.driveCount := hi
    exact ⟨hr, hold⟩
  | left + 1, i, r, hi, hr, hold => by
    have hroom : ¬ maxBlockDevices ≤ r.deviceCount := by
      simp only [ideMaxDrives] at hmax
      simp only [maxBlockDevices]
      omega
    have hget := ideGetDrive_existing (t := t) (i := i) (by omega) (hex i (by omega))
    have hstep : registerDrives t (left + 1) i r =
        registerDrives t left (i + 1) (blockdevRegister (infoOf (t.drives i) i) r).2 := by
      simp only [registerDrives, if_neg hroom, hget]
    rw [hstep, blockdevRegister, if_neg hroom]
    refine registerDrives_spec hmax hex left (i + 1) _ (by omega) (by rw [hr]) fun j hj => ?_
    simp only [hr]
    by_cases hji : j = i
    · rw [hji, Function.update_self]
    · rw [Function.update_of_ne hji]
      exact hold j (by omega)

theorem probed_nodup : (probed.map fun x => (x.1, isSlave x.2)).Nodup := by decide

theorem blockdevInit_spec (hp : Follows p view) (hq : Prompt p view)
    (stack : UInt16 × UInt8 → IdeDrive × Words) (hrest : AtRest view s) :
    AtRest view (blockdevInit p stack s).2 ∧
    (∀ b, (view (blockdevInit p stack s).2 b).drives = (view s b).drives) ∧
    Wired (blockdevInit p stack s).1.1 (blockdevInit p stack s).1.2 ∧
    ∀ i < (blockdevInit p stack s).1.1.deviceCount,
      ((blockdevInit p stack s).1.2.drives i).sectors.toNat =
        (driveOf view ((blockdevInit p stack s).1.2.drives i) s).size := by
  obtain ⟨hrest', hsame, -, found, hsub, hlen, hmatch⟩ := init_spec hp hq stack hrest
  generalize hx : ideInit p stack s = x at *
  have hinit : blockdevInit p stack s =
      ((registerDrives x.1 x.1.driveCount 0 ⟨fun _ => ⟨0, 0, 0, 0, false, []⟩, 0⟩, x.1), x.2) := by
    rw [blockdevInit, hx]
  rw [hinit]
  have hmax : x.1.driveCount ≤ ideMaxDrives := by
    rw [hlen]
    exact hsub.length_le
  have hat : ∀ i < x.1.driveCount, ∃ pos, found[i]? = some pos ∧ pos ∈ probed ∧
      Matches view s pos (x.1.drives i) := by
    intro i hi
    rw [hlen] at hi
    exact ⟨found[i], List.getElem?_eq_getElem hi, hsub.subset (List.getElem_mem hi),
      hmatch i _ (List.getElem?_eq_getElem hi)⟩
  obtain ⟨hcount, hdevices⟩ := registerDrives_spec hmax
    (fun i hi => by
      obtain ⟨pos, -, -, hpos⟩ := hat i hi
      exact hpos.existing) x.1.driveCount 0 ⟨fun _ => ⟨0, 0, 0, 0, false, []⟩, 0⟩ (Nat.zero_add _) rfl
    fun j hj => absurd hj (by omega)
  refine ⟨hrest', hsame, ⟨?_, ?_, ?_, ?_, ?_, ?_, ?_⟩, ?_⟩
  · exact hcount.le.trans hmax
  · intro i hi
    rw [hdevices i (hcount ▸ hi)]
    rfl
  · intro i hi
    rw [hdevices i (hcount ▸ hi)]
    have : i < 4 := (hcount ▸ hi).trans_le hmax
    simp only [infoOf, UInt8.toNat_ofNat']
    omega
  · intro i hi
    rw [hdevices i (hcount ▸ hi)]
    rfl
  · intro i hi
    rw [hdevices i (hcount ▸ hi)]
    rfl
  · intro i hi
    obtain ⟨pos, -, hin, hpos⟩ := hat i (hcount ▸ hi)
    rw [hpos.basePort]
    simp only [probed, List.mem_cons, List.not_mem_nil, or_false] at hin
    obtain rfl | rfl | rfl | rfl := hin
    · exact .inl rfl
    · exact .inl rfl
    · exact .inr rfl
    · exact .inr rfl
  · intro i hi j hj hij hbase hslave
    obtain ⟨pi, hpi, -, hmi⟩ := hat i (hcount ▸ hi)
    obtain ⟨pj, hpj, -, hmj⟩ := hat j (hcount ▸ hj)
    rw [hmi.basePort, hmj.basePort] at hbase
    rw [hmi.driveNum, hmj.driveNum] at hslave
    -- the drives found stand at positions that differ pairwise
    have hnodup : (found.map fun x => (x.1, isSlave x.2)).Nodup :=
      probed_nodup.sublist (hsub.map _)
    have hget : ∀ (k : Nat) (x : UInt16 × UInt8), found[k]? = some x →
        (found.map fun x => (x.1, isSlave x.2))[k]? = some (x.1, isSlave x.2) := by
      intro k x hk
      rw [List.getElem?_map, hk]
      rfl
    have hi' := hget i pi hpi
    have hj' := hget j pj hpj
    rw [hbase, hslave] at hi'
    have hlt : i < (found.map fun x => (x.1, isSlave x.2)).length := by
      rw [List.length_map, ← hlen, ← hcount]
      exact hi
    exact hij ((List.getElem?_inj hlt hnodup).mp (hi'.trans hj'.symm))
  · intro i hi
    obtain ⟨pos, -, -, hpos⟩ := hat i (hcount ▸ hi)
    exact hpos.sectors

/-- A world whose devices are the drives of the machine. -/
def machineWorld (view : σ → UInt16 → Channel) (r : Registry) (t : Table) (s : σ) (w : World) : World :=
  { w with
    present := fun i => decide (i < r.deviceCount)
    sectorCount := fun i => Fin.ofNat (2 ^ 28 + 1) (driveOf view (t.drives i) s).size
    sectors := fun i => bytesOf (driveOf view (t.drives i) s).words }

/-- A world without devices. -/
def emptyWorld : World where
  fs := ⟨0, 0, 0, 0, 0, 0, 0, 0, 0, 0, false, fun _ => 0⟩
  openFiles := fun _ => ⟨0, 0, 0, 0, 0, 0, 0, 0, 0, false⟩
  mounted := false
  sectors := fun _ _ => 0
  present := fun _ => false
  sectorCount := fun _ => 0
  mallocs := fun _ => true
  faults := fun _ => none
  heapBytes := fun _ => 0

/-- A sector written and read back, and a read that runs off the end. -/
def threeRequests : List Request :=
  [.write 0 6 1 fun _ => 7, .read 0 6 1 fun _ => 0, .read 0 7 2 fun _ => 0]

end ContinuumOS.Disk.BlockDevice
