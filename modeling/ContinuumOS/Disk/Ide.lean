import Mathlib.Data.UInt
import Mathlib.Logic.Function.Basic

/-! # The IDE driver

`src/kernel/ide.cpp`: programmed input and output over the ports of the two IDE
channels. What the machine does at its ports (`include/kernel/port_io.h`) is a
parameter; its state is passed from access to access. Log messages are left
out. -/
namespace ContinuumOS.Disk.Ide

/-- The port instructions, as the machine carries them out. -/
structure Ports (σ : Type) where
  inb : UInt16 → σ → UInt8 × σ
  inw : UInt16 → σ → UInt16 × σ
  outb : UInt16 → UInt8 → σ → σ
  outw : UInt16 → UInt16 → σ → σ

/-- `uint16_t*`: words by index. -/
abbrev Words := Nat → UInt16

def idePrimaryBase : UInt16 := 0x1F0
def ideSecondaryBase : UInt16 := 0x170

def ideRegData : UInt16 := 0x00
def ideRegFeatures : UInt16 := 0x01
def ideRegSectorCount : UInt16 := 0x02
def ideRegLbaLow : UInt16 := 0x03
def ideRegLbaMid : UInt16 := 0x04
def ideRegLbaHigh : UInt16 := 0x05
def ideRegDrive : UInt16 := 0x06
def ideRegCommand : UInt16 := 0x07
def ideRegStatus : UInt16 := 0x07

def ideCmdReadSectors : UInt8 := 0x20
def ideCmdWriteSectors : UInt8 := 0x30
def ideCmdIdentify : UInt8 := 0xEC

def ideStatusErr : UInt8 := 0x01
def ideStatusDrq : UInt8 := 0x08
def ideStatusRdy : UInt8 := 0x40
def ideStatusBsy : UInt8 := 0x80

/-- `IDE_MAX_DRIVES` -/
def ideMaxDrives : Nat := 4

/-- Words of a sector. -/
def sectorWords : Nat := 256

/-- `ide_drive_t` -/
structure IdeDrive where
  basePort : UInt16
  driveNum : UInt8
  /-- `exists` -/
  existing : Bool
  sectors : UInt32
  cylinders : UInt16
  heads : UInt16
  sectorsPerTrack : UInt16
  deriving DecidableEq, Repr

/-- A record of zero bytes. -/
def IdeDrive.zero : IdeDrive := ⟨0, 0, false, 0, 0, 0, 0⟩

/-- `drives` and `drive_count` -/
structure Table where
  drives : Nat → IdeDrive
  driveCount : Nat

variable {σ : Type}

/-- The status register is read and the value dropped. -/
def glance (p : Ports σ) (base : UInt16) (s : σ) : σ := (p.inb (base + ideRegStatus) s).2

/-- 400 ns: four reads of the status register. -/
def ideDelay (p : Ports σ) (base : UInt16) (s : σ) : σ := (glance p base)^[4] s

/-- `timeout` -/
def ideTimeout : Nat := 1000000

/-- The polling loop: `true` once the drive is not busy and shows `want`. -/
def waitStatus (p : Ports σ) (base : UInt16) (want : UInt8) : Nat → σ → Bool × σ
  | 0, s => (false, s)
  | timeout + 1, s =>
    let r := p.inb (base + ideRegStatus) s
    if r.1 &&& ideStatusBsy = 0 ∧ r.1 &&& want ≠ 0 then (true, r.2)
    else if r.1 &&& ideStatusErr ≠ 0 then (false, r.2)
    else waitStatus p base want timeout r.2

/-- `ide_wait_ready(base) == 0` -/
def ideWaitReady (p : Ports σ) (base : UInt16) (s : σ) : Bool × σ :=
  waitStatus p base ideStatusRdy ideTimeout s

/-- `ide_wait_drq(base) == 0` -/
def ideWaitDrq (p : Ports σ) (base : UInt16) (s : σ) : Bool × σ :=
  waitStatus p base ideStatusDrq ideTimeout s

def ideSelectDrive (p : Ports σ) (base : UInt16) (drive : UInt8) (s : σ) : σ :=
  ideDelay p base (p.outb (base + ideRegDrive) ((0xE0 : UInt8) ||| ((drive &&& 1) <<< 4)) s)

/-- `buffer[at + i] = inw(data)` for the words that are left. -/
def fetchWords (p : Ports σ) (base : UInt16) : Nat → Nat → Words → σ → Words × σ
  | 0, _, buffer, s => (buffer, s)
  | left + 1, at', buffer, s =>
    let r := p.inw (base + ideRegData) s
    fetchWords p base left (at' + 1) (Function.update buffer at' r.1) r.2

/-- `outw(data, buffer[at + i])` for the words that are left. -/
def putWords (p : Ports σ) (base : UInt16) (buffer : Words) : Nat → Nat → σ → σ
  | 0, _, s => s
  | left + 1, at', s => putWords p base buffer left (at' + 1) (p.outw (base + ideRegData) (buffer at') s)

/-- `IDENTIFY` of the drive in a slot of the table; `none` is `-1`. -/
def ideIdentify (p : Ports σ) (t : Table) (driveId : Nat) (buffer : Words) (s : σ) :
    Option Words × σ :=
  if ideMaxDrives ≤ driveId then (none, s)
  else
    let base := (t.drives driveId).basePort
    let ready := ideWaitReady p base (ideSelectDrive p base (t.drives driveId).driveNum s)
    if ready.1 then
      let s := ideDelay p base (p.outb (base + ideRegCommand) ideCmdIdentify ready.2)
      let status := p.inb (base + ideRegStatus) s
      if status.1 = 0 then (none, status.2)
      else
        let drq := ideWaitDrq p base status.2
        if drq.1 then
          let r := fetchWords p base sectorWords 0 buffer drq.2
          (some r.1, r.2)
        else (none, drq.2)
    else (none, ready.2)

/-- The task file of a transfer, then its command. -/
def startTransfer (p : Ports σ) (base : UInt16) (driveNum : UInt8) (lba : UInt32) (count command : UInt8)
    (s : σ) : σ :=
  let s := p.outb (base + ideRegFeatures) 0x00 s
  let s := p.outb (base + ideRegSectorCount) count s
  let s := p.outb (base + ideRegLbaLow) (lba &&& 0xFF).toUInt8 s
  let s := p.outb (base + ideRegLbaMid) ((lba >>> 8) &&& 0xFF).toUInt8 s
  let s := p.outb (base + ideRegLbaHigh) ((lba >>> 16) &&& 0xFF).toUInt8 s
  let driveSelect := (0xE0 : UInt8) ||| ((driveNum &&& 1) <<< 4) ||| ((lba >>> 24) &&& 0x0F).toUInt8
  let s := p.outb (base + ideRegDrive) driveSelect s
  p.outb (base + ideRegCommand) command s

/-- The sectors of a read that are left. -/
def readLoop (p : Ports σ) (base : UInt16) : Nat → Nat → Words → σ → (Bool × Words) × σ
  | 0, _, buffer, s => ((true, buffer), s)
  | left + 1, sector, buffer, s =>
    let drq := ideWaitDrq p base s
    if drq.1 then
      let r := fetchWords p base sectorWords (sector * sectorWords) buffer drq.2
      readLoop p base left (sector + 1) r.1 r.2
    else ((false, buffer), drq.2)

/-- `ide_read_sectors`: whether it returned 0, and the buffer. -/
def ideReadSectors (p : Ports σ) (t : Table) (driveId : Nat) (lba : UInt32) (count : UInt8)
    (buffer : Words) (s : σ) : (Bool × Words) × σ :=
  if ideMaxDrives ≤ driveId ∨ ¬ (t.drives driveId).existing then ((false, buffer), s)
  else if count = 0 then ((false, buffer), s)
  else
    let base := (t.drives driveId).basePort
    let driveNum := (t.drives driveId).driveNum
    let ready := ideWaitReady p base (ideSelectDrive p base driveNum s)
    if ready.1 then
      readLoop p base count.toNat 0 buffer
        (startTransfer p base driveNum lba count ideCmdReadSectors ready.2)
    else ((false, buffer), ready.2)

/-- The sectors of a write that are left. -/
def writeLoop (p : Ports σ) (base : UInt16) (buffer : Words) : Nat → Nat → σ → Bool × σ
  | 0, _, s => (true, s)
  | left + 1, sector, s =>
    let drq := ideWaitDrq p base s
    if drq.1 then
      writeLoop p base buffer left (sector + 1)
        (putWords p base buffer sectorWords (sector * sectorWords) drq.2)
    else (false, drq.2)

/-- `ide_write_sectors(…) == 0` -/
def ideWriteSectors (p : Ports σ) (t : Table) (driveId : Nat) (lba : UInt32) (count : UInt8)
    (buffer : Words) (s : σ) : Bool × σ :=
  if ideMaxDrives ≤ driveId ∨ ¬ (t.drives driveId).existing then (false, s)
  else if count = 0 then (false, s)
  else
    let base := (t.drives driveId).basePort
    let driveNum := (t.drives driveId).driveNum
    let ready := ideWaitReady p base (ideSelectDrive p base driveNum s)
    if ready.1 then
      let r := writeLoop p base buffer count.toNat 0
        (startTransfer p base driveNum lba count ideCmdWriteSectors ready.2)
      if r.1 then ideWaitReady p base r.2 else (false, r.2)
    else (false, ready.2)

/-- `ide_detect_drive`; `temp` is what the stack held where `temp_drive` lies. -/
def ideDetectDrive (p : Ports σ) (base : UInt16) (driveNum : UInt8) (temp : IdeDrive) (buffer : Words)
    (t : Table) (s : σ) : Table × σ :=
  let tried := { temp with basePort := base, driveNum := driveNum }
  let table := { t with drives := Function.update t.drives t.driveCount tried }
  let r := ideIdentify p table t.driveCount buffer s
  match r.1 with
  | some words =>
    let found := { tried with
      existing := true
      cylinders := words 1
      heads := words 3
      sectorsPerTrack := words 6
      sectors := (words 60).toUInt32 ||| ((words 61).toUInt32 <<< 16) }
    (⟨Function.update t.drives t.driveCount found, t.driveCount + 1⟩, r.2)
  | none => ({ t with drives := Function.update t.drives t.driveCount { tried with existing := false } }, r.2)

/-- The positions of a drive in the order `ide_init` probes them. -/
def probed : List (UInt16 × UInt8) :=
  [(idePrimaryBase, 0), (idePrimaryBase, 1), (ideSecondaryBase, 0), (ideSecondaryBase, 1)]

/-- The probes of `ide_init` that are left; each call finds its own bytes on
the stack. -/
def probe (p : Ports σ) (stack : UInt16 × UInt8 → IdeDrive × Words) :
    List (UInt16 × UInt8) → Table → σ → Table × σ
  | [], t, s => (t, s)
  | at' :: rest, t, s =>
    let r := ideDetectDrive p at'.1 at'.2 (stack at').1 (stack at').2 t s
    probe p stack rest r.1 r.2

def ideInit (p : Ports σ) (stack : UInt16 × UInt8 → IdeDrive × Words) (s : σ) : Table × σ :=
  probe p stack probed ⟨fun _ => IdeDrive.zero, 0⟩ s

/-- `none` is `NULL`. -/
def ideGetDrive (t : Table) (driveId : Nat) : Option IdeDrive :=
  if ideMaxDrives ≤ driveId ∨ ¬ (t.drives driveId).existing then none else some (t.drives driveId)

end ContinuumOS.Disk.Ide
