import Mathlib.Data.UInt
import Mathlib.Logic.Function.Basic
import ContinuumOS.Lib.Memory
import ContinuumOS.Lib.Scanning

/-! # PCI configuration space

The accesses of `src/kernel/pci.cpp` through the address and data ports. What
lies behind the ports is a parameter: `Mechanism` says that they select a
register and then read or write it. -/
namespace ContinuumOS.Pci.Scan
open ContinuumOS.Lib.Memory ContinuumOS.Lib.Scanning

/-- `inl` and `outl`, as the machine carries them out. -/
structure Ports (σ : Type) where
  inl : UInt16 → σ → UInt32 × σ
  outl : UInt16 → UInt32 → σ → σ

def pciConfigAddress : UInt16 := 0x0CF8
def pciConfigData : UInt16 := 0x0CFC

variable {σ : Type}

/-- What is written to the address port. -/
def address (bus device function offset : UInt8) : UInt32 :=
  ((1 : UInt32) <<< 31) ||| (bus.toUInt32 <<< 16) ||| (device.toUInt32 <<< 11) |||
    (function.toUInt32 <<< 8) ||| (offset &&& 0xFC).toUInt32

def pciReadConfigDword (p : Ports σ) (bus device function offset : UInt8) (s : σ) : UInt32 × σ :=
  p.inl pciConfigData (p.outl pciConfigAddress (address bus device function offset) s)

/-- The word of a register that an offset names. -/
def wordOf (dword : UInt32) (offset : UInt8) : UInt16 :=
  ((dword >>> ((offset &&& 2) * 8).toUInt32) &&& 0xFFFF).toUInt16

/-- The byte of a register that an offset names. -/
def byteOf (dword : UInt32) (offset : UInt8) : UInt8 :=
  ((dword >>> ((offset &&& 3) * 8).toUInt32) &&& 0xFF).toUInt8

def pciReadConfigWord (p : Ports σ) (bus device function offset : UInt8) (s : σ) : UInt16 × σ :=
  let r := pciReadConfigDword p bus device function (offset &&& 0xFC) s
  (wordOf r.1 offset, r.2)

def pciReadConfigByte (p : Ports σ) (bus device function offset : UInt8) (s : σ) : UInt8 × σ :=
  let r := pciReadConfigDword p bus device function (offset &&& 0xFC) s
  (byteOf r.1 offset, r.2)

def pciWriteConfigDword (p : Ports σ) (bus device function offset : UInt8) (value : UInt32) (s : σ) : σ :=
  p.outl pciConfigData value (p.outl pciConfigAddress (address bus device function offset) s)

/-! ## What lies behind the ports -/

/-- Configuration space: registers by the address that selects them. -/
abbrev Space := UInt32 → UInt32

/-- Bit 31 enables the access. -/
def Enabled (a : UInt32) : Prop := a.toNat.testBit 31 = true

/-- The address port selects a register, the data port reads it or writes the
bits of it that can be written. -/
structure Mechanism (p : Ports σ) (space : σ → Space) (writable : UInt32 → UInt32) : Prop where
  read : ∀ {a} (s : σ), Enabled a →
    (p.inl pciConfigData (p.outl pciConfigAddress a s)).1 = space s a ∧
      space (p.inl pciConfigData (p.outl pciConfigAddress a s)).2 = space s
  write : ∀ {a} (s : σ) (v : UInt32), Enabled a →
    space (p.outl pciConfigData v (p.outl pciConfigAddress a s)) =
      Function.update (space s) a ((space s a &&& ~~~writable a) ||| (v &&& writable a))

theorem enabled_address (bus device function offset : UInt8) :
    Enabled (address bus device function offset) := by
  have h31 : ((1 : UInt32) <<< 31).toNat = 2 ^ 31 := by decide
  simp only [Enabled, address, UInt32.toNat_or, Nat.testBit_or, h31, Nat.testBit_two_pow_self,
    Bool.true_or]

theorem address_aligned (bus device function offset : UInt8) :
    address bus device function (offset &&& 0xFC) = address bus device function offset := by
  have h : offset &&& 0xFC &&& 0xFC = offset &&& 0xFC := by
    revert offset
    exact forall_byte (by decide +kernel)
  rw [address, address, h]

/-- A register as the space holds it. -/
def dwordAt (m : Space) (bus device function offset : UInt8) : UInt32 :=
  m (address bus device function offset)

def wordAt (m : Space) (bus device function offset : UInt8) : UInt16 :=
  wordOf (dwordAt m bus device function offset) offset

def byteAt (m : Space) (bus device function offset : UInt8) : UInt8 :=
  byteOf (dwordAt m bus device function offset) offset

variable {p : Ports σ} {space : σ → Space} {writable : UInt32 → UInt32} {s : σ} {m : Space}

theorem readDword_spec (hp : Mechanism p space writable) (hs : space s = m)
    (bus device function offset : UInt8) :
    (pciReadConfigDword p bus device function offset s).1 = dwordAt m bus device function offset ∧
      space (pciReadConfigDword p bus device function offset s).2 = m := by
  obtain ⟨hread, hsame⟩ := hp.read s (enabled_address bus device function offset)
  rw [hs] at hread hsame
  exact ⟨hread, hsame⟩

theorem readWord_spec (hp : Mechanism p space writable) (hs : space s = m)
    (bus device function offset : UInt8) :
    (pciReadConfigWord p bus device function offset s).1 = wordAt m bus device function offset ∧
      space (pciReadConfigWord p bus device function offset s).2 = m := by
  obtain ⟨hread, hsame⟩ := readDword_spec hp hs bus device function (offset &&& 0xFC)
  refine ⟨?_, hsame⟩
  rw [pciReadConfigWord, hread, dwordAt, address_aligned]
  rfl

theorem readByte_spec (hp : Mechanism p space writable) (hs : space s = m)
    (bus device function offset : UInt8) :
    (pciReadConfigByte p bus device function offset s).1 = byteAt m bus device function offset ∧
      space (pciReadConfigByte p bus device function offset s).2 = m := by
  obtain ⟨hread, hsame⟩ := readDword_spec hp hs bus device function (offset &&& 0xFC)
  refine ⟨?_, hsame⟩
  rw [pciReadConfigByte, hread, dwordAt, address_aligned]
  rfl

theorem writeDword_spec (hp : Mechanism p space writable) (hs : space s = m)
    (bus device function offset : UInt8) (v : UInt32) :
    space (pciWriteConfigDword p bus device function offset v s) =
      Function.update m (address bus device function offset)
        ((dwordAt m bus device function offset &&& ~~~writable (address bus device function offset)) |||
          (v &&& writable (address bus device function offset))) := by
  rw [pciWriteConfigDword, hp.write s v (enabled_address bus device function offset), hs]
  rfl

/-! ## A machine with plain registers -/

/-- The address that was written last, and the registers. -/
abbrev Latched := UInt32 × Space

def latchPorts (writable : UInt32 → UInt32) : Ports Latched where
  inl port s := if port = pciConfigData then (s.2 s.1, s) else (0xFFFFFFFF, s)
  outl port v s :=
    if port = pciConfigAddress then (v, s.2)
    else if port = pciConfigData then
      (s.1, Function.update s.2 s.1 ((s.2 s.1 &&& ~~~writable s.1) ||| (v &&& writable s.1)))
    else s

theorem latch_mechanism (writable : UInt32 → UInt32) :
    Mechanism (latchPorts writable) Prod.snd writable := by
  refine ⟨fun s _ => ⟨rfl, rfl⟩, fun s v _ => rfl⟩

/-! ## The bus scan

`pci_scan_bus` of `src/kernel/pci.cpp` over the functions of all devices on all
buses, and the table it leaves. -/

def pciVendorId : UInt8 := 0x00
def pciDeviceId : UInt8 := 0x02
def pciRevisionId : UInt8 := 0x08
def pciProgIf : UInt8 := 0x09
def pciSubclass : UInt8 := 0x0A
def pciClass : UInt8 := 0x0B
def pciHeaderType : UInt8 := 0x0E
def pciBar0 : UInt8 := 0x10
def pciInterruptLine : UInt8 := 0x3C
def pciInterruptPin : UInt8 := 0x3D

/-- `MAX_PCI_DEVICES` -/
def maxPciDevices : Nat := 64

/-- `pci_device_t` -/
structure PciDevice where
  bus : UInt8
  device : UInt8
  function : UInt8
  vendorId : UInt16
  deviceId : UInt16
  classCode : UInt8
  subclass : UInt8
  progIf : UInt8
  revisionId : UInt8
  headerType : UInt8
  interruptLine : UInt8
  interruptPin : UInt8
  bar : List UInt32
  deriving DecidableEq, Repr

def pciDeviceExists (p : Ports σ) (bus device function : UInt8) (s : σ) : Bool × σ :=
  let r := pciReadConfigWord p bus device function pciVendorId s
  (r.1 != 0xFFFF, r.2)

/-- The loop over the base address registers from `i` on. -/
def readBars (p : Ports σ) (bus device function : UInt8) : Nat → Nat → σ → List UInt32 × σ
  | 0, _, s => ([], s)
  | left + 1, i, s =>
    let r := pciReadConfigDword p bus device function (pciBar0 + UInt8.ofNat i * 4) s
    let rest := readBars p bus device function left (i + 1) r.2
    (r.1 :: rest.1, rest.2)

def pciReadDeviceInfo (p : Ports σ) (bus device function : UInt8) (s : σ) : PciDevice × σ :=
  let vendorId := pciReadConfigWord p bus device function pciVendorId s
  let deviceId := pciReadConfigWord p bus device function pciDeviceId vendorId.2
  let classCode := pciReadConfigByte p bus device function pciClass deviceId.2
  let subclass := pciReadConfigByte p bus device function pciSubclass classCode.2
  let progIf := pciReadConfigByte p bus device function pciProgIf subclass.2
  let revisionId := pciReadConfigByte p bus device function pciRevisionId progIf.2
  let headerType := pciReadConfigByte p bus device function pciHeaderType revisionId.2
  let interruptLine := pciReadConfigByte p bus device function pciInterruptLine headerType.2
  let interruptPin := pciReadConfigByte p bus device function pciInterruptPin interruptLine.2
  let bar := readBars p bus device function 6 0 interruptPin.2
  (⟨bus, device, function, vendorId.1, deviceId.1, classCode.1, subclass.1, progIf.1, revisionId.1,
    headerType.1, interruptLine.1, interruptPin.1, bar.1⟩, bar.2)

/-- A round of the loop over the functions of a device. -/
def scanFunction (p : Ports σ) (bus device function : UInt8) (table : List PciDevice) (s : σ) :
    (Bool × List PciDevice) × σ :=
  let there := pciDeviceExists p bus device function s
  if ¬ there.1 then ((true, table), there.2)
  else if maxPciDevices ≤ table.length then ((false, table), there.2)
  else
    let info := pciReadDeviceInfo p bus device function there.2
    ((true, table ++ [info.1]), info.2)

/-- `0, 1, …`, as a loop counter of 8 bits goes through them. -/
def upTo (n : Nat) : List UInt8 := (List.range n).map UInt8.ofNat

/-- A round of the loop over the devices of a bus. -/
def scanDevice (p : Ports σ) (bus device : UInt8) (table : List PciDevice) (s : σ) :
    (Bool × List PciDevice) × σ :=
  let there := pciDeviceExists p bus device 0 s
  if ¬ there.1 then ((true, table), there.2)
  else
    let headerType := pciReadConfigByte p bus device 0 pciHeaderType there.2
    let maxFunctions := if headerType.1 &&& 0x80 ≠ 0 then 8 else 1
    fillLoop (scanFunction p bus device) (upTo maxFunctions) table headerType.2

def scanBus (p : Ports σ) (bus : UInt8) (table : List PciDevice) (s : σ) : (Bool × List PciDevice) × σ :=
  fillLoop (scanDevice p bus) (upTo 32) table s

/-- The table once the loop over some buses has ended. -/
def scanBuses (p : Ports σ) (buses : List UInt8) (s : σ) : List PciDevice × σ :=
  let r := fillLoop (scanBus p) buses [] s
  (r.1.2, r.2)

def pciScanBus (p : Ports σ) (s : σ) : List PciDevice × σ := scanBuses p (upTo 256) s

/-! ## What configuration space says -/

def existsAt (m : Space) (bus device function : UInt8) : Bool :=
  wordAt m bus device function pciVendorId != 0xFFFF

/-- The record of a function. -/
def deviceAt (m : Space) (bus device function : UInt8) : PciDevice where
  bus := bus
  device := device
  function := function
  vendorId := wordAt m bus device function pciVendorId
  deviceId := wordAt m bus device function pciDeviceId
  classCode := byteAt m bus device function pciClass
  subclass := byteAt m bus device function pciSubclass
  progIf := byteAt m bus device function pciProgIf
  revisionId := byteAt m bus device function pciRevisionId
  headerType := byteAt m bus device function pciHeaderType
  interruptLine := byteAt m bus device function pciInterruptLine
  interruptPin := byteAt m bus device function pciInterruptPin
  bar := (List.range 6).map fun i => dwordAt m bus device function (pciBar0 + UInt8.ofNat i * 4)

/-- The functions of a device: none without function 0, and more than that one
only when its header says so. -/
def functionsOf (m : Space) (bus device : UInt8) : List UInt8 :=
  if existsAt m bus device 0 then
    (upTo (if byteAt m bus device 0 pciHeaderType &&& 0x80 ≠ 0 then 8 else 1)).filter
      (existsAt m bus device)
  else []

/-- The functions of all devices of a bus. -/
def devicesOn (m : Space) (bus : UInt8) : List PciDevice :=
  (upTo 32).flatMap fun device => (functionsOf m bus device).map (deviceAt m bus device)

/-- All functions, in the order of buses, devices and functions. -/
def allDevices (m : Space) : List PciDevice := (upTo 256).flatMap (devicesOn m)

/-! ## The scan -/

theorem deviceExists_spec (hp : Mechanism p space writable) (hs : space s = m)
    (bus device function : UInt8) :
    (pciDeviceExists p bus device function s).1 = existsAt m bus device function ∧
      space (pciDeviceExists p bus device function s).2 = m := by
  obtain ⟨hread, hsame⟩ := readWord_spec hp hs bus device function pciVendorId
  exact ⟨congrArg (· != 0xFFFF) hread, hsame⟩

theorem readBars_spec (hp : Mechanism p space writable) (bus device function : UInt8) :
    ∀ (left i : Nat) {s : σ}, space s = m →
    (readBars p bus device function left i s).1 = (List.range' i left).map
        (fun i => dwordAt m bus device function (pciBar0 + UInt8.ofNat i * 4)) ∧
      space (readBars p bus device function left i s).2 = m
  | 0, _, _, hs => ⟨rfl, hs⟩
  | left + 1, i, s, hs => by
    obtain ⟨hread, hsame⟩ := readDword_spec hp hs bus device function (pciBar0 + UInt8.ofNat i * 4)
    obtain ⟨hrest, hend⟩ := readBars_spec hp bus device function left (i + 1) hsame
    refine ⟨?_, hend⟩
    rw [readBars, hread, hrest, List.range'_succ, List.map_cons]

theorem readDeviceInfo_spec (hp : Mechanism p space writable) (hs : space s = m)
    (bus device function : UInt8) :
    (pciReadDeviceInfo p bus device function s).1 = deviceAt m bus device function ∧
      space (pciReadDeviceInfo p bus device function s).2 = m := by
  obtain ⟨hvendor, hs⟩ := readWord_spec hp hs bus device function pciVendorId
  obtain ⟨hdevice, hs⟩ := readWord_spec hp hs bus device function pciDeviceId
  obtain ⟨hclass, hs⟩ := readByte_spec hp hs bus device function pciClass
  obtain ⟨hsubclass, hs⟩ := readByte_spec hp hs bus device function pciSubclass
  obtain ⟨hprogIf, hs⟩ := readByte_spec hp hs bus device function pciProgIf
  obtain ⟨hrevision, hs⟩ := readByte_spec hp hs bus device function pciRevisionId
  obtain ⟨hheader, hs⟩ := readByte_spec hp hs bus device function pciHeaderType
  obtain ⟨hline, hs⟩ := readByte_spec hp hs bus device function pciInterruptLine
  obtain ⟨hpin, hs⟩ := readByte_spec hp hs bus device function pciInterruptPin
  obtain ⟨hbars, hs⟩ := readBars_spec hp bus device function 6 0 hs
  refine ⟨?_, hs⟩
  simp only [pciReadDeviceInfo, hvendor, hdevice, hclass, hsubclass, hprogIf, hrevision, hheader, hline,
    hpin, hbars, deviceAt, List.range_eq_range']

theorem scanFunction_spec (hp : Mechanism p space writable) (bus device function : UInt8)
    (table : List PciDevice) (s : σ) (ht : table.length ≤ maxPciDevices) (hs : space s = m) :
    (scanFunction p bus device function table s).1 = fill maxPciDevices table
        (if existsAt m bus device function then [deviceAt m bus device function] else []) ∧
      space (scanFunction p bus device function table s).2 = m := by
  obtain ⟨hthere, hs⟩ := deviceExists_spec hp hs bus device function
  rw [scanFunction, hthere]
  by_cases hex : existsAt m bus device function = true
  · simp only [hex, not_true, if_false, if_true]
    by_cases hfull : maxPciDevices ≤ table.length
    · have hlen : table.length = maxPciDevices := Nat.le_antisymm ht hfull
      simp only [if_pos hfull]
      refine ⟨?_, hs⟩
      simp [fill, hlen, List.take_append_of_le_length hlen.ge, List.take_of_length_le hlen.le]
    · simp only [if_neg hfull]
      obtain ⟨hinfo, hs⟩ := readDeviceInfo_spec hp hs bus device function
      refine ⟨?_, hs⟩
      have hroom : table.length + 1 ≤ maxPciDevices := Nat.lt_of_not_le hfull
      rw [hinfo]
      simp only [fill, List.length_singleton, decide_eq_true hroom]
      rw [List.take_of_length_le (by simpa using hroom)]
  · simp only [hex, Bool.false_eq_true, not_false_iff, if_true, if_false]
    exact ⟨(fill_nil ht).symm, hs⟩

theorem flatMap_filter {α β : Type} (q : α → Bool) (f : α → β) (xs : List α) :
    xs.flatMap (fun x => if q x then [f x] else []) = (xs.filter q).map f := by
  induction xs with
  | nil => rfl
  | cons x xs ih =>
    rw [List.flatMap_cons, ih]
    cases h : q x <;> simp [h]

theorem scanDevice_spec (hp : Mechanism p space writable) (bus device : UInt8)
    (table : List PciDevice) (s : σ) (ht : table.length ≤ maxPciDevices) (hs : space s = m) :
    (scanDevice p bus device table s).1 = fill maxPciDevices table
        ((functionsOf m bus device).map (deviceAt m bus device)) ∧
      space (scanDevice p bus device table s).2 = m := by
  obtain ⟨hthere, hs⟩ := deviceExists_spec hp hs bus device 0
  rw [scanDevice, hthere, functionsOf]
  by_cases hex : existsAt m bus device 0 = true
  · simp only [hex, not_true, if_false, if_true]
    obtain ⟨hheader, hs⟩ := readByte_spec hp hs bus device 0 pciHeaderType
    rw [hheader, ← flatMap_filter]
    exact fillLoop_spec _ (fun function _ t s ht hs => scanFunction_spec hp bus device function t s ht hs)
      ht hs
  · simp only [hex, Bool.false_eq_true, not_false_iff, if_true, if_false, List.map_nil]
    exact ⟨(fill_nil ht).symm, hs⟩

theorem scanBus_spec (hp : Mechanism p space writable) (bus : UInt8) (table : List PciDevice) (s : σ)
    (ht : table.length ≤ maxPciDevices) (hs : space s = m) :
    (scanBus p bus table s).1 = fill maxPciDevices table (devicesOn m bus) ∧
      space (scanBus p bus table s).2 = m :=
  fillLoop_spec _ (fun device _ t s' ht hs => scanDevice_spec hp bus device t s' ht hs) ht hs

theorem scanBuses_spec (hp : Mechanism p space writable) (buses : List UInt8) (s : σ) :
    (scanBuses p buses s).1 = (buses.flatMap (devicesOn (space s))).take maxPciDevices ∧
      space (scanBuses p buses s).2 = space s := by
  obtain ⟨hall, hsame⟩ := fillLoop_spec (t := []) buses
    (fun bus _ t s' ht hs => scanBus_spec hp bus t s' ht hs) (Nat.zero_le _) (rfl : space s = space s)
  refine ⟨?_, hsame⟩
  rw [scanBuses, hall]
  rfl

/-- **The scan lists the functions of all devices in order, as configuration space
describes them, as many as the table holds**, and changes nothing. -/
theorem scan_lists_devices (hp : Mechanism p space writable) (s : σ) :
    (pciScanBus p s).1 = (allDevices (space s)).take maxPciDevices ∧
      space (pciScanBus p s).2 = space s :=
  scanBuses_spec hp (upTo 256) s

/-- A display controller at 00:02.0 with a register block of 4 KiB and a
framebuffer of 16 MiB, and nothing else. -/
def displaySpace : Space := fun a =>
  if a = address 0 2 0 0x00 then 0x11111234
  else if a = address 0 2 0 0x08 then 0x03000000
  else if a = address 0 2 0 0x0C then 0
  else if a = address 0 2 0 0x10 then 0xFEB00000
  else if a = address 0 2 0 0x14 then 0xFD000008
  else if a &&& 0x00FFFF00 = 0x1000 then 0
  else 0xFFFFFFFF

theorem scan_lists_devices_display :
    (pciScanBus (latchPorts fun _ => 0) (0, displaySpace)).1 =
        (allDevices displaySpace).take maxPciDevices ∧
      (pciScanBus (latchPorts fun _ => 0) (0, displaySpace)).2.2 = displaySpace :=
  scan_lists_devices (latch_mechanism fun _ => 0) (0, displaySpace)

end ContinuumOS.Pci.Scan
