import ContinuumOS.Pci.Scan

/-! # The framebuffer behind a PCI display controller

`find_pci_vga_framebuffer` of `src/kernel/framebuffer.cpp` sizes the base address
registers of display controllers by writing ones to them. The registers hold
afterwards what they held before, and the size counts for 64-bit registers
only: the complement of a 32-bit mask is taken in 64 bits. -/
namespace ContinuumOS.Pci.Display
open ContinuumOS.Pci.Scan ContinuumOS.Lib.Scanning

variable {σ : Type}

/-- The tests on a register that has been sized. -/
def accepted (prefetchable : Bool) (base sizeMask : UInt64) : Bool :=
  let size := ~~~sizeMask + 1
  !(base == 0 || sizeMask == 0) &&
    !((!prefetchable && decide (size < 0x00400000)) || decide (size < 0x00100000)) &&
    !decide (base < 0x01000000)

/-- Ones written to a register, what it then shows, and its old value back. -/
def sizeRegister (p : Ports σ) (bus device function offset : UInt8) (old : UInt32) (s : σ) : UInt32 × σ :=
  let s := pciWriteConfigDword p bus device function offset 0xFFFFFFFF s
  let r := pciReadConfigDword p bus device function offset s
  (r.1, pciWriteConfigDword p bus device function offset old r.2)

/-- `(bar >> 1) & 3 == 2`, with a register behind it. -/
def isWide (bar : UInt32) (i : Nat) : Bool := (bar >>> 1) &&& 3 == 2 && decide (i + 1 < 6)

/-- The loop over the base address registers from `i` on; at most six rounds. -/
def probeBars (p : Ports σ) (bus device function : UInt8) : Nat → Nat → σ → Option UInt64 × σ
  | 0, _, s => (none, s)
  | rounds + 1, i, s =>
    if 6 ≤ i then (none, s)
    else
      let offset := pciBar0 + UInt8.ofNat i * 4
      let bar := pciReadConfigDword p bus device function offset s
      if bar.1 = 0 ∨ bar.1 &&& 1 ≠ 0 then probeBars p bus device function rounds (i + 1) bar.2
      else
        let low := sizeRegister p bus device function offset bar.1 bar.2
        let base := (bar.1 &&& 0xFFFFFFF0).toUInt64
        let mask := (low.1 &&& 0xFFFFFFF0).toUInt64
        if isWide bar.1 i then
          let upper := pciReadConfigDword p bus device function (offset + 4) low.2
          let high := sizeRegister p bus device function (offset + 4) upper.1 upper.2
          let base := base ||| (upper.1.toUInt64 <<< 32)
          let mask := mask ||| (high.1.toUInt64 <<< 32)
          if accepted (bar.1 &&& 8 != 0) base mask then (some base, high.2)
          else probeBars p bus device function rounds (i + 2) high.2
        else if accepted (bar.1 &&& 8 != 0) base mask then (some base, low.2)
        else probeBars p bus device function rounds (i + 1) low.2

/-- A round of the loop over the functions of a device. -/
def probeFunction (p : Ports σ) (bus device function : UInt8) (s : σ) : Option UInt64 × σ :=
  let vendor := pciReadConfigDword p bus device function 0x00 s
  if vendor.1 = 0xFFFFFFFF then (none, vendor.2)
  else
    let classReg := pciReadConfigDword p bus device function 0x08 vendor.2
    if (classReg.1 >>> 24).toUInt8 ≠ 0x03 then (none, classReg.2)
    else
      let header := pciReadConfigDword p bus device function 0x0C classReg.2
      if ((header.1 >>> 16) &&& 0x7F).toUInt8 ≠ 0x00 then (none, header.2)
      else probeBars p bus device function 6 0 header.2

def probeDevice (p : Ports σ) (bus device : UInt8) (s : σ) : Option UInt64 × σ :=
  let vendorDevice := pciReadConfigDword p bus device 0 0x00 s
  if vendorDevice.1 = 0xFFFFFFFF then (none, vendorDevice.2)
  else
    let header := pciReadConfigDword p bus device 0 0x0C vendorDevice.2
    let functionLimit := if header.1 &&& 0x00800000 ≠ 0 then 8 else 1
    searchLoop (probeFunction p bus device) (upTo functionLimit) header.2

def probeBus (p : Ports σ) (bus : UInt8) (s : σ) : Option UInt64 × σ :=
  searchLoop (probeDevice p bus) (upTo 32) s

/-- The loop over some buses; an address has 32 bits. -/
def probeBuses (p : Ports σ) (buses : List UInt8) (s : σ) : Option UInt32 × σ :=
  let r := searchLoop (probeBus p) buses s
  (r.1.map UInt64.toUInt32, r.2)

/-- `find_pci_vga_framebuffer` -/
def findPciVgaFramebuffer (p : Ports σ) (s : σ) : Option UInt32 × σ := probeBuses p (upTo 256) s

/-! ## What configuration space says -/

/-- A memory range that a function decodes: 64 bits of its address count, or 32. -/
structure MemoryBar where
  base : UInt64
  /-- The address bits that can be written. -/
  mask : UInt64
  wide : Bool
  prefetchable : Bool

/-- The writable bits of a register among the address bits. -/
def maskAt (m : Space) (writable : UInt32 → UInt32) (bus device function offset : UInt8) : UInt32 :=
  dwordAt m bus device function offset ||| writable (address bus device function offset)

/-- The memory ranges in the registers from `i` on. -/
def memoryBars (m : Space) (writable : UInt32 → UInt32) (bus device function : UInt8) :
    Nat → Nat → List MemoryBar
  | 0, _ => []
  | rounds + 1, i =>
    if 6 ≤ i then []
    else
      let offset := pciBar0 + UInt8.ofNat i * 4
      let bar := dwordAt m bus device function offset
      let base := (bar &&& 0xFFFFFFF0).toUInt64
      let mask := (maskAt m writable bus device function offset &&& 0xFFFFFFF0).toUInt64
      if bar = 0 ∨ bar &&& 1 ≠ 0 then memoryBars m writable bus device function rounds (i + 1)
      else if isWide bar i then
        ⟨base ||| ((dwordAt m bus device function (offset + 4)).toUInt64 <<< 32),
          mask ||| ((maskAt m writable bus device function (offset + 4)).toUInt64 <<< 32), true,
          bar &&& 8 != 0⟩ :: memoryBars m writable bus device function rounds (i + 2)
      else ⟨base, mask, false, bar &&& 8 != 0⟩ :: memoryBars m writable bus device function rounds (i + 1)

/-- A display controller with a plain header. -/
def isDisplay (m : Space) (bus device function : UInt8) : Bool :=
  dwordAt m bus device function 0x00 != 0xFFFFFFFF &&
    (dwordAt m bus device function 0x08 >>> 24).toUInt8 == 0x03 &&
    ((dwordAt m bus device function 0x0C >>> 16) &&& 0x7F).toUInt8 == 0x00

/-- The functions of a device that are looked at. -/
def displaysOf (m : Space) (bus device : UInt8) : List UInt8 :=
  if dwordAt m bus device 0 0x00 = 0xFFFFFFFF then []
  else (upTo (if dwordAt m bus device 0 0x0C &&& 0x00800000 ≠ 0 then 8 else 1)).filter
    (isDisplay m bus device)

/-- The memory ranges of the display controllers of a bus. -/
def displayBarsOn (m : Space) (writable : UInt32 → UInt32) (bus : UInt8) : List MemoryBar :=
  (upTo 32).flatMap fun device => (displaysOf m bus device).flatMap fun function =>
    memoryBars m writable bus device function 6 0

def displayBars (m : Space) (writable : UInt32 → UInt32) : List MemoryBar :=
  (upTo 256).flatMap (displayBarsOn m writable)

/-- A range that is taken for the framebuffer: at 16 MiB or above and, when its
register is a wide one, of 4 MiB, or 1 MiB if it is prefetchable. -/
def suitable (bar : MemoryBar) : Bool :=
  decide (0x01000000 ≤ bar.base) && bar.mask != 0 &&
    (!bar.wide || decide ((if bar.prefetchable then 0x00100000 else 0x00400000) ≤ ~~~bar.mask + 1))

/-! ## A register that is sized -/

theorem ones_written (x w : UInt32) : (x &&& ~~~w) ||| (0xFFFFFFFF &&& w) = x ||| w := by
  have hones : (0xFFFFFFFF : UInt32) &&& w = w := by
    rw [show (0xFFFFFFFF : UInt32) = -1 from rfl]
    simp
  rw [hones]
  apply UInt32.toBitVec_inj.mp
  ext i hi
  simp only [UInt32.toBitVec_or, UInt32.toBitVec_and, UInt32.toBitVec_not, BitVec.getElem_or,
    BitVec.getElem_and, BitVec.getElem_not]
  cases x.toBitVec[i] <;> cases w.toBitVec[i] <;> rfl

theorem old_written (x w : UInt32) : ((x ||| w) &&& ~~~w) ||| (x &&& w) = x := by
  apply UInt32.toBitVec_inj.mp
  ext i hi
  simp only [UInt32.toBitVec_or, UInt32.toBitVec_and, UInt32.toBitVec_not, BitVec.getElem_or,
    BitVec.getElem_and, BitVec.getElem_not]
  cases x.toBitVec[i] <;> cases w.toBitVec[i] <;> rfl

variable {p : Ports σ} {space : σ → Space} {writable : UInt32 → UInt32} {s : σ} {m : Space}

theorem sizeRegister_spec (hp : Mechanism p space writable) (hs : space s = m)
    (bus device function offset : UInt8) :
    (sizeRegister p bus device function offset (dwordAt m bus device function offset) s).1 =
        maskAt m writable bus device function offset ∧
      space (sizeRegister p bus device function offset (dwordAt m bus device function offset) s).2 = m := by
  have hones := writeDword_spec hp hs bus device function offset 0xFFFFFFFF
  rw [ones_written] at hones
  obtain ⟨hread, hsame⟩ := readDword_spec hp hones bus device function offset
  rw [dwordAt, Function.update_self] at hread
  refine ⟨hread, (writeDword_spec hp hsame bus device function offset _).trans ?_⟩
  simp only [dwordAt, Function.update_self]
  rw [old_written, Function.update_idem]
  exact Function.update_eq_self _ _

theorem narrow_size (x : UInt32) (h : x.toUInt64 ≠ 0) : (0x00400000 : UInt64) ≤ ~~~x.toUInt64 + 1 := by
  have hlt := x.toNat_lt
  have h0 : x.toNat ≠ 0 := fun h0 => h (UInt64.toNat_inj.mp (by simpa using h0))
  rw [UInt64.le_iff_toNat_le, UInt64.toNat_add, UInt64.toNat_not, UInt32.toNat_toUInt64]
  change 0x400000 ≤ (2 ^ 64 - 1 - x.toNat + 1) % 2 ^ 64
  omega

theorem accepted_wide (pf : Bool) (base mask : UInt64) :
    accepted pf base mask = suitable ⟨base, mask, true, pf⟩ := by
  have hbase : (0x01000000 : UInt64) ≤ base → base ≠ 0 := by
    rintro h rfl
    exact absurd h (by decide)
  have hsmall : ∀ x : UInt64, (0x00400000 : UInt64) ≤ x → (0x00100000 : UInt64) ≤ x :=
    fun x h => UInt64.le_trans (by decide) h
  rw [Bool.eq_iff_iff]
  cases pf
  · simp only [accepted, suitable, Bool.not_false, Bool.true_and, Bool.and_eq_true, Bool.not_eq_true',
      Bool.or_eq_false_iff, decide_eq_false_iff_not, beq_eq_false_iff_ne, decide_eq_true_eq, bne_iff_ne,
      Bool.not_true, Bool.false_or, UInt64.not_lt, Bool.false_eq_true, if_false]
    constructor
    · exact fun h => ⟨⟨h.2, h.1.1.2⟩, h.1.2.1⟩
    · exact fun h => ⟨⟨⟨hbase h.1.1, h.1.2⟩, h.2, hsmall _ h.2⟩, h.1.1⟩
  · simp only [accepted, suitable, Bool.not_true, Bool.false_and, Bool.and_eq_true, Bool.not_eq_true',
      Bool.or_eq_false_iff, decide_eq_false_iff_not, beq_eq_false_iff_ne, decide_eq_true_eq, bne_iff_ne,
      Bool.false_or, UInt64.not_lt, if_true]
    constructor
    · exact fun h => ⟨⟨h.2, h.1.1.2⟩, h.1.2⟩
    · exact fun h => ⟨⟨⟨hbase h.1.1, h.1.2⟩, h.2⟩, h.1.1⟩

theorem accepted_narrow (pf : Bool) (base : UInt64) (x : UInt32) :
    accepted pf base x.toUInt64 = suitable ⟨base, x.toUInt64, false, pf⟩ := by
  by_cases hx : x.toUInt64 = 0
  · simp [accepted, suitable, hx]
  have hsize : suitable ⟨base, x.toUInt64, true, pf⟩ = suitable ⟨base, x.toUInt64, false, pf⟩ := by
    have h : (if pf then (0x00100000 : UInt64) else 0x00400000) ≤ ~~~x.toUInt64 + 1 := by
      cases pf
      · exact narrow_size x hx
      · exact UInt64.le_trans (by decide) (narrow_size x hx)
    simp only [suitable, decide_eq_true h, Bool.or_true, Bool.not_false]
  rw [accepted_wide, hsize]

/-! ## The probe -/

theorem find?_cons {α : Type} (q : α → Bool) (x : α) (xs : List α) :
    (x :: xs).find? q = if q x then some x else xs.find? q := by
  cases h : q x <;> simp [h]

theorem probeBars_spec (hp : Mechanism p space writable) (bus device function : UInt8) :
    ∀ (rounds i : Nat) {s : σ}, space s = m →
    (probeBars p bus device function rounds i s).1 =
        ((memoryBars m writable bus device function rounds i).find? suitable).map MemoryBar.base ∧
      space (probeBars p bus device function rounds i s).2 = m
  | 0, _, _, hs => ⟨rfl, hs⟩
  | rounds + 1, i, s, hs => by
    rw [probeBars, memoryBars]
    by_cases hi : 6 ≤ i
    · simp only [if_pos hi]
      exact ⟨rfl, hs⟩
    simp only [if_neg hi]
    obtain ⟨hbar, hs₁⟩ := readDword_spec hp hs bus device function (pciBar0 + UInt8.ofNat i * 4)
    generalize hr₁ : pciReadConfigDword p bus device function (pciBar0 + UInt8.ofNat i * 4) s = r₁ at hbar hs₁
    rw [← hbar]
    by_cases hskip : r₁.1 = 0 ∨ r₁.1 &&& 1 ≠ 0
    · simp only [if_pos hskip]
      exact probeBars_spec hp bus device function rounds (i + 1) hs₁
    simp only [if_neg hskip]
    obtain ⟨hlow, hs₂⟩ := sizeRegister_spec hp hs₁ bus device function (pciBar0 + UInt8.ofNat i * 4)
    rw [← hbar] at hlow hs₂
    generalize hr₂ : sizeRegister p bus device function (pciBar0 + UInt8.ofNat i * 4) r₁.1 r₁.2 = r₂
      at hlow hs₂
    by_cases hwide : isWide r₁.1 i = true
    · simp only [if_pos hwide]
      obtain ⟨hupper, hs₃⟩ := readDword_spec hp hs₂ bus device function (pciBar0 + UInt8.ofNat i * 4 + 4)
      generalize hr₃ : pciReadConfigDword p bus device function (pciBar0 + UInt8.ofNat i * 4 + 4) r₂.2 = r₃
        at hupper hs₃
      obtain ⟨hhigh, hs₄⟩ := sizeRegister_spec hp hs₃ bus device function (pciBar0 + UInt8.ofNat i * 4 + 4)
      rw [← hupper] at hhigh hs₄
      rw [find?_cons, ← accepted_wide, ← hlow, ← hhigh, ← hupper]
      split
      · exact ⟨rfl, hs₄⟩
      · exact probeBars_spec hp bus device function rounds (i + 2) hs₄
    · simp only [if_neg hwide]
      rw [find?_cons, ← accepted_narrow, ← hlow]
      split
      · exact ⟨rfl, hs₂⟩
      · exact probeBars_spec hp bus device function rounds (i + 1) hs₂

theorem probeFunction_spec (hp : Mechanism p space writable) (bus device function : UInt8) (s : σ)
    (hs : space s = m) :
    (probeFunction p bus device function s).1 =
        (if isDisplay m bus device function then
          ((memoryBars m writable bus device function 6 0).find? suitable).map MemoryBar.base else none) ∧
      space (probeFunction p bus device function s).2 = m := by
  obtain ⟨hvendor, hs₁⟩ := readDword_spec hp hs bus device function 0x00
  obtain ⟨hclass, hs₂⟩ := readDword_spec hp hs₁ bus device function 0x08
  obtain ⟨hheader, hs₃⟩ := readDword_spec hp hs₂ bus device function 0x0C
  rw [probeFunction, isDisplay, ← hvendor, ← hclass, ← hheader]
  by_cases h₁ : (pciReadConfigDword p bus device function 0x00 s).1 = 0xFFFFFFFF
  · simp only [if_pos h₁]
    exact ⟨by simp [h₁], hs₁⟩
  simp only [if_neg h₁]
  by_cases h₂ : ((pciReadConfigDword p bus device function 0x08
      (pciReadConfigDword p bus device function 0x00 s).2).1 >>> 24).toUInt8 = 0x03
  · simp only [ne_eq, h₂, not_true, if_false]
    by_cases h₃ : (((pciReadConfigDword p bus device function 0x0C
        (pciReadConfigDword p bus device function 0x08
          (pciReadConfigDword p bus device function 0x00 s).2).2).1 >>> 16) &&& 0x7F).toUInt8 = 0x00
    · simp only [h₃, not_true, if_false, bne_iff_ne.mpr h₁, beq_self_eq_true, Bool.and_self, if_true]
      exact probeBars_spec hp bus device function 6 0 hs₃
    · simp only [h₃, not_false_iff, if_true, beq_eq_false_iff_ne.mpr h₃, Bool.and_false,
        Bool.false_eq_true, if_false]
      exact ⟨trivial, hs₃⟩
  · simp only [ne_eq, h₂, not_false_iff, if_true, beq_eq_false_iff_ne.mpr h₂, Bool.and_false,
      Bool.false_and, Bool.false_eq_true, if_false]
    exact ⟨trivial, hs₂⟩

/-! ## All display controllers -/

/-- The base of the first range among some that is suitable. -/
def firstBase (bars : List MemoryBar) : Option UInt64 := (bars.find? suitable).map MemoryBar.base

theorem firstBase_flatMap {α : Type} (xs : List α) (f : α → List MemoryBar) :
    firstBase (xs.flatMap f) = xs.findSome? fun x => firstBase (f x) := by
  rw [firstBase, List.find?_flatMap, List.map_findSome?]
  rfl

theorem findSome?_filter {α β : Type} (q : α → Bool) (g : α → Option β) (xs : List α) :
    xs.findSome? (fun x => if q x then g x else none) = (xs.filter q).findSome? g := by
  induction xs with
  | nil => rfl
  | cons x xs ih =>
    rw [List.findSome?_cons, ih]
    cases h : q x <;> simp [h, List.findSome?_cons]

theorem probeDevice_spec (hp : Mechanism p space writable) (bus device : UInt8) (s : σ) (hs : space s = m) :
    (probeDevice p bus device s).1 = firstBase ((displaysOf m bus device).flatMap fun function =>
        memoryBars m writable bus device function 6 0) ∧
      space (probeDevice p bus device s).2 = m := by
  obtain ⟨hvendor, hs₁⟩ := readDword_spec hp hs bus device 0 0x00
  obtain ⟨hheader, hs₂⟩ := readDword_spec hp hs₁ bus device 0 0x0C
  rw [probeDevice, displaysOf, ← hvendor, ← hheader]
  split
  · exact ⟨rfl, hs₁⟩
  · obtain ⟨hsearch, hs₃⟩ := searchLoop_spec _
      (fun function _ s hs => probeFunction_spec hp bus device function s hs) hs₂
    refine ⟨?_, hs₃⟩
    rw [firstBase_flatMap, ← findSome?_filter]
    exact hsearch

theorem probeBus_spec (hp : Mechanism p space writable) (bus : UInt8) (s : σ) (hs : space s = m) :
    (probeBus p bus s).1 = firstBase (displayBarsOn m writable bus) ∧ space (probeBus p bus s).2 = m := by
  obtain ⟨hsearch, hs'⟩ := searchLoop_spec (upTo 32)
    (fun device _ s hs => probeDevice_spec hp bus device s hs) hs
  refine ⟨?_, hs'⟩
  rw [displayBarsOn, firstBase_flatMap]
  exact hsearch

theorem probeBuses_spec (hp : Mechanism p space writable) (buses : List UInt8) (s : σ) :
    (probeBuses p buses s).1 =
        (firstBase (buses.flatMap (displayBarsOn (space s) writable))).map UInt64.toUInt32 ∧
      space (probeBuses p buses s).2 = space s := by
  obtain ⟨hsearch, hs'⟩ := searchLoop_spec buses (fun bus _ s' hs => probeBus_spec hp bus s' hs)
    (rfl : space s = space s)
  refine ⟨?_, hs'⟩
  rw [probeBuses, hsearch, firstBase_flatMap]

/-- **The probe finds the first suitable range of a display controller and leaves
every register as it was.** Suitable is any 32-bit range from 16 MiB on, however
small; only a 64-bit one must be of some size. -/
theorem display_probe_restores (hp : Mechanism p space writable) (s : σ) :
    (findPciVgaFramebuffer p s).1 =
        (firstBase (displayBars (space s) writable)).map UInt64.toUInt32 ∧
      space (findPciVgaFramebuffer p s).2 = space s :=
  probeBuses_spec hp (upTo 256) s

/-- The address bits of the two ranges of `displaySpace`. -/
def displayWritable (a : UInt32) : UInt32 :=
  if a = address 0 2 0 0x10 then 0xFFFFF000 else if a = address 0 2 0 0x14 then 0xFF000000 else 0

/-- The register block is taken for the framebuffer. -/
theorem display_probe_restores_small :
    (findPciVgaFramebuffer (latchPorts displayWritable) (0, displaySpace)).1 = some 0xFEB00000 ∧
      (findPciVgaFramebuffer (latchPorts displayWritable) (0, displaySpace)).2.2 = displaySpace :=
  ⟨by decide +kernel, (display_probe_restores (latch_mechanism displayWritable) (0, displaySpace)).2⟩

end ContinuumOS.Pci.Display
