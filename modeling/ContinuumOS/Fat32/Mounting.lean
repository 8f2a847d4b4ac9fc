import ContinuumOS.Fat32.Coherence

/-! # Which boot sectors are mounted

`fat32_validate_boot_sector` looks at four fields; `fat32_mount` computes with
nine. This module says how a mount ends, for every content of the device, and
when it establishes what the rest of the driver takes for granted. -/
namespace ContinuumOS.Fat32.Mounting
open ContinuumOS.Lib.Effect ContinuumOS.Lib.Memory
open ContinuumOS.Fat32.Volume ContinuumOS.Fat32.Paths
open ContinuumOS.Fat32.Coherence

/-- The boot sector, if the device gives its first sector. -/
def bootSectorOf (w : World) (device : Nat) : Option BootSector :=
  if transferOk w device 0 1 = true ∧ w.faults 0 = none then
    some (readBootSector (copyInto freshBuf 0 (1 % 256 * sectorSize)
      fun i => w.sectors device (0 * sectorSize + i)))
  else none

/-- There is no memory for the table, or the device does not give it. -/
def tableRefused (w : World) (device : Nat) (boot : BootSector) : Bool :=
  boot.fatSize32 * boot.bytesPerSector % 2 ^ 32 == 0 || !w.mallocs 0 ||
    !(transferOk w device boot.reservedSectors boot.fatSize32 && (w.faults 1).isNone)

/-- The first sector behind the copies of the table, without wrapping. -/
def dataStart (boot : BootSector) : Nat := boot.reservedSectors + boot.numFats * boot.fatSize32

/-- What a mount should establish. -/
structure Established (boot : BootSector) (fs : FsInfo) : Prop where
  sectorsPerCluster : 0 < fs.sectorsPerCluster
  numFats : 0 < fs.numFats
  rootCluster : 2 ≤ fs.rootCluster
  dataStart : fs.dataStartSector = fs.reservedSectors + fs.numFats * fs.fatSize
  inside : fs.dataStartSector ≤ boot.totalSectors32
  covered : fs.totalClusters + 2 ≤ fs.fatSize * 128

/-- The mount comes back, computes without underflow, and leaves the volume
unmounted or establishes all of it. -/
def MountsSafely (w : World) (device : Nat) : Prop :=
  ∃ r w', fat32Mount device w = some (r, w') ∧ (r = false → w'.mounted = false) ∧
    ∀ boot, bootSectorOf w device = some boot → fat32ValidateBootSector boot = true →
      (setUpFsInfo w.fs device boot).dataStartSector ≤ boot.totalSectors32 ∧
      (r = true → Established boot w'.fs)

/-- The fields describe a volume: there are copies of the table and a root
directory, the data area begins inside the volume, and the table has an entry
for every cluster. -/
structure Describes (boot : BootSector) : Prop where
  numFats : 0 < boot.numFats
  rootCluster : 2 ≤ boot.rootCluster
  inside : Mounting.dataStart boot ≤ boot.totalSectors32
  covered : (boot.totalSectors32 - Mounting.dataStart boot) / boot.sectorsPerCluster + 2 ≤
    boot.fatSize32 * 128

/-- The boot sector, if it passes the checks, has sectors in its clusters and does
not let the count of data sectors underflow, and it describes a volume unless
the table cannot be had. -/
def Acceptable (w : World) (device : Nat) : Prop :=
  ∀ boot, bootSectorOf w device = some boot → fat32ValidateBootSector boot = true →
    0 < boot.sectorsPerCluster ∧ Mounting.dataStart boot % 2 ^ 32 ≤ boot.totalSectors32 ∧
      (tableRefused w device boot = true ∨ Describes boot)

section

variable {w w' : World} {device : Nat} {boot : BootSector}

/-! ## How a mount ends -/

/-- The set-up and the table are all that a mount changes. -/
structure SetUp (fs : FsInfo) (w w' : World) : Prop where
  fs : ∃ loaded t, w'.fs = { fs with fatLoaded := loaded, fatTable := t }
  openFiles : w'.openFiles = w.openFiles

theorem blockdevRead_ends (dev sector count : Nat) (old : Buf) (w : World) :
    ∃ r w', blockdevRead dev sector count old w = some (r, w') ∧
      r.isSome = (transferOk w dev sector count && (w.faults 0).isNone) ∧
      w'.fs = w.fs ∧ w'.mounted = w.mounted ∧ w'.openFiles = w.openFiles := by
  unfold blockdevRead
  cases hok : transferOk w dev sector count with
  | false => exact ⟨none, w, rfl, rfl, rfl, rfl, rfl⟩
  | true =>
    cases hf : w.faults 0 with
    | some k => exact ⟨none, w.tick, rfl, rfl, rfl, rfl, rfl⟩
    | none => exact ⟨_, w.tick, rfl, rfl, rfl, rfl, rfl⟩

theorem blockdevRead_boot : ∃ r w', blockdevRead device 0 1 freshBuf w = some (r, w') ∧
    r.map readBootSector = bootSectorOf w device ∧ w'.mounted = w.mounted ∧
      (r.isSome → w' = w.tick) := by
  unfold blockdevRead bootSectorOf
  by_cases hok : transferOk w device 0 1 = true
  · rw [if_pos hok]
    cases hf : w.faults 0 with
    | none =>
      rw [if_pos ⟨hok, rfl⟩]
      exact ⟨_, _, rfl, rfl, rfl, fun _ => rfl⟩
    | some k =>
      rw [if_neg fun h => nomatch h.2]
      exact ⟨none, _, rfl, rfl, rfl, fun h => nomatch h⟩
  · rw [if_neg hok, if_neg fun h => hok h.1]
    exact ⟨none, _, rfl, rfl, rfl, fun h => nomatch h⟩

theorem readTable_ends (hm : w.mounted = false) :
    ∃ r w', readTable w = some (r, w') ∧ w'.mounted = r ∧ SetUp w.fs w w' ∧
      r = !(w.fs.fatSize * w.fs.bytesPerSector % 2 ^ 32 == 0 || !w.mallocs 0 ||
        !(transferOk w w.fs.deviceId w.fs.fatStartSector w.fs.fatSize &&
          (w.faults 0).isNone)) := by
  simp only [readTable, bind_run, get_run, Option.bind_some, kmalloc]
  by_cases hsize : w.fs.fatSize * w.fs.bytesPerSector % 2 ^ 32 = 0
  · rw [if_pos hsize]
    exact ⟨false, _, rfl, hm, ⟨⟨false, _, rfl⟩, rfl⟩, by rw [hsize]; rfl⟩
  rw [if_neg hsize]
  cases hmalloc : w.mallocs 0 with
  | false => exact ⟨false, _, rfl, hm, ⟨⟨false, _, rfl⟩, rfl⟩, by simp⟩
  | true =>
    obtain ⟨r, w', hread, hr, hfs, hmounted, hopen⟩ := blockdevRead_ends w.fs.deviceId
      w.fs.fatStartSector w.fs.fatSize w.heapBytes (World.loadTable w.spend w.spend.heapBytes)
    have hbeq : (w.fs.fatSize * w.fs.bytesPerSector % 2 ^ 32 == 0) = false :=
      beq_eq_false_iff_ne.mpr hsize
    have hr' : r.isSome = !(w.fs.fatSize * w.fs.bytesPerSector % 2 ^ 32 == 0 || !true ||
        !(transferOk w w.fs.deviceId w.fs.fatStartSector w.fs.fatSize &&
          (w.faults 0).isNone)) := by
      rw [hbeq, Bool.not_true, Bool.false_or, Bool.false_or, Bool.not_not]
      exact hr
    simp only [Option.bind_some, ite_run, if_true, bind_run, modify_run]
    rw [hread, ← hr']
    cases r with
    | none => exact ⟨false, w', rfl, hmounted.trans hm, ⟨⟨true, _, hfs⟩, hopen⟩, rfl⟩
    | some buf =>
      refine ⟨true, _, rfl, rfl, ⟨⟨true, fun i => readWord buf (4 * i), ?_⟩, hopen⟩, rfl⟩
      show (World.loadTable w' buf).fs = _
      rw [World.loadTable, hfs]
      rfl

theorem mount_of_none (hm : w.mounted = false) (h : bootSectorOf w device = none) :
    ∃ w', fat32Mount device w = some (false, w') ∧ w'.mounted = false := by
  obtain ⟨r, w', hread, hboot, hmounted, -⟩ := @blockdevRead_boot w device
  rw [h, Option.map_eq_none_iff] at hboot
  subst hboot
  refine ⟨w', ?_, hmounted.trans hm⟩
  simp only [fat32Mount, bind_run, get_run, Option.bind_some, hm, ite_run, Bool.false_eq_true,
    if_false, hread, pure_run]

/-- With one, the checks come first, then the count of clusters, then the table. -/
theorem mount_of_some (hm : w.mounted = false) (h : bootSectorOf w device = some boot) :
    fat32Mount device w =
      if fat32ValidateBootSector boot = false then some (false, w.tick)
      else if boot.sectorsPerCluster = 0 then none
      else readTable { w.tick with fs := setUpFsInfo w.fs device boot } := by
  obtain ⟨r, w', hread, hboot, -, htick⟩ := @blockdevRead_boot w device
  rw [h] at hboot
  obtain ⟨buf, rfl, rfl⟩ := Option.map_eq_some_iff.mp hboot
  obtain rfl := htick rfl
  simp only [fat32Mount, bind_run, get_run, Option.bind_some, hm, ite_run, Bool.false_eq_true,
    if_false, hread, pure_run, Bool.not_eq_true]
  split
  · rfl
  · split
    · rfl
    · rfl

theorem mount_of_valid (hm : w.mounted = false) (h : bootSectorOf w device = some boot)
    (hv : fat32ValidateBootSector boot = true) (hs : 0 < boot.sectorsPerCluster) :
    ∃ w', fat32Mount device w = some (!tableRefused w device boot, w') ∧
      w'.mounted = !tableRefused w device boot ∧ SetUp (setUpFsInfo w.fs device boot) w w' := by
  let u : World := { w.tick with fs := setUpFsInfo w.fs device boot }
  obtain ⟨r, w', hrun, hmounted, hset, hr⟩ := @readTable_ends u hm
  have hrefused : r = !tableRefused w device boot := hr
  refine ⟨w', ?_, hmounted.trans hrefused, ⟨hset.fs, hset.openFiles⟩⟩
  rw [mount_of_some hm h, if_neg (by simp [hv]), if_neg (Nat.pos_iff_ne_zero.mp hs), ← hrefused]
  exact hrun

/-! ## What a mount establishes -/

theorem totalSectors_lt (h : bootSectorOf w device = some boot) : boot.totalSectors32 < 2 ^ 32 := by
  unfold bootSectorOf at h
  split at h
  · obtain rfl := Option.some.inj h
    exact readWord_lt _ _
  · cases h

theorem established_iff {fs : FsInfo} (hw : SetUp (setUpFsInfo fs device boot) w w')
    (ht : boot.totalSectors32 < 2 ^ 32) (hs : 0 < boot.sectorsPerCluster)
    (hd : dataStart boot % 2 ^ 32 ≤ boot.totalSectors32) :
    Established boot w'.fs ↔ Describes boot := by
  obtain ⟨loaded, t, hfs⟩ := hw.fs
  rw [hfs]
  have hcount : (boot.totalSectors32 + 2 ^ 32 - dataStart boot % 2 ^ 32) % 2 ^ 32 =
      boot.totalSectors32 - dataStart boot % 2 ^ 32 := by omega
  constructor
  · intro h
    have hexact : dataStart boot % 2 ^ 32 = dataStart boot := h.dataStart
    have hcovered : (boot.totalSectors32 + 2 ^ 32 - dataStart boot % 2 ^ 32) % 2 ^ 32 /
        boot.sectorsPerCluster + 2 ≤ boot.fatSize32 * 128 := h.covered
    rw [hcount, hexact] at hcovered
    exact ⟨h.numFats, h.rootCluster, hexact ▸ hd, hcovered⟩
  · intro h
    have hexact : dataStart boot % 2 ^ 32 = dataStart boot :=
      Nat.mod_eq_of_lt (h.inside.trans_lt ht)
    refine ⟨hs, h.numFats, h.rootCluster, hexact, hd, ?_⟩
    show (boot.totalSectors32 + 2 ^ 32 - dataStart boot % 2 ^ 32) % 2 ^ 32 /
      boot.sectorsPerCluster + 2 ≤ boot.fatSize32 * 128
    rw [hcount, hexact]
    exact h.covered

/-- **When a mount rejects what it cannot handle.** For every content of the
device and every answer of heap and device: the mount of an unmounted volume
comes back without an underflow, with an error or with all that the driver takes
for granted, just when the boot sector, if it passes the four checks, has a
positive number of sectors per cluster and a data area that does not begin
behind the volume, and describes a volume or its table cannot be had. -/
theorem mounts_safely_iff (hm : w.mounted = false) :
    MountsSafely w device ↔ Acceptable w device := by
  cases hb : bootSectorOf w device with
  | none =>
    obtain ⟨w', hrun, hmounted⟩ := mount_of_none hm hb
    refine iff_of_true ⟨false, w', hrun, fun _ => hmounted, fun boot h => ?_⟩ fun boot h => ?_
    all_goals
      rw [hb] at h
      cases h
  | some boot =>
    have hother : ∀ boot', bootSectorOf w device = some boot' → boot' = boot := fun boot' h =>
      Option.some.inj (h.symm.trans hb)
    cases hv : fat32ValidateBootSector boot with
    | false =>
      have hrun : fat32Mount device w = some (false, w.tick) := by
        rw [mount_of_some hm hb, if_pos hv]
      refine iff_of_true ⟨false, w.tick, hrun, fun _ => hm, fun boot' h hv' => ?_⟩
        fun boot' h hv' => ?_
      all_goals
        rw [hother boot' h, hv] at hv'
        cases hv'
    | true =>
      by_cases hs : 0 < boot.sectorsPerCluster
      · obtain ⟨w', hrun, hmounted, hset⟩ := mount_of_valid hm hb hv hs
        have ht := totalSectors_lt hb
        constructor
        · rintro ⟨r, u, hr, -, hall⟩ boot' h -
          obtain rfl := hother boot' h
          obtain ⟨rfl, rfl⟩ := Prod.mk.inj (Option.some.inj (hrun.symm.trans hr))
          obtain ⟨hd, hest⟩ := hall boot' hb hv
          refine ⟨hs, hd, ?_⟩
          cases href : tableRefused w device boot' with
          | true => exact .inl rfl
          | false => exact .inr ((established_iff hset ht hs hd).mp (hest (by rw [href]; rfl)))
        · intro hacc
          obtain ⟨-, hd, hdesc⟩ := hacc boot hb hv
          refine ⟨_, w', hrun, fun hr => hmounted.trans hr, fun boot' h _ => ?_⟩
          obtain rfl := hother boot' h
          refine ⟨hd, fun hr =>
            (established_iff hset ht hs hd).mpr (hdesc.resolve_left fun href => ?_)⟩
          rw [href] at hr
          cases hr
      · refine iff_of_false ?_ fun hacc => hs (hacc boot hb hv).1
        rintro ⟨r, u, hr, -⟩
        rw [mount_of_some hm hb, if_neg (by simp [hv]),
          if_pos (Nat.eq_zero_of_not_pos hs)] at hr
        cases hr

end

/-! ## A disk without sectors in its clusters -/

/-- The disk of `unmounted`, with that many sectors in a cluster. -/
def diskWith (sectorsPerCluster : UInt8) : World :=
  { unmounted 2 1 13 with
    sectors := fun _ a => if a = 13 then sectorsPerCluster else bootByte 2 1 13 a }

/-- The mount divides by zero. -/
theorem mount_divides_by_zero : ¬ ∀ w device, w.mounted = false → MountsSafely w device := by
  intro h
  obtain ⟨r, w', hrun, -⟩ := h (diskWith 0) 0 rfl
  have hnone : fat32Mount 0 (diskWith 0) = none :=
    Option.isNone_iff_eq_none.mp (by decide +kernel)
  rw [hnone] at hrun
  cases hrun

/-- With one sector in a cluster the disk is mounted. -/
theorem mounts_safely_iff_example : MountsSafely (diskWith 1) 0 := by
  refine (mounts_safely_iff rfl).mpr fun boot h _ => ?_
  have hboot : bootSectorOf (diskWith 1) 0 = some ⟨512, 1, 1, 2, 0, 13, 1, 2, 0xAA55⟩ := by
    decide +kernel
  obtain rfl := Option.some.inj (h.symm.trans hboot)
  refine ⟨by decide, by decide, .inr ⟨by decide, by decide, by decide, by decide⟩⟩

end ContinuumOS.Fat32.Mounting
