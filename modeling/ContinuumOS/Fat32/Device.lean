import ContinuumOS.Fat32.Volume

/-! # Clusters and table copies on the device

On a volume whose geometry is consistent and a device without faults, reading
and writing a cluster and flushing the table always succeed; this module says
what they read and write, and that the clusters and the table copies do not
overlap. -/
namespace ContinuumOS.Fat32.Device
open ContinuumOS.Lib.Effect ContinuumOS.Lib.Memory ContinuumOS.Fat32.Volume

/-- The geometry of a mounted volume: the table copies lie behind the reserved
sectors and the data clusters behind them, all on the device; every cluster has
an entry in a table that fits the heap. -/
structure Geometry (w : World) : Prop where
  mounted : w.mounted = true
  loaded : w.fs.fatLoaded = true
  present : w.present w.fs.deviceId = true
  bytesPerSector : w.fs.bytesPerSector = sectorSize
  sectorsPerCluster_pos : 0 < w.fs.sectorsPerCluster
  sectorsPerCluster_le : w.fs.sectorsPerCluster ≤ 255
  fatStart_pos : 0 < w.fs.fatStartSector
  dataStart : w.fs.dataStartSector = w.fs.fatStartSector + w.fs.numFats * w.fs.fatSize
  room : w.fs.dataStartSector + (w.fs.totalClusters - 2) * w.fs.sectorsPerCluster ≤
    (w.sectorCount w.fs.deviceId).val
  fatSize_le : w.fs.fatSize ≤ 16384
  covered : w.fs.totalClusters ≤ w.fs.fatSize * 128

/-- No device request fails. -/
def NoFaults (w : World) : Prop := ∀ n, w.faults n = none

/-- A flush transfers something. -/
def Flushable (w : World) : Prop := w.fs.fatSize % 256 ≠ 0

theorem NoFaults.tick {w : World} (h : NoFaults w) : w.tick = w := by
  have ha : advance w.faults = w.faults := by
    funext n
    rw [advance, h, h]
  rw [World.tick, ha]

/-- Every `kmalloc` succeeds. -/
def Mallocs (w : World) : Prop := ∀ n, w.mallocs n = true

theorem Mallocs.spend {w : World} (h : Mallocs w) : w.spend = w := by
  have ha : advance w.mallocs = w.mallocs := by
    funext n
    rw [advance, h, h]
  rw [World.spend, ha]

theorem Mallocs.kmalloc {w : World} (h : Mallocs w) {n : Nat} (hn : 0 < n) :
    kmalloc n w = some (true, w) := by
  rw [Volume.kmalloc, if_neg (by omega), h 0, h.spend]

/-- A data cluster of the volume. -/
def InRange (w : World) (c : Nat) : Prop := 2 ≤ c ∧ c < w.fs.totalClusters

instance (w : World) (c : Nat) : Decidable (InRange w c) := inferInstanceAs (Decidable (_ ∧ _))

/-- The byte address of a cluster. -/
def clusterAddr (w : World) (c : Nat) : Nat :=
  (w.fs.dataStartSector + (c - 2) * w.fs.sectorsPerCluster) * sectorSize

/-- The bytes of a cluster, as a read gives them. -/
def clusterBuf (w : World) (c : Nat) : Buf :=
  copyInto freshBuf 0 (w.fs.sectorsPerCluster * sectorSize)
    fun i => w.sectors w.fs.deviceId (clusterAddr w c + i)

/-- The volume with a cluster overwritten. -/
def putCluster (w : World) (c : Nat) (buf : Buf) : World :=
  writeBytes w w.fs.deviceId (clusterAddr w c) (w.fs.sectorsPerCluster * sectorSize) buf

section

variable {w : World} {c d : Nat} {buf : Buf}

theorem Geometry.totalClusters_le (g : Geometry w) : w.fs.totalClusters ≤ 2 ^ 21 := by
  have h₁ := g.covered
  have h₂ := g.fatSize_le
  omega

theorem Geometry.clusterSize_eq (g : Geometry w) :
    clusterSize w = w.fs.sectorsPerCluster * sectorSize := by
  rw [clusterSize, g.bytesPerSector]

theorem Geometry.clusterSize_pos (g : Geometry w) : 0 < clusterSize w := by
  rw [g.clusterSize_eq]
  exact Nat.mul_pos g.sectorsPerCluster_pos (by decide)

theorem isChained_iff : isChained c = true ↔ 2 ≤ c ∧ c < endCluster := by
  simp [Volume.isChained]

theorem not_isChained_endCluster : isChained endCluster = false := by decide

theorem InRange.isChained (g : Geometry w) (h : InRange w c) : isChained c = true := by
  have h₁ := g.totalClusters_le
  obtain ⟨h₂, h₃⟩ := h
  refine isChained_iff.mpr ⟨h₂, ?_⟩
  simp only [endCluster]
  omega

theorem InRange.lt (g : Geometry w) (h : InRange w c) : c < 2 ^ 28 := by
  have h₁ := g.totalClusters_le
  have h₂ := h.2
  omega

theorem InRange.sector_le (g : Geometry w) (h : InRange w c) :
    w.fs.dataStartSector + (c - 2) * w.fs.sectorsPerCluster + w.fs.sectorsPerCluster ≤
      (w.sectorCount w.fs.deviceId).val := by
  have h₁ : (c - 2 + 1) * w.fs.sectorsPerCluster ≤
      (w.fs.totalClusters - 2) * w.fs.sectorsPerCluster :=
    Nat.mul_le_mul_right _ (by have := h.1; have := h.2; omega)
  have h₂ := g.room
  rw [Nat.succ_mul] at h₁
  omega

theorem InRange.sector_eq (g : Geometry w) (h : InRange w c) :
    fat32ClusterToSector w c = w.fs.dataStartSector + (c - 2) * w.fs.sectorsPerCluster := by
  have h₁ := h.sector_le g
  have h₂ := (w.sectorCount w.fs.deviceId).isLt
  rw [fat32ClusterToSector, if_neg (by have := h.1; omega), Nat.mod_eq_of_lt (by omega)]

theorem Geometry.dataStart_pos (g : Geometry w) : 0 < w.fs.dataStartSector := by
  have h₁ := g.dataStart
  have h₂ := g.fatStart_pos
  omega

theorem InRange.transferOk (g : Geometry w) (h : InRange w c) :
    transferOk w w.fs.deviceId (fat32ClusterToSector w c) w.fs.sectorsPerCluster = true := by
  have h₁ := h.sector_le g
  have h₂ := g.sectorsPerCluster_le
  have h₃ := g.sectorsPerCluster_pos
  have h₄ : w.fs.sectorsPerCluster % 256 = w.fs.sectorsPerCluster := Nat.mod_eq_of_lt (by omega)
  simp only [Volume.transferOk, g.present, h.sector_eq g, h₄, Bool.true_and, Bool.and_eq_true,
    decide_eq_true_eq, bne_iff_ne]
  omega

theorem readCluster_eq (g : Geometry w) (nf : NoFaults w) (h : InRange w c) :
    fat32ReadCluster c w = some (some (clusterBuf w c), w) := by
  have hs : fat32ClusterToSector w c ≠ 0 := by
    rw [h.sector_eq g]
    have := g.dataStart_pos
    omega
  have h₄ : w.fs.sectorsPerCluster % 256 = w.fs.sectorsPerCluster :=
    Nat.mod_eq_of_lt (by have := g.sectorsPerCluster_le; omega)
  simp only [fat32ReadCluster, bind_run, get_run, Option.bind_some, g.mounted, ite_run, hs,
    blockdevRead, h.transferOk g, nf 0, if_true, if_false, not_true_eq_false, nf.tick, h₄]
  rw [clusterBuf, clusterAddr, h.sector_eq g]

theorem writeCluster_eq (g : Geometry w) (nf : NoFaults w) (h : InRange w c) (buf : Buf) :
    fat32WriteCluster c buf w = some (true, putCluster w c buf) := by
  have hs : fat32ClusterToSector w c ≠ 0 := by
    rw [h.sector_eq g]
    have := g.dataStart_pos
    omega
  have h₄ : w.fs.sectorsPerCluster % 256 = w.fs.sectorsPerCluster :=
    Nat.mod_eq_of_lt (by have := g.sectorsPerCluster_le; omega)
  simp only [fat32WriteCluster, bind_run, get_run, Option.bind_some, g.mounted, ite_run, hs,
    blockdevWrite, h.transferOk g, nf 0, if_true, if_false, not_true_eq_false, nf.tick, h₄]
  rw [putCluster, clusterAddr, h.sector_eq g]

/-! ## Writes do not overlap -/

@[simp] theorem putCluster_fs : (putCluster w c buf).fs = w.fs := rfl
@[simp] theorem putCluster_openFiles : (putCluster w c buf).openFiles = w.openFiles := rfl
@[simp] theorem putCluster_mounted : (putCluster w c buf).mounted = w.mounted := rfl
@[simp] theorem putCluster_mallocs : (putCluster w c buf).mallocs = w.mallocs := rfl
@[simp] theorem putCluster_faults : (putCluster w c buf).faults = w.faults := rfl

theorem putCluster_sectors (a : Nat)
    (h : a < clusterAddr w c ∨ clusterAddr w c + w.fs.sectorsPerCluster * sectorSize ≤ a) :
    (putCluster w c buf).sectors w.fs.deviceId a = w.sectors w.fs.deviceId a := by
  simp only [putCluster, writeBytes, if_true, copyInto]
  exact store_outside h

theorem clusterAddr_apart (hc : 2 ≤ c) (hd : 2 ≤ d) (hne : c ≠ d) :
    clusterAddr w c + w.fs.sectorsPerCluster * sectorSize ≤ clusterAddr w d ∨
    clusterAddr w d + w.fs.sectorsPerCluster * sectorSize ≤ clusterAddr w c := by
  simp only [clusterAddr, ← Nat.add_mul]
  rcases Nat.lt_or_gt_of_ne hne with h | h
  · left
    refine Nat.mul_le_mul_right _ ?_
    have h₁ : (c - 2 + 1) * w.fs.sectorsPerCluster ≤ (d - 2) * w.fs.sectorsPerCluster :=
      Nat.mul_le_mul_right _ (by omega)
    rw [Nat.succ_mul] at h₁
    omega
  · right
    refine Nat.mul_le_mul_right _ ?_
    have h₁ : (d - 2 + 1) * w.fs.sectorsPerCluster ≤ (c - 2) * w.fs.sectorsPerCluster :=
      Nat.mul_le_mul_right _ (by omega)
    rw [Nat.succ_mul] at h₁
    omega

theorem clusterBuf_inside {i : Nat} (h : i < w.fs.sectorsPerCluster * sectorSize) :
    clusterBuf w c i = w.sectors w.fs.deviceId (clusterAddr w c + i) := by
  rw [clusterBuf, copyInto, store_inside (Nat.zero_le _) (by omega), Nat.sub_zero]

theorem clusterBuf_outside {i : Nat} (h : w.fs.sectorsPerCluster * sectorSize ≤ i) :
    clusterBuf w c i = 0 := by
  rw [clusterBuf, copyInto, store_outside (by omega), freshBuf]

theorem clusterBuf_congr {w' : World} (hfs : w'.fs = w.fs)
    (h : ∀ i, i < w.fs.sectorsPerCluster * sectorSize →
      w'.sectors w.fs.deviceId (clusterAddr w c + i) = w.sectors w.fs.deviceId (clusterAddr w c + i)) :
    clusterBuf w' c = clusterBuf w c := by
  funext i
  have ha : clusterAddr w' c = clusterAddr w c := by rw [clusterAddr, clusterAddr, hfs]
  by_cases hi : i < w.fs.sectorsPerCluster * sectorSize
  · rw [clusterBuf_inside hi, clusterBuf_inside (by rwa [hfs]), hfs, ha, h i hi]
  · rw [clusterBuf_outside (by rw [hfs]; omega), clusterBuf_outside (by omega)]

theorem clusterBuf_putCluster_other (hc : 2 ≤ c) (hd : 2 ≤ d) (hne : d ≠ c) :
    clusterBuf (putCluster w c buf) d = clusterBuf w d := by
  refine clusterBuf_congr (putCluster_fs) fun i hi => putCluster_sectors _ ?_
  have := clusterAddr_apart (w := w) hc hd (Ne.symm hne)
  omega

theorem clusterBuf_putCluster_same {i : Nat} (h : i < w.fs.sectorsPerCluster * sectorSize) :
    clusterBuf (putCluster w c buf) c i = buf i := by
  rw [clusterBuf_inside (w := putCluster w c buf) h]
  change (putCluster w c buf).sectors w.fs.deviceId (clusterAddr w c + i) = buf i
  simp only [putCluster, writeBytes, if_true, copyInto]
  rw [store_inside (by omega) (by omega), Nat.add_sub_cancel_left]

/-! ## Flushing the table -/

/-- Address `a` of the device, when the first `k` copies have been written. -/
def flushedByte (w : World) (k a : Nat) : UInt8 :=
  let off := a - w.fs.fatStartSector * sectorSize
  let len := w.fs.fatSize * sectorSize
  if w.fs.fatStartSector * sectorSize ≤ a ∧ off < k * len ∧
      off % len < w.fs.fatSize % 256 * sectorSize then
    tableBytes w.fs.fatTable (off % len)
  else w.sectors w.fs.deviceId a

/-- The volume with the first `k` copies of the table written. -/
def flushedTo (w : World) (k : Nat) : World :=
  { w with sectors := fun d a => if d = w.fs.deviceId then flushedByte w k a else w.sectors d a }

/-- The volume after a flush. -/
def flushed (w : World) : World := flushedTo w w.fs.numFats

theorem flushedTo_zero : flushedTo w 0 = w := by
  have hs : (fun d a => if d = w.fs.deviceId then flushedByte w 0 a else w.sectors d a) =
      w.sectors := by
    funext d a
    split
    · rename_i h; simp [flushedByte, h]
    · rfl
  rw [flushedTo, hs]

theorem flushedTo_succ (k : Nat) (hs : 0 < w.fs.fatSize) :
    writeBytes (flushedTo w k) w.fs.deviceId ((w.fs.fatStartSector + k * w.fs.fatSize) * sectorSize)
      (w.fs.fatSize % 256 * sectorSize) (tableBytes w.fs.fatTable) = flushedTo w (k + 1) := by
  have hlen : 0 < w.fs.fatSize * sectorSize := Nat.mul_pos hs (by decide)
  have hle : w.fs.fatSize % 256 * sectorSize ≤ w.fs.fatSize * sectorSize :=
    Nat.mul_le_mul_right _ (Nat.mod_le _ _)
  have haddr : (w.fs.fatStartSector + k * w.fs.fatSize) * sectorSize =
      w.fs.fatStartSector * sectorSize + k * (w.fs.fatSize * sectorSize) := by
    rw [Nat.add_mul, Nat.mul_assoc]
  rw [haddr]
  simp only [writeBytes, flushedTo, copyInto, World.mk.injEq, true_and, and_true]
  funext d
  split
  · rename_i hd
    subst hd
    funext a
    simp only [flushedByte, store]
    generalize w.fs.fatStartSector * sectorSize = base at *
    generalize w.fs.fatSize * sectorSize = len at *
    generalize w.fs.fatSize % 256 * sectorSize = part at *
    rw [Nat.succ_mul]
    by_cases ha : base ≤ a
    · obtain ⟨off, rfl⟩ := Nat.exists_eq_add_of_le ha
      rw [Nat.add_sub_cancel_left, Nat.add_sub_add_left]
      by_cases hk : off < k * len
      · -- inside the copies written before
        have h₁ : ¬ (base + k * len ≤ base + off ∧ base + off < base + k * len + part) := by omega
        have h₂ : off < k * len + len := by omega
        simp only [h₁, hk, h₂, if_false]
      · by_cases hk' : off < k * len + len
        · -- inside this copy
          have hmod : off % len = off - k * len := by
            have h := Nat.sub_mul_mod (x := off) (k := k) (n := len) (by rw [Nat.mul_comm]; omega)
            rw [Nat.mul_comm, ← h, Nat.mod_eq_of_lt (by rw [Nat.mul_comm]; omega)]
          simp only [hmod, hk, hk', ha, false_and, and_false, if_false, true_and]
          by_cases hp : off - k * len < part
          · have h₁ : base + k * len ≤ base + off ∧ base + off < base + k * len + part := by omega
            simp only [h₁, hp, and_self, if_true]
          · have h₁ : ¬ (base + k * len ≤ base + off ∧ base + off < base + k * len + part) := by omega
            simp only [h₁, hp, if_false]
        · have h₁ : ¬ (base + k * len ≤ base + off ∧ base + off < base + k * len + part) := by omega
          simp only [h₁, hk, hk', false_and, and_false, if_false]
    · have h₁ : ¬ (base + k * len ≤ a ∧ a < base + k * len + part) := by omega
      simp only [h₁, ha, false_and, if_false]
  · rfl

theorem flushedTo_transferOk (g : Geometry w) (hf : Flushable w) {k : Nat}
    (hk : k < w.fs.numFats) : transferOk (flushedTo w k) w.fs.deviceId
      ((w.fs.fatStartSector + k * w.fs.fatSize) % 2 ^ 32) w.fs.fatSize = true ∧
    (w.fs.fatStartSector + k * w.fs.fatSize) % 2 ^ 32 = w.fs.fatStartSector + k * w.fs.fatSize := by
  have h₁ : (k + 1) * w.fs.fatSize ≤ w.fs.numFats * w.fs.fatSize := Nat.mul_le_mul_right _ hk
  rw [Nat.succ_mul] at h₁
  have h₂ := g.dataStart
  have h₃ := g.room
  have h₄ := (w.sectorCount w.fs.deviceId).isLt
  have h₅ : w.fs.fatSize % 256 ≤ w.fs.fatSize := Nat.mod_le _ _
  have hmod : (w.fs.fatStartSector + k * w.fs.fatSize) % 2 ^ 32 =
      w.fs.fatStartSector + k * w.fs.fatSize := Nat.mod_eq_of_lt (by omega)
  refine ⟨?_, hmod⟩
  have hf' : w.fs.fatSize % 256 ≠ 0 := hf
  simp only [transferOk, flushedTo, g.present, hmod, Bool.true_and, Bool.and_eq_true,
    decide_eq_true_eq, bne_iff_ne, ne_eq, hf', not_false_eq_true, and_true]
  omega

theorem flushCopies_eq (g : Geometry w) (nf : NoFaults w) (hf : Flushable w) : ∀ (left k : Nat),
    k + left ≤ w.fs.numFats →
    flushCopies left k (flushedTo w k) = some (true, flushedTo w (k + left))
  | 0, k, _ => rfl
  | left + 1, k, h => by
    have hs : 0 < w.fs.fatSize := Nat.pos_of_ne_zero fun h0 => hf (by rw [h0])
    obtain ⟨hok, hmod⟩ := flushedTo_transferOk g hf (k := k) (by omega)
    have hnf : NoFaults (flushedTo w k) := nf
    have hfs : (flushedTo w k).fs = w.fs := rfl
    have ih := flushCopies_eq g nf hf left (k + 1) (by omega)
    rw [hmod] at hok
    rw [flushCopies]
    simp only [bind_run, get_run, Option.bind_some, hfs, hmod, blockdevWrite, hok, if_true,
      hnf 0, hnf.tick, flushedTo_succ k hs, ite_run, ih]
    rw [show k + 1 + left = k + (left + 1) by omega]

theorem flushFat_eq (g : Geometry w) (nf : NoFaults w) (hf : Flushable w) :
    fat32FlushFat w = some (true, flushed w) := by
  have h := flushCopies_eq g nf hf w.fs.numFats 0 (by omega)
  rw [flushedTo_zero, Nat.zero_add] at h
  simp only [fat32FlushFat, bind_run, get_run, Option.bind_some, g.mounted, g.loaded, ite_run,
    not_true_eq_false, or_self, if_false]
  exact h

@[simp] theorem flushed_fs : (flushed w).fs = w.fs := rfl
@[simp] theorem flushed_openFiles : (flushed w).openFiles = w.openFiles := rfl
@[simp] theorem flushed_mounted : (flushed w).mounted = w.mounted := rfl
@[simp] theorem flushed_mallocs : (flushed w).mallocs = w.mallocs := rfl
@[simp] theorem flushed_faults : (flushed w).faults = w.faults := rfl

theorem flushed_data (g : Geometry w) {a : Nat} (h : w.fs.dataStartSector * sectorSize ≤ a) :
    (flushed w).sectors w.fs.deviceId a = w.sectors w.fs.deviceId a := by
  have hd : w.fs.dataStartSector * sectorSize = w.fs.fatStartSector * sectorSize +
      w.fs.numFats * (w.fs.fatSize * sectorSize) := by
    rw [g.dataStart, Nat.add_mul, Nat.mul_assoc]
  simp only [flushed, flushedTo, if_true, flushedByte]
  rw [if_neg (by omega)]

theorem clusterBuf_flushed (g : Geometry w) : clusterBuf (flushed w) c = clusterBuf w c := by
  refine clusterBuf_congr flushed_fs fun i _ => flushed_data g ?_
  have : w.fs.dataStartSector * sectorSize ≤
      (w.fs.dataStartSector + (c - 2) * w.fs.sectorsPerCluster) * sectorSize :=
    Nat.mul_le_mul_right _ (Nat.le_add_right _ _)
  rw [clusterAddr]
  omega

/-! ## What the geometry depends on -/

/-- A volume that differs in table, bytes, descriptors and streams. -/
structure SameGeometry (w w' : World) : Prop where
  fs : { w'.fs with fatTable := w.fs.fatTable } = w.fs
  mounted : w'.mounted = w.mounted
  present : w'.present = w.present
  sectorCount : w'.sectorCount = w.sectorCount

theorem SameGeometry.refl (w : World) : SameGeometry w w := ⟨rfl, rfl, rfl, rfl⟩

theorem SameGeometry.trans {w₁ w₂ w₃ : World} (h : SameGeometry w₁ w₂) (h' : SameGeometry w₂ w₃) :
    SameGeometry w₁ w₃ := by
  refine ⟨?_, h'.mounted.trans h.mounted, h'.present.trans h.present,
    h'.sectorCount.trans h.sectorCount⟩
  rw [← h.fs, ← h'.fs]

theorem SameGeometry.fields {w' : World} (h : SameGeometry w w') :
    w'.fs.deviceId = w.fs.deviceId ∧ w'.fs.bytesPerSector = w.fs.bytesPerSector ∧
    w'.fs.sectorsPerCluster = w.fs.sectorsPerCluster ∧ w'.fs.numFats = w.fs.numFats ∧
    w'.fs.fatSize = w.fs.fatSize ∧ w'.fs.rootCluster = w.fs.rootCluster ∧
    w'.fs.dataStartSector = w.fs.dataStartSector ∧ w'.fs.fatStartSector = w.fs.fatStartSector ∧
    w'.fs.totalClusters = w.fs.totalClusters ∧ w'.fs.fatLoaded = w.fs.fatLoaded := by
  rw [← h.fs]
  exact ⟨rfl, rfl, rfl, rfl, rfl, rfl, rfl, rfl, rfl, rfl⟩

theorem SameGeometry.geometry {w' : World} (h : SameGeometry w w') (g : Geometry w) :
    Geometry w' := by
  obtain ⟨h₁, h₂, h₃, h₄, h₅, -, h₇, h₈, h₉, h₁₀⟩ := h.fields
  constructor
  · rw [h.mounted]; exact g.mounted
  · rw [h₁₀]; exact g.loaded
  · rw [h.present, h₁]; exact g.present
  · rw [h₂]; exact g.bytesPerSector
  · rw [h₃]; exact g.sectorsPerCluster_pos
  · rw [h₃]; exact g.sectorsPerCluster_le
  · rw [h₈]; exact g.fatStart_pos
  · rw [h₄, h₅, h₇, h₈]; exact g.dataStart
  · rw [h₁, h₃, h₇, h₉, h.sectorCount]; exact g.room
  · rw [h₅]; exact g.fatSize_le
  · rw [h₅, h₉]; exact g.covered

theorem SameGeometry.inRange {w' : World} (h : SameGeometry w w') : InRange w' c ↔ InRange w c := by
  rw [InRange, InRange, h.fields.2.2.2.2.2.2.2.2.1]

theorem sameGeometry_putCluster : SameGeometry w (putCluster w c buf) := ⟨rfl, rfl, rfl, rfl⟩

theorem sameGeometry_flushed : SameGeometry w (flushed w) := ⟨rfl, rfl, rfl, rfl⟩

theorem sameGeometry_setTable {t : Nat → Nat} : SameGeometry w (w.setTable t) := ⟨rfl, rfl, rfl, rfl⟩

theorem sameGeometry_spend : SameGeometry w w.spend := ⟨rfl, rfl, rfl, rfl⟩

end

end ContinuumOS.Fat32.Device
