import ContinuumOS.Fat32.Descriptor

/-! # The last two clusters

`fat32_mount` counts the clusters of the data area, whose numbers start at 2:
the last one is `total_clusters + 1`. `fat32_get_next_cluster` and the scan of
`fat32_allocate_cluster` take `total_clusters` for the end of the numbers, so
the last two clusters have no link to follow and are never found free. -/
namespace ContinuumOS.Fat32.DataArea
open ContinuumOS.Lib.Effect
open ContinuumOS.Fat32.Volume ContinuumOS.Fat32.Device ContinuumOS.Fat32.Allocation
open ContinuumOS.Fat32.Paths ContinuumOS.Fat32.Files ContinuumOS.Fat32.Descriptor

/-- The volume with the end of the cluster numbers in place of their count. The
geometry of a well-formed volume is that of this one: clusters 2 to
`total_clusters + 1` lie on the device and have entries in the table. -/
def numbered (w : World) : World :=
  { w with fs := { w.fs with totalClusters := w.fs.totalClusters + 2 } }

/-- A cluster of the data area. -/
def DataCluster (w : World) (c : Nat) : Prop := 2 ≤ c ∧ c < w.fs.totalClusters + 2

/-- `fat32_get_next_cluster` gives the entry of every data cluster. -/
def FollowsAll (w : World) : Prop :=
  ∀ c, DataCluster w c → fat32GetNextCluster w c = w.fs.fatTable c % 2 ^ 28

/-- A read gives the bytes of a file wherever in the data area its clusters lie. -/
def ReadsAll (w : World) : Prop := ∀ fd f l b, fileOf w fd = some f → Content (numbered w) l f b →
  ∀ size, f.position + size < 2 ^ 32 →
    ∃ w', fat32Read fd size w = some (some ((b.drop f.position).take size), w')

/-- `fat32_allocate_cluster` finds no cluster only when every one is in use. -/
def AllocatesAll (w : World) : Prop := ∀ p w', fat32AllocateCluster p w = some (0, w') →
  ∀ c, DataCluster w c → nextOf w c ≠ 0

/-- The last two clusters of the data area each end a chain. -/
def LastEnd (w : World) : Prop :=
  ∀ c, DataCluster w c → w.fs.totalClusters ≤ c → nextOf w c = endCluster

section

variable {w : World} {c : Nat}

/-! ## The count of `fat32_mount` -/

/-! ## The volume by its numbers -/

theorem geometry_of_numbered (g : Geometry (numbered w)) : Geometry w where
  mounted := g.mounted
  loaded := g.loaded
  present := g.present
  bytesPerSector := g.bytesPerSector
  sectorsPerCluster_pos := g.sectorsPerCluster_pos
  sectorsPerCluster_le := g.sectorsPerCluster_le
  fatStart_pos := g.fatStart_pos
  dataStart := g.dataStart
  room := by
    have h := g.room
    have hle : (w.fs.totalClusters - 2) * w.fs.sectorsPerCluster ≤
        (w.fs.totalClusters + 2 - 2) * w.fs.sectorsPerCluster := Nat.mul_le_mul_right _ (by omega)
    exact (Nat.add_le_add_left hle _).trans h
  fatSize_le := g.fatSize_le
  covered := (Nat.le_add_right _ 2).trans g.covered

theorem calm_of_numbered (h : Calm (numbered w)) : Calm w where
  geometry := geometry_of_numbered h.geometry
  noFaults := h.noFaults
  flushable := h.flushable
  mallocs := h.mallocs

/-! ## Following links -/

theorem getNextCluster_mounted (g : Geometry w) (c : Nat) : fat32GetNextCluster w c =
    if w.fs.totalClusters ≤ c then endCluster else nextOf w c := by
  rw [fat32GetNextCluster, if_neg (by simp [g.mounted, g.loaded]), nextOf]

theorem followsAll_iff (g : Geometry w) : FollowsAll w ↔ LastEnd w := by
  constructor
  · intro h c hc hge
    rw [nextOf, ← h c hc, getNextCluster_mounted g, if_pos hge]
  · intro he c hc
    rw [getNextCluster_mounted g]
    split
    · rename_i hge
      exact (he c hc hge).symm
    · rfl

theorem getNextCluster_numbered (g : Geometry (numbered w)) (he : LastEnd w) (h2 : 2 ≤ c) :
    fat32GetNextCluster (numbered w) c = fat32GetNextCluster w c := by
  rw [getNextCluster_mounted g, getNextCluster_mounted (geometry_of_numbered g)]
  show (if w.fs.totalClusters + 2 ≤ c then endCluster else nextOf w c) = _
  by_cases hlt : w.fs.totalClusters ≤ c
  · rw [if_pos hlt]
    by_cases hend : w.fs.totalClusters + 2 ≤ c
    · rw [if_pos hend]
    · rw [if_neg hend, he c ⟨h2, by omega⟩ hlt]
  · rw [if_neg hlt, if_neg (by omega)]

/-! ## Reading -/

theorem readCluster_numbered (nf : NoFaults w) (c : Nat) : ∃ r,
    fat32ReadCluster c w = some (r, w) ∧ fat32ReadCluster c (numbered w) = some (r, numbered w) ∧
      (c < 2 → r = none) := by
  have nf' : NoFaults (numbered w) := nf
  simp only [fat32ReadCluster, bind_run, get_run, Option.bind_some, ite_run, pure_run, blockdevRead,
    nf 0, nf' 0, nf.tick, nf'.tick]
  by_cases hm : w.mounted = true
  · rw [if_neg (not_not.mpr hm), if_neg (not_not.mpr (show (numbered w).mounted = true from hm))]
    by_cases hs : fat32ClusterToSector w c = 0
    · rw [if_pos hs, if_pos (show fat32ClusterToSector (numbered w) c = 0 from hs)]
      exact ⟨none, rfl, rfl, fun _ => rfl⟩
    · rw [if_neg hs, if_neg (show ¬ fat32ClusterToSector (numbered w) c = 0 from hs)]
      by_cases hok : transferOk w w.fs.deviceId (fat32ClusterToSector w c)
          w.fs.sectorsPerCluster = true
      · rw [if_pos hok]
        refine ⟨_, rfl, if_pos hok, fun hlt => absurd ?_ hs⟩
        rw [fat32ClusterToSector, if_pos hlt]
      · rw [if_neg hok]
        exact ⟨none, rfl, if_neg hok, fun _ => rfl⟩
  · rw [if_pos hm, if_pos (show ¬ (numbered w).mounted = true from hm)]
    exact ⟨none, rfl, rfl, fun _ => rfl⟩

theorem readLoop_numbered (g : Geometry (numbered w)) (nf : NoFaults w) (he : LastEnd w) (size : Nat)
    {x : Option (List UInt8) × File} : ∀ (rounds : Nat) (f : File) (acc : List UInt8),
    readLoop size rounds f acc (numbered w) = some (x, numbered w) →
    readLoop size rounds f acc w = some (x, w)
  | 0, f, acc, h => by cases h
  | rounds + 1, f, acc, h => by
    obtain ⟨r, hr, hr', hlt⟩ := readCluster_numbered nf f.currentCluster
    rw [readLoop] at h ⊢
    simp only [ite_run, bind_run, hr, hr', Option.bind_some] at h ⊢
    split
    · rename_i hgo
      rw [if_pos hgo] at h
      cases r with
      | none =>
        obtain ⟨rfl, -⟩ := Prod.mk.inj (Option.some.inj h)
        rfl
      | some buf =>
        have h2 : 2 ≤ f.currentCluster := by
          by_contra hno
          cases hlt (by omega)
        simp only [bind_run, get_run, Option.bind_some, getNextCluster_numbered g he h2] at h ⊢
        exact readLoop_numbered g nf he size rounds _ _ h
    · rename_i hstop
      rw [if_neg hstop] at h
      obtain ⟨rfl, -⟩ := Prod.mk.inj (Option.some.inj h)
      rfl

theorem readsAll_of_lastEnd (hw : Calm (numbered w)) (he : LastEnd w) : ReadsAll w := by
  intro fd f l b hf hc size hlt
  have hcalm := calm_of_numbered hw
  have hpos := hc.position_le
  simp only [fat32Read, bind_run, get_run, Option.bind_some, hf]
  by_cases hend : f.position ≥ f.fileSize
  · rw [hc.fileSize] at hend
    simp only [hc.fileSize, ite_run, if_pos hend, pure_run]
    exact ⟨w, by rw [List.drop_eq_nil_of_le hend, List.take_nil]⟩
  simp only [ite_run, if_neg hend]
  rw [hc.fileSize] at hend
  rw [hc.fileSize, Nat.mod_eq_of_lt hlt]
  generalize hn : (if f.position + size > b.length then b.length - f.position else size) = n
  have hle : f.position + n ≤ b.length := by
    rw [← hn]
    split <;> omega
  have htake : (b.drop f.position).take size = (b.drop f.position).take n := by
    rw [← hn]
    split
    · rw [List.take_of_length_le (by rw [List.length_drop]; omega),
        List.take_of_length_le (by rw [List.length_drop])]
    · rfl
  obtain ⟨f', hrun, -, -, -⟩ := readLoop_spec hw n (2 * n + 2) f [] hc (Nat.zero_le _) hle (by
    split <;> simp <;> omega)
  have hloop := readLoop_numbered hw.geometry hcalm.noFaults he n _ _ _ hrun
  simp only [bind_run, hcalm.mallocs.kmalloc hcalm.geometry.clusterSize_pos, Option.bind_some,
    ite_run, if_true, hloop, setFile, modify_run, pure_run]
  exact ⟨_, by rw [htake]; rfl⟩

/-! ## Allocating -/

theorem allocatesAll_of_lastEnd (hw : Calm (numbered w)) (he : LastEnd w) : AllocatesAll w := by
  intro p w' h c hc
  have hcalm := calm_of_numbered hw
  rw [allocateCluster_eq hcalm.geometry hcalm.noFaults hcalm.flushable, if_pos (hcalm.mallocs 0)]
    at h
  cases hfree : findFree w with
  | some a =>
    rw [hfree] at h
    have ha := (findFree_some hfree).1.1
    have hz : a = 0 := (Prod.mk.inj (Option.some.inj h)).1
    omega
  | none =>
    by_cases hlt : c < w.fs.totalClusters
    · exact findFree_none.mp hfree c ⟨hc.1, hlt⟩
    · rw [he c hc (by omega)]
      exact endCluster_ne_zero

/-- **When the driver uses the whole data area.** On a well-formed volume with
heap and device answering, the links of all data clusters are followed, files
anywhere in the data area are read and no free cluster is missed just when the
last two clusters each end a chain. -/
theorem whole_data_area_iff (hw : Calm (numbered w)) :
    FollowsAll w ∧ ReadsAll w ∧ AllocatesAll w ↔ LastEnd w := by
  have g := (calm_of_numbered hw).geometry
  refine ⟨fun h => (followsAll_iff g).mp h.1, fun he => ⟨(followsAll_iff g).mpr he, ?_, ?_⟩⟩
  · exact readsAll_of_lastEnd hw he
  · exact allocatesAll_of_lastEnd hw he

end

/-! ## A volume with eight clusters -/

/-- Clusters 2 to 9, of which those below `used` each are a chain. -/
def eightClusters (used : Nat) : World :=
  let w := smallVolume (fun c => if c < used then endCluster else 0) fun _ => true
  { w with fs := { w.fs with totalClusters := 8 } }

theorem calm_eightClusters (used : Nat) : Calm (numbered (eightClusters used)) where
  toReady := ready_smallVolume _ _
  mallocs _ := rfl

/-- Clusters 8 and 9 are free, and the disk is full. -/
theorem data_area_not_used : ¬ ∀ w, Calm (numbered w) →
    FollowsAll w ∧ ReadsAll w ∧ AllocatesAll w := by
  intro h
  have hrun : (fat32AllocateCluster 0 (eightClusters 8)).map Prod.fst = some 0 := by decide +kernel
  obtain ⟨⟨r, w'⟩, hr, rfl⟩ := Option.map_eq_some_iff.mp hrun
  exact (h _ (calm_eightClusters 8)).2.2 0 w' hr 8 ⟨by decide, by decide⟩ rfl

/-- With clusters 8 and 9 in use nothing is missed. -/
theorem whole_data_area_iff_example : AllocatesAll (eightClusters 10) := by
  refine ((whole_data_area_iff (calm_eightClusters 10)).mpr fun c hc _ => ?_).2.2
  have hlt : c < 10 := hc.2
  show (if c < 10 then endCluster else 0) % 2 ^ 28 = endCluster
  rw [if_pos hlt]
  rfl

end ContinuumOS.Fat32.DataArea
