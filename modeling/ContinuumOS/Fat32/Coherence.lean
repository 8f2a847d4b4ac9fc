import ContinuumOS.Fat32.Files
import ContinuumOS.Fat32.Search

/-! # The table and its copies on the device

`fat32_mount` reads the table into memory and `fat32_flush_fat` writes it to
every copy, each with one transfer of `fat_size` sectors. The count of a transfer
has 8 bits: up to 255 sectors the copies follow the table through every request,
beyond that the end of the table is never transferred. -/
namespace ContinuumOS.Fat32.Coherence
open ContinuumOS.Lib.Effect ContinuumOS.Lib.Memory ContinuumOS.Libc.String
open ContinuumOS.Fat32.Volume ContinuumOS.Fat32.Device ContinuumOS.Fat32.Allocation
open ContinuumOS.Fat32.Names ContinuumOS.Fat32.Directory ContinuumOS.Fat32.Paths
open ContinuumOS.Fat32.Files ContinuumOS.Fat32.Search

/-- The byte address of a copy of the table. -/
def copyAddr (w : World) (k : Nat) : Nat :=
  (w.fs.fatStartSector + k * w.fs.fatSize) * sectorSize

/-- Every copy on the device holds the table in memory. -/
def Coherent (w : World) : Prop :=
  ∀ k < w.fs.numFats, ∀ i < w.fs.fatSize * sectorSize,
    w.sectors w.fs.deviceId (copyAddr w k + i) = tableBytes w.fs.fatTable i

/-- No link of the table leads outside the data clusters. -/
def Links (w : World) : Prop :=
  ∀ c, InRange w c → isChained (nextOf w c) = true → Tame w (nextOf w c)

/-- The clusters that a descriptor reads and writes. One that the device refuses
is never stepped over. -/
structure FileIn (w : World) (f : File) : Prop where
  start : Tame w f.startCluster
  current : isChained f.currentCluster = true → InRange w f.currentCluster ∨
    Refused w f.currentCluster ∧ f.clusterPosition < clusterSize w
  entry : Tame w f.dirEntryCluster

/-- The state of the volume between two requests: `w₀` fixes its geometry. -/
structure Kept (w₀ w : World) : Prop extends Ready w where
  same : SameGeometry w₀ w
  links : Links w
  files : ∀ fd, (w.openFiles fd).inUse = true → FileIn w₀ (w.openFiles fd)
  coherent : Coherent w

section

variable {w₀ w : World} {c p : Nat}

theorem Kept.inRange (h : Kept w₀ w) : InRange w c ↔ InRange w₀ c := h.same.inRange

theorem Kept.tame (h : Kept w₀ w) : Tame w c ↔ Tame w₀ c := SameGeometry.tame h.same

theorem Kept.next (h : Kept w₀ w) (hc : InRange w₀ c) (hn : isChained (nextOf w c) = true) :
    Tame w₀ (nextOf w c) := h.tame.mp (h.links c (h.inRange.mpr hc) hn)

theorem Kept.clusterSize (h : Kept w₀ w) : clusterSize w = Volume.clusterSize w₀ := by
  obtain ⟨-, h₂, h₃, -⟩ := h.same.fields
  rw [Volume.clusterSize, Volume.clusterSize, h₂, h₃]

theorem getNextCluster_outside (h : w.fs.totalClusters ≤ c) :
    fat32GetNextCluster w c = endCluster := by
  simp only [fat32GetNextCluster, h, if_true, ite_self]

theorem getNextCluster_tame (h : Kept w₀ w) (hc : 2 ≤ c)
    (hn : isChained (fat32GetNextCluster w c) = true) : Tame w₀ (fat32GetNextCluster w c) := by
  by_cases hlt : c < w.fs.totalClusters
  · rw [getNextCluster_eq h.geometry ⟨hc, hlt⟩] at hn ⊢
    exact h.next (h.inRange.mp ⟨hc, hlt⟩) hn
  · rw [getNextCluster_outside (Nat.not_lt.mp hlt), not_isChained_endCluster] at hn
    cases hn

/-! ## Single steps -/

theorem copyAddr_lt (g : Geometry w) {k i : Nat} (hk : k < w.fs.numFats)
    (hi : i < w.fs.fatSize * sectorSize) : copyAddr w k + i < clusterAddr w c := by
  have h₁ : (k + 1) * w.fs.fatSize ≤ w.fs.numFats * w.fs.fatSize := Nat.mul_le_mul_right _ hk
  rw [Nat.succ_mul] at h₁
  have h₂ : (w.fs.fatStartSector + k * w.fs.fatSize + w.fs.fatSize) * sectorSize ≤
      (w.fs.dataStartSector + (c - 2) * w.fs.sectorsPerCluster) * sectorSize :=
    Nat.mul_le_mul_right _ (by have := g.dataStart; omega)
  rw [Nat.add_mul] at h₂
  rw [copyAddr, clusterAddr]
  omega

theorem coherent_putCluster (g : Geometry w) {buf : Buf} (h : Coherent w) :
    Coherent (putCluster w c buf) := by
  intro k hk i hi
  exact (putCluster_sectors _ (.inl (copyAddr_lt g hk hi))).trans (h k hk i hi)

theorem coherent_flushed (hs : w.fs.fatSize ≤ 255) : Coherent (flushed w) := by
  intro k hk i hi
  have hk : k < w.fs.numFats := hk
  have hi : i < w.fs.fatSize * sectorSize := hi
  have haddr : copyAddr w k + i = w.fs.fatStartSector * sectorSize +
      (k * (w.fs.fatSize * sectorSize) + i) := by
    rw [copyAddr, Nat.add_mul, Nat.mul_assoc, Nat.add_assoc]
  have hmod : (k * (w.fs.fatSize * sectorSize) + i) % (w.fs.fatSize * sectorSize) = i := by
    rw [Nat.mul_comm, Nat.mul_add_mod, Nat.mod_eq_of_lt hi]
  have hlt : k * (w.fs.fatSize * sectorSize) + i < w.fs.numFats * (w.fs.fatSize * sectorSize) := by
    have h : (k + 1) * (w.fs.fatSize * sectorSize) ≤ w.fs.numFats * (w.fs.fatSize * sectorSize) :=
      Nat.mul_le_mul_right _ hk
    rw [Nat.succ_mul] at h
    omega
  have h256 : w.fs.fatSize % 256 = w.fs.fatSize := Nat.mod_eq_of_lt (by omega)
  change (if w.fs.deviceId = w.fs.deviceId then flushedByte w w.fs.numFats (copyAddr w k + i)
    else w.sectors w.fs.deviceId (copyAddr w k + i)) = tableBytes w.fs.fatTable i
  rw [if_pos rfl, haddr, flushedByte]
  simp only [Nat.add_sub_cancel_left, hmod, h256]
  rw [if_pos ⟨Nat.le_add_right _ _, hlt, hi⟩]

theorem Kept.of_table {w' : World} (h : Kept w₀ w) (hs : w.fs.fatSize ≤ 255)
    (same : SameGeometry w w') (faults : w'.faults = w.faults)
    (files : w'.openFiles = w.openFiles) (links : Links w') : Kept w₀ (flushed w') where
  toReady := h.toReady.of_same (same.trans sameGeometry_flushed) faults
  same := h.same.trans (same.trans sameGeometry_flushed)
  links := links
  files := by rw [flushed_openFiles, files]; exact h.files
  coherent := coherent_flushed (by rw [same.fields.2.2.2.2.1]; exact hs)

theorem Kept.of_data {w' : World} (h : Kept w₀ w) (fs : w'.fs = w.fs)
    (same : SameGeometry w w') (faults : w'.faults = w.faults)
    (files : ∀ fd, (w'.openFiles fd).inUse = true → FileIn w₀ (w'.openFiles fd))
    (coherent : Coherent w') : Kept w₀ w' where
  toReady := h.toReady.of_same same faults
  same := h.same.trans same
  links := by
    intro c hc hn
    rw [nextOf, fs] at hn ⊢
    exact (SameGeometry.tame same).mpr (h.links c (same.inRange.mp hc) hn)
  files := files
  coherent := coherent

theorem Kept.spend (h : Kept w₀ w) : Kept w₀ w.spend :=
  h.of_data rfl sameGeometry_spend rfl h.files h.coherent

theorem Kept.setFile (h : Kept w₀ w) (fd : Nat) {f : File} (hf : f.inUse = true → FileIn w₀ f) :
    Kept w₀ (w.setFile fd f) := by
  refine h.of_data rfl ⟨rfl, rfl, rfl, rfl⟩ rfl (fun i => ?_) h.coherent
  simp only [World.setFile]
  split
  · exact hf
  · exact h.files i

theorem Kept.putCluster (h : Kept w₀ w) (c : Nat) (buf : Buf) : Kept w₀ (putCluster w c buf) :=
  h.of_data rfl sameGeometry_putCluster rfl h.files (coherent_putCluster h.geometry h.coherent)

theorem Kept.quiet {w' : World} (h : Kept w₀ w) (hq : Quiet w w') : Kept w₀ w' := by
  obtain ⟨m, rfl⟩ := hq
  exact h.of_data rfl ⟨rfl, rfl, rfl, rfl⟩ rfl h.files h.coherent

theorem kmalloc_kept (n : Nat) : Triple (Kept w₀) (kmalloc n) fun _ => Kept w₀ := by
  intro w h a w' hr
  rw [kmalloc] at hr
  split at hr
  · obtain ⟨-, rfl⟩ := Prod.mk.inj (Option.some.inj hr)
    exact h
  · obtain ⟨-, rfl⟩ := Prod.mk.inj (Option.some.inj hr)
    exact h.spend

theorem readCluster_kept (hc : Tame w₀ c) : Triple (Kept w₀) (fat32ReadCluster c)
    fun r w => (∀ buf, r = some buf → InRange w₀ c) ∧ Kept w₀ w := by
  intro w h a w' hr
  rcases h.tame.mpr hc with hc | hc
  · rw [readCluster_eq h.geometry h.noFaults hc] at hr
    obtain ⟨-, rfl⟩ := Prod.mk.inj (Option.some.inj hr)
    exact ⟨fun _ _ => h.inRange.mp hc, h⟩
  · rw [readCluster_refused hc] at hr
    obtain ⟨rfl, rfl⟩ := Prod.mk.inj (Option.some.inj hr)
    exact ⟨by simp, h⟩

theorem writeCluster_kept (hc : Tame w₀ c) (buf : Buf) :
    Triple (Kept w₀) (fat32WriteCluster c buf) fun b w => (b = true → InRange w₀ c) ∧ Kept w₀ w := by
  intro w h a w' hr
  rcases h.tame.mpr hc with hc | hc
  · rw [writeCluster_eq h.geometry h.noFaults hc] at hr
    obtain ⟨-, rfl⟩ := Prod.mk.inj (Option.some.inj hr)
    exact ⟨fun _ => h.inRange.mp hc, h.putCluster c buf⟩
  · rw [writeCluster_refused hc] at hr
    obtain ⟨rfl, rfl⟩ := Prod.mk.inj (Option.some.inj hr)
    exact ⟨by simp, h⟩

theorem writeCluster_keeps (hc : Tame w₀ c) (buf : Buf) :
    Triple (Kept w₀) (fat32WriteCluster c buf) fun _ => Kept w₀ :=
  (writeCluster_kept hc buf).post fun _ _ h => h.2

theorem linkNew_links (hl : Links w) (hc : InRange w c) (hlt : c < 2 ^ 28) :
    Links (linkNew w p c) := by
  have hnext : ∀ a, nextOf (linkNew w p c) a = endCluster ∨ nextOf (linkNew w p c) a = c ∨
      nextOf (linkNew w p c) a = nextOf w a := by
    intro a
    simp only [linkNew]
    split
    · simp only [setFat_next, or_mod_of_lt _ hlt]
      split
      · exact .inr (.inl rfl)
      · split
        · exact .inl rfl
        · exact .inr (.inr rfl)
    · simp only [setFat_next]
      split
      · exact .inl rfl
      · exact .inr (.inr rfl)
  intro a ha hn
  refine (SameGeometry.tame sameGeometry_linkNew).mpr ?_
  have ha := sameGeometry_linkNew.inRange.mp ha
  rcases hnext a with h | h | h <;> rw [h] at hn ⊢
  · rw [not_isChained_endCluster] at hn
    cases hn
  · exact .inl hc
  · exact hl a ha hn

theorem allocateCluster_kept (hs : w₀.fs.fatSize ≤ 255) (p : Nat) :
    Triple (Kept w₀) (fat32AllocateCluster p) fun c w => (c ≠ 0 → InRange w₀ c) ∧ Kept w₀ w := by
  intro w h a w' hr
  have hs' : w.fs.fatSize ≤ 255 := by rw [h.same.fields.2.2.2.2.1]; exact hs
  rw [allocateCluster_eq h.geometry h.noFaults h.flushable] at hr
  split at hr
  · cases hfree : findFree w with
    | none =>
      rw [hfree] at hr
      obtain ⟨rfl, rfl⟩ := Prod.mk.inj (Option.some.inj hr)
      exact ⟨fun h0 => absurd rfl h0, h.spend⟩
    | some c =>
      rw [hfree] at hr
      obtain ⟨rfl, rfl⟩ := Prod.mk.inj (Option.some.inj hr)
      have hin := (findFree_some hfree).1
      refine ⟨fun _ => h.inRange.mp hin, ?_⟩
      have hl := linkNew_links (p := p) h.spend.links hin (hin.lt h.geometry)
      exact h.spend.of_table hs' (sameGeometry_linkNew.trans sameGeometry_putCluster)
        linkNew_same.2.2.2 linkNew_same.2.1 hl
  · obtain ⟨rfl, rfl⟩ := Prod.mk.inj (Option.some.inj hr)
    exact ⟨fun h0 => absurd rfl h0, h.spend⟩

theorem freeLoop_entries : ∀ {rounds s : Nat} {t t' : Nat → Nat}, freeLoop rounds s t = some t' →
    ∀ a, t' a = 0 ∨ t' a = t a
  | 0, s, t, t', h, a => by
    rw [freeLoop] at h
    split at h
    · cases h
    · exact .inr (by rw [Option.some.inj h])
  | rounds + 1, s, t, t', h, a => by
    rw [freeLoop] at h
    split at h
    · rcases freeLoop_entries h a with ha | ha
      · exact .inl ha
      · rw [setEntry] at ha
        split at ha
        · exact .inl ha
        · exact .inr ha
    · exact .inr (by rw [Option.some.inj h])

theorem freeClusterChain_kept (hs : w₀.fs.fatSize ≤ 255) (s : Nat) :
    Triple (Kept w₀) (fat32FreeClusterChain s) fun _ => Kept w₀ := by
  rw [fat32FreeClusterChain]
  refine .ite (fun _ => .get_bind fun w h => ?_) fun _ => .pure fun w h => h
  cases hloop : freeLoop walkLimit s w.fs.fatTable with
  | none => exact .diverge
  | some t =>
    have hs' : w.fs.fatSize ≤ 255 := by rw [h.same.fields.2.2.2.2.1]; exact hs
    have hl : Links (w.setTable t) := by
      intro c hc hn
      have hent : nextOf (w.setTable t) c = t c % 2 ^ 28 := rfl
      rcases freeLoop_entries hloop c with h0 | h0
      · rw [hent, h0] at hn
        cases hn
      · rw [hent, h0] at hn ⊢
        exact h.links c hc hn
    intro u hu a w' hr
    subst hu
    have hg := sameGeometry_setTable (t := t).geometry h.geometry
    simp only [bind_run, modify_run, Option.bind_some,
      flushFat_eq hg h.noFaults h.flushable, pure_run] at hr
    obtain ⟨-, rfl⟩ := Prod.mk.inj (Option.some.inj hr)
    exact h.of_table hs' sameGeometry_setTable rfl rfl hl

/-! ## Directories -/

theorem Kept.chainSet (h : Kept w₀ w) : ChainSet w (Tame w) := ⟨fun _ hc => hc, fun c _ => h.links c⟩

theorem kept_of_quiet {α : Type} {m : Fat α}
    (h : ∀ w, Kept w₀ w → Triple (Quiet w) m fun _ => Quiet w) :
    Triple (Kept w₀) m fun _ => Kept w₀ := by
  intro w hw a w' hr
  exact hw.quiet (h w hw w (.refl w) a w' hr)

theorem prepareShortName_kept {s : Nat} (hs : isChained s = true → Tame w₀ s) (name : CStr) :
    Triple (Kept w₀) (fat32PrepareShortName s name) fun _ => Kept w₀ :=
  kept_of_quiet fun _ h => prepareShortName_quiet h.geometry h.noFaults h.chainSet
    (fun hc => h.tame.mpr (hs hc)) name

theorem initDirectory_kept (hc : Tame w₀ c) (parent : Nat) :
    Triple (Kept w₀) (fat32InitDirectory c parent) fun _ => Kept w₀ := by
  rw [fat32InitDirectory]
  refine .get_bind fun w h => .bind ((kmalloc_kept _).pre fun t ht => ht ▸ h) fun b => ?_
  exact .ite (fun _ => writeCluster_keeps hc _) fun _ => .pure fun t ht => ht

/-- The slots found or collected so far. -/
def reserved : Reserve → List Location
  | .found locations => locations
  | .more run => run

/-- The slots reserved lie in clusters of the volume. -/
def LocationsIn (w : World) (locations : List Location) : Prop :=
  ∀ loc ∈ locations, InRange w loc.cluster

theorem reserveCluster_in (buf : Buf) (count : Nat) (hc : InRange w c) :
    ∀ (left idx : Nat) (run : List Location), LocationsIn w run →
    LocationsIn w (reserved (reserveCluster buf c count left idx run))
  | 0, _, _, h => h
  | left + 1, idx, run, h => by
    have hrun : LocationsIn w (run ++ [⟨c, idx⟩]) := by
      intro loc hl
      rcases List.mem_append.mp hl with hl | hl
      · exact h loc hl
      · rw [List.mem_singleton.mp hl]
        exact hc
    rw [reserveCluster]
    dsimp only
    split
    · split
      · exact hrun
      · exact reserveCluster_in buf count hc left (idx + 1) _ hrun
    · exact reserveCluster_in buf count hc left (idx + 1) _ (by simp [LocationsIn])

theorem reserveLoop_kept (hs : w₀.fs.fatSize ≤ 255) (count : Nat) :
    ∀ (rounds cluster : Nat) (run : List Location), (isChained cluster = true → Tame w₀ cluster) →
    LocationsIn w₀ run → Triple (Kept w₀) (reserveLoop count rounds cluster run)
      fun r w => (∀ locations, r = some locations → LocationsIn w₀ locations) ∧ Kept w₀ w
  | 0, cluster, run, _, _ => by
    rw [reserveLoop]
    exact .ite (fun _ => .diverge) fun _ => .pure fun w h => ⟨by simp, h⟩
  | rounds + 1, cluster, run, hc, hrun => by
    have hnone : Triple (Kept w₀) (pure none : Fat (Option (List Location)))
        fun r w => (∀ locations, r = some locations → LocationsIn w₀ locations) ∧ Kept w₀ w :=
      .pure fun w h => ⟨by simp, h⟩
    rw [reserveLoop]
    refine .ite (fun _ => hnone) fun hch => ?_
    have hc := hc (by simpa using hch)
    refine .bind (readCluster_kept hc) fun r => ?_
    cases r with
    | none => exact hnone.pre fun t ht => ht.2
    | some buf =>
      refine .get_bind fun w h => ?_
      obtain ⟨hin, h⟩ := h
      have hc := hin buf rfl
      have hres := reserveCluster_in buf count hc (entriesPerCluster w) 0 run hrun
      cases hr : reserveCluster buf cluster count (entriesPerCluster w) 0 run with
      | found locations =>
        rw [hr] at hres
        exact .pure fun t ht => ⟨fun l hl => Option.some.inj hl ▸ hres, ht ▸ h⟩
      | more run =>
        rw [hr] at hres
        refine .ite (fun hn => ?_) fun _ => ?_
        · rw [getNextCluster_eq h.geometry (h.inRange.mpr hc)] at hn ⊢
          exact (reserveLoop_kept hs count rounds _ run (fun _ => h.next hc hn) hres).pre
            fun t ht => ht ▸ h
        · refine .bind ((allocateCluster_kept hs cluster).pre fun t ht => ht ▸ h) fun new => ?_
          refine .ite (fun _ => hnone.pre fun t ht => ht.2) fun hnew => .intro fun t ht => ?_
          exact (reserveLoop_kept hs count rounds _ run (fun _ => .inl (ht.1 hnew)) hres).pre
            fun u hu => hu ▸ ht.2

theorem reserveEntries_kept (hs : w₀.fs.fatSize ≤ 255) {s : Nat}
    (hc : isChained s = true → Tame w₀ s) (count : Nat) :
    Triple (Kept w₀) (fat32DirectoryReserveEntries s count)
      fun r w => (∀ locations, r = some locations → LocationsIn w₀ locations) ∧ Kept w₀ w := by
  have hnil : LocationsIn w₀ [] := by simp [LocationsIn]
  rw [fat32DirectoryReserveEntries]
  refine .ite (fun _ => .pure fun w h => ⟨fun l hl => Option.some.inj hl ▸ hnil, h⟩) fun _ => ?_
  refine .get_bind fun w h => .bind ((kmalloc_kept _).pre fun t ht => ht ▸ h) fun b => ?_
  refine .ite (fun _ => .bind (kmalloc_kept _) fun b => ?_) fun _ => .pure fun t ht => ⟨by simp, ht⟩
  exact .ite (fun _ => reserveLoop_kept hs count _ _ _ hc hnil)
    fun _ => .pure fun t ht => ⟨by simp, ht⟩

theorem writeEntriesLoop_kept : ∀ (todo : List (Location × Buf)) (current : Nat) (buf : Buf)
    (dirty : Bool), (∀ x ∈ todo, InRange w₀ x.1.cluster) → (dirty = true → InRange w₀ current) →
    Triple (Kept w₀) (writeEntriesLoop todo current buf dirty) fun _ => Kept w₀
  | [], current, buf, dirty, _, hd => by
    rw [writeEntriesLoop]
    exact .ite (fun h => writeCluster_keeps (.inl (hd h)) buf) fun _ => .pure fun w h => h
  | (loc, e) :: rest, current, buf, dirty, htodo, hd => by
    have hloc : InRange w₀ loc.cluster := htodo (loc, e) (by simp)
    have ih := fun cur buf hcur =>
      writeEntriesLoop_kept rest cur buf true (fun x hx => htodo x (by simp [hx])) fun _ => hcur
    rw [writeEntriesLoop]
    refine .ite (fun _ => ?_) fun hcur => ih _ _ (by rw [← not_not.mp hcur]; exact hloc)
    dsimp only
    refine .ite (fun h => .bind (writeCluster_keeps (.inl (hd h)) buf) fun written => ?_)
      fun _ => .bind (Q := fun _ => Kept w₀) (.pure fun w h => h) fun written => ?_
    all_goals
      refine .ite (fun _ => .pure fun w h => h) fun _ =>
        .bind (readCluster_kept (.inl hloc)) fun r => ?_
      cases r with
      | none => exact .pure fun w h => h.2
      | some buf => exact (ih _ _ hloc).pre fun w h => h.2

theorem writeDirectoryEntries_kept {locations : List Location} (hl : LocationsIn w₀ locations)
    (entries : List Buf) : Triple (Kept w₀) (fat32WriteDirectoryEntries locations entries)
      fun _ => Kept w₀ := by
  rw [fat32WriteDirectoryEntries]
  refine .ite (fun _ => .pure fun w h => h) fun _ => .get_bind fun w h =>
    .bind ((kmalloc_kept _).pre fun t ht => ht ▸ h) fun b => ?_
  refine .ite (fun _ => ?_) fun _ => .pure fun t ht => ht
  refine writeEntriesLoop_kept _ _ _ _ (fun x hx => hl x.1 ?_) (by simp)
  exact (List.of_mem_zip (a := x.1) (b := x.2) hx).1

theorem addEntry_kept (hs : w₀.fs.fatSize ≤ 255) {s : Nat}
    (hc : isChained s = true → Tame w₀ s) (name : CStr) (attributes : UInt8) (cluster : Nat) :
    Triple (Kept w₀) (addEntry s name attributes cluster) fun _ => Kept w₀ := by
  have hfail : Triple (Kept w₀) (pure false : Fat Bool) fun _ => Kept w₀ := .pure fun w h => h
  rw [addEntry]
  refine .ite (fun _ => hfail) fun _ => .bind (prepareShortName_kept hc name) fun r => ?_
  match r with
  | none => exact hfail
  | some (short, needsLfn) =>
    refine .bind (kmalloc_kept _) fun b => .ite (fun _ => ?_) fun _ => hfail
    refine .bind (reserveEntries_kept hs hc _) fun r => ?_
    cases r with
    | none => exact hfail.pre fun w h => h.2
    | some locations =>
      refine .intro fun w h => .bind ((kmalloc_kept _).pre fun t ht => ht ▸ h.2) fun b => ?_
      exact .ite (fun _ => writeDirectoryEntries_kept (h.1 _ rfl) _) fun _ => hfail

theorem findPreviousLoop_in (h : Kept w₀ w) (target : Nat) : ∀ (rounds current prev : Nat),
    (isChained current = true → Tame w₀ current) →
    findPreviousLoop w target rounds current = some prev → Tame w₀ prev
  | 0, current, prev, _, hp => by
    rw [findPreviousLoop] at hp
    split at hp
    · cases hp
    · exact .inr (refused_of_lt (by rw [← Option.some.inj hp]; decide))
  | rounds + 1, current, prev, hc, hp => by
    rw [findPreviousLoop] at hp
    dsimp only at hp
    split at hp
    · rename_i hch
      split at hp
      · exact Option.some.inj hp ▸ hc hch
      · split at hp
        · rename_i hn
          refine findPreviousLoop_in h target rounds _ prev (fun hn => ?_) hp
          exact getNextCluster_tame h (isChained_iff.mp hch).1 hn
        · exact .inr (refused_of_lt (by rw [← Option.some.inj hp]; decide))
    · exact .inr (refused_of_lt (by rw [← Option.some.inj hp]; decide))

theorem findPrevious_in (h : Kept w₀ w) {s target prev : Nat}
    (hc : isChained s = true → Tame w₀ s)
    (hp : fat32DirectoryFindPreviousCluster w s target = some prev) : Tame w₀ prev := by
  rw [fat32DirectoryFindPreviousCluster] at hp
  split at hp
  · exact .inr (refused_of_lt (by rw [← Option.some.inj hp]; decide))
  · exact findPreviousLoop_in h target _ s prev hc hp

theorem eraseLfnLoop_kept {s : Nat} (hs : isChained s = true → Tame w₀ s) :
    ∀ (rounds cluster left : Nat) (buf : Buf), Tame w₀ cluster →
    Triple (Kept w₀) (eraseLfnLoop s rounds cluster left buf) fun _ => Kept w₀
  | 0, _, _, _, _ => .diverge
  | rounds + 1, cluster, left, buf, hc => by
    have hfail : ∀ b : Bool, Triple (Kept w₀) (pure b : Fat Bool) fun _ => Kept w₀ :=
      fun b => .pure fun w h => h
    rw [eraseLfnLoop]
    obtain ⟨buf', dirty, front⟩ := eraseLfnSlots left buf false
    dsimp only
    refine .ite (fun _ => .bind (writeCluster_keeps hc buf') fun written => ?_)
      fun _ => .bind (Q := fun _ => Kept w₀) (hfail true) fun written => ?_
    all_goals
      refine .ite (fun _ => hfail _) fun _ => .ite (fun _ => hfail _) fun _ => .get_bind fun w h => ?_
      cases hp : fat32DirectoryFindPreviousCluster w s cluster with
      | none => exact .diverge
      | some prev =>
        have hprev := findPrevious_in h hs hp
        refine .ite (fun _ => .pure fun t ht => ht ▸ h) fun _ => ?_
        refine .bind ((readCluster_kept hprev).pre fun t ht => ht ▸ h) fun r => ?_
        cases r with
        | none => exact (hfail false).pre fun w h => h.2
        | some buf => exact (eraseLfnLoop_kept hs rounds prev _ buf hprev).pre fun w h => h.2

theorem markEntryDeleted_kept {s : Nat} (hs : isChained s = true → Tame w₀ s)
    (hc : Tame w₀ c) (index : Nat) :
    Triple (Kept w₀) (fat32MarkEntryDeleted s c index) fun _ => Kept w₀ := by
  have hfail : Triple (Kept w₀) (pure false : Fat Bool) fun _ => Kept w₀ := .pure fun w h => h
  rw [fat32MarkEntryDeleted]
  refine .get_bind fun w h => .bind ((kmalloc_kept _).pre fun t ht => ht ▸ h) fun b => ?_
  refine .ite (fun _ => .bind (readCluster_kept hc) fun r => ?_) fun _ => hfail
  cases r with
  | none => exact hfail.pre fun w h => h.2
  | some buf =>
    exact .bind ((writeCluster_keeps hc _).pre fun w h => h.2) fun b =>
      .ite (fun _ => eraseLfnLoop_kept hs _ _ _ _ hc) fun _ => hfail

theorem updateFileEntry_kept {f : File} (hf : Tame w₀ f.dirEntryCluster) :
    Triple (Kept w₀) (fat32UpdateFileEntry f) fun _ => Kept w₀ := by
  have hfail : Triple (Kept w₀) (pure false : Fat Bool) fun _ => Kept w₀ := .pure fun w h => h
  rw [fat32UpdateFileEntry]
  refine .ite (fun _ => hfail) fun _ => .get_bind fun w h =>
    .bind ((kmalloc_kept _).pre fun t ht => ht ▸ h) fun b => ?_
  refine .ite (fun _ => .bind (readCluster_kept hf) fun r => ?_) fun _ => hfail
  cases r with
  | none => exact hfail.pre fun w h => h.2
  | some buf => exact (writeCluster_keeps hf _).pre fun w h => h.2

/-! ## Descriptors -/

/-- A descriptor goes through a step: its clusters stay tame. -/
def StepsFile (w₀ : World) (m : Fat (File × Bool)) (Q : File → Prop) : Prop :=
  Triple (Kept w₀) m fun r w => FileIn w₀ r.1 ∧ (r.2 = true → Q r.1) ∧ Kept w₀ w

theorem firstCluster_kept (hs : w₀.fs.fatSize ≤ 255) {f : File} (hf : FileIn w₀ f) :
    StepsFile w₀ (firstCluster f) fun _ => True := by
  rw [firstCluster]
  refine .ite (fun _ => .bind (allocateCluster_kept hs _) fun new => ?_) fun _ =>
    .pure fun w h => ⟨hf, fun _ => trivial, h⟩
  refine .ite (fun _ => .pure fun w h => ⟨hf, by simp, h.2⟩) fun hnew => .pure fun w h => ?_
  have hin := h.1 hnew
  exact ⟨⟨.inl hin, fun _ => .inl hin, hf.entry⟩, fun _ => trivial, h.2⟩

/-- Where a write may go: it is refused or stays in the data clusters. -/
def MayWrite (w : World) (f : File) : Prop :=
  InRange w f.currentCluster ∨ Refused w f.currentCluster ∧ f.clusterPosition < clusterSize w

theorem clusterAtEnd_kept (hs : w₀.fs.fatSize ≤ 255) (g : Geometry w₀) {f : File}
    (hf : FileIn w₀ f) : StepsFile w₀ (clusterAtEnd f) (MayWrite w₀) := by
  rw [clusterAtEnd]
  refine .ite (fun _ => .bind (allocateCluster_kept hs _) fun new => ?_) fun hch =>
    .pure fun w h => ⟨hf, fun _ => hf.current (by simpa using hch), h⟩
  refine .ite (fun _ => .pure fun w h => ⟨hf, by simp, h.2⟩) fun hnew => .pure fun w h => ?_
  have hcur : Tame w₀ (if isChained f.lastCluster then new else f.startCluster) := by
    split
    · exact .inl (h.1 hnew)
    · exact hf.start
  have hmay := hcur.imp_right fun hr => And.intro hr g.clusterSize_pos
  exact ⟨⟨hf.start, fun _ => hmay, hf.entry⟩, fun _ => hmay, h.2⟩

theorem nextCluster_kept (hs : w₀.fs.fatSize ≤ 255) (g : Geometry w₀) {f : File} (hf : FileIn w₀ f)
    (hcur : MayWrite w₀ f) : StepsFile w₀ (nextCluster f) (MayWrite w₀) := by
  rw [nextCluster]
  refine .get_bind fun w h => .ite (fun hend => ?_) fun _ =>
    .pure fun t ht => ⟨hf, fun _ => hcur, ht ▸ h⟩
  have hin : InRange w₀ f.currentCluster := by
    rcases hcur with hin | ⟨-, hlt⟩
    · exact hin
    · rw [h.clusterSize] at hend
      omega
  refine .ite (fun hn => ?_) fun _ => ?_
  · have hnext : Tame w₀ (w.fs.fatTable f.currentCluster % 2 ^ 28) := h.next hin hn
    have hmay := hnext.imp_right fun hr => And.intro hr g.clusterSize_pos
    exact .pure fun t ht => ⟨⟨hf.start, fun _ => hmay, hf.entry⟩, fun _ => hmay, ht ▸ h⟩
  · refine .bind ((allocateCluster_kept hs _).pre fun t ht => ht ▸ h) fun new => ?_
    refine .ite (fun _ => .pure fun w h => ⟨hf, by simp, h.2⟩) fun hnew => .pure fun w h => ?_
    have hin := h.1 hnew
    exact ⟨⟨hf.start, fun _ => .inl hin, hf.entry⟩, fun _ => .inl hin, h.2⟩

theorem clusterToWrite_kept (hs : w₀.fs.fatSize ≤ 255) (g : Geometry w₀) {f : File}
    (hf : FileIn w₀ f) : StepsFile w₀ (clusterToWrite f) (MayWrite w₀) := by
  rw [clusterToWrite]
  refine .bind (firstCluster_kept hs hf) fun r => ?_
  obtain ⟨f₁, ok⟩ := r
  refine .intro fun w h => .ite (fun _ => .pure fun t ht => ⟨h.1, by simp, ht ▸ h.2.2⟩) fun hok => ?_
  refine .bind ((clusterAtEnd_kept hs g h.1).pre fun t ht => ht ▸ h.2.2) fun r => ?_
  obtain ⟨f₂, ok⟩ := r
  refine .intro fun w h => .ite (fun _ => .pure fun t ht => ⟨h.1, by simp, ht ▸ h.2.2⟩) fun hok => ?_
  exact (nextCluster_kept hs g h.1 (h.2.1 (by simpa using hok))).pre fun t ht => ht ▸ h.2.2

theorem writeChunk_kept {f : File} (hc : Tame w₀ f.currentCluster) (src : List UInt8) :
    Triple (Kept w₀) (writeChunk f src)
      fun r w => (r ≠ none → InRange w₀ f.currentCluster) ∧ Kept w₀ w := by
  have hput : ∀ (buf : Buf) (n : Nat), Triple (Kept w₀) (do
      if ← fat32WriteCluster f.currentCluster buf then return some n else return none :
        Fat (Option Nat)) fun r w => (r ≠ none → InRange w₀ f.currentCluster) ∧ Kept w₀ w :=
    fun buf n => .bind (writeCluster_kept hc buf) fun b =>
      .ite (fun hb => .pure fun w h => ⟨fun _ => h.1 hb, h.2⟩) fun _ => .pure fun w h => ⟨by simp, h.2⟩
  rw [writeChunk]
  refine .get_bind fun w h => ?_
  dsimp only
  refine .ite (fun _ => .bind ((readCluster_kept hc).conseq (fun t ht => ht ▸ h) fun _ _ h => h.2)
    fun old => ?_) fun _ => .bind (Q := fun _ => Kept w₀) (.pure fun t ht => ht ▸ h) fun old => ?_
  all_goals
    cases old with
    | none => exact .pure fun w h => ⟨by simp, h⟩
    | some buf => exact hput _ _

theorem writeLoop_kept (hs : w₀.fs.fatSize ≤ 255) (g : Geometry w₀) : ∀ (rounds : Nat) (f : File)
    (src : List UInt8) (written : Nat), FileIn w₀ f →
    Triple (Kept w₀) (writeLoop rounds f src written) fun r w => FileIn w₀ r.1 ∧ Kept w₀ w
  | 0, f, src, written, hf => by
    rw [writeLoop]
    exact .ite (fun _ => .pure fun w h => ⟨hf, h⟩) fun _ => .diverge
  | rounds + 1, f, src, written, hf => by
    rw [writeLoop]
    refine .ite (fun _ => .pure fun w h => ⟨hf, h⟩) fun _ => ?_
    refine .bind (clusterToWrite_kept hs g hf) fun r => ?_
    obtain ⟨f₁, ok⟩ := r
    refine .intro fun w h => .ite (fun _ => .pure fun t ht => ⟨h.1, ht ▸ h.2.2⟩) fun hok => ?_
    have hcur : Tame w₀ f₁.currentCluster := (h.2.1 (by simpa using hok)).imp_right And.left
    refine .bind ((writeChunk_kept hcur src).pre fun t ht => ht ▸ h.2.2) fun r => ?_
    cases r with
    | none => exact .pure fun t ht => ⟨h.1, ht.2⟩
    | some n =>
      refine .intro fun t ht => ?_
      have hin := ht.1 (by simp)
      exact (writeLoop_kept hs g rounds (advanced f₁ n) _ _
        ⟨h.1.start, fun _ => .inl hin, h.1.entry⟩).pre fun u hu => hu ▸ ht.2

theorem readLoop_kept (g : Geometry w₀) (size : Nat) : ∀ (rounds : Nat) (f : File)
    (bytes : List UInt8), FileIn w₀ f →
    Triple (Kept w₀) (readLoop size rounds f bytes) fun r w => FileIn w₀ r.2 ∧ Kept w₀ w
  | 0, _, _, _ => .diverge
  | rounds + 1, f, bytes, hf => by
    rw [readLoop]
    refine .ite (fun hlt => ?_) fun _ => .pure fun w h => ⟨hf, h⟩
    have hc : Tame w₀ f.currentCluster := by
      by_cases h2 : f.currentCluster < 2
      · exact .inr (refused_of_lt h2)
      · exact (hf.current (isChained_iff.mpr ⟨by omega, hlt.2⟩)).imp_right And.left
    refine .bind (readCluster_kept hc) fun r => ?_
    cases r with
    | none => exact .pure fun w h => ⟨hf, h.2⟩
    | some buf =>
      refine .get_bind fun w h => ?_
      have hin := h.1 buf rfl
      refine (readLoop_kept g size rounds _ _ ?_).pre fun t ht => ht ▸ h.2
      split
      · refine ⟨hf.start, fun hn => ?_, hf.entry⟩
        exact (getNextCluster_tame h.2 hin.1 hn).imp_right fun hr => ⟨hr, g.clusterSize_pos⟩
      · exact ⟨hf.start, fun _ => .inl hin, hf.entry⟩

theorem fileIn_of_fileOf {fd : Nat} {f : File} (h : Kept w₀ w) (hf : fileOf w fd = some f) :
    FileIn w₀ f := by
  rw [fileOf] at hf
  split at hf
  · rename_i hu
    exact Option.some.inj hf ▸ h.files fd hu.2
  · cases hf

/-- The chain from `s` is not cut off: it does not lead to a number below 2. -/
def Whole (w : World) (s : Nat) : Prop :=
  ∃ T : Nat → Prop, T s ∧ ∀ c, T c → 2 ≤ c ∧ (InRange w c → T (nextOf w c))

/-- The file has less than a cluster of bytes or a chain that is not cut off. -/
def Seekable (w : World) (f : File) : Prop :=
  f.fileSize < clusterSize w ∨ Whole w f.startCluster

theorem seekLoop_in (h : Kept w₀ w) {T : Nat → Prop}
    (hT : ∀ c, T c → 2 ≤ c ∧ (InRange w c → T (nextOf w c))) :
    ∀ (rounds : Nat) (f : File) (position : Nat) (f' : File) (rest : Nat),
    (isChained f.currentCluster = true → Tame w₀ f.currentCluster) →
    (position < clusterSize w ∨ endCluster ≤ f.currentCluster ∨ T f.currentCluster) →
    seekLoop w rounds f position = some (f', rest) →
    f'.startCluster = f.startCluster ∧ f'.dirEntryCluster = f.dirEntryCluster ∧
      (isChained f'.currentCluster = true → Tame w₀ f'.currentCluster ∧ rest < clusterSize w)
  | 0, _, _, _, _, _, _, hr => by cases hr
  | rounds + 1, f, position, f', rest, hc, hp, hr => by
    rw [seekLoop] at hr
    split at hr
    · rename_i hlt
      have hcur : T f.currentCluster := by
        rcases hp with hp | hp | hp
        · omega
        · omega
        · exact hp
      have h2 := (hT _ hcur).1
      have hnext : endCluster ≤ fat32GetNextCluster w f.currentCluster ∨
          T (fat32GetNextCluster w f.currentCluster) := by
        by_cases hin : f.currentCluster < w.fs.totalClusters
        · rw [getNextCluster_eq h.geometry ⟨h2, hin⟩]
          exact .inr ((hT _ hcur).2 ⟨h2, hin⟩)
        · rw [getNextCluster_outside (Nat.not_lt.mp hin)]
          exact .inl (Nat.le_refl _)
      exact seekLoop_in h hT rounds { f with
        currentCluster := fat32GetNextCluster w f.currentCluster
        position := f.position + clusterSize w } (position - clusterSize w) f' rest
        (getNextCluster_tame h h2) (.inr hnext) hr
    · rename_i hstop
      obtain ⟨rfl, rfl⟩ := Prod.mk.inj (Option.some.inj hr)
      refine ⟨rfl, rfl, fun hch => ⟨hc hch, ?_⟩⟩
      have hlt := (isChained_iff.mp hch).2
      omega

theorem seek_kept {fd : Nat} (position : Nat) :
    Triple (fun w => (∀ f, fileOf w fd = some f → Seekable w f) ∧ Kept w₀ w)
      (fat32Seek fd position) fun _ => Kept w₀ := by
  rw [fat32Seek]
  refine .get_bind fun w h => ?_
  obtain ⟨hsane, h⟩ := h
  cases hf : fileOf w fd with
  | none => exact .pure fun t ht => ht ▸ h
  | some f =>
    have hin := fileIn_of_fileOf h hf
    dsimp only
    generalize hpos : (if position > f.fileSize then f.fileSize else position) = pos
    have hle : pos ≤ f.fileSize := by
      rw [← hpos]
      split <;> omega
    cases hr : seekLoop w (pos + 1)
        { f with currentCluster := f.startCluster, position := 0, clusterPosition := 0 } pos with
    | none => exact .diverge
    | some r =>
      obtain ⟨f', rest⟩ := r
      refine .bind (Q := fun _ => Kept w₀) (.modify fun t ht => ht ▸ h.setFile fd fun _ => ?_)
        fun _ => .pure fun t ht => ht
      obtain ⟨T, hT, hp⟩ : ∃ T : Nat → Prop, (∀ c, T c → 2 ≤ c ∧ (InRange w c → T (nextOf w c))) ∧
          (pos < clusterSize w ∨ T f.startCluster) := by
        rcases hsane f hf with hlt | ⟨T, hs, hT⟩
        · exact ⟨fun _ => False, fun _ hc => hc.elim, .inl (by omega)⟩
        · exact ⟨T, hT, .inr hs⟩
      obtain ⟨h₁, h₂, h₃⟩ := seekLoop_in h hT _ _ pos f' rest (fun _ => hin.start)
        (hp.imp_right .inr) hr
      refine ⟨h₁ ▸ hin.start, fun hch => ?_, h₂ ▸ hin.entry⟩
      obtain ⟨ht, hlt⟩ := h₃ hch
      rw [h.clusterSize] at hlt
      exact ht.imp_right fun href => ⟨href, hlt⟩

theorem read_kept (g : Geometry w₀) (fd size : Nat) :
    Triple (Kept w₀) (fat32Read fd size) fun _ => Kept w₀ := by
  rw [fat32Read]
  refine .get_bind fun w h => ?_
  cases hf : fileOf w fd with
  | none => exact .pure fun t ht => ht ▸ h
  | some f =>
    have hin := fileIn_of_fileOf h hf
    refine .ite (fun _ => .pure fun t ht => ht ▸ h) fun _ =>
      .bind ((kmalloc_kept _).pre fun t ht => ht ▸ h) fun b => ?_
    refine .ite (fun _ => .bind (readLoop_kept g _ _ f [] hin) fun r => ?_) fun _ => .pure fun t ht => ht
    obtain ⟨bytes, f'⟩ := r
    exact .bind (Q := fun _ => Kept w₀) (.modify fun t ht => ht.2.setFile fd fun _ => ht.1)
      fun _ => .pure fun t ht => ht

theorem write_kept (hs : w₀.fs.fatSize ≤ 255) (g : Geometry w₀) (fd : Nat) (src : List UInt8) :
    Triple (Kept w₀) (fat32Write fd src) fun _ => Kept w₀ := by
  rw [fat32Write]
  refine .get_bind fun w h => ?_
  cases hf : fileOf w fd with
  | none => exact .pure fun t ht => ht ▸ h
  | some f =>
    have hin := fileIn_of_fileOf h hf
    refine .ite (fun _ => .pure fun t ht => ht ▸ h) fun _ =>
      .bind ((kmalloc_kept _).pre fun t ht => ht ▸ h) fun b => ?_
    refine .ite (fun _ => .bind (writeLoop_kept hs g _ f src 0 hin) fun r => ?_) fun _ =>
      .pure fun t ht => ht
    obtain ⟨f', written, ok⟩ := r
    refine .bind (Q := fun _ w => FileIn w₀ f' ∧ Kept w₀ w)
      (.modify fun t ht => ⟨ht.1, ht.2.setFile fd fun _ => ht.1⟩) fun _ => ?_
    refine .ite (fun _ => .pure fun t ht => ht.2) fun _ => .intro fun t ht => ?_
    exact .bind ((updateFileEntry_kept ht.1.entry).pre fun u hu => hu ▸ ht.2) fun b =>
      .ite (fun _ => .pure fun t ht => ht) fun _ => .pure fun t ht => ht

/-! ## Requests -/

/-- Every entry of a directory that a lookup can reach names no cluster, one of
the volume or one that is not on the device. -/
def Directories (w : World) : Prop :=
  ∃ D, DirSet w D ∧
    ∀ c i, D c → InRange w c → IsEntry w c i → Tame w (slotCluster (slotOf w c i))

/-- What a request may rely on: paths are looked up in directories whose entries
name clusters of the volume, and a seek walks a chain that was not cut off. -/
def Sane (w : World) : Request → Prop
  | .create _ | .mkdir _ | .remove _ | .rmdir _ | .open _ => Directories w
  | .close _ | .read _ _ | .write _ _ => True
  | .seek fd _ => ∀ f, fileOf w fd = some f → Seekable w f

theorem kept_of_lookup {α β : Type} {m : Fat α} {k : α → Fat β} {Q : α → Prop}
    (h : Kept w₀ w) (hm : Triple (Quiet w) m fun r t => Q r ∧ Quiet w t)
    (hk : ∀ r, Q r → Triple (Kept w₀) (k r) fun _ => Kept w₀) :
    Triple (fun t => t = w) (m >>= k) fun _ => Kept w₀ := by
  refine .bind (hm.pre fun t ht => ht ▸ .refl w) fun r => .intro fun t ht => ?_
  exact (hk r ht.1).pre fun u hu => hu ▸ h.quiet ht.2

theorem create_kept (hs : w₀.fs.fatSize ≤ 255) (path : CStr) :
    Triple (fun w => Directories w ∧ Kept w₀ w) (fat32Create path) fun _ => Kept w₀ := by
  rw [fat32Create]
  refine .get_bind fun w h => ?_
  obtain ⟨⟨D, hd, -⟩, h⟩ := h
  refine .ite (fun _ => .pure fun t ht => ht ▸ h) fun _ => .ite (fun _ => .pure fun t ht => ht ▸ h)
    fun _ => kept_of_lookup h (findParent_finds h.geometry h.noFaults hd path) fun r hr => ?_
  match r with
  | none => exact .pure fun t ht => ht
  | some (s, name) =>
    exact addEntry_kept hs (fun hc => h.tame.mp (hd.tame s (hr _ rfl hc))) name attrArchive 0

theorem mkdir_kept (hs : w₀.fs.fatSize ≤ 255) (path : CStr) :
    Triple (fun w => Directories w ∧ Kept w₀ w) (fat32MkdirPath path) fun _ => Kept w₀ := by
  rw [fat32MkdirPath]
  refine .get_bind fun w h => ?_
  obtain ⟨⟨D, hd, -⟩, h⟩ := h
  refine .ite (fun _ => .pure fun t ht => ht ▸ h) fun _ => .ite (fun _ => .pure fun t ht => ht ▸ h)
    fun _ => .ite (fun _ => .pure fun t ht => ht ▸ h) fun _ =>
    kept_of_lookup h (findParent_finds h.geometry h.noFaults hd path) fun r hr => ?_
  match r with
  | none => exact .pure fun t ht => ht
  | some (s, name) =>
    have htame : isChained s = true → Tame w₀ s := fun hc => h.tame.mp (hd.tame s (hr _ rfl hc))
    have hundo : ∀ c, Triple (Kept w₀) (do
        fat32FreeClusterChain c
        return false : Fat Bool) fun _ => Kept w₀ := fun c =>
      .bind (freeClusterChain_kept hs c) fun _ => .pure fun t ht => ht
    refine .bind (allocateCluster_kept hs 0) fun new => .ite (fun _ => .pure fun t ht => ht.2)
      fun hnew => .intro fun t ht => ?_
    refine .bind ((initDirectory_kept (.inl (ht.1 hnew)) s).pre fun u hu => hu ▸ ht.2) fun b =>
      .ite (fun _ => ?_) fun _ => hundo new
    exact .bind (addEntry_kept hs htame name attrDirectory new) fun b =>
      .ite (fun _ => .pure fun t ht => ht) fun _ => hundo new

theorem dropEntry_kept (hs : w₀.fs.fatSize ≤ 255) {x : Lookup}
    (hp : isChained x.parentDir = true → Tame w₀ x.parentDir) (he : Tame w₀ x.entryCluster) :
    Triple (Kept w₀) (dropEntry x) fun _ => Kept w₀ := by
  rw [dropEntry]
  dsimp only
  have hmark := markEntryDeleted_kept hp he x.entryIndex
  exact .ite (fun _ => .bind (freeClusterChain_kept hs _) fun _ => hmark) fun _ => hmark

theorem lookedUp_tame {D : Nat → Prop} {x : Lookup} (h : Kept w₀ w) (hd : DirSet w D)
    (hx : x = rootLookup w ∨ LookedUp w D x) :
    (isChained x.parentDir = true → Tame w₀ x.parentDir) ∧ Tame w₀ x.entryCluster := by
  have hroot := h.tame.mp (hd.tame _ hd.root)
  rcases hx with rfl | hx
  · exact ⟨fun _ => hroot, hroot⟩
  · exact ⟨fun hc => h.tame.mp (hd.tame _ (hx.parent hc)), h.tame.mp (.inl hx.found.inRange)⟩

theorem remove_kept (hs : w₀.fs.fatSize ≤ 255) (path : CStr) :
    Triple (fun w => Directories w ∧ Kept w₀ w) (fat32Remove path) fun _ => Kept w₀ := by
  rw [fat32Remove]
  refine .get_bind fun w h => ?_
  obtain ⟨⟨D, hd, -⟩, h⟩ := h
  refine .ite (fun _ => .pure fun t ht => ht ▸ h) fun _ =>
    kept_of_lookup h (lookupPath_finds h.geometry h.noFaults hd path) fun r hr => ?_
  cases r with
  | none => exact .pure fun t ht => ht
  | some x =>
    obtain ⟨hp, he⟩ := lookedUp_tame h hd (hr x rfl)
    exact .ite (fun _ => .pure fun t ht => ht) fun _ => dropEntry_kept hs hp he

theorem rmdir_kept (hs : w₀.fs.fatSize ≤ 255) (path : CStr) :
    Triple (fun w => Directories w ∧ Kept w₀ w) (fat32RmdirPath path) fun _ => Kept w₀ := by
  rw [fat32RmdirPath]
  refine .get_bind fun w h => ?_
  obtain ⟨⟨D, hd, -⟩, h⟩ := h
  refine .ite (fun _ => .pure fun t ht => ht ▸ h) fun _ => .ite (fun _ => .pure fun t ht => ht ▸ h)
    fun _ => kept_of_lookup h (lookupPath_finds h.geometry h.noFaults hd path) fun r hr => ?_
  cases r with
  | none => exact .pure fun t ht => ht
  | some x =>
    obtain ⟨hp, he⟩ := lookedUp_tame h hd (hr x rfl)
    refine .ite (fun _ => .pure fun t ht => ht) fun hdir => ?_
    have hsub : isChained x.info.cluster = true → Tame w₀ x.info.cluster := by
      intro hc
      rcases hr x rfl with rfl | hx
      · exact he
      · exact h.tame.mp (hd.tame _ (hx.found.sub hd (by simpa using hdir) hc))
    refine .bind (kept_of_quiet fun t ht => listDirectory_quiet ht.geometry ht.noFaults ht.chainSet
      (fun hc => ht.tame.mpr (hsub hc)) 1) fun r => ?_
    cases r with
    | none => exact .pure fun t ht => ht
    | some files => exact .ite (fun _ => .pure fun t ht => ht) fun _ => dropEntry_kept hs hp he

theorem open_kept (path : CStr) :
    Triple (fun w => Directories w ∧ Kept w₀ w) (fat32Open path) fun _ => Kept w₀ := by
  rw [fat32Open]
  refine .get_bind fun w h => ?_
  obtain ⟨⟨D, hd, hslots⟩, h⟩ := h
  refine .ite (fun _ => .pure fun t ht => ht ▸ h) fun _ =>
    kept_of_lookup h (lookupPath_finds h.geometry h.noFaults hd path) fun r hr => ?_
  cases r with
  | none => exact .pure fun t ht => ht
  | some x =>
    refine .ite (fun _ => .pure fun t ht => ht) fun hfile => .get_bind fun t ht => ?_
    have hx : LookedUp w D x := (hr x rfl).resolve_left fun he =>
      hfile (he ▸ isDirectory_rootLookup w)
    match (List.range maxOpenFiles).find? fun fd => !(t.openFiles fd).inUse with
    | none => exact .pure fun u hu => hu ▸ ht
    | some fd =>
      cases fat32GetLastCluster t x.info.cluster with
      | none => exact .diverge
      | some last =>
        refine .bind (Q := fun _ => Kept w₀) (.modify fun u hu => hu ▸ ht.setFile fd fun _ => ?_)
          fun _ => .pure fun u hu => hu
        have hstart : Tame w₀ x.info.cluster := by
          have := hslots _ _ hx.found.dir hx.found.inRange hx.found.entry
          rw [← hx.found.cluster_eq] at this
          exact h.tame.mp this
        refine ⟨hstart, fun _ => hstart.imp_right fun href => ⟨href, ?_⟩,
          h.tame.mp (.inl hx.found.inRange)⟩
        rw [← h.clusterSize]
        exact h.geometry.clusterSize_pos

theorem close_kept (fd : Nat) : Triple (Kept w₀) (fat32Close fd) fun _ => Kept w₀ := by
  rw [fat32Close]
  refine .get_bind fun w h => ?_
  cases fileOf w fd with
  | none => exact .pure fun t ht => ht ▸ h
  | some f => exact .modify fun t ht => ht ▸ h.setFile fd fun hu => by cases hu

/-- A request that starts in a sane state keeps the copies equal to the table. -/
theorem request_kept (hs : w₀.fs.fatSize ≤ 255) (g : Geometry w₀) (r : Request) :
    Triple (fun w => Sane w r ∧ Kept w₀ w) r.run fun _ => Kept w₀ := by
  cases r with
  | create path => exact create_kept hs path
  | mkdir path => exact mkdir_kept hs path
  | remove path => exact remove_kept hs path
  | rmdir path => exact rmdir_kept hs path
  | «open» path => exact .bind (open_kept path) fun _ => .pure fun t ht => ht
  | close fd => exact .bind ((close_kept fd).pre fun w h => h.2) fun _ => .pure fun t ht => ht
  | read fd size => exact .bind ((read_kept g fd size).pre fun w h => h.2) fun _ => .pure fun t ht => ht
  | write fd src =>
    exact .bind ((write_kept hs g fd src).pre fun w h => h.2) fun _ => .pure fun t ht => ht
  | seek fd position => exact seek_kept position

end

/-! ## Mounting -/

/-- The table in memory is the first copy on the device. -/
def Loaded (w : World) : Prop :=
  ∀ i < w.fs.fatSize * sectorSize,
    tableBytes w.fs.fatTable i = w.sectors w.fs.deviceId (w.fs.fatStartSector * sectorSize + i)

theorem tableBytes_readWord (buf : Buf) (i : Nat) :
    tableBytes (fun c => readWord buf (4 * c)) i = buf i := by
  rw [tableBytes, wordByte_readWord _ _ (Nat.mod_lt _ (by decide)), Nat.div_add_mod]

/-- What a mount gives: the first `fatSize % 256` sectors of the table. -/
structure Mounts (w w₁ : World) : Prop where
  noFaults : NoFaults w₁
  sectors : w₁.sectors = w.sectors
  openFiles : w₁.openFiles = w.openFiles
  transferred : w₁.fs.fatSize % 256 ≠ 0
  table : ∀ i < w₁.fs.fatSize % 256 * sectorSize, tableBytes w₁.fs.fatTable i =
    w₁.sectors w₁.fs.deviceId (w₁.fs.fatStartSector * sectorSize + i)

theorem readTable_mounts {w w₁ : World} (nf : NoFaults w) (hm : readTable w = some (true, w₁)) :
    Mounts w w₁ := by
  rw [readTable] at hm
  simp only [bind_run, get_run, Option.bind_some, kmalloc] at hm
  split at hm
  · cases hm
  · simp only [Option.bind_some, ite_run, bind_run, modify_run] at hm
    split at hm
    · simp only [blockdevRead] at hm
      split at hm
      · rename_i htransfer
        have hf : (World.loadTable w.spend w.spend.heapBytes).faults 0 = none := nf 0
        rw [hf] at hm
        simp only [Option.bind_some, bind_run, modify_run, pure_run] at hm
        obtain ⟨-, rfl⟩ := Prod.mk.inj (Option.some.inj hm)
        simp only [transferOk, Bool.and_eq_true, bne_iff_ne] at htransfer
        refine ⟨fun n => nf (n + 1), rfl, rfl, htransfer.2, fun i hi => ?_⟩
        refine (tableBytes_readWord _ i).trans ?_
        exact store_inside (Nat.zero_le i) (by rw [Nat.zero_add]; exact hi)
      · cases hm
    · cases hm

theorem mount_mounts {dev : Nat} {w₀ w₁ : World} (nf : NoFaults w₀)
    (hm : fat32Mount dev w₀ = some (true, w₁)) : Mounts w₀ w₁ := by
  rw [fat32Mount] at hm
  simp only [bind_run, get_run, Option.bind_some, ite_run] at hm
  split at hm
  · cases hm
  · rw [blockdevRead, nf 0] at hm
    split at hm
    · simp only [Option.bind_some, ite_run, nf.tick] at hm
      split at hm
      · cases hm
      · split at hm
        · cases hm
        · simp only [bind_run, modify_run, Option.bind_some] at hm
          have h := readTable_mounts (by exact nf) hm
          exact ⟨h.noFaults, h.sectors, h.openFiles, h.transferred, h.table⟩
    · cases hm

/-- The volume that was mounted: the table, its copies and the data clusters lie
on the device, the copies agree, no link leaves the data clusters, and neither
do the descriptors that are still open. -/
structure Consistent (w : World) : Prop where
  geometry : Geometry w
  links : Links w
  files : ∀ fd, (w.openFiles fd).inUse = true → FileIn w (w.openFiles fd)
  copies : ∀ k < w.fs.numFats, ∀ i < w.fs.fatSize * sectorSize,
    w.sectors w.fs.deviceId (copyAddr w k + i) =
      w.sectors w.fs.deviceId (w.fs.fatStartSector * sectorSize + i)

/-- One request in a sane state. -/
def Step (w w' : World) : Prop := ∃ r b, Sane w r ∧ Request.run r w = some (b, w')

theorem run_kept {w₀ w w' : World} (hs : w₀.fs.fatSize ≤ 255) (h : Kept w₀ w)
    (run : Relation.ReflTransGen Step w w') : Kept w₀ w' := by
  have g : Geometry w₀ := SameGeometry.geometry (w := w) ⟨by rw [← h.same.fs], h.same.mounted.symm,
    h.same.present.symm, h.same.sectorCount.symm⟩ h.geometry
  induction run with
  | refl => exact h
  | tail _ hstep ih =>
    obtain ⟨r, b, hsane, hrun⟩ := hstep
    exact request_kept hs g r _ ⟨hsane, ih⟩ b _ hrun

/-- **The table and its copies agree.** A volume with a table of at most 255
sectors is mounted from a device without faults. Then the table in memory is the
one on the device, and after every request of every run of sane requests, each
copy on the device is the table in memory. -/
theorem table_copies_agree {dev : Nat} {w₀ w₁ w : World} (nf : NoFaults w₀)
    (hm : fat32Mount dev w₀ = some (true, w₁)) (hs : w₁.fs.fatSize ≤ 255) (hc : Consistent w₁)
    (run : Relation.ReflTransGen Step w₁ w) : Loaded w₁ ∧ Coherent w := by
  have h := mount_mounts nf hm
  have h256 : w₁.fs.fatSize % 256 = w₁.fs.fatSize := Nat.mod_eq_of_lt (by omega)
  have hload : Loaded w₁ := fun i hi => h.table i (by rw [h256]; exact hi)
  refine ⟨hload, (run_kept hs
    ⟨⟨hc.geometry, h.noFaults, h.transferred⟩, .refl w₁, hc.links, hc.files, ?_⟩ run).coherent⟩
  intro k hk i hi
  rw [hc.copies k hk i hi, hload i hi]

/-! ## Two volumes -/

/-- A disk with one sector a cluster and an empty root directory in cluster 2;
all its bytes behind the boot sector are zero. -/
def bootByte (numFats : UInt8) (fatSize totalSectors a : Nat) : UInt8 :=
  if a = 12 then 2
  else if a = 13 ∨ a = 14 then 1
  else if a = 16 then numFats
  else if 32 ≤ a ∧ a < 36 then wordByte totalSectors (a - 32)
  else if 36 ≤ a ∧ a < 40 then wordByte fatSize (a - 36)
  else if a = 44 then 2
  else if a = 510 then 0x55
  else if a = 511 then 0xAA
  else 0

/-- The driver before a mount, with that disk; fresh memory holds ones. -/
def unmounted (numFats : UInt8) (fatSize : Nat) (totalSectors : Fin (2 ^ 28 + 1)) : World :=
  { smallVolume (fun _ => 0) fun _ => true with
    mounted := false
    sectors := fun _ a => bootByte numFats fatSize totalSectors.val a
    sectorCount := fun _ => totalSectors
    heapBytes := fun _ => 0xFF }

/-- The state that a program comes back with. -/
def after {α : Type} (m : Fat α) (w : World) : World :=
  match m w with
  | some (_, w') => w'
  | none => w

theorem run_after {α : Type} {m : Fat α} {w : World} {a : α}
    (h : (m w).map Prod.fst = some a) : m w = some (a, after m w) := by
  rw [after]
  cases hr : m w with
  | none => rw [hr] at h; cases h
  | some r =>
    rw [hr] at h
    rw [← Option.some.inj h]

/-- With a table of 257 sectors, one sector is read. -/
theorem table_beyond_255_sectors_not_loaded :
    ¬ ∀ (dev : Nat) (w₀ w₁ : World), NoFaults w₀ → fat32Mount dev w₀ = some (true, w₁) →
      Loaded w₁ := by
  intro h
  have hm : fat32Mount 0 (unmounted 1 257 600) =
      some (true, after (fat32Mount 0) (unmounted 1 257 600)) := run_after (by decide +kernel)
  have hload := h 0 _ _ (fun _ => rfl) hm 512 (by decide +kernel)
  revert hload
  decide +kernel

/-- Two copies of a table of one sector. -/
def mountedVolume : World := after (fat32Mount 0) (unmounted 2 1 13)

theorem mountedVolume_values :
    (fat32Mount 0 (unmounted 2 1 13)).map Prod.fst = some true ∧
    (mountedVolume.fs.totalClusters = 10 ∧ mountedVolume.fs.fatStartSector = 1 ∧
      mountedVolume.fs.rootCluster = 2 ∧ mountedVolume.fs.fatSize = 1) ∧
    clusterAddr mountedVolume 2 = 1536 ∧
    (∀ c < 10, isChained (nextOf mountedVolume c) = false) ∧
    (fat32Create [slash, 0x41] mountedVolume).map Prod.fst = some true := by decide +kernel

theorem mount_mountedVolume : fat32Mount 0 (unmounted 2 1 13) = some (true, mountedVolume) :=
  run_after mountedVolume_values.1

theorem mountedVolume_sectors : mountedVolume.sectors = (unmounted 2 1 13).sectors :=
  (mount_mounts (fun _ => rfl) mount_mountedVolume).sectors

theorem mountedVolume_next {c : Nat} (h : InRange mountedVolume c) :
    isChained (nextOf mountedVolume c) = false := by
  obtain ⟨-, ⟨htotal, -⟩, -, hall, -⟩ := mountedVolume_values
  exact hall c (htotal ▸ h.2)

theorem bootByte_zero {numFats : UInt8} {fatSize totalSectors a : Nat} (h : 512 ≤ a) :
    bootByte numFats fatSize totalSectors a = 0 := by
  rw [bootByte, if_neg (by omega), if_neg (by omega), if_neg (by omega), if_neg (by omega),
    if_neg (by omega), if_neg (by omega), if_neg (by omega), if_neg (by omega)]

theorem consistent_mountedVolume : Consistent mountedVolume where
  geometry := by constructor <;> decide +kernel
  links c hc hn := by
    rw [mountedVolume_next hc] at hn
    cases hn
  files fd hu := by
    rw [(mount_mounts (fun _ => rfl) mount_mountedVolume).openFiles] at hu
    cases hu
  copies k _ i _ := by
    have hstart := mountedVolume_values.2.1.2.1
    rw [mountedVolume_sectors, copyAddr, hstart]
    simp only [unmounted, sectorSize]
    rw [bootByte_zero (by omega), bootByte_zero (by omega)]

theorem directories_mountedVolume : Directories mountedVolume := by
  obtain ⟨-, ⟨htotal, -, hroot, -⟩, haddr, -, -⟩ := mountedVolume_values
  have hin : InRange mountedVolume 2 := ⟨Nat.le_refl 2, by rw [htotal]; decide⟩
  have hempty : ∀ i, ¬ IsEntry mountedVolume 2 i := by
    intro i hi
    have hbuf : ∀ j, clusterBuf mountedVolume 2 j = 0 := by
      intro j
      by_cases hj : j < mountedVolume.fs.sectorsPerCluster * sectorSize
      · rw [clusterBuf_inside hj, mountedVolume_sectors, haddr]
        exact bootByte_zero (by omega)
      · exact clusterBuf_outside (Nat.not_lt.mp hj)
    have hzero : slotOf mountedVolume 2 i 0 = 0 := by
      rw [slotOf, slotAt, hbuf, ite_self]
    have hkind := hi.2
    rw [slotKind, if_pos hzero] at hkind
    cases hkind
  refine ⟨fun c => c = 2, ⟨⟨?_, ?_⟩, hroot, ?_⟩, ?_⟩
  · rintro c rfl
    exact .inl hin
  · rintro c rfl _ hn
    rw [mountedVolume_next hin] at hn
    cases hn
  · rintro c i rfl _ hi
    exact absurd hi (hempty i)
  · rintro c i rfl _ hi
    exact absurd hi (hempty i)

/-- A first file on the small volume: `/A`. -/
theorem table_copies_agree_example :
    ∃ w, fat32Create [slash, 0x41] mountedVolume = some (true, w) ∧ Loaded mountedVolume ∧
      Coherent w := by
  have hrun : fat32Create [slash, 0x41] mountedVolume =
      some (true, after (fat32Create [slash, 0x41]) mountedVolume) :=
    run_after mountedVolume_values.2.2.2.2
  have hstep : Step mountedVolume (after (fat32Create [slash, 0x41]) mountedVolume) :=
    ⟨.create [slash, 0x41], true, directories_mountedVolume, hrun⟩
  have hsize : mountedVolume.fs.fatSize ≤ 255 := by
    rw [mountedVolume_values.2.1.2.2.2]
    decide
  exact ⟨_, hrun, table_copies_agree (fun _ => rfl) mount_mountedVolume hsize
    consistent_mountedVolume (.single hstep)⟩

end ContinuumOS.Fat32.Coherence
