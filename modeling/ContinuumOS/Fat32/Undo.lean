import ContinuumOS.Fat32.Allocation

/-! # Undoing an allocation

`fat32_allocate_cluster` changes two words of the table before it writes to the
device: the word of the new cluster, and that of the cluster it is hung behind.
When it then gives up, this module says which of the two are put back. -/
namespace ContinuumOS.Fat32.Undo
open ContinuumOS.Lib.Effect
open ContinuumOS.Fat32.Volume ContinuumOS.Fat32.Device ContinuumOS.Fat32.Allocation

/-- The buffer of zeros cannot be had. -/
def noBuffer (w : World) : Bool := clusterSize w == 0 || !w.mallocs 0

/-- The device does not take the zeros for cluster `c`. -/
def clearFails (w : World) (c : Nat) : Bool :=
  !w.mounted || fat32ClusterToSector w c == 0 ||
    !transferOk w w.fs.deviceId (fat32ClusterToSector w c) w.fs.sectorsPerCluster ||
    (w.faults 0).isSome

/-- Hanging `c` behind `previous` changes no word but that of `c`. -/
def Unlinked (w : World) (previous c : Nat) : Prop :=
  isChained previous = true → previous ≠ c →
    (w.fs.fatTable previous / 2 ^ 28 % 16 * 2 ^ 28) ||| c = w.fs.fatTable previous

instance (w : World) (previous c : Nat) : Decidable (Unlinked w previous c) :=
  inferInstanceAs (Decidable (_ → _))

/-- Nothing was taken, or what was taken can be put back: the zeros were refused
for a cluster with a zero word that was hung behind no other. -/
def Undone (w : World) (previous : Nat) : Prop :=
  noBuffer w = true ∨ findFree w = none ∨
    ∃ c, findFree w = some c ∧ clearFails w c = true ∧ w.fs.fatTable c = 0 ∧ Unlinked w previous c

section

variable {w w' : World} {p c : Nat} {buf : Buf}

/-! ## What writes leave alone -/

theorem blockdevWrite_keeps (dev sector count : Nat) (buf : Buf) :
    Keeps World.fs (blockdevWrite dev sector count buf) := by
  intro w b w' h
  simp only [blockdevWrite] at h
  split at h
  · split at h
    all_goals
      obtain ⟨-, rfl⟩ := Prod.mk.inj (Option.some.inj h)
      rfl
  · obtain ⟨-, rfl⟩ := Prod.mk.inj (Option.some.inj h)
    rfl

theorem writeCluster_keeps (c : Nat) (buf : Buf) : Keeps World.fs (fat32WriteCluster c buf) :=
  .get_bind fun _ => .ite (fun _ => .pure _) fun _ => .ite (fun _ => .pure _) fun _ =>
    blockdevWrite_keeps _ _ _ _

theorem flushCopies_keeps : ∀ left copy : Nat, Keeps World.fs (flushCopies left copy)
  | 0, _ => .pure _
  | left + 1, copy => .get_bind fun _ => .bind (blockdevWrite_keeps _ _ _ _) fun _ =>
    .ite (fun _ => flushCopies_keeps left (copy + 1)) fun _ => .pure _

theorem flushFat_keeps : Keeps World.fs fat32FlushFat :=
  .get_bind fun _ => .ite (fun _ => .pure _) fun _ => flushCopies_keeps _ _

theorem blockdevWrite_runs (dev sector count : Nat) (buf : Buf) (w : World) :
    ∃ b w', blockdevWrite dev sector count buf w = some (b, w') := by
  unfold blockdevWrite
  split
  · split
    · exact ⟨_, _, rfl⟩
    · exact ⟨_, _, rfl⟩
  · exact ⟨_, _, rfl⟩

theorem flushCopies_runs : ∀ (left copy : Nat) (w : World), ∃ b w', flushCopies left copy w = some (b, w')
  | 0, _, w => ⟨true, w, rfl⟩
  | left + 1, copy, w => by
    obtain ⟨b, w₁, hw⟩ := blockdevWrite_runs w.fs.deviceId
      ((w.fs.fatStartSector + copy * w.fs.fatSize) % 2 ^ 32) w.fs.fatSize (tableBytes w.fs.fatTable) w
    simp only [flushCopies, bind_run, get_run, Option.bind_some, hw, ite_run]
    split
    · exact flushCopies_runs left (copy + 1) w₁
    · exact ⟨false, w₁, rfl⟩

theorem flushFat_runs (w : World) : ∃ b w', fat32FlushFat w = some (b, w') := by
  simp only [fat32FlushFat, bind_run, get_run, Option.bind_some, ite_run]
  split
  · exact ⟨false, w, rfl⟩
  · exact flushCopies_runs _ _ _

theorem writeCluster_fails {b : Bool} (h : fat32WriteCluster c buf w = some (b, w')) :
    b = !clearFails w c := by
  simp only [fat32WriteCluster, bind_run, get_run, Option.bind_some, ite_run, pure_run] at h
  by_cases hm : w.mounted = true
  · rw [if_neg (not_not.mpr hm)] at h
    by_cases hs : fat32ClusterToSector w c = 0
    · rw [if_pos hs] at h
      rw [← (Prod.mk.inj (Option.some.inj h)).1]
      simp [clearFails, hs]
    · rw [if_neg hs, blockdevWrite] at h
      split at h
      · rename_i hok
        cases hf : w.faults 0 with
        | some k =>
          rw [hf] at h
          rw [← (Prod.mk.inj (Option.some.inj h)).1]
          simp [clearFails, hf]
        | none =>
          rw [hf] at h
          rw [← (Prod.mk.inj (Option.some.inj h)).1]
          simp [clearFails, hf, hm, hs, hok]
      · rename_i hok
        rw [← (Prod.mk.inj (Option.some.inj h)).1]
        simp [clearFails, hok]
  · rw [if_pos hm] at h
    rw [← (Prod.mk.inj (Option.some.inj h)).1]
    simp [clearFails, hm]

theorem clearFails_linkNew : clearFails (linkNew w.spend p c) c = clearFails w c := by
  rw [linkNew]
  split <;> rfl

/-! ## The table of a failed allocation -/

/-- How an allocation fails: without a cluster, at the zeros, or at the flush. -/
theorem allocateCluster_zero (h : fat32AllocateCluster p w = some (0, w')) :
    ((noBuffer w = true ∨ findFree w = none) ∧ w'.fs.fatTable = w.fs.fatTable) ∨
    noBuffer w = false ∧ ∃ c, findFree w = some c ∧
      (clearFails w c = true ∧
          w'.fs.fatTable = setEntry (linkNew w p c).fs.fatTable c 0 ∨
        clearFails w c = false ∧ w'.fs.fatTable = (linkNew w p c).fs.fatTable) := by
  have hlink : ∀ c, (linkNew w.spend p c).fs = (linkNew w p c).fs := fun c => by
    rw [linkNew, linkNew]
    split <;> rfl
  obtain ⟨b, u, hm, h⟩ := bind_eq_some (get_bind_eq_some h)
  by_cases hsize : clusterSize w = 0
  · rw [kmalloc, if_pos hsize] at hm
    obtain ⟨rfl, rfl⟩ := Prod.mk.inj (Option.some.inj hm)
    obtain ⟨-, rfl⟩ := Prod.mk.inj (Option.some.inj h)
    exact .inl ⟨.inl (by simp [noBuffer, hsize]), rfl⟩
  rw [kmalloc, if_neg hsize] at hm
  obtain ⟨rfl, rfl⟩ := Prod.mk.inj (Option.some.inj hm)
  cases hm : w.mallocs 0 with
  | false =>
    rw [hm] at h
    obtain ⟨-, rfl⟩ := Prod.mk.inj (Option.some.inj h)
    exact .inl ⟨.inl (by simp [noBuffer, hm]), rfl⟩
  | true =>
    rw [hm] at h
    cases hfree : findFree w with
    | none =>
      rw [hfree] at h
      obtain ⟨-, rfl⟩ := Prod.mk.inj (Option.some.inj h)
      exact .inl ⟨.inr rfl, rfl⟩
    | some c =>
      rw [hfree] at h
      refine .inr ⟨by simp [noBuffer, hm, hsize], c, rfl, ?_⟩
      obtain ⟨⟨⟩, v, hv, h⟩ := bind_eq_some h
      obtain ⟨-, rfl⟩ := Prod.mk.inj (Option.some.inj hv)
      obtain ⟨written, v, hv, h⟩ := bind_eq_some h
      have hb := writeCluster_fails hv
      rw [clearFails_linkNew] at hb
      have hfs : v.fs = (linkNew w p c).fs := (writeCluster_keeps _ _ _ _ _ hv).trans (hlink c)
      cases hc : clearFails w c with
      | true =>
        rw [hb, hc] at h
        obtain ⟨⟨⟩, v', hv', h⟩ := bind_eq_some h
        obtain ⟨-, rfl⟩ := Prod.mk.inj (Option.some.inj hv')
        obtain ⟨-, rfl⟩ := Prod.mk.inj (Option.some.inj h)
        refine .inl ⟨rfl, ?_⟩
        show setEntry v.fs.fatTable c 0 = _
        rw [hfs]
      | false =>
        rw [hb, hc] at h
        obtain ⟨flushed, v', hv', h⟩ := bind_eq_some h
        have hfs' : v'.fs = (linkNew w p c).fs := (flushFat_keeps _ _ _ hv').trans hfs
        refine .inr ⟨rfl, ?_⟩
        have hcz : c ≠ 0 := by
          have := (findFree_some hfree).1.1
          omega
        cases flushed with
        | true => exact absurd (Prod.mk.inj (Option.some.inj h)).1 hcz
        | false =>
          obtain ⟨-, rfl⟩ := Prod.mk.inj (Option.some.inj h)
          rw [hfs']

/-- Putting the word of the new cluster back restores the table when no other
word was changed. -/
theorem setEntry_linkNew_iff :
    setEntry (linkNew w p c).fs.fatTable c 0 = w.fs.fatTable ↔
      w.fs.fatTable c = 0 ∧ Unlinked w p c := by
  constructor
  · intro h
    have hc := congrFun h c
    rw [setEntry, if_pos rfl] at hc
    refine ⟨hc.symm, fun hp hne => ?_⟩
    have hw := congrFun h p
    simpa [setEntry, hne, linkNew, hp, World.setFat, World.setTable] using hw
  · rintro ⟨hc, hu⟩
    funext a
    by_cases hac : a = c
    · rw [setEntry, if_pos hac, hac, hc]
    · rw [setEntry, if_neg hac, linkNew]
      by_cases hp : isChained p = true
      · rw [if_pos hp]
        by_cases hap : a = p
        · have hpc : p ≠ c := hap ▸ hac
          simpa [setEntry, hap, hpc, World.setFat, World.setTable] using hu hp hpc
        · simp [setEntry, hac, hap, World.setFat, World.setTable]
      · rw [if_neg hp]
        simp [setEntry, hac, World.setFat, World.setTable]

theorem linkNew_ne (hz : nextOf w c = 0) (h2 : 2 ≤ c) :
    (linkNew w p c).fs.fatTable ≠ w.fs.fatTable := by
  intro h
  have hc : nextOf (linkNew w p c) c = 0 := by
    rw [nextOf, h]
    exact hz
  rw [linkNew] at hc
  by_cases hp : isChained p = true
  · rw [if_pos hp, setFat_next] at hc
    by_cases hcp : c = p
    · subst hcp
      have hlt : c < 2 ^ 28 := by
        have := (isChained_iff.mp hp).2
        simp only [endCluster] at this
        omega
      rw [if_pos rfl, or_mod_of_lt _ hlt] at hc
      omega
    · rw [if_neg hcp, setFat_next, if_pos rfl] at hc
      cases hc
  · rw [if_neg hp, setFat_next, if_pos rfl] at hc
    cases hc

/-- **When a failed allocation leaves the table as it was.** It does when no
cluster was taken, and when the zeros were refused for a cluster with a zero
word that was hung behind no other cluster; it never does when the flush failed. -/
theorem failed_allocation_keeps_table_iff (h : fat32AllocateCluster p w = some (0, w')) :
    w'.fs.fatTable = w.fs.fatTable ↔ Undone w p := by
  rcases allocateCluster_zero h with ⟨hnone, ht⟩ | ⟨hbuf, c, hfree, ⟨hc, ht⟩ | ⟨hc, ht⟩⟩
  · exact ⟨fun _ => hnone.imp_right .inl, fun _ => ht⟩
  · rw [ht, setEntry_linkNew_iff, Undone, hbuf, hfree]
    simp [hc]
  · have hne := linkNew_ne (p := p) (findFree_some hfree).2 (findFree_some hfree).1.1
    rw [← ht] at hne
    rw [Undone, hbuf, hfree]
    simp [hc, hne]

end

/-! ## The device fails once -/

/-- Cluster 2 is a chain of its own, and the device refuses the next write. -/
def faultyVolume : World :=
  { smallVolume (setEntry (fun _ => 0) 2 endCluster) fun _ => true with
    faults := fun n => if n = 0 then some 0 else none }

theorem geometry_faultyVolume : Geometry faultyVolume := by
  constructor <;> simp [faultyVolume, smallVolume, sectorSize]

/-- The chain of cluster 2 goes on into cluster 3, which was not allocated. -/
theorem failed_allocation_leaves_link : ¬ ∀ w p w', Geometry w →
    fat32AllocateCluster p w = some (0, w') → w'.fs.fatTable = w.fs.fatTable := by
  intro h
  have hrun : (fat32AllocateCluster 2 faultyVolume).map (fun r => (r.1, r.2.fs.fatTable 2)) =
      some (0, 3) := by decide +kernel
  obtain ⟨⟨r, w'⟩, hr, hv⟩ := Option.map_eq_some_iff.mp hrun
  obtain ⟨rfl, ht⟩ := Prod.mk.inj hv
  rw [h _ _ _ geometry_faultyVolume hr] at ht
  exact absurd ht (by decide)

/-- Behind no cluster the word of the new one is put back. -/
theorem failed_allocation_keeps_table_iff_example : ∃ w',
    fat32AllocateCluster 0 faultyVolume = some (0, w') ∧
      w'.fs.fatTable = faultyVolume.fs.fatTable := by
  have hrun : (fat32AllocateCluster 0 faultyVolume).map (fun r => r.1) = some 0 := by decide +kernel
  obtain ⟨⟨r, w'⟩, hr, rfl⟩ := Option.map_eq_some_iff.mp hrun
  refine ⟨w', hr, (failed_allocation_keeps_table_iff hr).mpr (.inr (.inr ⟨3, ?_, ?_, rfl, ?_⟩))⟩
  · decide +kernel
  · decide +kernel
  · intro hp
    cases hp

end ContinuumOS.Fat32.Undo
