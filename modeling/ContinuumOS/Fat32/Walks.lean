import ContinuumOS.Lib.Walks
import ContinuumOS.Fat32.Search

/-! # Walks that may never end

`fat32_get_last_cluster`, `fat32_directory_find_previous_cluster` and
`fat32_iterate_directory` follow the links of the table for as long as they lead
to cluster numbers. Nothing counts their steps: on a table whose links lead back
to a cluster met before, they end only if something else stops them. -/
namespace ContinuumOS.Fat32.Walks
open Function
open ContinuumOS.Lib.Effect ContinuumOS.Lib.Walks
open ContinuumOS.Fat32.Volume ContinuumOS.Fat32.Device ContinuumOS.Fat32.Allocation
open ContinuumOS.Fat32.Directory ContinuumOS.Fat32.Scan ContinuumOS.Fat32.Search

/-- The links from `s` lead to a cluster that leads back to itself. -/
def Cyclic (next : Nat → Nat) (s : Nat) : Prop := Circular next (isChained · = true) s

/-- `target` comes behind a cluster that the links from `s` lead to. -/
def Passes (next : Nat → Nat) (s target : Nat) : Prop :=
  ∃ c, Comes next (isChained · = true) s c ∧ next c = target

/-- The cluster has a slot that ends a directory. -/
def HasEnd (w : World) (c : Nat) : Prop :=
  InRange w c ∧ ∃ i < entriesPerCluster w, slotKind (slotOf w c i) = .endOfDirectory

/-- The same volume and device, with any answers to come of heap and device. -/
structure SameDisk (w v : World) : Prop where
  fs : v.fs = w.fs
  mounted : v.mounted = w.mounted
  sectors : v.sectors = w.sectors
  present : v.present = w.present
  sectorCount : v.sectorCount = w.sectorCount

/-- A callback that never stops a scan. -/
def passAll : Callback Unit := fun _ _ _ _ context => (0, context)

/-- Every scan from `s` comes back, whatever the callback, the heap and the device
answer. -/
def ScansEnd (w : World) (s : Nat) : Prop := ∀ (κ : Type) (callback : Callback κ) (context : κ)
  (v : World), SameDisk w v → (fat32IterateDirectory s callback context v).isSome

section

variable {w v : World} {s c target : Nat} {next : Nat → Nat}

/-- The cluster numbers a walk can meet. -/
def clusterNumbers : Finset Nat := Finset.range endCluster

theorem mem_clusterNumbers (c : Nat) (h : isChained c = true) : c ∈ clusterNumbers :=
  Finset.mem_range.mpr (isChained_iff.mp h).2

theorem card_clusterNumbers : clusterNumbers.card < walkLimit := by
  rw [clusterNumbers, Finset.card_range]
  decide

theorem not_cyclic_iff :
    ¬ Cyclic next s ↔ ∃ n ≤ clusterNumbers.card, ¬ isChained (next^[n] s) = true :=
  not_circular_iff mem_clusterNumbers

/-! ## The last cluster -/

theorem lastClusterLoop_isSome (t : Nat → Nat) : ∀ rounds c : Nat,
    (lastClusterLoop t rounds c).isSome ↔
      ∃ n ≤ rounds, 0 < n ∧ ¬ isChained ((fun c => t c % 2 ^ 28)^[n] c) = true
  | 0, c => by
    simp only [lastClusterLoop, Option.isSome_none, Bool.false_eq_true, false_iff]
    rintro ⟨n, hn, hpos, -⟩
    omega
  | rounds + 1, c => by
    rw [lastClusterLoop]
    by_cases hc : isChained (t c % 2 ^ 28) = true
    · rw [if_pos hc, lastClusterLoop_isSome t rounds]
      constructor
      · rintro ⟨n, hn, hpos, hstop⟩
        exact ⟨n + 1, by omega, by omega, hstop⟩
      · rintro ⟨n, hn, hpos, hstop⟩
        obtain ⟨n, rfl⟩ : ∃ k, n = k + 1 := ⟨n - 1, by omega⟩
        refine ⟨n, by omega, Nat.pos_of_ne_zero fun h0 => ?_, hstop⟩
        subst h0
        exact hstop hc
    · rw [if_neg hc]
      exact ⟨fun _ => ⟨1, by omega, by omega, hc⟩, fun _ => rfl⟩

theorem getLastCluster_ends_iff : (fat32GetLastCluster w s).isSome ↔ ¬ Cyclic (nextOf w) s := by
  rw [not_cyclic_iff, fat32GetLastCluster]
  have hcard := card_clusterNumbers
  by_cases hs : isChained s = true
  · rw [if_pos hs, lastClusterLoop_isSome]
    constructor
    · rintro ⟨n, -, -, hstop⟩
      exact not_cyclic_iff.mp fun h => hstop (h.endless n)
    · rintro ⟨n, hn, hstop⟩
      refine ⟨n, by omega, Nat.pos_of_ne_zero fun h0 => ?_, hstop⟩
      subst h0
      exact hstop hs
  · rw [if_neg hs]
    exact ⟨fun _ => ⟨0, Nat.zero_le _, hs⟩, fun _ => rfl⟩

/-! ## The cluster before -/

theorem findPreviousLoop_isSome (w : World) (target : Nat) : ∀ rounds c : Nat,
    (findPreviousLoop w target rounds c).isSome ↔
      ∃ n ≤ rounds, ¬ isChained ((fat32GetNextCluster w)^[n] c) = true ∨
        0 < n ∧ (fat32GetNextCluster w)^[n] c = target
  | 0, c => by
    rw [findPreviousLoop]
    by_cases hc : isChained c = true
    · rw [if_pos hc]
      simp [hc]
    · rw [if_neg hc]
      exact ⟨fun _ => ⟨0, by omega, .inl hc⟩, fun _ => rfl⟩
  | rounds + 1, c => by
    rw [findPreviousLoop]
    by_cases hc : isChained c = true
    · rw [if_pos hc]
      by_cases ht : fat32GetNextCluster w c = target
      · simp only [ht, if_true, Option.isSome_some, true_iff]
        exact ⟨1, by omega, .inr ⟨by omega, ht⟩⟩
      · by_cases hn : isChained (fat32GetNextCluster w c) = true
        · simp only [ht, hn, if_true, if_false, findPreviousLoop_isSome w target rounds]
          constructor
          · rintro ⟨n, hle, hstop⟩
            exact ⟨n + 1, by omega, hstop.imp_right fun h => ⟨by omega, h.2⟩⟩
          · rintro ⟨n, hle, hstop⟩
            cases n with
            | zero => exact absurd hstop (by simp [hc])
            | succ n =>
              refine ⟨n, by omega, hstop.imp_right fun h => ⟨Nat.pos_of_ne_zero fun h0 => ?_, h.2⟩⟩
              subst h0
              exact ht h.2
        · simp only [ht, if_false, if_neg hn]
          exact ⟨fun _ => ⟨1, by omega, .inl hn⟩, fun _ => rfl⟩
    · rw [if_neg hc]
      exact ⟨fun _ => ⟨0, by omega, .inl hc⟩, fun _ => rfl⟩

theorem findPrevious_ends_iff : (fat32DirectoryFindPreviousCluster w s target).isSome ↔
    s = target ∨ Passes (fat32GetNextCluster w) s target ∨ ¬ Cyclic (fat32GetNextCluster w) s := by
  have hcard := card_clusterNumbers
  rw [fat32DirectoryFindPreviousCluster]
  by_cases hs : s = target
  · simp [hs]
  rw [if_neg hs, findPreviousLoop_isSome]
  constructor
  · rintro ⟨n, -, hstop⟩
    by_cases hcyc : Cyclic (fat32GetNextCluster w) s
    · obtain ⟨hpos, ht⟩ := hstop.resolve_left (not_not.mpr (hcyc.endless n))
      obtain ⟨n, rfl⟩ : ∃ k, n = k + 1 := ⟨n - 1, by omega⟩
      refine .inr (.inl ⟨_, comes_of_endless (fun i => hcyc.endless i) n, ?_⟩)
      rwa [iterate_succ_apply'] at ht
    · exact .inr (.inr hcyc)
  · rintro (h | ⟨c, hc, ht⟩ | hcyc)
    · exact absurd h hs
    · obtain ⟨n, hn, hc, -⟩ := hc.within mem_clusterNumbers
      refine ⟨n + 1, by omega, .inr ⟨by omega, ?_⟩⟩
      rw [iterate_succ_apply', hc, ht]
    · obtain ⟨n, hn, hstop⟩ := not_cyclic_iff.mp hcyc
      exact ⟨n, by omega, .inl hstop⟩

/-! ## The scan of a directory -/

theorem SameDisk.same (h : SameDisk w v) : SameGeometry w v :=
  ⟨by rw [h.fs], h.mounted, h.present, h.sectorCount⟩

theorem SameDisk.clusterBuf (h : SameDisk w v) (c : Nat) :
    clusterBuf v c = Device.clusterBuf w c := by
  rw [Device.clusterBuf, Device.clusterBuf, clusterAddr, clusterAddr, h.fs, h.sectors]

theorem SameDisk.getNextCluster (h : SameDisk w v) :
    fat32GetNextCluster v = fat32GetNextCluster w := by
  funext c
  rw [fat32GetNextCluster, fat32GetNextCluster, h.fs, h.mounted]

theorem readCluster_same (g : Geometry w) (h : SameDisk w v) (c : Nat) :
    ∃ r v', fat32ReadCluster c v = some (r, v') ∧ SameDisk w v' ∧
      ∀ buf, r = some buf → InRange w c → buf = clusterBuf w c := by
  have g' := h.same.geometry g
  simp only [fat32ReadCluster, bind_run, get_run, Option.bind_some, ite_run, pure_run, g'.mounted,
    not_true_eq_false, if_false]
  by_cases hs : fat32ClusterToSector v c = 0
  · rw [if_pos hs]
    exact ⟨none, v, rfl, h, by simp⟩
  rw [if_neg hs, blockdevRead]
  split
  · have htick : SameDisk w v.tick := ⟨h.fs, h.mounted, h.sectors, h.present, h.sectorCount⟩
    split
    · exact ⟨none, v.tick, rfl, htick, by simp⟩
    · refine ⟨_, v.tick, rfl, htick, fun buf hb hin => ?_⟩
      have hin' := h.same.inRange.mpr hin
      have hmod : v.fs.sectorsPerCluster % 256 = v.fs.sectorsPerCluster :=
        Nat.mod_eq_of_lt (by have := g'.sectorsPerCluster_le; omega)
      rw [← Option.some.inj hb, ← h.clusterBuf, Device.clusterBuf, clusterAddr, hin'.sector_eq g',
        hmod]
  · exact ⟨none, v, rfl, h, by simp⟩

theorem not_all_notEnd {ps : List Placed} (h : ∃ p ∈ ps, slotKind p.slot = .endOfDirectory) :
    ps.all notEnd = false := by
  obtain ⟨p, hp, hk⟩ := h
  rw [List.all_eq_false]
  exact ⟨p, hp, by simp [notEnd, hk]⟩

theorem scanCluster_hasEnd {κ : Type} {callback : Callback κ} (h : HasEnd w c) (st st' : Lfn)
    (context context' : κ) : scanCluster callback (clusterBuf w c) c (entriesPerCluster w) 0 st
      context ≠ .more st' context' := by
  obtain ⟨-, i, hi, hk⟩ := h
  have hall : (clusterSlots (clusterBuf w c) c 0 (entriesPerCluster w)).all notEnd = false :=
    not_all_notEnd ⟨⟨c, i, slotOf w c i⟩, List.mem_map.mpr ⟨i, by simpa using hi, rfl⟩, hk⟩
  rw [scanCluster_eq, hall]
  split <;> simp

theorem iterateLoop_ends {κ : Type} (callback : Callback κ) (g : Geometry w) :
    ∀ (rounds c : Nat) (st : Lfn) (context : κ) (v : World), SameDisk w v →
    (∃ n ≤ rounds, ¬ isChained ((fat32GetNextCluster w)^[n] c) = true ∨
      n < rounds ∧ HasEnd w ((fat32GetNextCluster w)^[n] c)) →
    (iterateLoop callback rounds c st context v).isSome
  | 0, c, st, context, v, _, hstop => by
    obtain ⟨n, hn, hstop⟩ := hstop
    obtain rfl : n = 0 := by omega
    have hc : ¬ isChained c = true := hstop.resolve_right (by omega)
    rw [iterateLoop, ite_run, if_neg hc]
    rfl
  | rounds + 1, c, st, context, v, h, hstop => by
    rw [iterateLoop]
    by_cases hc : isChained c = true
    · obtain ⟨r, v', hr, h', hbuf⟩ := readCluster_same g h c
      simp only [hc, not_true_eq_false, if_false, bind_run, hr, Option.bind_some]
      cases r with
      | none => rfl
      | some buf =>
        have hper : entriesPerCluster v' = entriesPerCluster w := by
          rw [entriesPerCluster, entriesPerCluster, clusterSize, clusterSize, h'.fs]
        simp only [bind_run, get_run, Option.bind_some, hper]
        cases hscan : scanCluster callback buf c (entriesPerCluster w) 0 st context with
        | done result context => rfl
        | more st₁ context₁ =>
          simp only [h'.getNextCluster, ite_run]
          by_cases hn : isChained (fat32GetNextCluster w c) = true
          · rw [if_neg (not_not.mpr hn)]
            refine iterateLoop_ends callback g rounds _ st₁ context₁ v' h' ?_
            obtain ⟨n, hle, hstop⟩ := hstop
            cases n with
            | zero =>
              rcases hstop with hstop | ⟨-, hend⟩
              · exact absurd hc hstop
              · rw [hbuf buf rfl hend.1] at hscan
                exact absurd hscan (scanCluster_hasEnd hend st st₁ context context₁)
            | succ n => exact ⟨n, by omega, hstop.imp_right fun h => ⟨by omega, h.2⟩⟩
          · rw [if_pos hn]
            rfl
    · rw [if_pos hc]
      rfl

theorem feed_passAll (rs : List Report) : feed passAll rs () = .inr () := by
  induction rs with
  | nil => rfl
  | cons r rs ih => simpa [feed, passAll] using ih

theorem scanCluster_passAll (h : ¬ HasEnd w c) (hin : InRange w c) (st : Lfn) :
    ∃ st', scanCluster passAll (clusterBuf w c) c (entriesPerCluster w) 0 st () = .more st' () := by
  have hall : (clusterSlots (clusterBuf w c) c 0 (entriesPerCluster w)).all notEnd = true := by
    rw [List.all_eq_true]
    intro p hp
    obtain ⟨i, hi, rfl⟩ := List.mem_map.mp hp
    refine decide_eq_true fun hk => h ⟨hin, i, ?_, hk⟩
    simpa using hi
  rw [scanCluster_eq, feed_passAll, hall]
  exact ⟨_, rfl⟩

theorem iterateLoop_endless (g : Geometry w) (nf : NoFaults w) : ∀ (rounds c : Nat) (st : Lfn),
    (∀ n, isChained ((fat32GetNextCluster w)^[n] c) = true) →
    (∀ n, ¬ HasEnd w ((fat32GetNextCluster w)^[n] c)) →
    iterateLoop passAll rounds c st () w = none
  | 0, c, st, hc, _ => by
    have h0 : isChained c = true := hc 0
    rw [iterateLoop, ite_run, if_pos h0]
    rfl
  | rounds + 1, c, st, hc, hend => by
    have h0 : isChained c = true := hc 0
    have h1 : isChained (fat32GetNextCluster w c) = true := hc 1
    -- a number without an entry is followed by the end marker
    have hin : InRange w c := by
      refine ⟨(isChained_iff.mp h0).1, Nat.not_le.mp fun hle => ?_⟩
      rw [fat32GetNextCluster, if_neg (by simp [g.mounted, g.loaded]), if_pos hle] at h1
      cases h1
    have hend0 : ¬ HasEnd w c := hend 0
    obtain ⟨st', hscan⟩ := scanCluster_passAll hend0 hin st
    have ih := iterateLoop_endless g nf rounds (fat32GetNextCluster w c) st' (fun n => hc (n + 1))
      fun n => hend (n + 1)
    rw [iterateLoop]
    simp only [h0, h1, not_true_eq_false, if_false, bind_run, readCluster_eq g nf hin,
      Option.bind_some, get_run, hscan, ite_run, ih]

theorem scansEnd_iff (g : Geometry w) : ScansEnd w s ↔
    (∃ c, Comes (fat32GetNextCluster w) (isChained · = true) s c ∧ HasEnd w c) ∨
      ¬ Cyclic (fat32GetNextCluster w) s := by
  have hcard := card_clusterNumbers
  constructor
  · intro h
    by_contra hno
    rw [not_or, not_not] at hno
    obtain ⟨hend, hcyc⟩ := hno
    -- heap and device answer every request
    let v : World := { w with mallocs := fun _ => true, faults := fun _ => none }
    have hv : SameDisk w v := ⟨rfl, rfl, rfl, rfl, rfl⟩
    have gv := hv.same.geometry g
    have hm : Mallocs v := fun _ => rfl
    have hloop : iterateLoop passAll walkLimit s Lfn.init () v = none := by
      refine iterateLoop_endless gv (fun _ => rfl) _ _ _ (fun n => ?_) fun n he => ?_
      · rw [hv.getNextCluster]
        exact hcyc.endless n
      · rw [hv.getNextCluster] at he
        exact hend ⟨_, comes_of_endless (fun i => hcyc.endless i) n, he⟩
    have hrun := h Unit passAll () v hv
    simp only [fat32IterateDirectory, bind_run, get_run, Option.bind_some,
      hm.kmalloc gv.clusterSize_pos, ite_run, if_true, hloop] at hrun
    cases hrun
  · intro h κ callback context v hv
    have hstop : ∃ n ≤ walkLimit, ¬ isChained ((fat32GetNextCluster w)^[n] s) = true ∨
        n < walkLimit ∧ HasEnd w ((fat32GetNextCluster w)^[n] s) := by
      rcases h with ⟨c, hc, hend⟩ | hcyc
      · obtain ⟨n, hn, rfl, -⟩ := hc.within mem_clusterNumbers
        exact ⟨n, by omega, .inr ⟨by omega, hend⟩⟩
      · obtain ⟨n, hn, hstop⟩ := not_cyclic_iff.mp hcyc
        exact ⟨n, by omega, .inl hstop⟩
    rw [fat32IterateDirectory]
    simp only [bind_run, get_run, Option.bind_some, kmalloc]
    have hspend : SameDisk w v.spend := ⟨hv.fs, hv.mounted, hv.sectors, hv.present, hv.sectorCount⟩
    split
    · rfl
    · simp only [Option.bind_some, ite_run]
      split
      · exact iterateLoop_ends callback g _ _ _ _ _ hspend hstop
      · rfl

/-! ## Which walks end -/

/-- **Which walks along the table end.** The walk to the last cluster ends just
when no cluster behind the start leads back to itself; the search for a previous
cluster also ends where the target comes behind a cluster it meets, and every
scan of a directory also ends where one of the clusters has an end. -/
theorem chain_walks_end_iff (g : Geometry w) (s : Nat) :
    ((fat32GetLastCluster w s).isSome ↔ ¬ Cyclic (nextOf w) s) ∧
    (∀ target, (fat32DirectoryFindPreviousCluster w s target).isSome ↔
      s = target ∨ Passes (fat32GetNextCluster w) s target ∨
        ¬ Cyclic (fat32GetNextCluster w) s) ∧
    (ScansEnd w s ↔
      (∃ c, Comes (fat32GetNextCluster w) (isChained · = true) s c ∧ HasEnd w c) ∨
        ¬ Cyclic (fat32GetNextCluster w) s) :=
  ⟨getLastCluster_ends_iff, fun _ => findPrevious_ends_iff, scansEnd_iff g⟩

end

/-! ## A root directory that leads to itself -/

/-- The entry of cluster 2 is 2. -/
def circularVolume : World := smallVolume (setEntry (fun _ => 0) 2 2) fun _ => true

theorem geometry_circularVolume : Geometry circularVolume := by
  constructor <;> simp [circularVolume, smallVolume, sectorSize]

theorem cyclic_circularVolume : Cyclic (nextOf circularVolume) 2 := by
  refine circular_of_repeats (i := 0) (j := 1) Nat.one_pos rfl fun n hn => ?_
  obtain rfl : n = 0 := by omega
  rfl

/-- The entries are free, end markers or cluster numbers, and yet the walk never
ends. -/
theorem chain_walks_may_not_end : ¬ ∀ w s, Geometry w →
    (∀ c, InRange w c → nextOf w c = 0 ∨ nextOf w c = endCluster ∨ InRange w (nextOf w c)) →
    (fat32GetLastCluster w s).isSome ∧
      (∀ target, (fat32DirectoryFindPreviousCluster w s target).isSome) ∧ ScansEnd w s := by
  intro h
  have hentries : ∀ c, InRange circularVolume c → nextOf circularVolume c = 0 ∨
      nextOf circularVolume c = endCluster ∨ InRange circularVolume (nextOf circularVolume c) := by
    intro c _
    by_cases hc : c = 2
    · subst hc
      exact .inr (.inr (by decide))
    · refine .inl ?_
      simp [nextOf, circularVolume, smallVolume, setEntry, hc]
  exact getLastCluster_ends_iff.mp (h _ 2 geometry_circularVolume hentries).1 cyclic_circularVolume

/-- From cluster 2 the walk goes on for ever, from cluster 3 it ends at once. -/
theorem chain_walks_end_iff_example : fat32GetLastCluster circularVolume 2 = none ∧
    (fat32GetLastCluster circularVolume 3).isSome := by
  refine ⟨?_, (chain_walks_end_iff geometry_circularVolume 3).1.mpr fun h => ?_⟩
  · rw [← Option.not_isSome_iff_eq_none, (chain_walks_end_iff geometry_circularVolume 2).1]
    exact not_not.mpr cyclic_circularVolume
  · exact absurd (h.endless 1) (by decide)

end ContinuumOS.Fat32.Walks
