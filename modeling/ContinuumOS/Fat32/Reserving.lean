import Mathlib.Data.Finset.Prod
import ContinuumOS.Fat32.Insertion
import ContinuumOS.Fat32.Appending

/-! # Where reserving slots leads

`fat32_directory_reserve_entries` goes from cluster to cluster with the run of free
slots found so far, and extends a directory that has too few. It takes every
cluster that the device gives for one of the directory, and hangs the new clusters
behind the last one it came to. -/
namespace ContinuumOS.Fat32.Reserving
open Function
open ContinuumOS.Lib.Effect ContinuumOS.Lib.Guards ContinuumOS.Lib.Walks
open ContinuumOS.Fat32.Volume ContinuumOS.Fat32.Device ContinuumOS.Fat32.Allocation
open ContinuumOS.Fat32.Names ContinuumOS.Fat32.Directory ContinuumOS.Fat32.Search
open ContinuumOS.Fat32.Checks ContinuumOS.Fat32.Answers ContinuumOS.Fat32.Confinement
open ContinuumOS.Fat32.Dropping ContinuumOS.Fat32.Appending

/-- The geometry is the same, and what could be freed still can. -/
structure Grown (w v : World) : Prop where
  same : SameGeometry w v
  freeable : ∀ s, Freeable w s → Freeable v s

/-- How many slots the run has that a search goes on with. -/
def leftOver : Reserve → Option Nat
  | .found _ => none
  | .more run => some run.length

/-- The next cluster, with the length of the run in front of it. -/
def onward (w : World) (count : Nat) (σ : Nat × Nat) : Nat × Nat :=
  (fat32GetNextCluster w σ.1,
    (leftOver (reserveAt w count σ.1 (List.replicate σ.2 ⟨0, 0⟩))).getD 0)

/-- The search goes on behind the cluster. -/
def GoesOn (w : World) (count : Nat) (σ : Nat × Nat) : Prop :=
  σ.2 < count ∧ (leftOver (reserveAt w count σ.1 (List.replicate σ.2 ⟨0, 0⟩))).isSome ∧
    isChained (fat32GetNextCluster w σ.1) = true

section

variable {w u v : World} {c a p s count left idx : Nat} {buf : Buf} {loc : Location}
variable {run run' locations : List Location}

/-! ## The slots of a cluster -/

theorem reserveCluster_found : ∀ (left idx : Nat) (run : List Location),
    reserveCluster buf c count left idx run = .found locations →
    locations.length = count ∧ count ≤ run.length + left ∧
      ∀ loc ∈ locations, loc ∈ run ∨ loc.cluster = c
  | 0, _, _, h => by cases h
  | left + 1, idx, run, h => by
    rw [reserveCluster] at h
    split at h
    · dsimp only at h
      split at h
      · rename_i hlen
        obtain rfl := Reserve.found.inj h
        refine ⟨hlen, ?_, fun loc hl => ?_⟩
        · rw [← hlen, List.length_append, List.length_singleton]
          omega
        · refine (List.mem_append.mp hl).imp id fun hl => ?_
          rw [List.mem_singleton.mp hl]
      · obtain ⟨hlen, hle, hmem⟩ := reserveCluster_found left (idx + 1) _ h
        rw [List.length_append, List.length_singleton] at hle
        refine ⟨hlen, by omega, fun loc hl => (hmem loc hl).elim (fun hr => ?_) .inr⟩
        refine (List.mem_append.mp hr).imp id fun hl => ?_
        rw [List.mem_singleton.mp hl]
    · obtain ⟨hlen, hle, hmem⟩ := reserveCluster_found left (idx + 1) _ h
      rw [List.length_nil] at hle
      exact ⟨hlen, by omega, fun loc hl => .inr ((hmem loc hl).resolve_left List.not_mem_nil)⟩

/-- A run that goes on has all slots of the cluster behind it, or lies in it. -/
theorem reserveCluster_more : ∀ (left idx : Nat) (run : List Location), run.length < count →
    reserveCluster buf c count left idx run = .more run' →
    run'.length < count ∧ (∀ loc ∈ run', loc ∈ run ∨ loc.cluster = c) ∧
      (run'.length = run.length + left ∨ ∀ loc ∈ run', loc.cluster = c)
  | 0, _, run, hlt, h => by
    obtain rfl := Reserve.more.inj h
    exact ⟨hlt, fun loc hl => .inl hl, .inl rfl⟩
  | left + 1, idx, run, hlt, h => by
    have hpos : 0 < count := Nat.zero_lt_of_lt hlt
    rw [reserveCluster] at h
    split at h
    · dsimp only at h
      split at h
      · cases h
      · rename_i hne
        have hlen : (run ++ [(⟨c, idx⟩ : Location)]).length = run.length + 1 := by
          rw [List.length_append, List.length_singleton]
        rw [hlen] at hne
        obtain ⟨hlt', hmem, hall⟩ := reserveCluster_more left (idx + 1) _ (by omega) h
        refine ⟨hlt', fun loc hl => (hmem loc hl).elim (fun hr => ?_) .inr, hall.imp_left fun he => ?_⟩
        · refine (List.mem_append.mp hr).imp id fun hl => ?_
          rw [List.mem_singleton.mp hl]
        · omega
    · obtain ⟨hlt', hmem, -⟩ := reserveCluster_more left (idx + 1) [] hpos h
      have hin : ∀ loc ∈ run', loc.cluster = c := fun loc hl =>
        (hmem loc hl).resolve_left List.not_mem_nil
      exact ⟨hlt', fun loc hl => .inr (hin loc hl), .inr hin⟩

theorem isFree_zero (i : Nat) : isFree (slotAt (fun _ => 0) i) = true := by
  rw [isFree, slotAt]
  rfl

theorem reserveCluster_zeros : ∀ (left idx : Nat) (run : List Location), run.length < count →
    (count ≤ run.length + left → ∃ locations,
      reserveCluster (fun _ => 0) c count left idx run = .found locations ∧ run ⊆ locations) ∧
    (run.length + left < count → ∃ run',
      reserveCluster (fun _ => 0) c count left idx run = .more run' ∧ run ⊆ run' ∧
        run'.length = run.length + left)
  | 0, idx, run, hlt => ⟨fun h => absurd h (by omega), fun _ => ⟨run, rfl, List.Subset.refl _, rfl⟩⟩
  | left + 1, idx, run, hlt => by
    have hlen : (run ++ [(⟨c, idx⟩ : Location)]).length = run.length + 1 := by
      rw [List.length_append, List.length_singleton]
    have hsub : run ⊆ run ++ [(⟨c, idx⟩ : Location)] := List.subset_append_left _ _
    rw [reserveCluster, if_pos (isFree_zero idx)]
    dsimp only
    split
    · rename_i he
      rw [hlen] at he
      exact ⟨fun _ => ⟨_, rfl, hsub⟩, fun h => absurd h (by omega)⟩
    · rename_i hne
      rw [hlen] at hne
      obtain ⟨hfound, hmore⟩ := reserveCluster_zeros left (idx + 1) (run ++ [⟨c, idx⟩]) (by omega)
      rw [hlen] at hfound hmore
      refine ⟨fun h => ?_, fun h => ?_⟩
      · obtain ⟨locations, he, hs⟩ := hfound (by omega)
        exact ⟨locations, he, List.Subset.trans hsub hs⟩
      · obtain ⟨run', he, hs, hl⟩ := hmore (by omega)
        exact ⟨run', he, List.Subset.trans hsub hs, by omega⟩

theorem leftOver_congr : ∀ (left idx : Nat) (run run' : List Location), run.length = run'.length →
    leftOver (reserveCluster buf c count left idx run) =
      leftOver (reserveCluster buf c count left idx run')
  | 0, _, _, _, h => congrArg some h
  | left + 1, idx, run, run', h => by
    have hlen : (run ++ [(⟨c, idx⟩ : Location)]).length = (run' ++ [(⟨c, idx⟩ : Location)]).length := by
      rw [List.length_append, List.length_append, h]
    rw [reserveCluster, reserveCluster]
    dsimp only
    split
    · rw [hlen]
      split
      · rfl
      · exact leftOver_congr left (idx + 1) _ _ hlen
    · rfl

/-! ## What growing keeps -/

namespace Grown

theorem refl (w : World) : Grown w w := ⟨.refl w, fun _ h => h⟩

theorem trans (h : Grown w u) (h' : Grown u v) : Grown w v :=
  ⟨h.same.trans h'.same, fun s hs => h'.freeable s (h.freeable s hs)⟩

theorem of_volume (h : volume v = volume w) : Grown w v := by
  have hg := sameGeometry_of_volume h
  have hnext : nextOf v = nextOf w := by
    funext a
    rw [nextOf, nextOf, fs_of_volume h]
  refine ⟨hg, fun s hs c hc => ?_⟩
  rw [hnext] at hc
  exact (sameGeometry_hasEntry hg).mpr (hs c hc)

theorem cleared (w : World) (a : Nat) : Grown w (w.setFat a 0) := by
  have hg : SameGeometry w (w.setFat a 0) := sameGeometry_setTable
  refine ⟨hg, fun s hs c hc => ?_⟩
  refine (sameGeometry_hasEntry hg).mpr (hs c ?_)
  obtain ⟨n, rfl, hgo⟩ := hc
  have heq : ∀ i ≤ n, (nextOf (w.setFat a 0))^[i] s = (nextOf w)^[i] s := by
    intro i
    induction i with
    | zero => intro _; rfl
    | succ i ih =>
      intro hi
      have hstep := hgo (i + 1) hi
      rw [iterate_succ_apply', setFat_next] at hstep ⊢
      rw [iterate_succ_apply', ← ih (by omega)]
      split at hstep
      · cases hstep
      · rename_i hne
        rw [if_neg hne]
  refine ⟨n, (heq n le_rfl).symm, fun i hi => ?_⟩
  rw [← heq i hi]
  exact hgo i hi

theorem linked (g : Geometry w) (ha : InRange w a) : Grown w (linkNew w p a) := by
  have hg : SameGeometry w (linkNew w p a) := sameGeometry_linkNew
  have hentry := hasEntry_inRange g ha
  refine ⟨hg, fun s hs c hc => (sameGeometry_hasEntry hg).mpr ?_⟩
  obtain ⟨n, rfl, hgo⟩ := hc
  -- the walk keeps to the old links until it comes to the new cluster
  have hwalk : ∀ i ≤ n, Comes (nextOf w) (isChained · = true) s ((nextOf (linkNew w p a))^[i] s) ∨
      (nextOf (linkNew w p a))^[i] s = a := by
    intro i
    induction i with
    | zero => exact fun hi => .inl (comes_refl (hgo 0 hi))
    | succ i ih =>
      intro hi
      have hstep := hgo (i + 1) hi
      rw [iterate_succ_apply'] at hstep ⊢
      generalize (nextOf (linkNew w p a))^[i] s = x at ih hstep
      by_cases hxa : x = a
      · subst hxa
        rcases linkNew_next_self (w := w) (p := p) (ha.lt g) with he | he
        · rw [he] at hstep
          cases hstep
        · exact .inr he
      · have hx := (ih (by omega)).resolve_right hxa
        rcases linkNew_next_other (p := p) (w := w) (ha.lt g) hxa with he | he
        · exact .inr he
        · rw [he] at hstep ⊢
          exact .inl (hx.snoc hstep)
  rcases hwalk n le_rfl with h | h
  · exact hs _ h
  · rw [h]
    exact hentry

end Grown

theorem allocateCluster_grows (g : Geometry w) (p : Nat) : Triple (fun t => volume t = volume w)
    (fat32AllocateCluster p) fun _ t => Grown w t := by
  have hzero : ∀ {P : World → Prop}, (∀ t, P t → Grown w t) → Triple P (pure 0 : Fat Nat)
      fun _ t => Grown w t := fun hP => .pure hP
  refine .get_bind fun u hu => .bind (Q := fun _ t => volume t = volume w)
    ((keeps_volume (keeps_volume_of_calm (kmalloc_keeps _))).pre fun t ht => ht ▸ hu) fun b =>
    .ite (fun _ => ?_) fun _ => hzero fun t ht => .of_volume ht
  have hfind : findFree u = findFree w := by rw [findFree, findFree, fs_of_volume hu]
  rw [hfind]
  cases hfree : findFree w with
  | none => exact hzero fun t ht => .of_volume ht
  | some c =>
    have hlink : ∀ t, volume t = volume (linkNew w p c) → Grown w t := fun t ht =>
      (Grown.linked g (findFree_some hfree).1).trans (.of_volume ht)
    refine .bind (Q := fun _ t => volume t = volume (linkNew w p c))
      (.modify fun t ht => linkNew_volume ht p c) fun _ =>
      .bind (keeps_volume (writeCluster_keeps _ _)) fun b => .ite (fun _ => ?_) fun _ => ?_
    · exact .bind (keeps_volume flushFat_keeps) fun b => .ite
        (fun _ => .pure fun t ht => hlink t ht) fun _ => hzero hlink
    · exact .bind (Q := fun _ t => Grown w t)
        (.modify fun t ht => (hlink t ht).trans (.cleared t c)) fun _ => hzero fun _ h => h

theorem calm_eq (hw : Calm w) : calm w = w := by
  have hm : (fun _ => true) = w.mallocs := funext fun n => (hw.mallocs n).symm
  have hf : (fun _ => none) = w.faults := funext fun n => (hw.noFaults n).symm
  rw [calm, answering, hm, hf]

/-- Whatever heap and device answer, a cluster that is allocated is as where they
answer every request. -/
theorem allocateCluster_fresh (hw : Calm w) (p : Nat) : Triple (fun t => calm t = calm w)
    (fat32AllocateCluster p) fun a t => a ≠ 0 →
      findFree w = some a ∧ calm t = calm (allocated w p a) := by
  intro t ht a t' hr ha
  have hrun := (allocateCluster_falters p t a t' hr).resolve_left ha
  rw [ht, calm_eq hw] at hrun
  cases hfree : findFree w with
  | none =>
    rw [allocateCluster_eq hw.geometry hw.noFaults hw.flushable, if_pos (hw.mallocs 0), hfree] at hrun
    obtain ⟨h0, -⟩ := Prod.mk.inj (Option.some.inj hrun)
    exact absurd h0.symm ha
  | some c =>
    rw [(allocateCluster_calm hw hfree p).1] at hrun
    obtain ⟨rfl, hc⟩ := Prod.mk.inj (Option.some.inj hrun)
    exact ⟨rfl, by rw [hc]; rfl⟩

theorem allocateCluster_extends (hw : Calm w)
    (hp : findFree w ≠ none → isChained p = true → HasEntry w p) :
    Safe (fun t => calm t = calm w) (fat32AllocateClusterChecked p) fun a t => Grown w t ∧
      (a ≠ 0 → findFree w = some a ∧ calm t = calm (allocated w p a)) := by
  have hsafe : Safe (fun t => calm t = calm w) (fat32AllocateClusterChecked p) fun _ _ => True := by
    refine .intro fun t ht => allocateCluster_safe
      ((sameGeometry_of_calm ht).geometry hw.geometry) fun hfree hc => ?_
    rw [findFree, fs_of_calm ht, ← findFree] at hfree
    exact (sameGeometry_hasEntry (sameGeometry_of_calm ht)).mpr (hp hfree hc)
  exact (hsafe.and_triple (allocateCluster_follows p) (((allocateCluster_grows hw.geometry p).and
    (allocateCluster_fresh hw p)).pre fun t ht => ⟨volume_of_calm ht, ht⟩)).post fun _ _ h => h.2

/-! ## New clusters -/

theorem bufAt_eq (g : Geometry w) (h : InRange w c) : bufAt w c = clusterBuf w c := by
  have hmod : w.fs.sectorsPerCluster % 256 = w.fs.sectorsPerCluster :=
    Nat.mod_eq_of_lt (by have := g.sectorsPerCluster_le; omega)
  rw [bufAt, clusterBuf, clusterAddr, h.sector_eq g, hmod]

theorem bufAt_allocated (g : Geometry w) (h : InRange w a) : bufAt (allocated w p a) a = fun _ => 0 := by
  have hg : SameGeometry w (allocated w p a) := sameGeometry_allocated
  rw [bufAt_eq (hg.geometry g) (hg.inRange.mpr h), clusterBuf_allocated_same g]

theorem entriesPerCluster_same (h : SameGeometry w v) : entriesPerCluster v = entriesPerCluster w := by
  rw [entriesPerCluster, entriesPerCluster, clusterSize, clusterSize, h.fields.2.1, h.fields.2.2.1]

theorem entriesPerCluster_ge (g : Geometry w) : 16 ≤ entriesPerCluster w := by
  have h := g.sectorsPerCluster_pos
  rw [entriesPerCluster, g.clusterSize_eq]
  simp only [sectorSize, slotSize]
  omega

theorem free_of_allocated (g : Geometry w) (ha : InRange w a)
    (h : nextOf (allocated w p a) c = 0) : c ≠ a ∧ nextOf w c = 0 := by
  have h : nextOf (linkNew w p a) c = 0 := h
  by_cases hca : c = a
  · subst hca
    rcases linkNew_next_self (w := w) (p := p) (ha.lt g) with he | he
    · rw [he] at h
      cases h
    · have := ha.1
      omega
  · refine ⟨hca, ?_⟩
    rcases linkNew_next_other (w := w) (p := p) (ha.lt g) hca with he | he
    · have := ha.1
      omega
    · rw [← he, h]

theorem mem_freeClusters : c ∈ freeClusters w ↔ InRange w c ∧ nextOf w c = 0 := by
  rw [freeClusters, List.mem_filter, List.mem_range'_1, beq_iff_eq, InRange, nextOf]
  refine and_congr_left fun _ => ?_
  omega

theorem freeClusters_allocated (g : Geometry w) (h : findFree w = some a) :
    (freeClusters (allocated w p a)).length < (freeClusters w).length := by
  obtain ⟨hin, hz⟩ := findFree_some h
  have htotal : (allocated w p a).fs.totalClusters = w.fs.totalClusters :=
    (sameGeometry_allocated (w := w)).fields.2.2.2.2.2.2.2.2.1
  have hfilter : freeClusters (allocated w p a) = (freeClusters w).filter fun c =>
      (allocated w p a).fs.fatTable c % 2 ^ 28 == 0 := by
    rw [freeClusters, freeClusters, List.filter_filter, htotal]
    refine List.filter_congr fun c _ => ?_
    rw [Bool.eq_iff_iff, Bool.and_eq_true, beq_iff_eq, beq_iff_eq]
    exact ⟨fun hc => ⟨hc, (free_of_allocated g hin hc).2⟩, fun hc => hc.1⟩
  rw [hfilter]
  refine List.length_filter_lt_length_iff_exists.mpr ⟨a, mem_freeClusters.mpr ⟨hin, hz⟩, fun hfree => ?_⟩
  exact (free_of_allocated g hin (beq_iff_eq.mp hfree)).1 rfl

/-- A cluster at which a directory is extended: it holds zeros, and leads to no
other. -/
structure Fresh (w : World) (a : Nat) : Prop where
  inRange : InRange w a
  zeros : bufAt w a = fun _ => 0
  next : nextOf w a = endCluster ∨ nextOf w a = a

theorem fresh_allocated (g : Geometry w) (h : findFree w = some a) : Fresh (allocated w p a) a := by
  have hin := (findFree_some h).1
  exact ⟨sameGeometry_allocated.inRange.mpr hin, bufAt_allocated g hin,
    linkNew_next_self (hin.lt g)⟩

theorem getNextCluster_of_calm (h : calm v = calm w) (c : Nat) :
    fat32GetNextCluster v c = fat32GetNextCluster w c := by
  have hv : fat32GetNextCluster (calm v) c = fat32GetNextCluster (calm w) c := by rw [h]
  exact hv

/-- The slots that were reserved lie inside. -/
abbrev Landed (w : World) (r : Option (List Location)) (t : World) : Prop :=
  Grown w t ∧ ∀ locations, r = some locations → ∀ loc ∈ locations, Lands w loc.cluster

theorem landed_none {P : World → Prop} (h : ∀ t, P t → Grown w t) :
    Safe P (pure none : Checked (Option (List Location))) (Landed w) :=
  .pure fun t ht => ⟨h t ht, fun locations hl => by cases hl⟩

theorem landed_of_grown {P : World → Prop} {m : Checked (Option (List Location))} (hg : Grown w v)
    (h : Safe P m (Landed v)) : Safe P m (Landed w) :=
  h.post fun _ _ ht => ⟨hg.trans ht.1, fun l hl loc hloc =>
    (sameGeometry_lands hg.same).mp (ht.2 l hl loc hloc)⟩

theorem self_of_allocated (g : Geometry w) (h : findFree w = some a)
    (hn : nextOf (allocated w p a) a = a) : p = a := by
  by_contra hne
  have hin := (findFree_some h).1
  rw [allocated_next (hin.lt g) hne, if_pos rfl] at hn
  have hc := hin.isChained g
  rw [← hn] at hc
  cases hc

theorem grown_of_calm (h : calm v = calm w) : Grown w v := .of_volume (volume_of_calm h)

/-- The slots found behind a new cluster lie inside, if those before it do wherever
the new clusters are enough. -/
theorem extend_safe : ∀ (rounds a : Nat) (run : List Location) (w : World), Calm w → Fresh w a →
    run.length < count → (nextOf w a = a → ∀ loc ∈ run, Lands w loc.cluster) →
    (count ≤ run.length + entriesPerCluster w * (1 + (freeClusters w).length) →
      ∀ loc ∈ run, Lands w loc.cluster) →
    Safe (fun t => calm t = calm w) (reserveLoopChecked count rounds a run) (Landed w)
  | 0, a, run, w, _, _, _, _, _ =>
    .ite (fun _ => .diverge) fun _ => landed_none fun _ => grown_of_calm
  | rounds + 1, a, run, w, hw, hf, hlt, hself, henough => by
    have g := hw.geometry
    refine .ite (fun _ => landed_none fun _ => grown_of_calm) fun _ =>
      .bind (.lift (readCluster_reads a)) fun r => ?_
    cases r with
    | none => exact landed_none fun t ht => grown_of_calm ht.2
    | some buf =>
      refine .get_bind fun t ht => ?_
      obtain ⟨-, rfl⟩ := ht.1 buf rfl
      have ht := ht.2
      have hhere : Lands w a := lands_inRange g hf.inRange
      have hmul : entriesPerCluster w * (1 + (freeClusters w).length) =
          entriesPerCluster w + entriesPerCluster w * (freeClusters w).length := by
        rw [Nat.mul_add, Nat.mul_one]
      rw [hf.zeros, entriesPerCluster_same (sameGeometry_of_calm ht)]
      obtain ⟨hfound, hmore⟩ := reserveCluster_zeros (c := a) (entriesPerCluster w) 0 run hlt
      by_cases hfit : count ≤ run.length + entriesPerCluster w
      · obtain ⟨locations, he, -⟩ := hfound hfit
        rw [he]
        have hmem := (reserveCluster_found _ _ _ he).2.2
        refine .pure fun u hu => ⟨grown_of_calm (hu ▸ ht), fun l hl loc hloc => ?_⟩
        obtain rfl := Option.some.inj hl
        rcases hmem loc hloc with hr | hc
        · exact henough (by omega) loc hr
        · exact hc ▸ hhere
      · obtain ⟨run', he, -, hlen⟩ := hmore (Nat.not_le.mp hfit)
        rw [he, getNextCluster_of_calm ht, getNextCluster_eq g hf.inRange]
        obtain ⟨hlt', hmem, -⟩ := reserveCluster_more _ _ _ hlt he
        have hland : (∀ loc ∈ run, Lands w loc.cluster) → ∀ loc ∈ run', Lands w loc.cluster :=
          fun h loc hl => (hmem loc hl).elim (h loc) fun hc => hc ▸ hhere
        refine .ite (fun hc => ?_) fun _ => ?_
        · -- the cluster leads to itself
          have hn : nextOf w a = a := hf.next.resolve_left fun hn => by
            rw [hn] at hc
            cases hc
          rw [hn]
          have hall := hland (hself hn)
          exact (extend_safe rounds a run' w hw hf hlt' (fun _ => hall) fun _ => hall).pre
            fun u hu => hu ▸ ht
        · refine .bind ((allocateCluster_extends hw (p := a) fun _ _ => hasEntry_inRange g
            hf.inRange).pre fun u hu => hu ▸ ht) fun d => .intro fun u hu => ?_
          refine .ite (fun _ => landed_none fun v (hv : v = u) => hv ▸ hu.1) fun hd => ?_
          obtain ⟨hfree, hcalm⟩ := hu.2 hd
          have hg : SameGeometry w (allocated w a d) := sameGeometry_allocated
          have hgrown : Grown w (allocated w a d) := hu.1.trans (grown_of_calm hcalm.symm)
          have hE := entriesPerCluster_same hg
          have hcount := freeClusters_allocated (p := a) g hfree
          refine landed_of_grown hgrown ((extend_safe rounds d run' (allocated w a d)
            (allocateCluster_calm hw hfree a).2 (fresh_allocated g hfree) hlt' (fun hn => ?_)
            fun hle loc hl => ?_).pre fun v (hv : v = u) => hv ▸ hcalm)
          · -- the last cluster of the directory was not free
            obtain rfl := self_of_allocated g hfree hn
            have hz := (findFree_some hfree).2
            rcases hf.next with hend | hself
            · rw [hend] at hz
              cases hz
            · have := hf.inRange.1
              omega
          · refine (sameGeometry_lands hg).mpr (hland (henough ?_) loc hl)
            rw [hE, hlen] at hle
            have : entriesPerCluster w * (1 + (freeClusters (allocated w a d)).length) ≤
                entriesPerCluster w * (freeClusters w).length := Nat.mul_le_mul_left _ (by omega)
            omega

/-! ## The clusters of the directory -/

theorem arrives_length (hcount : 0 < count) (h : Arrives w count s c run) : run.length < count := by
  induction h with
  | start => exact hcount
  | next _ _ more _ ih => exact (reserveCluster_more _ _ _ ih more).1

theorem arrives_accepted (hcount : 0 < count) (h : Arrives w count s c run) :
    ∀ loc ∈ run, ¬ Refused w loc.cluster := by
  induction h with
  | start => exact fun loc hl => absurd hl List.not_mem_nil
  | next before accepted more _ ih =>
    intro loc hl
    rcases (reserveCluster_more _ _ _ (arrives_length hcount before) more).2.1 loc hl with hr | hc
    · exact ih loc hr
    · exact hc ▸ accepted

/-- **The slots that are reserved lie inside**, and so do the clusters and entries
used on the way. -/
theorem reserveLoop_safe (hw : Calm w) (hcount : 0 < count)
    (hfit : count ≤ 2 * entriesPerCluster w) (h : Reservable w s count) :
    ∀ (rounds c : Nat) (run : List Location), (isChained c = true → Arrives w count s c run) →
      Safe (fun t => calm t = calm w) (reserveLoopChecked count rounds c run) (Landed w)
  | 0, c, run, _ => .ite (fun _ => .diverge) fun _ => landed_none fun _ => grown_of_calm
  | rounds + 1, c, run, harr => by
    have g := hw.geometry
    refine .ite (fun _ => landed_none fun _ => grown_of_calm) fun hc =>
      .bind (.lift (readCluster_reads c)) fun r => ?_
    have harr := harr (not_not.mp hc)
    cases r with
    | none => exact landed_none fun t ht => grown_of_calm ht.2
    | some buf =>
      refine .get_bind fun t ht => ?_
      obtain ⟨hacc, rfl⟩ := ht.1 buf rfl
      have ht := ht.2
      have hlt := arrives_length hcount harr
      rw [entriesPerCluster_same (sameGeometry_of_calm ht)]
      cases he : reserveCluster (bufAt w c) c count (entriesPerCluster w) 0 run with
      | found locations =>
        refine .pure fun u hu => ⟨grown_of_calm (hu ▸ ht), fun l hl => ?_⟩
        obtain rfl := Option.some.inj hl
        exact h.found c run locations harr hacc he
      | more run' =>
        dsimp only
        rw [getNextCluster_of_calm ht]
        refine .ite (fun hn => ?_) fun hn => ?_
        · exact (reserveLoop_safe hw hcount hfit h rounds _ run' fun _ =>
            .next harr hacc he hn).pre fun u hu => hu ▸ ht
        · have hext := h.extended c run run' harr hacc he (Bool.eq_false_iff.mpr hn)
          refine .bind ((allocateCluster_extends hw (p := c) fun hfree _ =>
            (hext hfree).1).pre fun u hu => hu ▸ ht) fun d => .intro fun u hu => ?_
          refine .ite (fun _ => landed_none fun v (hv : v = u) => hv ▸ hu.1) fun hd => ?_
          obtain ⟨hfree, hcalm⟩ := hu.2 hd
          obtain ⟨hlt', -, hall⟩ := reserveCluster_more _ _ _ hlt he
          have hland := (hext (by rw [hfree]; exact Option.some_ne_none d)).2
          have hg : SameGeometry w (allocated w c d) := sameGeometry_allocated
          have hcount := freeClusters_allocated (p := c) g hfree
          have hmul := Nat.mul_le_mul_left (entriesPerCluster w) hcount
          refine landed_of_grown (hu.1.trans (grown_of_calm hcalm.symm)) ((extend_safe rounds d run'
            (allocated w c d) (allocateCluster_calm hw hfree c).2 (fresh_allocated g hfree) hlt'
            (fun hself loc hl => ?_) fun hle loc hl => ?_).pre fun v (hv : v = u) => hv ▸ hcalm)
          · obtain rfl := self_of_allocated g hfree hself
            refine (sameGeometry_lands hg).mpr ?_
            rcases hall with hlen | hin
            · refine hland ?_ loc hl
              rw [Nat.succ_eq_add_one, Nat.mul_add, Nat.mul_one] at hmul
              omega
            · exact hin loc hl ▸ lands_inRange g (findFree_some hfree).1
          · refine (sameGeometry_lands hg).mpr (hland ?_ loc hl)
            rw [entriesPerCluster_same hg, Nat.add_comm 1] at hle
            rw [Nat.succ_eq_add_one] at hmul
            omega

/-! ## Where heap and device answer -/

theorem arrives_chained (h : Arrives w count s c run) : isChained c = true := by
  cases h with
  | start chained => exact chained
  | next _ _ _ chained => exact chained

theorem leftOver_reserveAt : leftOver (reserveAt w count c run) =
    leftOver (reserveAt w count c (List.replicate run.length ⟨0, 0⟩)) :=
  leftOver_congr _ _ _ _ List.length_replicate.symm

/-- The search comes to where it arrives, and is then in the round after as many. -/
theorem arrives_run (hw : Calm w) (hcount : 0 < count) (h : Arrives w count s c run) :
    ∃ n, ((onward w count)^[n] (s, 0) = (c, run.length) ∧
        ∀ i < n, GoesOn w count ((onward w count)^[i] (s, 0))) ∧
      ∀ r, reserveLoop count (r + n) s [] w = reserveLoop count r c run w ∧
        (Stops (reserveLoopChecked count r c run) w →
          Stops (reserveLoopChecked count (r + n) s []) w) := by
  induction h with
  | start => exact ⟨0, ⟨rfl, fun i hi => absurd hi (Nat.not_lt_zero i)⟩, fun r => ⟨rfl, id⟩⟩
  | @next c run run' before accepted more chained ih =>
    obtain ⟨n, ⟨hn, hgo⟩, hrun⟩ := ih
    have hc := arrives_chained before
    have hread := readCluster_accepted hw.geometry hw.noFaults accepted
    have hleft : leftOver (reserveAt w count c (List.replicate run.length ⟨0, 0⟩)) =
        some run'.length := by
      rw [← leftOver_reserveAt, more]
      rfl
    rw [reserveAt] at more
    refine ⟨n + 1, ⟨?_, fun i hi => ?_⟩, fun r => ⟨?_, fun hstop => ?_⟩⟩
    · rw [iterate_succ_apply', hn, onward, hleft]
      rfl
    · rcases Nat.lt_or_ge i n with hlt | hge
      · exact hgo i hlt
      · obtain rfl : i = n := by omega
        rw [hn]
        exact ⟨arrives_length hcount before, by rw [hleft]; rfl, chained⟩
    · rw [show r + (n + 1) = (r + 1) + n by omega, (hrun (r + 1)).1, reserveLoop]
      simp only [ite_run, hc, not_true_eq_false, if_false, bind_run, hread, Option.bind_some, get_run,
        more, chained, if_true]
    · rw [show r + (n + 1) = (r + 1) + n by omega]
      refine (hrun (r + 1)).2 (.ite_neg (not_not.mpr hc) (.lift_bind hread (.get_bind ?_)))
      rw [more]
      exact .ite_pos chained hstop

theorem arrives_within (hw : Calm w) (hcount : 0 < count) (hle : count ≤ 21)
    (h : Arrives w count s c run)
    (hend : leftOver (reserveAt w count c run) = none ∨ isChained (fat32GetNextCluster w c) = false) :
    ∃ r, reserveLoop count walkLimit s [] w = reserveLoop count (r + 3) c run w ∧
      (Stops (reserveLoopChecked count (r + 3) c run) w →
        Stops (reserveLoopChecked count walkLimit s []) w) := by
  obtain ⟨n, ⟨hn, hgo⟩, hrun⟩ := arrives_run hw hcount h
  have hnodes : ∀ σ, GoesOn w count σ →
      σ ∈ Finset.range w.fs.totalClusters ×ˢ Finset.range count := by
    rintro ⟨d, m⟩ ⟨hm, -, hd⟩
    refine Finset.mem_product.mpr ⟨Finset.mem_range.mpr ?_, Finset.mem_range.mpr hm⟩
    by_contra hge
    rw [fat32GetNextCluster, if_pos (Nat.not_lt.mp hge), ite_self, not_isChained_endCluster] at hd
    cases hd
  have hstop : ¬ GoesOn w count ((onward w count)^[n] (s, 0)) := by
    rw [hn]
    rintro ⟨-, hsome, hchained⟩
    rcases hend with hnone | hnext
    · rw [← leftOver_reserveAt, hnone] at hsome
      cases hsome
    · rw [hnext] at hchained
      cases hchained
  obtain ⟨m, hm, hmstop⟩ := (not_circular_iff hnodes).mp fun hcirc => hstop (hcirc.endless n)
  have hnm : n ≤ m := Nat.not_lt.mp fun hlt => hmstop (hgo m hlt)
  have hcard : n ≤ w.fs.totalClusters * count := by
    rw [Finset.card_product, Finset.card_range, Finset.card_range] at hm
    omega
  have hbound : w.fs.totalClusters * count ≤ 2 ^ 21 * 21 :=
    Nat.mul_le_mul hw.geometry.totalClusters_le hle
  obtain ⟨r, hr⟩ : ∃ r, walkLimit = (r + 3) + n := by
    refine ⟨walkLimit - n - 3, ?_⟩
    simp only [walkLimit]
    omega
  rw [hr]
  exact ⟨r, (hrun _).1, (hrun _).2⟩

theorem reserveLoop_found (hw : Calm w) (hc : isChained c = true) (hacc : ¬ Refused w c)
    (h : reserveAt w count c run = .found locations) (r : Nat) :
    reserveLoop count (r + 1) c run w = some (some locations, w) := by
  rw [reserveAt] at h
  rw [reserveLoop]
  simp only [ite_run, hc, not_true_eq_false, if_false, bind_run,
    readCluster_accepted hw.geometry hw.noFaults hacc, Option.bind_some, get_run, h, pure_run]

theorem reserveLoop_extends (hw : Calm w) (hc : isChained c = true) (hacc : ¬ Refused w c)
    (h : reserveAt w count c run = .more run') (hn : isChained (fat32GetNextCluster w c) = false)
    (hfree : findFree w = some a) (r : Nat) :
    reserveLoop count (r + 1) c run w = reserveLoop count r a run' (allocated w c a) := by
  have ha : a ≠ 0 := by
    have := (findFree_some hfree).1.1
    omega
  rw [reserveAt] at h
  rw [reserveLoop]
  simp only [ite_run, hc, not_true_eq_false, if_false, bind_run,
    readCluster_accepted hw.geometry hw.noFaults hacc, Option.bind_some, get_run, h, hn,
    Bool.false_eq_true, (allocateCluster_calm hw hfree c).1, ha]

theorem accepted_inRange (g : Geometry w) (h : InRange w c) : ¬ Refused w c := by
  rintro (h0 | hno)
  · rw [h.sector_eq g] at h0
    have := g.dataStart_pos
    omega
  · rw [h.transferOk g] at hno
    cases hno

theorem reserveAt_fresh (hf : Fresh w a) :
    reserveAt w count a run = reserveCluster (fun _ => 0) a count (entriesPerCluster w) 0 run := by
  rw [reserveAt, hf.zeros]

/-- The search comes back with a slot that does not lie inside. -/
def Escapes (w : World) (count : Nat) (r : Option (Option (List Location) × World)) : Prop :=
  ∃ locations v, r = some (some locations, v) ∧ Calm v ∧ SameGeometry w v ∧
    locations.length = count ∧ (∀ loc ∈ locations, ¬ Refused w loc.cluster) ∧
    ∃ loc ∈ locations, ¬ Lands w loc.cluster

theorem escapes_fresh (hw : Calm w) (hf : Fresh w a) (hlt : run.length < count)
    (hfit : count ≤ run.length + entriesPerCluster w) (hacc : ∀ loc ∈ run, ¬ Refused w loc.cluster)
    (hout : ∃ loc ∈ run, ¬ Lands w loc.cluster) (r : Nat) :
    Escapes w count (reserveLoop count (r + 1) a run w) := by
  have g := hw.geometry
  have ha := accepted_inRange g hf.inRange
  obtain ⟨locations, he, hsub⟩ := (reserveCluster_zeros (c := a) (entriesPerCluster w) 0 run hlt).1 hfit
  obtain ⟨hlen, -, hmem⟩ := reserveCluster_found _ _ _ he
  rw [← reserveAt_fresh hf] at he
  obtain ⟨loc, hl, hno⟩ := hout
  refine ⟨locations, w, reserveLoop_found hw (hf.inRange.isChained g) ha he r, hw, .refl w, hlen,
    fun d hd => ?_, loc, hsub hl, hno⟩
  rcases hmem d hd with hr | hc
  · exact hacc d hr
  · exact hc ▸ ha

theorem Escapes.of_same {r : Option (Option (List Location) × World)} (hg : SameGeometry w v)
    (h : Escapes v count r) : Escapes w count r := by
  obtain ⟨locations, u, hr, hu, hs, hlen, hacc, loc, hl, hno⟩ := h
  exact ⟨locations, u, hr, hu, hg.trans hs, hlen,
    fun d hd h => hacc d hd ((SameGeometry.refused hg).mpr h), loc, hl,
    fun h => hno ((sameGeometry_lands hg).mpr h)⟩

theorem findFree_allocated (g : Geometry w) (hfree : findFree w = some a) (hc : ¬ InRange w c)
    (h : 2 ≤ (freeClusters w).length) : findFree (allocated w c a) ≠ none := by
  have hin := (findFree_some hfree).1
  have hnodup : (freeClusters w).Nodup := (List.nodup_range' 1 (by decide)).filter _
  obtain ⟨b, hb, hba⟩ : ∃ b ∈ freeClusters w, b ≠ a := by
    by_contra hno
    have hsub : freeClusters w ⊆ [a] := fun b hb =>
      List.mem_singleton.mpr (by_contra fun hne => hno ⟨b, hb, hne⟩)
    have hlen := (List.subperm_of_subset hnodup hsub).length_le
    rw [List.length_singleton] at hlen
    omega
  obtain ⟨hbin, hbz⟩ := mem_freeClusters.mp hb
  have hca : c ≠ a := fun he => hc (he ▸ hin)
  have hbc : b ≠ c := fun he => hc (he ▸ hbin)
  intro hnone
  refine findFree_none.mp hnone b (sameGeometry_allocated.inRange.mpr hbin) ?_
  rw [allocated_next (hin.lt g) hca, if_neg hba, if_neg fun h => hbc h.2, hbz]

theorem escapes_extended (hw : Calm w) (hfit : count ≤ 2 * entriesPerCluster w)
    (hc : isChained c = true) (hacc : ¬ Refused w c) (hlt : run.length < count)
    (hruns : ∀ loc ∈ run, ¬ Refused w loc.cluster)
    (h : reserveAt w count c run = .more run') (hn : isChained (fat32GetNextCluster w c) = false)
    (hfree : findFree w = some a)
    (henough : count ≤ run'.length + entriesPerCluster w * (freeClusters w).length)
    (hout : ∃ loc ∈ run', ¬ Lands w loc.cluster) (r : Nat) :
    Escapes w count (reserveLoop count (r + 3) c run w) := by
  have g := hw.geometry
  have hg : SameGeometry w (allocated w c a) := sameGeometry_allocated
  have hE := entriesPerCluster_same hg
  have hcalm := (allocateCluster_calm hw hfree c).2
  obtain ⟨hlt', hmem, hall⟩ := reserveCluster_more _ _ _ hlt h
  have hruns' : ∀ loc ∈ run', ¬ Refused (allocated w c a) loc.cluster := fun loc hl hr =>
    (hmem loc hl).elim (fun hr' => hruns loc hr' ((SameGeometry.refused hg).mp hr)) fun hcl =>
      hacc (hcl ▸ (SameGeometry.refused hg).mp hr)
  obtain ⟨loc, hl, hno⟩ := hout
  have hno' : ¬ Lands (allocated w c a) loc.cluster := fun h => hno ((sameGeometry_lands hg).mp h)
  rw [reserveLoop_extends hw hc hacc h hn hfree]
  refine Escapes.of_same hg ?_
  by_cases hfirst : count ≤ run'.length + entriesPerCluster w
  · exact escapes_fresh hcalm (fresh_allocated g hfree) hlt' (hE ▸ hfirst) hruns' ⟨loc, hl, hno'⟩ _
  · -- a second cluster is needed, and the slot outside is one of `c`
    have hlc : loc.cluster = c := by
      rcases hall with hlen | hin
      · omega
      · exact hin loc hl
    rw [hlc] at hno
    have hca : c ≠ a := fun he => hno (lands_inRange g (he ▸ (findFree_some hfree).1))
    have hf : Fresh (allocated w c a) a := fresh_allocated g hfree
    have gv := hg.geometry g
    obtain ⟨run'', he, hsub, hlen⟩ := (reserveCluster_zeros (c := a)
      (entriesPerCluster (allocated w c a)) 0 run' hlt').2 (by omega)
    have hlt'' := (reserveCluster_more _ _ _ hlt' he).1
    have hmem'' := (reserveCluster_more _ _ _ hlt' he).2.1
    rw [← reserveAt_fresh hf] at he
    have hend : isChained (fat32GetNextCluster (allocated w c a) a) = false := by
      rw [getNextCluster_eq gv hf.inRange, allocated_next ((findFree_some hfree).1.lt g) hca,
        if_pos rfl]
      exact not_isChained_endCluster
    obtain ⟨d, hd⟩ := Option.ne_none_iff_exists'.mp
      (findFree_allocated g hfree (fun hin => hno (lands_inRange g hin)) (by
        by_contra hone
        have : entriesPerCluster w * (freeClusters w).length ≤ entriesPerCluster w * 1 :=
          Nat.mul_le_mul_left _ (by omega)
        omega))
    have hg' : SameGeometry (allocated w c a) (allocated (allocated w c a) a d) :=
      sameGeometry_allocated
    have ha := accepted_inRange gv hf.inRange
    rw [reserveLoop_extends hcalm (hf.inRange.isChained gv) ha he hend hd]
    refine Escapes.of_same hg' (escapes_fresh (allocateCluster_calm hcalm hd a).2
      (fresh_allocated gv hd) hlt'' (by rw [entriesPerCluster_same hg']; omega) (fun x hx hr => ?_)
      ⟨loc, hsub hl, fun h => hno' ((sameGeometry_lands hg').mp h)⟩ _)
    have hr := (SameGeometry.refused hg').mp hr
    rcases hmem'' x hx with hx | hx
    · exact hruns' x hx hr
    · rw [hx] at hr
      exact ha hr

/-- **A search that leads outside** uses an entry that the table does not have, or
comes back with a slot that does not lie inside. -/
theorem reserveLoop_escapes (hw : Calm w) (hcount : 0 < count) (hle : count ≤ 21)
    (h : ¬ Reservable w s count) : Stops (reserveLoopChecked count walkLimit s []) w ∨
      Escapes w count (reserveLoop count walkLimit s [] w) := by
  have hfit : count ≤ 2 * entriesPerCluster w := by
    have := entriesPerCluster_ge hw.geometry
    omega
  by_cases hfound : ∃ c run locations, Arrives w count s c run ∧ ¬ Refused w c ∧
      reserveAt w count c run = .found locations ∧ ∃ loc ∈ locations, ¬ Lands w loc.cluster
  · obtain ⟨c, run, locations, harr, hacc, he, hout⟩ := hfound
    obtain ⟨r, hrun, -⟩ := arrives_within hw hcount hle harr (.inl (by rw [he]; rfl))
    have hlen := arrives_length hcount harr
    refine .inr ⟨locations, w, ?_, hw, .refl w, (reserveCluster_found _ _ _ he).1, fun loc hl => ?_, hout⟩
    · rw [hrun, reserveLoop_found hw (arrives_chained harr) hacc he]
    · rcases (reserveCluster_found _ _ _ he).2.2 loc hl with hr | hc
      · exact arrives_accepted hcount harr loc hr
      · exact hc ▸ hacc
  · obtain ⟨c, run, run', harr, hacc, he, hn, hfree, hbad⟩ : ∃ c run run', Arrives w count s c run ∧
        ¬ Refused w c ∧ reserveAt w count c run = .more run' ∧
        isChained (fat32GetNextCluster w c) = false ∧ findFree w ≠ none ∧ ¬ (HasEntry w c ∧
          (count ≤ run'.length + entriesPerCluster w * (freeClusters w).length →
            ∀ loc ∈ run', Lands w loc.cluster)) := by
      by_contra hno
      refine h ⟨fun c run locations harr hacc he loc hl => ?_,
        fun c run run' harr hacc he hn hfree => ?_⟩
      · exact by_contra fun hl' => hfound ⟨c, run, locations, harr, hacc, he, loc, hl, hl'⟩
      · exact by_contra fun hbad => hno ⟨c, run, run', harr, hacc, he, hn, hfree, hbad⟩
    have hc := arrives_chained harr
    have hlt := arrives_length hcount harr
    obtain ⟨a, ha⟩ := Option.ne_none_iff_exists'.mp hfree
    obtain ⟨r, hrun, hstops⟩ := arrives_within hw hcount hle harr (.inr hn)
    by_cases hentry : HasEntry w c
    · obtain ⟨henough, hout⟩ := Classical.not_imp.mp (not_and.mp hbad hentry)
      refine .inr ?_
      rw [hrun]
      refine escapes_extended hw hfit hc hacc hlt (arrives_accepted hcount harr) he hn ha henough ?_ r
      by_contra hno
      exact hout fun loc hl => by_contra fun hl' => hno ⟨loc, hl, hl'⟩
    · refine .inl (hstops (.ite_neg (not_not.mpr hc) (.lift_bind
        (readCluster_accepted hw.geometry hw.noFaults hacc) (.get_bind ?_))))
      rw [reserveAt] at he
      rw [he]
      exact .ite_neg (Bool.eq_false_iff.mp hn)
        (allocateCluster_stops hw.geometry hw.mallocs ha hc hentry).bind

end

end ContinuumOS.Fat32.Reserving
