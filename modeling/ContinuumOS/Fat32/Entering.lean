import ContinuumOS.Fat32.Reserving

/-! # Where entering a name writes

`fat32_create` and `fat32_mkdir_path` reserve slots in the directory of the path and
write them, cluster by cluster. A new directory has its first cluster before the
slots are reserved, and gives it back if there are none. -/
namespace ContinuumOS.Fat32.Entering
open Function
open ContinuumOS.Lib.Effect ContinuumOS.Lib.Guards
open ContinuumOS.Libc.String
open ContinuumOS.Fat32.Volume ContinuumOS.Fat32.Device ContinuumOS.Fat32.Allocation
open ContinuumOS.Fat32.Names ContinuumOS.Fat32.Directory ContinuumOS.Fat32.Search
open ContinuumOS.Fat32.Paths ContinuumOS.Fat32.LongName ContinuumOS.Fat32.Insertion
open ContinuumOS.Fat32.Checks ContinuumOS.Fat32.Answers ContinuumOS.Fat32.Confinement
open ContinuumOS.Fat32.Dropping ContinuumOS.Fat32.Appending ContinuumOS.Fat32.Reserving

/-- The volume when the next `kmalloc` fails, and no other request does. -/
def unlucky (w : World) : World :=
  answering w (fun | 0 => false | _ + 1 => true) fun _ => none

section

variable {w u v : World} {c a s count : Nat} {buf : Buf} {name path : CStr} {run : List Location}

/-! ## Writing slots -/

theorem keeps_grown {α : Type} {m : Fat α} (h : Keeps volume m) :
    Triple (Grown w) m fun _ => Grown w :=
  fun s hs a t hr => hs.trans (.of_volume (h s a t hr))

theorem writeCluster_grown (h : Lands w c) (buf : Buf) :
    Safe (Grown w) (fat32WriteClusterChecked c buf) fun _ => Grown w :=
  ((writeCluster_safe (fun _ ht => (sameGeometry_lands ht.same).mpr h) buf).and_triple
    (writeCluster_follows c buf) (keeps_grown (writeCluster_keeps c buf))).post fun _ _ h => h.2

theorem kmalloc_grown (n : Nat) : Safe (Grown w) (liftM (kmalloc n) : Checked Bool) fun _ => Grown w :=
  .lift (keeps_grown (keeps_volume_of_calm (kmalloc_keeps n)))

theorem readCluster_grown (c : Nat) :
    Safe (Grown w) (liftM (fat32ReadCluster c) : Checked (Option Buf)) fun _ => Grown w :=
  .lift (keeps_grown (keeps_volume_of_calm (readCluster_keeps c)))

theorem writeEntriesLoop_safe : ∀ (zs : List (Location × Buf)) (current : Nat) (buf : Buf)
    (dirty : Bool), (∀ z ∈ zs, Lands w z.1.cluster) → (dirty = true → Lands w current) →
    Safe (Grown w) (writeEntriesLoopChecked zs current buf dirty) fun _ => Grown w
  | [], current, buf, dirty, _, hc =>
    .ite (fun hd => writeCluster_grown (hc hd) buf) fun _ => .pure fun _ ht => ht
  | (loc, e) :: rest, current, buf, dirty, hzs, hc => by
    have hloc : Lands w loc.cluster := hzs _ (.head _)
    have hrest : ∀ z ∈ rest, Lands w z.1.cluster := fun z hz => hzs z (.tail _ hz)
    have hnext : ∀ buf, Safe (Grown w)
        (writeEntriesLoopChecked rest loc.cluster (putSlot buf loc.index e) true) fun _ => Grown w :=
      fun buf => writeEntriesLoop_safe rest _ _ _ hrest fun _ => hloc
    refine .ite (fun _ => .ite (fun hd => ?_) fun _ => ?_) fun hcur => ?_
    · exact .bind (writeCluster_grown (hc hd) buf) fun _ => .ite (fun _ => .pure fun _ ht => ht)
        fun _ => .bind_option (readCluster_grown _) (.pure fun _ ht => ht) hnext
    · exact .bind (Q := fun _ => Grown w) (.pure fun _ ht => ht) fun _ =>
        .ite (fun _ => .pure fun _ ht => ht)
          fun _ => .bind_option (readCluster_grown _) (.pure fun _ ht => ht) hnext
    · exact writeEntriesLoop_safe rest _ _ _ hrest fun _ => not_not.mp hcur ▸ hloc

theorem writeEntriesLoop_stops : ∀ (zs : List (Location × Buf)) (current : Nat) (buf : Buf)
    (dirty : Bool) (w : World), Calm w → (∀ z ∈ zs, ¬ Refused w z.1.cluster) →
    (dirty = true → ¬ Refused w current) → (dirty = false → current = 0) →
    (dirty = true ∧ ¬ Lands w current ∨ ∃ z ∈ zs, ¬ Lands w z.1.cluster) →
    Stops (writeEntriesLoopChecked zs current buf dirty) w
  | [], current, buf, dirty, w, hw, _, _, _, hout => by
    obtain ⟨hd, hno⟩ := hout.resolve_right fun h => by
      obtain ⟨z, hz, -⟩ := h
      exact List.not_mem_nil hz
    exact .ite_pos hd (writeCluster_stops hw.geometry hno buf)
  | (loc, e) :: rest, current, buf, dirty, w, hw, hzs, hcur, hfirst, hout => by
    have hloc : ¬ Refused w loc.cluster := hzs _ (.head _)
    have hrest : ∀ z ∈ rest, ¬ Refused w z.1.cluster := fun z hz => hzs z (.tail _ hz)
    -- what is outside is in the buffer next or comes behind it
    have hnext : ¬ (dirty = true ∧ ¬ Lands w current) →
        ¬ Lands w loc.cluster ∨ ∃ z ∈ rest, ¬ Lands w z.1.cluster := by
      intro hno
      obtain ⟨z, hz, hzl⟩ := hout.resolve_left hno
      rcases List.mem_cons.mp hz with rfl | hz
      · exact .inl hzl
      · exact .inr ⟨z, hz, hzl⟩
    have hread : ∀ u, volume u = volume w → ¬ Refused u loc.cluster := fun u hvol h =>
      hloc ((SameGeometry.refused (sameGeometry_of_volume hvol)).mp h)
    have hgoes : ∀ u, volume u = volume w → Calm u → Lands w current ∨ dirty = false → ∀ buf,
        Stops (writeEntriesLoopChecked rest loc.cluster (putSlot buf loc.index e) true) u := by
      intro u hvol hu hland buf
      have hg := sameGeometry_of_volume hvol
      have hloc' := hread u hvol
      refine writeEntriesLoop_stops rest _ _ _ u hu
        (fun z hz h => hrest z hz ((SameGeometry.refused hg).mp h)) (fun _ => hloc')
        (fun h => by cases h) ?_
      refine (hnext fun h => ?_).imp (fun h => ⟨rfl, fun hl => h ((sameGeometry_lands hg).mp hl)⟩) ?_
      · rcases hland with hland | hd
        · exact h.2 hland
        · rw [hd] at h
          cases h.1
      · rintro ⟨z, hz, hzl⟩
        exact ⟨z, hz, fun hl => hzl ((sameGeometry_lands hg).mp hl)⟩
    by_cases hne : loc.cluster ≠ current
    · refine .ite_pos hne ?_
      cases dirty with
      | false =>
        refine .ite_neg Bool.false_ne_true (Stops.of_eq (a := true) (t := w) ?_ rfl)
        exact .ite_neg (not_not.mpr rfl) (.lift_bind
          (readCluster_accepted hw.geometry hw.noFaults hloc) (hgoes w rfl hw (.inr rfl) _))
      | true =>
        refine .ite_pos rfl ?_
        by_cases hland : Lands w current
        · obtain ⟨u, hrun, hvol, hu⟩ := writeCluster_accepted hw (hcur rfl) buf
          refine Stops.bind_run (a := true) ?_ (writeCluster_follows current buf) hrun
          exact .ite_neg (not_not.mpr rfl) (.lift_bind (readCluster_accepted hu.geometry hu.noFaults
            (hread u hvol)) (hgoes u hvol hu (.inl hland) _))
        · exact (writeCluster_stops hw.geometry hland buf).bind
    · have heq : loc.cluster = current := not_not.mp hne
      refine .ite_neg hne (writeEntriesLoop_stops rest _ _ _ w hw hrest (fun _ => heq ▸ hloc)
        (fun h => by cases h) ?_)
      by_cases hno : dirty = true ∧ ¬ Lands w current
      · exact .inl ⟨rfl, hno.2⟩
      · exact (hnext hno).imp_left fun h => ⟨rfl, heq ▸ h⟩

/-! ## Adding an entry -/

theorem count_le (hname : name.length ≤ 255) (needsLfn : Bool) :
    (if needsLfn then lfnEntries name else 0) + 1 ≤ 21 := by
  have := lfnEntries_le hname
  split <;> omega

theorem reserveEntries_safe (hw : Calm w) (hle : count ≤ 21) (h : Reservable w s count) :
    Safe (fun t => calm t = calm w) (fat32DirectoryReserveEntriesChecked s count) (Landed w) := by
  refine .ite (fun _ => .pure fun t ht => ⟨grown_of_calm ht, fun l hl loc hloc => ?_⟩) fun hcount => ?_
  · obtain rfl := Option.some.inj hl
    exact absurd hloc List.not_mem_nil
  have hfit : count ≤ 2 * entriesPerCluster w := by
    have := entriesPerCluster_ge hw.geometry
    omega
  have hkmalloc : ∀ n, Safe (fun t => calm t = calm w) (liftM (kmalloc n) : Checked Bool)
      fun _ t => calm t = calm w := fun n =>
    .lift fun t ht a u hr => (kmalloc_keeps n t a u hr).trans ht
  refine .get_bind fun t ht => .bind ((hkmalloc _).pre fun u hu => hu ▸ ht) fun _ =>
    .ite (fun _ => .bind (hkmalloc _) fun _ => .ite (fun _ => ?_) fun _ =>
      landed_none fun _ => grown_of_calm) fun _ => landed_none fun _ => grown_of_calm
  exact reserveLoop_safe hw (Nat.pos_of_ne_zero hcount) hfit h walkLimit s [] .start

theorem addEntry_safe (hw : Calm w) (h : Enterable w s name) (attributes : UInt8) (c : Nat) :
    Safe (fun t => calm t = calm w) (addEntryChecked s name attributes c) fun _ => Grown w := by
  have hno : ∀ {P : World → Prop}, (∀ t, P t → Grown w t) →
      Safe P (pure false : Checked Bool) fun _ => Grown w := fun hP => .pure hP
  refine .ite (fun _ => hno fun _ => grown_of_calm) fun hname => ?_
  refine .bind (.lift (triple_calm (prepareShortName_falters s name) (prepareShortName_keeps s name)))
    fun r => ?_
  cases r with
  | none => exact hno fun t ht => grown_of_calm ht.1
  | some r =>
    refine .intro fun t ht => ?_
    obtain ⟨short, needsLfn⟩ := r
    have hres := h (Nat.not_lt.mp hname) short needsLfn (ht.2 (Option.some_ne_none _))
    refine .bind (Q := fun _ u => calm u = calm w) (.lift fun u hu a v hr =>
      (kmalloc_keeps _ u a v hr).trans (hu ▸ ht.1)) fun _ => .ite (fun _ => ?_)
        fun _ => hno fun _ => grown_of_calm
    refine .bind (reserveEntries_safe hw (count_le (Nat.not_lt.mp hname) needsLfn) hres) fun r => ?_
    cases r with
    | none => exact hno fun u hu => hu.1
    | some locations =>
      refine .intro fun u hu => ?_
      have hland := hu.2 locations rfl
      refine .bind ((kmalloc_grown _).pre fun v hv => hv ▸ hu.1) fun _ =>
        .ite (fun _ => ?_) fun _ => hno fun _ h => h
      refine .ite (fun _ => .pure fun _ h => h) fun _ => .get_bind fun v hv =>
        .bind ((kmalloc_grown _).pre fun x hx => hx ▸ hv) fun _ => .ite (fun _ => ?_)
          fun _ => hno fun _ h => h
      exact writeEntriesLoop_safe _ _ _ _ (fun z hz => hland _ (List.of_mem_zip hz).1)
        fun hd => by cases hd

theorem addEntry_stops (hw : Calm w) (h : ¬ Enterable w s name) (attributes : UInt8) (c : Nat) :
    Stops (addEntryChecked s name attributes c) w := by
  obtain ⟨hname, h⟩ := Classical.not_imp.mp h
  obtain ⟨short, h⟩ := not_forall.mp h
  obtain ⟨needsLfn, h⟩ := not_forall.mp h
  obtain ⟨hprep, hres⟩ := Classical.not_imp.mp h
  rw [calm_eq hw] at hprep
  have hsize := hw.geometry.clusterSize_pos
  have hkmalloc : ∀ n, 0 < n → kmalloc n w = some (true, w) := fun n hn => hw.mallocs.kmalloc hn
  refine .ite_neg (Nat.not_lt.mpr hname) (.lift_bind hprep ?_)
  refine .lift_bind (hkmalloc _ (by omega)) (.ite_pos rfl ?_)
  generalize hcount : (if needsLfn then lfnEntries name else 0) + 1 = count at hres
  have hpos : 0 < count := by omega
  have hle : count ≤ 21 := hcount ▸ count_le hname needsLfn
  have hrun : fat32DirectoryReserveEntries s count w = reserveLoop count walkLimit s [] w := by
    rw [fat32DirectoryReserveEntries]
    simp only [ite_run, Nat.ne_of_gt hpos, if_false, bind_run, get_run, Option.bind_some,
      hkmalloc _ hsize, hkmalloc (8 * count) (by omega), if_true]
  rcases reserveLoop_escapes hw hpos hle hres with hstop | ⟨locations, v, hv, hvc, hg, hlen, hacc, hout⟩
  · refine Stops.bind (.ite_neg (Nat.ne_of_gt hpos) (.get_bind ?_))
    exact .lift_bind (hkmalloc _ hsize) (.ite_pos rfl (.lift_bind (hkmalloc _ (by omega))
      (.ite_pos rfl hstop)))
  · refine Stops.bind_run ?_ (reserveEntries_follows s count) (hrun.trans hv)
    have hslots : 0 < slotSize := Nat.succ_pos 31
    refine .lift_bind (hvc.mallocs.kmalloc (Nat.mul_pos hpos hslots)) (.ite_pos rfl ?_)
    refine .ite_neg (by omega) (.get_bind (.lift_bind
      (hvc.mallocs.kmalloc hvc.geometry.clusterSize_pos) (.ite_pos rfl ?_)))
    have hentries : locations.length =
        (entryBytes name short needsLfn attributes c).length := by
      rw [hlen, length_entryBytes, hcount]
    refine writeEntriesLoop_stops _ _ _ _ v hvc (fun z hz h => ?_) (fun hd => by cases hd)
      (fun _ => rfl) (.inr ?_)
    · exact hacc _ (List.of_mem_zip hz).1 ((SameGeometry.refused hg).mp h)
    · obtain ⟨loc, hl, hno⟩ := hout
      obtain ⟨i, hi, rfl⟩ := List.getElem_of_mem hl
      have hz : i < (locations.zip (entryBytes name short needsLfn attributes c)).length := by
        rw [List.length_zip]
        omega
      have hmem := List.getElem_mem hz
      rw [List.getElem_zip] at hmem
      exact ⟨_, hmem, fun h => hno ((sameGeometry_lands hg).mp h)⟩

/-! ## What the answers to come do not change -/

theorem arrives_calm (h : Arrives (calm w) count s c run) : Arrives w count s c run := by
  induction h with
  | start chained => exact .start chained
  | next _ accepted more chained ih => exact .next ih accepted more chained

theorem calm_arrives (h : Arrives w count s c run) : Arrives (calm w) count s c run := by
  induction h with
  | start chained => exact .start chained
  | next _ accepted more chained ih => exact .next ih accepted more chained

theorem reservable_calm : Reservable (calm w) s count ↔ Reservable w s count :=
  ⟨fun h => ⟨fun c run l ha => h.found c run l (calm_arrives ha),
    fun c run run' ha => h.extended c run run' (calm_arrives ha)⟩,
  fun h => ⟨fun c run l ha => h.found c run l (arrives_calm ha),
    fun c run run' ha => h.extended c run run' (arrives_calm ha)⟩⟩

theorem enterable_calm : Enterable (calm w) s name ↔ Enterable w s name :=
  forall_congr' fun _ => forall_congr' fun _ => forall_congr' fun _ =>
    forall_congr' fun _ => reservable_calm

theorem calm_calm (g : Geometry w) (hf : Flushable w) : Calm (calm w) :=
  ⟨⟨sameGeometry_calm.geometry g, noFaults_calm, hf⟩, mallocs_calm⟩

/-! ## The directory of a new path -/

theorem findParent_parent (path : CStr) : Triple (fun t => calm t = calm w) (findParent path)
    fun r t => calm t = calm w ∧ ∀ s name, r = some (s, name) → Parent w path s name := by
  have hnone : ∀ {P : World → Prop}, (∀ t, P t → calm t = calm w) →
      Triple P (pure none : Fat (Option (Nat × CStr))) fun r t => calm t = calm w ∧
        ∀ s name, r = some (s, name) → Parent w path s name :=
    fun hP => .pure fun t ht => ⟨hP t ht, fun s name hr => by cases hr⟩
  rw [findParent]
  refine .bind (triple_calm (lookupPath_falters path) (lookupPath_keeps path)) fun r =>
    .ite (fun _ => hnone fun t ht => ht.1) fun _ => ?_
  cases hsplit : fat32SplitPath path with
  | none => exact hnone fun t ht => ht.1
  | some r =>
    obtain ⟨parent, name⟩ := r
    refine .ite (fun _ => hnone fun t ht => ht.1) fun hname => ?_
    refine .bind ((triple_calm (lookupPath_falters _) (lookupPath_keeps _)).pre fun t ht => ht.1)
      fun r => ?_
    cases r with
    | none => exact hnone fun t ht => ht.1
    | some dir =>
      refine .ite (fun hdir => .pure fun t ht => ⟨ht.1, fun s n hr => ?_⟩) fun _ =>
        hnone fun t ht => ht.1
      obtain ⟨rfl, rfl⟩ := Prod.mk.inj (Option.some.inj hr)
      exact ⟨parent, dir, hsplit, fun he => hname (by rw [he]; rfl),
        ht.2 (Option.some_ne_none _), hdir, rfl⟩

theorem findEntry_unlucky (g : Geometry w) (s : Nat) (hname : name ≠ []) :
    fat32FindEntryInDirectory s name (unlucky w) = some (none, calm w) := by
  have hm : (unlucky w).mounted = true := g.mounted
  have hk : kmalloc (clusterSize (unlucky w)) (unlucky w) = some (false, calm w) := by
    have hsize : clusterSize (unlucky w) ≠ 0 := Nat.pos_iff_ne_zero.mp g.clusterSize_pos
    rw [kmalloc, if_neg hsize]
    rfl
  have hneg : (-1 : Int) < 0 := by decide
  simp only [fat32FindEntryInDirectory, fat32IterateDirectory, bind_run, get_run, Option.bind_some,
    hm, hname, not_true_eq_false, or_self, ite_run, if_false, hk, Bool.false_eq_true, pure_run, hneg,
    if_true]

theorem lookupLoop_unlucky (g : Geometry w) : ∀ (rounds : Nat) (cursor : CStr) (s : Nat),
    lookupLoop rounds cursor s none (unlucky w) = some (none, calm w) ∨
      lookupLoop rounds cursor s none (calm w) = some (none, calm w)
  | 0, _, _ => .inr rfl
  | rounds + 1, cursor, s => by
    rw [lookupLoop]
    dsimp only
    generalize cursor.dropWhile (· == slash) = cursor
    by_cases hc : cursor = []
    · refine .inr ?_
      rw [if_pos hc]
      rfl
    rw [if_neg hc]
    by_cases hlen : (cursor.takeWhile (· ≠ slash)).length > 255
    · refine .inr ?_
      rw [if_pos hlen]
      rfl
    rw [if_neg hlen]
    by_cases hdot : cursor.takeWhile (· ≠ slash) = [dot]
    · rw [if_pos hdot]
      exact lookupLoop_unlucky g rounds _ s
    rw [if_neg hdot]
    by_cases hdots : cursor.takeWhile (· ≠ slash) = [dot, dot]
    · refine .inr ?_
      rw [if_pos hdots]
      rfl
    rw [if_neg hdots]
    by_cases hname : cursor.takeWhile (· ≠ slash) = []
    · refine .inr ?_
      have hnone : fat32FindEntryInDirectory s [] (calm w) = some (none, calm w) := by
        simp only [fat32FindEntryInDirectory, bind_run, get_run, Option.bind_some, ite_run, or_true,
          if_true, pure_run]
      rw [hname, bind_run, hnone]
      rfl
    · refine .inl ?_
      rw [bind_run, findEntry_unlucky g s hname]
      rfl

theorem parent_found (g : Geometry w) {s : Nat} (hpath : path.head? = some slash)
    (h : Parent w path s name) : ∃ mallocs faults,
      findParent path (answering w mallocs faults) = some (some (s, name), calm w) := by
  obtain ⟨parent, dir, hsplit, hname, hdir, hisdir, rfl⟩ := h
  have hne : path ≠ [] := fun he => by
    rw [he] at hpath
    cases hpath
  have hroot : path ≠ [slash] := fun he => by
    have hnone : fat32SplitPath [slash] = none := by decide
    rw [he, hnone] at hsplit
    cases hsplit
  have hrest : ∀ v, fat32LookupPath path v = some (none, calm w) →
      findParent path v = some (some (dir.info.cluster, name), calm w) := by
    intro v hv
    have hlen : ¬ name.length = 0 := fun hl => hname (List.length_eq_zero_iff.mp hl)
    rw [findParent]
    simp only [bind_run, hv, Option.bind_some, Option.isSome_none, Bool.false_eq_true, ite_run,
      if_false, hsplit, hlen, hdir, hisdir, if_true, pure_run]
  have hloop : ∀ v : World, v.mounted = true → fat32LookupPath path v =
      lookupLoop ((path.take maxPath).length + 1) (path.take maxPath) v.fs.rootCluster none v := by
    intro v hv
    rw [fat32LookupPath]
    simp only [bind_run, get_run, Option.bind_some, hv, not_true_eq_false, hne, hroot, or_self,
      ite_run, if_false]
  rcases lookupLoop_unlucky g ((path.take maxPath).length + 1) (path.take maxPath)
    w.fs.rootCluster with hu | hc
  · exact ⟨_, _, hrest (unlucky w) ((hloop (unlucky w) g.mounted).trans hu)⟩
  · exact ⟨_, _, hrest (calm w) ((hloop (calm w) g.mounted).trans hc)⟩

/-! ## `fat32_create` and `fat32_mkdir_path` -/

theorem create_safe (g : Geometry w) (hf : Flushable w) (h : Sane w (.create path)) :
    Safe (fun t => calm t = calm w) (fat32CreateChecked path) fun _ _ => True := by
  refine .get_bind fun u hu => .ite (fun _ => .pure fun _ _ => trivial) fun _ =>
    .ite (fun _ => .pure fun _ _ => trivial) fun hslash => ?_
  refine .bind (.lift ((findParent_parent path).pre fun t ht => ht ▸ hu)) fun r => ?_
  cases r with
  | none => exact .pure fun _ _ => trivial
  | some r =>
    obtain ⟨s, name⟩ := r
    refine .intro fun t ht => ?_
    have hent := h (not_not.mp hslash) s name (ht.2 s name rfl)
    exact ((addEntry_safe (calm_calm g hf) (enterable_calm.mpr hent) attrArchive 0).conseq
      (fun v hv => hv ▸ ht.1) fun _ _ _ => trivial)

theorem create_confined_iff (g : Geometry w) (hf : Flushable w) :
    Confined w (.create path) ↔ Sane w (.create path) := by
  refine ⟨fun h hslash s name hp => ?_, fun h mallocs faults => (create_safe g hf h).not_stops rfl⟩
  by_contra hno
  obtain ⟨mallocs, faults, hrun⟩ := parent_found g hslash hp
  refine h mallocs faults (.get_bind (.ite_neg ?_ (.ite_neg (not_not.mpr hslash)
    (.lift_bind hrun (addEntry_stops (calm_calm g hf) (fun he => hno (enterable_calm.mp he)) _ _)))))
  refine not_or.mpr ⟨not_not.mpr g.mounted, fun he => ?_⟩
  rw [he] at hslash
  cases hslash

theorem started_calm (w : World) (c s : Nat) : started (calm w) c s = calm (started w c s) := by
  rw [started, allocated, linkNew_calm]
  rfl

theorem calm_started (hw : Calm w) (c s : Nat) : Calm (started w c s) :=
  hw.of_same (sameGeometry_allocated.trans sameGeometry_putCluster) allocated_same.2.2
    allocated_same.2.1

theorem initDirectory_calm (hw : Calm w) (hfree : findFree w = some c) (s : Nat) :
    fat32InitDirectory c s (allocated w 0 c) = some (true, started w c s) := by
  have hv := (allocateCluster_calm hw hfree 0).2
  have hin : InRange (allocated w 0 c) c := sameGeometry_allocated.inRange.mpr (findFree_some hfree).1
  simp only [fat32InitDirectory, bind_run, get_run, Option.bind_some,
    hv.mallocs.kmalloc hv.geometry.clusterSize_pos, ite_run, if_true,
    writeCluster_eq hv.geometry hv.noFaults hin]
  rfl

theorem freeable_started (g : Geometry w) (hfree : findFree w = some c) (s : Nat) :
    Freeable (started w c s) c := by
  have hin := (findFree_some hfree).1
  have hg : SameGeometry w (started w c s) := sameGeometry_allocated.trans sameGeometry_putCluster
  have h0 : 0 ≠ c := by
    have := hin.1
    omega
  have hend : nextOf (started w c s) c = endCluster :=
    (allocated_next (w := w) (hin.lt g) h0).trans (if_pos rfl)
  rintro d ⟨n, rfl, hgo⟩
  cases n with
  | zero => exact (sameGeometry_hasEntry hg).mpr (hasEntry_inRange g hin)
  | succ n =>
    have h1 := hgo 1 (by omega)
    rw [iterate_one, hend] at h1
    cases h1

theorem initDirectory_safe (hw : Calm w) (hfree : findFree w = some c) (s : Nat) :
    Safe (fun t => calm t = calm (allocated w 0 c)) (fat32InitDirectoryChecked c s)
      fun b t => Grown (started w c s) t ∧ (b = true → calm t = calm (started w c s)) := by
  have hin := (findFree_some hfree).1
  have hg : SameGeometry w (allocated w 0 c) := sameGeometry_allocated
  have hvol : volume (started w c s) = volume (allocated w 0 c) := rfl
  have hgrown : ∀ t, calm t = calm (allocated w 0 c) → Grown (started w c s) t := fun t ht =>
    .of_volume ((volume_of_calm ht).trans hvol.symm)
  have hland : Lands (started w c s) c :=
    (sameGeometry_lands (hg.trans (sameGeometry_of_volume hvol))).mpr (lands_inRange hw.geometry hin)
  have hsafe : Safe (fun t => calm t = calm (allocated w 0 c)) (fat32InitDirectoryChecked c s)
      fun _ => Grown (started w c s) :=
    .get_bind fun t ht => .bind ((kmalloc_grown _).pre fun u hu => hu ▸ hgrown t ht) fun _ =>
      .ite (fun _ => writeCluster_grown hland _) fun _ => .pure fun _ h => h
  refine hsafe.and_triple (initDirectory_follows c s) fun t ht b u hr hb => ?_
  have hrun := (initDirectory_falters c s t b u hr).resolve_left fun hno => by
    rw [hb] at hno
    cases hno
  rw [ht, calm_eq (allocateCluster_calm hw hfree 0).2, initDirectory_calm hw hfree] at hrun
  obtain ⟨-, hu⟩ := Prod.mk.inj (Option.some.inj hrun)
  rw [hu]
  rfl

theorem mkdir_safe (g : Geometry w) (hf : Flushable w) (h : Sane w (.mkdir path)) :
    Safe (fun t => calm t = calm w) (fat32MkdirPathChecked path) fun _ _ => True := by
  have hw := calm_calm g hf
  have htrue : ∀ {P : World → Prop} {b : Bool}, Safe P (pure b : Checked Bool) fun _ _ => True :=
    .pure fun _ _ => trivial
  refine .get_bind fun u hu => .ite (fun _ => htrue) fun _ => .ite (fun _ => htrue) fun hslash =>
    .ite (fun _ => htrue) fun _ => ?_
  refine .bind (.lift ((findParent_parent path).pre fun t ht => ht ▸ hu)) fun r => ?_
  cases r with
  | none => exact htrue
  | some r =>
    obtain ⟨s, name⟩ := r
    refine .intro fun t ht => ?_
    have hent := h (not_not.mp hslash) s name (ht.2 s name rfl)
    refine .bind ((allocateCluster_extends hw (p := 0) fun _ h0 => by cases h0).pre
      fun v hv => hv ▸ ht.1) fun c => .intro fun v hv => .ite (fun _ => htrue) fun hc => ?_
    obtain ⟨hfree, hcalm⟩ := hv.2 hc
    have hchain : Freeable (started (calm w) c s) c := freeable_started hw.geometry hfree s
    -- whatever fails, the cluster can be freed
    have hundo : Safe (Grown (started (calm w) c s)) (do
        fat32FreeClusterChainChecked c
        return false : Checked Bool) fun _ _ => True :=
      .intro fun x hx => .bind (freeClusterChain_safe
        (hx.same.geometry (calm_started hw c s).geometry) (hx.freeable c hchain)) fun _ => htrue
    have henter : Enterable (started (calm w) c s) s name := by
      rw [started_calm]
      exact enterable_calm.mpr (hent c hfree)
    refine .bind ((initDirectory_safe hw hfree s).pre fun x hx => hx ▸ hcalm) fun b =>
      .intro fun x hx => .ite (fun hb => ?_) fun _ => hundo.pre fun y hy => hy ▸ hx.1
    exact .bind ((addEntry_safe (calm_started hw c s) henter _ _).pre fun y hy => hy ▸ hx.2 hb)
      fun b => .ite (fun _ => htrue) fun _ => hundo

theorem mkdir_confined_iff (g : Geometry w) (hf : Flushable w) :
    Confined w (.mkdir path) ↔ Sane w (.mkdir path) := by
  have hw := calm_calm g hf
  refine ⟨fun h hslash s name hp c hfree => ?_,
    fun h mallocs faults => (mkdir_safe g hf h).not_stops rfl⟩
  by_contra hno
  obtain ⟨mallocs, faults, hrun⟩ := parent_found g hslash hp
  have hc : c ≠ 0 := by
    have := (findFree_some hfree).1.1
    omega
  have hroot : path ≠ [slash] := fun he => by
    obtain ⟨parent, dir, hsplit, -⟩ := hp
    have hnone : fat32SplitPath [slash] = none := by decide
    rw [he, hnone] at hsplit
    cases hsplit
  have hstop : Stops (addEntryChecked s name attrDirectory c) (started (calm w) c s) := by
    refine addEntry_stops (calm_started hw c s) (fun he => hno ?_) _ _
    rw [started_calm] at he
    exact enterable_calm.mp he
  refine h mallocs faults (.get_bind (.ite_neg ?_ (.ite_neg (not_not.mpr hslash) (.ite_neg hroot
    (.lift_bind hrun ?_)))))
  · refine not_or.mpr ⟨not_not.mpr g.mounted, fun he => ?_⟩
    rw [he] at hslash
    cases hslash
  · refine Stops.bind_run (.ite_neg hc ?_) (allocateCluster_follows 0)
      (allocateCluster_calm hw hfree 0).1
    exact Stops.bind_run (.ite_pos rfl hstop.bind) (initDirectory_follows c s)
      (initDirectory_calm hw hfree s)

end

end ContinuumOS.Fat32.Entering
