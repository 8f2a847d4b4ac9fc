import ContinuumOS.Fat32.Confinement

/-! # Where removing an entry writes

`fat32_remove` and `fat32_rmdir_path` free the clusters that the entry leads to
and mark its slots. The search for the slots of a long name goes back through
clusters with a successor, which `fat32_get_next_cluster` only knows inside the
volume. -/
namespace ContinuumOS.Fat32.Dropping
open ContinuumOS.Lib.Effect ContinuumOS.Lib.Guards
open ContinuumOS.Libc.String
open ContinuumOS.Fat32.Volume ContinuumOS.Fat32.Device ContinuumOS.Fat32.Allocation
open ContinuumOS.Fat32.Directory ContinuumOS.Fat32.Search
open ContinuumOS.Fat32.Paths ContinuumOS.Fat32.Checks ContinuumOS.Fat32.Answers
open ContinuumOS.Fat32.Freeing ContinuumOS.Fat32.Confinement

section

variable {w v : World} {c : Nat} {x : Lookup} {path : CStr}

/-! ## Reading -/

theorem fs_of_calm (h : calm v = calm w) : v.fs = w.fs := by
  have hfs : (calm v).fs = (calm w).fs := by rw [h]
  exact hfs

theorem readCluster_accepted (g : Geometry w) (nf : NoFaults w) (hc : ¬ Refused w c) :
    fat32ReadCluster c w = some (some (bufAt w c), w) := by
  obtain ⟨hs, hok⟩ := not_or.mp hc
  have hok : transferOk w w.fs.deviceId (fat32ClusterToSector w c) w.fs.sectorsPerCluster = true := by
    simpa using hok
  simp only [fat32ReadCluster, bind_run, get_run, Option.bind_some, g.mounted, ite_run, hs,
    blockdevRead, hok, nf 0, if_true, if_false, not_true_eq_false, nf.tick]
  rfl

theorem readCluster_reads (c : Nat) : Triple (fun t => calm t = calm w) (fat32ReadCluster c)
    fun r t => (∀ buf, r = some buf → ¬ Refused w c ∧ buf = bufAt w c) ∧ calm t = calm w := by
  intro t ht r u hr
  have hu := (readCluster_keeps c t r u hr).trans ht
  refine ⟨fun buf hb => ?_, hu⟩
  have hcalm := (readCluster_falters c t r u hr).resolve_left (by rw [hb]; exact Option.some_ne_none _)
  rw [ht, hb] at hcalm
  have hacc : ¬ Refused w c := by
    intro hno
    rw [readCluster_refused (w := calm w) ((SameGeometry.refused sameGeometry_calm).mpr hno)] at hcalm
    cases hcalm
  refine ⟨hacc, ?_⟩
  obtain ⟨hs, hok⟩ := not_or.mp hacc
  simp only [fat32ReadCluster, bind_run, get_run, Option.bind_some, ite_run, blockdevRead] at hcalm
  split at hcalm
  · cases hcalm
  · split at hcalm
    · cases hcalm
    · split at hcalm
      · obtain ⟨hbuf, -⟩ := Prod.mk.inj (Option.some.inj hcalm)
        exact (Option.some.inj hbuf).symm
      · cases hcalm

/-! ## Marking -/

theorem findPreviousLoop_inRange (hc : isChained c = true) : ∀ (rounds current : Nat) {p : Nat},
    findPreviousLoop w c rounds current = some p → p < 2 ∨ InRange w p
  | 0, current, p, h => by
    rw [findPreviousLoop] at h
    split at h
    · cases h
    · rw [← Option.some.inj h]
      exact .inl (by omega)
  | rounds + 1, current, p, h => by
    rw [findPreviousLoop] at h
    split at h
    · rename_i hcur
      dsimp only at h
      split at h
      · rename_i hnext
        obtain rfl := Option.some.inj h
        refine .inr ⟨(isChained_iff.mp hcur).1, ?_⟩
        by_contra hge
        -- behind the volume there is no successor
        rw [← hnext, fat32GetNextCluster, if_pos (Nat.not_lt.mp hge), ite_self,
          not_isChained_endCluster] at hc
        cases hc
      · split at h
        · exact findPreviousLoop_inRange hc rounds _ h
        · rw [← Option.some.inj h]
          exact .inl (by omega)
    · rw [← Option.some.inj h]
      exact .inl (by omega)

theorem eraseLfnLoop_safe (g : Geometry w) (s : Nat) : ∀ (rounds c left : Nat) (buf : Buf),
    isChained c = true → Lands w c →
    Safe (SameGeometry w) (eraseLfnLoopChecked s rounds c left buf) fun _ _ => True
  | 0, _, _, _, _, _ => .diverge
  | rounds + 1, c, left, buf, hc, hl => by
    have hwrite : ∀ buf, Safe (SameGeometry w) (fat32WriteClusterChecked c buf)
        fun _ => SameGeometry w := fun buf =>
      ((writeCluster_safe (fun t ht => (sameGeometry_lands ht).mpr hl) buf).and_triple
        (writeCluster_follows c buf) (keeps_frame (keeps_frame_of_volume (writeCluster_keeps c buf)))).post
        fun _ _ h => h.2
    rw [eraseLfnLoopChecked]
    dsimp only
    refine .ite (fun _ => .bind (hwrite _) fun b => ?_) fun _ =>
      .bind (Q := fun _ => SameGeometry w) (.pure fun _ h => h) fun b => ?_
    all_goals
      refine .ite (fun _ => .pure fun _ _ => trivial) fun _ =>
        .ite (fun _ => .pure fun _ _ => trivial) fun _ => .get_bind fun u hu => ?_
      cases hp : fat32DirectoryFindPreviousCluster u s c with
      | none => exact .diverge
      | some p =>
        refine .ite (fun _ => .pure fun _ _ => trivial) fun hlt => ?_
        have hin : InRange u p := by
          rw [fat32DirectoryFindPreviousCluster] at hp
          split at hp
          · rw [← Option.some.inj hp] at hlt
            exact absurd (Nat.zero_lt_succ 1) hlt
          · exact (findPreviousLoop_inRange hc _ _ hp).resolve_left hlt
        have hinw : InRange w p := hu.inRange.mp hin
        refine .bind (Q := fun _ => SameGeometry w) (.lift ((keeps_frame (keeps_frame_of_calm
          (readCluster_keeps p))).pre fun t ht => ht ▸ hu)) fun r => ?_
        cases r with
        | none => exact .pure fun _ _ => trivial
        | some buf =>
          exact eraseLfnLoop_safe g s rounds p _ buf (hinw.isChained g) (lands_inRange g hinw)

theorem markEntryDeleted_safe (g : Geometry w) (s i : Nat) (hc : isChained c = true)
    (hl : Lands w c) :
    Safe (SameGeometry w) (fat32MarkEntryDeletedChecked s c i) fun _ _ => True := by
  refine .get_bind fun u hu => .bind (Q := fun _ => SameGeometry w) (.lift ((keeps_frame
    (keeps_frame_of_calm (kmalloc_keeps _))).pre fun t ht => ht ▸ hu)) fun b =>
    .ite (fun _ => ?_) fun _ => .pure fun _ _ => trivial
  refine .bind (.lift (keeps_frame (keeps_frame_of_calm (readCluster_keeps c)))) fun r => ?_
  cases r with
  | none => exact .pure fun _ _ => trivial
  | some buf =>
    refine .bind ((writeCluster_safe (fun t ht => (sameGeometry_lands ht).mpr hl) _).and_triple
      (writeCluster_follows c _) (keeps_frame (keeps_frame_of_volume (writeCluster_keeps c _)))) fun b =>
      .ite (fun _ => ?_) fun _ => .pure fun _ _ => trivial
    exact (eraseLfnLoop_safe g s walkLimit c i _ hc hl).pre fun _ h => h.2

theorem markEntryDeleted_stops (g : Geometry w) (hm : Mallocs w) (nf : NoFaults w)
    (h : ¬ Lands w c) (s i : Nat) : Stops (fat32MarkEntryDeletedChecked s c i) w := by
  have hacc : ¬ Refused w c := fun hno => h (.inl hno)
  refine .get_bind (.lift_bind (hm.kmalloc g.clusterSize_pos) (.ite_pos rfl
    (.lift_bind (readCluster_accepted g nf hacc) ?_)))
  exact (writeCluster_stops g h _).bind

/-! ## Dropping an entry -/

theorem dropEntry_safe (g : Geometry w) (hc : isChained x.entryCluster = true)
    (hx : Droppable w x) :
    Safe (fun t => calm t = calm w) (dropEntryChecked x) fun _ _ => True := by
  have hmark := markEntryDeleted_safe g x.parentDir x.entryIndex hc hx.slot
  rw [dropEntryChecked]
  dsimp only
  refine .ite (fun _ => .intro fun t ht => ?_) fun _ =>
    hmark.pre fun t ht => sameGeometry_of_calm ht
  have hg := sameGeometry_of_calm ht
  have hfree : Freeable t x.info.cluster := by
    intro d hd
    have hnext : nextOf t = nextOf w := by
      funext a
      rw [nextOf, nextOf, fs_of_calm ht]
    rw [hnext] at hd
    exact (sameGeometry_hasEntry hg).mpr (hx.chain d hd)
  refine .bind (((freeClusterChain_safe (hg.geometry g) hfree).and_triple
    (freeClusterChain_follows _) ((keeps_frame (w := w) ?_).pre fun u hu => hu ▸ hg)))
    fun _ => hmark.pre fun _ h => h.2
  refine .ite (fun _ => .get_bind fun u => ?_) fun _ => .pure _
  cases freeLoop walkLimit x.info.cluster u.fs.fatTable with
  | none => exact .diverge
  | some t =>
    exact .bind (.modify fun _ => rfl) fun _ =>
      .bind (keeps_frame_of_volume flushFat_keeps) fun _ => .pure _

theorem freeClusterChain_calm (g : Geometry w) (hf : Flushable w) (hm : Mallocs w) (nf : NoFaults w)
    (s : Nat) : ∃ w', fat32FreeClusterChain s w = some ((), w') ∧ SameGeometry w w' ∧ Mallocs w' ∧
      NoFaults w' := by
  by_cases hs : isChained s = true
  · obtain ⟨t, ht⟩ := Option.isSome_iff_exists.mp (freeLoop_ends s w.fs.fatTable)
    refine ⟨flushed (w.setTable t), ?_, sameGeometry_setTable.trans sameGeometry_flushed, hm, nf⟩
    have g' : Geometry (w.setTable t) := sameGeometry_setTable.geometry g
    simp only [fat32FreeClusterChain, ite_run, hs, if_true, bind_run, get_run, Option.bind_some, ht,
      modify_run, flushFat_eq g' nf hf, pure_run]
  · refine ⟨w, ?_, .refl w, hm, nf⟩
    rw [fat32FreeClusterChain, if_neg hs]
    rfl

theorem dropEntry_stops (g : Geometry w) (hf : Flushable w) (hm : Mallocs w) (nf : NoFaults w)
    (h : ¬ Droppable w x) : Stops (dropEntryChecked x) w := by
  rw [dropEntryChecked]
  dsimp only
  by_cases hchain : Freeable w x.info.cluster
  · have hslot : ¬ Lands w x.entryCluster := fun hl => h ⟨hchain, hl⟩
    split
    · obtain ⟨w', hrun, hg, hm', nf'⟩ := freeClusterChain_calm g hf hm nf x.info.cluster
      refine Stops.bind_run ?_ (freeClusterChain_follows _) hrun
      exact markEntryDeleted_stops (hg.geometry g) hm' nf' (fun hl => hslot
        ((sameGeometry_lands hg).mp hl)) _ _
    · exact markEntryDeleted_stops g hm nf hslot _ _
  · have h2 : x.info.cluster ≥ 2 := by
      by_contra hlt
      refine hchain fun c hc => ?_
      obtain ⟨n, -, hgo⟩ := hc
      exact absurd (isChained_iff.mp (hgo 0 (Nat.zero_le _))).1 hlt
    rw [if_pos h2]
    exact (freeClusterChain_stops hchain).bind

/-! ## `fat32_remove` and `fat32_rmdir_path` -/

/-- A lookup gives the root or an entry in a cluster of a directory, and it gives it
when heap and device answer. -/
theorem lookupPath_calm (path : CStr) : Triple (fun t => calm t = calm w) (fat32LookupPath path)
    fun r t => calm t = calm w ∧ ∀ x, r = some x →
      fat32LookupPath path (calm w) = some (some x, calm w) ∧
        ((path = [] ∨ path = [slash]) ∨ isChained x.entryCluster = true) := by
  have hscan : Triple (fun _ => True) (fat32LookupPath path) fun r _ => ∀ x, r = some x →
      (path = [] ∨ path = [slash]) ∨ isChained x.entryCluster = true := by
    have hnone : ∀ x : Lookup, none = some x →
        (path = [] ∨ path = [slash]) ∨ isChained x.entryCluster = true := fun x hx => by cases hx
    rw [fat32LookupPath]
    refine .get_bind fun u _ => .ite (fun _ => .pure fun _ _ => hnone) fun _ =>
      .ite (fun hp => .pure fun _ _ x _ => .inl hp) fun _ => ?_
    have hloop := lookupLoop_holds (Q := Scanned) findEntry_scanned ((path.take maxPath).length + 1)
      (path.take maxPath) u.fs.rootCluster none fun x hx => by cases hx
    exact hloop.conseq (fun _ _ => trivial) fun r _ h x hx => .inr (h x hx).1
  refine ((triple_calm (lookupPath_falters path) (lookupPath_keeps path)).and hscan).conseq
    (fun t ht => ⟨ht, trivial⟩) fun r t h => ⟨h.1.1, fun x hx => ⟨?_, h.2 x hx⟩⟩
  rw [← hx]
  exact h.1.2 (by rw [hx]; exact Option.some_ne_none x)

theorem remove_safe (g : Geometry w) (h : Sane w (.remove path)) :
    Safe (fun t => calm t = calm w) (fat32RemoveChecked path) fun _ _ => True := by
  refine .get_bind fun u hu => .ite (fun _ => .pure fun _ _ => trivial) fun hp => ?_
  have hne : path ≠ [] := fun he => hp (.inr he)
  refine .bind (.lift ((lookupPath_calm path).pre fun t ht => ht ▸ hu)) fun r => ?_
  cases r with
  | none => exact .pure fun _ _ => trivial
  | some x =>
    refine .ite (fun _ => .pure fun _ _ => trivial) fun hdir => .intro fun t ht => ?_
    obtain ⟨hlook, hroot⟩ := ht.2 x rfl
    have hdir : x.info.isDirectory = false := by simpa using hdir
    have hchained : isChained x.entryCluster = true := by
      refine hroot.resolve_left fun he => ?_
      -- the root is a directory
      have hx : fat32LookupPath path (calm w) = some (some (rootLookup (calm w)), calm w) := by
        rw [fat32LookupPath]
        simp only [bind_run, get_run, Option.bind_some, ite_run, he, if_true]
        have hm : (calm w).mounted = true := g.mounted
        rw [hm]
        rfl
      obtain ⟨hxr, -⟩ := Prod.mk.inj (Option.some.inj (hlook.symm.trans hx))
      rw [Option.some.inj hxr, isDirectory_rootLookup] at hdir
      cases hdir
    exact (dropEntry_safe g hchained (h hne x hlook hdir)).pre fun u hu => hu ▸ ht.1

theorem rmdirPath_safe (g : Geometry w) (h : Sane w (.rmdir path)) :
    Safe (fun t => calm t = calm w) (fat32RmdirPathChecked path) fun _ _ => True := by
  refine .get_bind fun u hu => .ite (fun _ => .pure fun _ _ => trivial) fun hp =>
    .ite (fun _ => .pure fun _ _ => trivial) fun hslash => ?_
  have hne : path ≠ [] := fun he => hp (.inr he)
  refine .bind (.lift ((lookupPath_calm path).pre fun t ht => ht ▸ hu)) fun r => ?_
  cases r with
  | none => exact .pure fun _ _ => trivial
  | some x =>
    refine .ite (fun _ => .pure fun _ _ => trivial) fun hdir => .intro fun t ht => ?_
    obtain ⟨hlook, hroot⟩ := ht.2 x rfl
    have hdir : x.info.isDirectory = true := by simpa using hdir
    have hchained := hroot.resolve_left fun he => he.elim hne hslash
    refine .bind (.lift ((triple_calm (listDirectory_falters _ _) (listDirectory_keeps _ _)).pre
      fun u hu => hu ▸ ht.1)) fun r => ?_
    cases r with
    | none => exact .pure fun _ _ => trivial
    | some files =>
      refine .ite (fun _ => .pure fun _ _ => trivial) fun hlen => .intro fun u hu => ?_
      have hempty : files = [] := List.eq_nil_of_length_eq_zero (Nat.eq_zero_of_not_pos hlen)
      subst hempty
      have hlist := hu.2 (Option.some_ne_none _)
      exact (dropEntry_safe g hchained (h hne hslash x hlook hdir hlist)).pre
        fun v hv => hv ▸ hu.1

theorem remove_confined_iff (g : Geometry w) (hf : Flushable w) :
    Confined w (.remove path) ↔ Sane w (.remove path) := by
  refine ⟨fun h hne x hlook hdir => ?_, fun h mallocs faults => (remove_safe g h).not_stops rfl⟩
  by_contra hno
  have hg : SameGeometry w (calm w) := sameGeometry_calm
  have hno' : ¬ Droppable (calm w) x := fun hx => hno ⟨hx.chain, (sameGeometry_lands hg).mp hx.slot⟩
  refine h (fun _ => true) (fun _ => none) (.get_bind (.ite_neg ?_ (.lift_bind hlook
    (.ite_neg ?_ (dropEntry_stops (hg.geometry g) hf mallocs_calm noFaults_calm hno')))))
  · exact not_or.mpr ⟨not_not.mpr g.mounted, hne⟩
  · rw [hdir]
    exact Bool.false_ne_true

theorem rmdir_confined_iff (g : Geometry w) (hf : Flushable w) :
    Confined w (.rmdir path) ↔ Sane w (.rmdir path) := by
  refine ⟨fun h hne hslash x hlook hdir hlist => ?_,
    fun h mallocs faults => (rmdirPath_safe g h).not_stops rfl⟩
  by_contra hno
  have hg : SameGeometry w (calm w) := sameGeometry_calm
  have hno' : ¬ Droppable (calm w) x := fun hx => hno ⟨hx.chain, (sameGeometry_lands hg).mp hx.slot⟩
  refine h (fun _ => true) (fun _ => none) (.get_bind (.ite_neg ?_ (.ite_neg hslash
    (.lift_bind hlook (.ite_neg (not_not.mpr hdir) (.lift_bind hlist (.ite_neg (Nat.lt_irrefl 0)
    (dropEntry_stops (hg.geometry g) hf mallocs_calm noFaults_calm hno'))))))))
  exact not_or.mpr ⟨not_not.mpr g.mounted, hne⟩

end

end ContinuumOS.Fat32.Dropping
