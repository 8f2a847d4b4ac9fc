import ContinuumOS.Fat32.Paths
import ContinuumOS.Fat32.Scan

/-! # Searches that may run out of memory

A scan, a search and a lookup change nothing but the stream of `kmalloc`
answers, whether they succeed or not. What they find is an entry of a directory,
for any set of clusters that is closed under chains and, for a lookup, holds the
root directory and the subdirectories. -/
namespace ContinuumOS.Fat32.Search
open ContinuumOS.Lib.Effect ContinuumOS.Libc.String
open ContinuumOS.Fat32.Volume ContinuumOS.Fat32.Device ContinuumOS.Fat32.Allocation
open ContinuumOS.Fat32.Names ContinuumOS.Fat32.Directory
open ContinuumOS.Fat32.Paths

/-- The slot at an index of a cluster. -/
def slotOf (w : World) (c i : Nat) : Buf := slotAt (clusterBuf w c) i

/-- `entry->attributes & FAT32_ATTR_DIRECTORY` -/
def isDirSlot (e : Buf) : Bool := slotAttributes e &&& attrDirectory ≠ 0

/-- The slot at an index of a cluster describes a file or a directory. -/
def IsEntry (w : World) (c i : Nat) : Prop :=
  i < entriesPerCluster w ∧ slotKind (slotOf w c i) = .entry

/-- No cluster number, or one whose sectors are not on the device. -/
def Refused (w : World) (c : Nat) : Prop :=
  fat32ClusterToSector w c = 0 ∨
    transferOk w w.fs.deviceId (fat32ClusterToSector w c) w.fs.sectorsPerCluster = false

/-- A transfer to the cluster is one of the volume's data or none at all. -/
def Tame (w : World) (c : Nat) : Prop := InRange w c ∨ Refused w c

/-- Clusters that chains do not leave. -/
structure ChainSet (w : World) (D : Nat → Prop) : Prop where
  tame : ∀ c, D c → Tame w c
  next : ∀ c, D c → InRange w c → isChained (nextOf w c) = true → D (nextOf w c)

/-- Clusters of directories: the root's are among them, and those of every
subdirectory. -/
structure DirSet (w : World) (D : Nat → Prop) : Prop extends ChainSet w D where
  root : D w.fs.rootCluster
  sub : ∀ c i, D c → InRange w c → IsEntry w c i → isDirSlot (slotOf w c i) = true →
    isChained (slotCluster (slotOf w c i)) = true → D (slotCluster (slotOf w c i))

/-- `w₀` with some `kmalloc` answers used up. -/
def Quiet (w₀ w : World) : Prop := ∃ m, w = { w₀ with mallocs := m }

/-- An entry of a directory, as a scan tells of it. -/
structure EntryAt (w : World) (D : Nat → Prop) (f : Found) : Prop where
  dir : D f.cluster
  inRange : InRange w f.cluster
  entry : IsEntry w f.cluster f.index
  info : ∃ st, f.info = slotInfo st (slotOf w f.cluster f.index)

section

variable {w₀ w : World} {D : Nat → Prop}

theorem Quiet.refl (w : World) : Quiet w w := ⟨w.mallocs, rfl⟩

theorem Quiet.spend (h : Quiet w₀ w) : Quiet w₀ w.spend := by
  obtain ⟨m, rfl⟩ := h
  exact ⟨advance m, rfl⟩

theorem Quiet.fs (h : Quiet w₀ w) : w.fs = w₀.fs := by
  obtain ⟨m, rfl⟩ := h
  rfl

theorem Quiet.same (h : Quiet w₀ w) : SameGeometry w₀ w := by
  obtain ⟨m, rfl⟩ := h
  exact ⟨rfl, rfl, rfl, rfl⟩

theorem Quiet.faults (h : Quiet w₀ w) : w.faults = w₀.faults := by
  obtain ⟨m, rfl⟩ := h
  rfl

theorem Quiet.clusterBuf (h : Quiet w₀ w) (c : Nat) : clusterBuf w c = Device.clusterBuf w₀ c := by
  obtain ⟨m, rfl⟩ := h
  rfl

theorem Quiet.getNextCluster (h : Quiet w₀ w) (c : Nat) :
    fat32GetNextCluster w c = fat32GetNextCluster w₀ c := by
  obtain ⟨m, rfl⟩ := h
  rfl

theorem Quiet.entriesPerCluster (h : Quiet w₀ w) :
    entriesPerCluster w = Directory.entriesPerCluster w₀ := by
  obtain ⟨m, rfl⟩ := h
  rfl

theorem EntryAt.cluster_eq {f : Found} (h : EntryAt w D f) :
    f.info.cluster = slotCluster (slotOf w f.cluster f.index) := by
  obtain ⟨st, hi⟩ := h.info
  rw [hi]
  rfl

theorem EntryAt.isDirectory_eq {f : Found} (h : EntryAt w D f) :
    f.info.isDirectory = isDirSlot (slotOf w f.cluster f.index) := by
  obtain ⟨st, hi⟩ := h.info
  rw [hi]
  rfl

theorem EntryAt.sub {f : Found} (hd : DirSet w D) (h : EntryAt w D f)
    (hdir : f.info.isDirectory = true) (hc : isChained f.info.cluster = true) :
    D f.info.cluster := by
  rw [h.cluster_eq] at hc ⊢
  rw [h.isDirectory_eq] at hdir
  exact hd.sub _ _ h.dir h.inRange h.entry hdir hc

/-! ## Scans -/

theorem kmalloc_quiet (n : Nat) : Triple (Quiet w₀) (kmalloc n) fun _ => Quiet w₀ := by
  intro w hw a w' hr
  rw [kmalloc] at hr
  split at hr
  · obtain ⟨-, rfl⟩ := Prod.mk.inj (Option.some.inj hr)
    exact hw
  · obtain ⟨-, rfl⟩ := Prod.mk.inj (Option.some.inj hr)
    exact hw.spend

theorem refused_of_lt {c : Nat} (h : c < 2) : Refused w c := .inl (by rw [fat32ClusterToSector, if_pos h])

theorem readCluster_refused {c : Nat} (hc : Refused w c) :
    fat32ReadCluster c w = some (none, w) := by
  rw [fat32ReadCluster]
  simp only [bind_run, get_run, Option.bind_some, ite_run]
  split
  · rfl
  · split
    · rfl
    · rename_i hne
      rw [blockdevRead, hc.resolve_left hne]
      rfl

theorem writeCluster_refused {c : Nat} (hc : Refused w c) (buf : Buf) :
    fat32WriteCluster c buf w = some (false, w) := by
  rw [fat32WriteCluster]
  simp only [bind_run, get_run, Option.bind_some, ite_run]
  split
  · rfl
  · split
    · rfl
    · rename_i hne
      rw [blockdevWrite, hc.resolve_left hne]
      rfl

theorem SameGeometry.refused {w' : World} (h : SameGeometry w w') {c : Nat} :
    Refused w' c ↔ Refused w c := by
  obtain ⟨h₁, -, h₃, -, -, -, h₇, -⟩ := h.fields
  rw [Refused, Refused, fat32ClusterToSector, fat32ClusterToSector, transferOk, transferOk, h₁, h₃,
    h₇, h.present, h.sectorCount]

theorem SameGeometry.tame {w' : World} (h : SameGeometry w w') {c : Nat} :
    Tame w' c ↔ Tame w c := or_congr h.inRange (SameGeometry.refused h)

theorem readCluster_quiet (g : Geometry w₀) (nf : NoFaults w₀) {c : Nat} (hc : Tame w₀ c) :
    Triple (Quiet w₀) (fat32ReadCluster c) fun r w =>
      (∀ buf, r = some buf → InRange w₀ c ∧ buf = clusterBuf w₀ c) ∧ Quiet w₀ w := by
  intro w hw a w' hr
  have nf' : NoFaults w := fun n => by rw [hw.faults]; exact nf n
  rcases hc with hc | hc
  · rw [readCluster_eq (hw.same.geometry g) nf' (hw.same.inRange.mpr hc), hw.clusterBuf] at hr
    obtain ⟨rfl, rfl⟩ := Prod.mk.inj (Option.some.inj hr)
    exact ⟨fun buf hb => ⟨hc, (Option.some.inj hb).symm⟩, hw⟩
  · rw [readCluster_refused ((SameGeometry.refused hw.same).mpr hc)] at hr
    obtain ⟨rfl, rfl⟩ := Prod.mk.inj (Option.some.inj hr)
    exact ⟨by simp, hw⟩

/-- The context behind a scan that goes on or is done. -/
def Progress.context {κ : Type} : Progress κ → κ
  | .more _ context => context
  | .done _ context => context

section

variable {κ : Type} {callback : Callback κ} {J : κ → Prop}

/-- The callback keeps `J` on the entries of the set. -/
def Keeps (w : World) (D : Nat → Prop) (callback : Callback κ) (J : κ → Prop) : Prop :=
  ∀ c i st context, D c → InRange w c → IsEntry w c i → J context →
    J (callback (slotOf w c i) (slotInfo st (slotOf w c i)) c i context).2

theorem scanCluster_keeps (hcb : Keeps w D callback J) {c : Nat} (hc : D c) (hin : InRange w c) :
    ∀ (left index : Nat) (st : Lfn) (context : κ), index + left ≤ entriesPerCluster w →
    J context → J (Progress.context
      (scanCluster callback (clusterBuf w c) c left index st context))
  | 0, _, _, _, _, hj => hj
  | left + 1, index, st, context, hle, hj => by
    have ih := scanCluster_keeps hcb hc hin left (index + 1)
    rw [scanCluster]
    cases hk : slotKind (slotAt (clusterBuf w c) index) with
    | endOfDirectory => exact hj
    | deleted | longName | volumeId => exact ih _ _ (by omega) hj
    | entry =>
      have hcall := hcb c index st context hc hin ⟨by omega, hk⟩ hj
      simp only []
      split
      · exact hcall
      · split
        · exact hcall
        · exact ih _ _ (by omega) hcall

theorem iterateLoop_keeps (g : Geometry w₀) (nf : NoFaults w₀) (hd : ChainSet w₀ D)
    (hcb : Keeps w₀ D callback J) : ∀ (rounds cluster : Nat) (st : Lfn) (context : κ),
    (isChained cluster = true → D cluster) → J context →
    Triple (Quiet w₀) (iterateLoop callback rounds cluster st context)
      fun r w => J r.2 ∧ Quiet w₀ w
  | 0, cluster, st, context, _, hj => by
    rw [iterateLoop]
    exact .ite (fun _ => .diverge) fun _ => .pure fun w hw => ⟨hj, hw⟩
  | rounds + 1, cluster, st, context, hc, hj => by
    rw [iterateLoop]
    refine .ite (fun _ => .pure fun w hw => ⟨hj, hw⟩) fun hch => ?_
    have hc := hc (by simpa using hch)
    refine .bind (readCluster_quiet g nf (hd.tame _ hc)) fun r => ?_
    cases r with
    | none => exact .pure fun t ht => ⟨hj, ht.2⟩
    | some buf =>
      refine .get_bind fun w hw => ?_
      obtain ⟨hbuf, hw⟩ := hw
      obtain ⟨hin, rfl⟩ := hbuf buf rfl
      have hscan := scanCluster_keeps hcb hc hin (entriesPerCluster w) 0 st context
        (by rw [hw.entriesPerCluster]; omega) hj
      cases hs : scanCluster callback (clusterBuf w₀ cluster) cluster (entriesPerCluster w) 0 st
          context with
      | done result context =>
        rw [hs] at hscan
        exact .pure fun t ht => ⟨hscan, ht ▸ hw⟩
      | more st context =>
        rw [hs] at hscan
        refine .ite (fun _ => .pure fun t ht => ⟨hscan, ht ▸ hw⟩) fun hn => ?_
        refine (iterateLoop_keeps g nf hd hcb rounds _ st context (fun hn => ?_) hscan).pre
          fun t ht => ht ▸ hw
        rw [hw.getNextCluster, getNextCluster_eq g hin] at hn ⊢
        exact hd.next _ hc hin hn

theorem iterateDirectory_keeps (g : Geometry w₀) (nf : NoFaults w₀) (hd : ChainSet w₀ D)
    (hcb : Keeps w₀ D callback J) {s : Nat} (hs : isChained s = true → D s) {context : κ}
    (hj : J context) : Triple (Quiet w₀) (fat32IterateDirectory s callback context)
      fun r w => J r.2 ∧ Quiet w₀ w := by
  rw [fat32IterateDirectory]
  refine .get_bind fun w hw => .bind ((kmalloc_quiet _).pre fun t ht => ht ▸ hw) fun b => ?_
  exact .ite (fun _ => iterateLoop_keeps g nf hd hcb _ _ _ _ hs hj)
    fun _ => .pure fun t ht => ⟨hj, ht⟩

end

/-! ## Searches and lookups -/

theorem findEntry_finds (g : Geometry w₀) (nf : NoFaults w₀) (hd : ChainSet w₀ D) {s : Nat}
    (hs : isChained s = true → D s) (name : CStr) :
    Triple (Quiet w₀) (fat32FindEntryInDirectory s name)
      fun r w => (∀ f, r = some f → EntryAt w₀ D f) ∧ Quiet w₀ w := by
  rw [fat32FindEntryInDirectory]
  refine .get_bind fun w hw => .ite (fun _ => .pure fun t ht => ⟨by simp, ht ▸ hw⟩) fun _ => ?_
  have hcb : Keeps w₀ D (findCallback name) fun r => ∀ f, r = some f → EntryAt w₀ D f := by
    intro c i st found hc hin he hj f hf
    rw [findCallback] at hf
    split at hf
    · cases hf
      exact ⟨hc, hin, he, st, rfl⟩
    · exact hj f hf
  refine .bind ((iterateDirectory_keeps g nf hd hcb hs (by simp)).pre fun t ht => ht ▸ hw)
    fun r => ?_
  obtain ⟨result, found⟩ := r
  exact .ite (fun _ => .pure fun t ht => ⟨by simp, ht.2⟩) fun _ => .pure fun t ht => ht

theorem shortNameExists_quiet (g : Geometry w₀) (nf : NoFaults w₀) (hd : ChainSet w₀ D) {s : Nat}
    (hs : isChained s = true → D s) (name : ShortName) :
    Triple (Quiet w₀) (fat32ShortNameExists s name) fun _ => Quiet w₀ := by
  rw [fat32ShortNameExists]
  refine .bind (iterateDirectory_keeps (J := fun _ => True) g nf hd
    (fun _ _ _ _ _ _ _ _ => trivial) hs trivial) fun r => ?_
  obtain ⟨result, found⟩ := r
  exact .ite (fun _ => .pure fun t ht => ht.2) fun _ => .pure fun t ht => ht.2

theorem listDirectory_quiet (g : Geometry w₀) (nf : NoFaults w₀) (hd : ChainSet w₀ D) {s : Nat}
    (hs : isChained s = true → D s) (maxFiles : Nat) :
    Triple (Quiet w₀) (fat32ListDirectory s maxFiles) fun _ => Quiet w₀ := by
  rw [fat32ListDirectory]
  refine .get_bind fun w hw => .ite (fun _ => .pure fun t ht => ht ▸ hw) fun _ => ?_
  refine .bind ((iterateDirectory_keeps (J := fun _ => True) g nf hd
    (fun _ _ _ _ _ _ _ _ => trivial) hs trivial).pre fun t ht => ht ▸ hw) fun r => ?_
  obtain ⟨result, files⟩ := r
  exact .ite (fun _ => .pure fun t ht => ht.2) fun _ => .pure fun t ht => ht.2

theorem uniqueLoop_quiet (g : Geometry w₀) (nf : NoFaults w₀) (hd : ChainSet w₀ D) {s : Nat}
    (hs : isChained s = true → D s) (base ext : CStr) : ∀ left suffix : Nat,
    Triple (Quiet w₀) (uniqueLoop s base ext left suffix) fun _ => Quiet w₀
  | 0, suffix => .pure fun t ht => ht
  | left + 1, suffix => by
    rw [uniqueLoop]
    refine .ite (fun _ => .pure fun t ht => ht) fun _ => ?_
    refine .bind (shortNameExists_quiet g nf hd hs _) fun r => ?_
    match r with
    | none => exact .pure fun t ht => ht
    | some true => exact uniqueLoop_quiet g nf hd hs base ext left (suffix + 1)
    | some false => exact .pure fun t ht => ht

theorem prepareShortName_quiet (g : Geometry w₀) (nf : NoFaults w₀) (hd : ChainSet w₀ D) {s : Nat}
    (hs : isChained s = true → D s) (name : CStr) :
    Triple (Quiet w₀) (fat32PrepareShortName s name) fun _ => Quiet w₀ := by
  have hunique : Triple (Quiet w₀) (fat32GenerateUniqueShortName s name) fun _ => Quiet w₀ :=
    uniqueLoop_quiet g nf hd hs _ _ _ _
  rw [fat32PrepareShortName]
  cases fat32BuildShortName name with
  | none =>
    refine .bind hunique fun r => ?_
    cases r <;> exact .pure fun t ht => ht
  | some candidate =>
    refine .bind (shortNameExists_quiet g nf hd hs _) fun r => ?_
    obtain _ | _ | _ := r
    · exact .pure fun t ht => ht
    · exact .pure fun t ht => ht
    · refine .bind hunique fun r => ?_
      cases r <;> exact .pure fun t ht => ht

/-- What a lookup gives: an entry of a directory, and that directory. -/
structure LookedUp (w : World) (D : Nat → Prop) (x : Lookup) : Prop where
  found : EntryAt w D ⟨x.info, x.entryCluster, x.entryIndex⟩
  parent : isChained x.parentDir = true → D x.parentDir

theorem lookupLoop_finds (g : Geometry w₀) (nf : NoFaults w₀) (hd : DirSet w₀ D) :
    ∀ (rounds : Nat) (cursor : CStr) (s : Nat) (last : Option Lookup),
    (isChained s = true → D s) → (∀ x, last = some x → LookedUp w₀ D x) →
    Triple (Quiet w₀) (lookupLoop rounds cursor s last)
      fun r w => (∀ x, r = some x → LookedUp w₀ D x) ∧ Quiet w₀ w
  | 0, _, _, _, _, hl => .pure fun t ht => ⟨hl, ht⟩
  | rounds + 1, cursor, s, last, hs, hl => by
    have hnone : Triple (Quiet w₀) (pure none : Fat (Option Lookup))
        fun r w => (∀ x, r = some x → LookedUp w₀ D x) ∧ Quiet w₀ w :=
      .pure fun t ht => ⟨by simp, ht⟩
    rw [lookupLoop]
    refine .ite (fun _ => .pure fun t ht => ⟨hl, ht⟩) fun _ => .ite (fun _ => hnone) fun _ =>
      .ite (fun _ => lookupLoop_finds g nf hd rounds _ s last hs hl) fun _ =>
      .ite (fun _ => hnone) fun _ => ?_
    refine .bind (findEntry_finds g nf hd.toChainSet hs _) fun r => ?_
    cases r with
    | none => exact hnone.pre fun t ht => ht.2
    | some f =>
      refine .intro fun w hw => ?_
      have hf := hw.1 f rfl
      have hx : ∀ x, some (⟨f.info, s, f.cluster, f.index⟩ : Lookup) = some x → LookedUp w₀ D x := by
        intro x hx
        cases hx
        exact ⟨hf, hs⟩
      refine .ite (fun _ => .pure fun t ht => ⟨hx, ht ▸ hw.2⟩) fun _ =>
        .ite (fun _ => hnone.pre fun t ht => ht ▸ hw.2) fun hdir => ?_
      exact (lookupLoop_finds g nf hd rounds _ _ _
        (fun hc => hf.sub hd (by simpa using hdir) hc) hx).pre fun t ht => ht ▸ hw.2

theorem lookupPath_finds (g : Geometry w₀) (nf : NoFaults w₀) (hd : DirSet w₀ D) (path : CStr) :
    Triple (Quiet w₀) (fat32LookupPath path) fun r w =>
      (∀ x, r = some x → x = rootLookup w₀ ∨ LookedUp w₀ D x) ∧ Quiet w₀ w := by
  rw [fat32LookupPath]
  refine .get_bind fun w hw => .ite (fun _ => .pure fun t ht => ⟨by simp, ht ▸ hw⟩) fun _ =>
    .ite (fun _ => .pure fun t ht => ⟨fun x hx => ?_, ht ▸ hw⟩) fun _ => ?_
  · left
    rw [← Option.some.inj hx, rootLookup, rootLookup, hw.fs]
  · have hroot : w.fs.rootCluster = w₀.fs.rootCluster := by rw [hw.fs]
    have h := lookupLoop_finds g nf hd ((path.take maxPath).length + 1) (path.take maxPath)
      w.fs.rootCluster none (fun _ => by rw [hroot]; exact hd.root) (by simp)
    exact h.conseq (fun t ht => ht ▸ hw) fun r t ht => ⟨fun x hx => .inr (ht.1 x hx), ht.2⟩

theorem findParent_finds (g : Geometry w₀) (nf : NoFaults w₀) (hd : DirSet w₀ D) (path : CStr) :
    Triple (Quiet w₀) (findParent path) fun r w =>
      (∀ p, r = some p → isChained p.1 = true → D p.1) ∧ Quiet w₀ w := by
  have hnone : Triple (Quiet w₀) (pure none : Fat (Option (Nat × CStr)))
      fun r w => (∀ p, r = some p → isChained p.1 = true → D p.1) ∧ Quiet w₀ w :=
    .pure fun t ht => ⟨by simp, ht⟩
  rw [findParent]
  refine .bind ((lookupPath_finds g nf hd path).post fun _ _ h => h.2) fun r =>
    .ite (fun _ => hnone) fun _ => ?_
  match fat32SplitPath path with
  | none => exact hnone
  | some (parent, name) =>
    refine .ite (fun _ => hnone) fun _ => .bind (lookupPath_finds g nf hd _) fun r => ?_
    cases r with
    | none => exact hnone.pre fun t ht => ht.2
    | some dir =>
      refine .ite (fun hdir => .pure fun t ht => ⟨fun p hp => ?_, ht.2⟩) fun _ =>
        hnone.pre fun t ht => ht.2
      cases hp
      rcases ht.1 dir rfl with rfl | hx
      · exact fun _ => hd.root
      · exact fun hc => hx.found.sub hd hdir hc

end

/-! ## Searches of any directory -/

section

variable {κ : Type} {callback : Callback κ} {J : κ → Prop}

theorem scanCluster_holds {c : Nat} (hcb : ∀ e st i context, J context →
      J (callback e (slotInfo st e) c i context).2) (buf : Buf) :
    ∀ (left index : Nat) (st : Lfn) (context : κ), J context →
      J (Progress.context (scanCluster callback buf c left index st context))
  | 0, _, _, _, h => h
  | left + 1, index, st, context, h => by
    have ih := scanCluster_holds hcb buf left (index + 1)
    have hcall := hcb (slotAt buf index) st index context h
    rw [scanCluster]
    cases slotKind (slotAt buf index) with
    | endOfDirectory => exact h
    | deleted | longName | volumeId => exact ih _ _ h
    | entry =>
      simp only []
      split
      · exact hcall
      · split
        · exact hcall
        · exact ih _ _ hcall

theorem iterateLoop_holds (hcb : ∀ e st c i context, isChained c = true → J context →
      J (callback e (slotInfo st e) c i context).2) :
    ∀ (rounds c : Nat) (st : Lfn) (context : κ), J context →
      Triple (fun _ => True) (iterateLoop callback rounds c st context) fun r _ => J r.2
  | 0, c, st, context, h => by
    rw [iterateLoop]
    exact .ite (fun _ => .diverge) fun _ => .pure fun _ _ => h
  | rounds + 1, c, st, context, h => by
    rw [iterateLoop]
    refine .ite (fun _ => .pure fun _ _ => h) fun hc => ?_
    refine .bind (Q := fun _ _ => True) (fun _ _ _ _ _ => trivial) fun r => ?_
    cases r with
    | none => exact .pure fun _ _ => h
    | some buf =>
      refine .get_bind fun w _ => ?_
      have hscan := scanCluster_holds (fun e st i context => hcb e st c i context (not_not.mp hc)) buf
        (entriesPerCluster w) 0 st context h
      cases hs : scanCluster callback buf c (entriesPerCluster w) 0 st context with
      | done result context =>
        rw [hs] at hscan
        exact .pure fun _ _ => hscan
      | more st context =>
        rw [hs] at hscan
        refine .ite (fun _ => .pure fun _ _ => hscan) fun _ => ?_
        exact (iterateLoop_holds hcb rounds _ st context hscan).pre fun _ _ => trivial

end

/-- What a scan tells of a slot in a cluster of a directory. -/
def Scanned (f : Found) : Prop :=
  isChained f.cluster = true ∧ ∃ st e, f.info = slotInfo st e

theorem findEntry_scanned (s : Nat) (name : CStr) :
    Triple (fun _ => True) (fat32FindEntryInDirectory s name)
      fun r _ => ∀ f, r = some f → Scanned f := by
  have hnone : ∀ f, none = some f → Scanned f := fun f hf => by cases hf
  have hcb : ∀ e st c i (found : Option Found), isChained c = true →
      (∀ f, found = some f → Scanned f) →
      ∀ f, (findCallback name e (slotInfo st e) c i found).2 = some f → Scanned f := by
    intro e st c i found hc h f hf
    rw [findCallback] at hf
    split at hf
    · obtain rfl := Option.some.inj hf
      exact ⟨hc, st, e, rfl⟩
    · exact h f hf
  rw [fat32FindEntryInDirectory]
  refine .get_bind fun w _ => .ite (fun _ => .pure fun _ _ => hnone) fun _ => ?_
  refine .bind (Q := fun r _ => ∀ f, r.2 = some f → Scanned f) ?_ fun r => ?_
  · rw [fat32IterateDirectory]
    refine .get_bind fun w _ => .bind (Q := fun _ _ => True) (fun _ _ _ _ _ => trivial) fun b => ?_
    exact .ite (fun _ => iterateLoop_holds hcb _ _ _ _ hnone) fun _ => .pure fun _ _ => hnone
  · exact .ite (fun _ => .pure fun _ _ => hnone) fun _ => .pure fun _ h => h

theorem lookupLoop_holds {Q : Found → Prop} (hfind : ∀ s name, Triple (fun _ => True)
      (fat32FindEntryInDirectory s name) fun r _ => ∀ f, r = some f → Q f) :
    ∀ (rounds : Nat) (cursor : CStr) (s : Nat) (last : Option Lookup),
    (∀ x, last = some x → Q ⟨x.info, x.entryCluster, x.entryIndex⟩) →
    Triple (fun _ => True) (lookupLoop rounds cursor s last)
      fun r _ => ∀ x, r = some x → Q ⟨x.info, x.entryCluster, x.entryIndex⟩
  | 0, _, _, _, h => .pure fun _ _ => h
  | rounds + 1, cursor, s, last, h => by
    rw [lookupLoop]
    refine .ite (fun _ => .pure fun _ _ => h) fun _ => ?_
    refine .ite (fun _ => .pure fun _ _ x hx => by cases hx) fun _ => ?_
    refine .ite (fun _ => lookupLoop_holds hfind rounds _ _ _ h) fun _ => ?_
    refine .ite (fun _ => .pure fun _ _ x hx => by cases hx) fun _ => ?_
    refine .bind (hfind _ _) fun r => ?_
    cases r with
    | none => exact .pure fun _ _ x hx => by cases hx
    | some found =>
      refine .intro fun w hw => ?_
      have hlast : ∀ x, some (⟨found.info, s, found.cluster, found.index⟩ : Lookup) = some x →
          Q ⟨x.info, x.entryCluster, x.entryIndex⟩ := by
        intro x hx
        obtain rfl := Option.some.inj hx
        exact hw found rfl
      refine .ite (fun _ => .pure fun _ _ => hlast) fun _ => ?_
      refine .ite (fun _ => .pure fun _ _ x hx => by cases hx) fun _ => ?_
      exact (lookupLoop_holds hfind rounds _ _ _ hlast).pre fun _ _ => trivial

end ContinuumOS.Fat32.Search
