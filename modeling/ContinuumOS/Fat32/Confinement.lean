import ContinuumOS.Fat32.Answers
import ContinuumOS.Fat32.Checks
import ContinuumOS.Fat32.Freeing

/-! # Where the driver writes

Cluster numbers come from slots, from the table and from descriptors. Some
functions compare them with the size of the table before they use them, others do
not. This module says for which contents of a volume a write stays in the copies
of the table and the data clusters and every entry used is one of the table, and
what the functions that clusters are read, written, allocated and freed with need
for it. -/
namespace ContinuumOS.Fat32.Confinement
open ContinuumOS.Lib.Effect ContinuumOS.Lib.Guards ContinuumOS.Lib.Walks
open ContinuumOS.Libc.String
open ContinuumOS.Fat32.Volume ContinuumOS.Fat32.Device ContinuumOS.Fat32.Allocation
open ContinuumOS.Fat32.Names ContinuumOS.Fat32.Directory ContinuumOS.Fat32.Search
open ContinuumOS.Fat32.Paths ContinuumOS.Fat32.Files ContinuumOS.Fat32.Checks
open ContinuumOS.Fat32.Answers ContinuumOS.Fat32.Freeing

/-! ## What is claimed of a call -/

/-- Whatever heap and device answer, no check fails. -/
def Stays {α : Type} (w : World) (m : Checked α) : Prop :=
  ∀ mallocs faults, ¬ Stops m (answering w mallocs faults)

/-- The functions that change a volume. -/
inductive Operation
  | write (fd : Nat)
  | create (path : CStr)
  | mkdir (path : CStr)
  | remove (path : CStr)
  | rmdir (path : CStr)

/-- Every write goes to a copy of the table or to a data cluster, and every entry
used is one of the table. -/
def Confined (w : World) : Operation → Prop
  | .write fd => ∀ src, src.length < 2 ^ 32 → Stays w (fat32WriteChecked fd src)
  | .create path => Stays w (fat32CreateChecked path)
  | .mkdir path => Stays w (fat32MkdirPathChecked path)
  | .remove path => Stays w (fat32RemoveChecked path)
  | .rmdir path => Stays w (fat32RmdirPathChecked path)

/-! ## Contents that a call needs -/

/-- The device refuses the cluster, or the cluster lies inside. -/
def Lands (w : World) (c : Nat) : Prop :=
  Refused w c ∨ ∀ i < w.fs.sectorsPerCluster, Inside w (fat32ClusterToSector w c + i)

/-- Every cluster that the entries lead to from `s` has an entry itself. -/
def Freeable (w : World) (s : Nat) : Prop :=
  ∀ c, Comes (nextOf w) (isChained · = true) s c → HasEntry w c

/-- An entry that can be removed with its clusters. -/
structure Droppable (w : World) (x : Lookup) : Prop where
  chain : Freeable w x.info.cluster
  slot : Lands w x.entryCluster

/-- The bytes of a cluster, wherever its sectors are. -/
def bufAt (w : World) (c : Nat) : Buf :=
  copyInto freshBuf 0 (w.fs.sectorsPerCluster % 256 * sectorSize)
    fun i => w.sectors w.fs.deviceId (fat32ClusterToSector w c * sectorSize + i)

/-- The free slots found in a cluster, behind those found before it. -/
def reserveAt (w : World) (count c : Nat) (run : List Location) : Reserve :=
  reserveCluster (bufAt w c) c count (entriesPerCluster w) 0 run

/-- Looking for `count` free slots in the directory at `s` comes to a cluster with
the run of free slots that ends before it. -/
inductive Arrives (w : World) (count s : Nat) : Nat → List Location → Prop
  | start (chained : isChained s = true) : Arrives w count s s []
  | next {c : Nat} {run run' : List Location} (before : Arrives w count s c run)
      (accepted : ¬ Refused w c) (more : reserveAt w count c run = .more run')
      (chained : isChained (fat32GetNextCluster w c) = true) :
      Arrives w count s (fat32GetNextCluster w c) run'

/-- The free clusters. -/
def freeClusters (w : World) : List Nat :=
  (List.range' 2 (w.fs.totalClusters - 2)).filter fun c => w.fs.fatTable c % 2 ^ 28 == 0

/-- The slots that are found lie inside. A directory without enough of them can be
extended: its last cluster has an entry, and lies inside if the new clusters
complete a run of slots that began there. -/
structure Reservable (w : World) (s count : Nat) : Prop where
  found : ∀ c run locations, Arrives w count s c run → ¬ Refused w c →
    reserveAt w count c run = .found locations → ∀ loc ∈ locations, Lands w loc.cluster
  extended : ∀ c run run', Arrives w count s c run → ¬ Refused w c →
    reserveAt w count c run = .more run' → isChained (fat32GetNextCluster w c) = false →
    findFree w ≠ none → HasEntry w c ∧
      (count ≤ run'.length + entriesPerCluster w * (freeClusters w).length →
        ∀ loc ∈ run', Lands w loc.cluster)

/-- A name that can be entered into a directory. -/
def Enterable (w : World) (s : Nat) (name : CStr) : Prop :=
  name.length ≤ 255 → ∀ short needsLfn,
    fat32PrepareShortName s name (calm w) = some (some (short, needsLfn), calm w) →
      Reservable w s ((if needsLfn then lfnEntries name else 0) + 1)

/-- The directory of a new path, and its name there. -/
def Parent (w : World) (path : CStr) (s : Nat) (name : CStr) : Prop :=
  ∃ parent dir, fat32SplitPath path = some (parent, name) ∧ name ≠ [] ∧
    fat32LookupPath (if parent = [] then [slash] else parent) (calm w) = some (some dir, calm w) ∧
    dir.info.isDirectory = true ∧ s = dir.info.cluster

/-- The volume with a first cluster for a directory in the directory at `s`. -/
def started (w : World) (c s : Nat) : World := putCluster (allocated w 0 c) c (emptyDirectory c s)

/-- Writing from `c` on comes to `d` behind `k` clusters. -/
inductive Leads (w : World) : Nat → Nat → Nat → Prop
  | here {c : Nat} : Leads w c 0 c
  | next {c k d : Nat} (chained : isChained c = true) (accepted : ¬ Refused w c)
      (linked : isChained (nextOf w c) = true) (rest : Leads w (nextOf w c) k d) :
      Leads w c (k + 1) d

/-- The clusters that a write of `n` bytes from `pos` in `c` on comes to lie inside,
and have an entry if the write goes on behind them. -/
def Writable (w : World) (c pos n : Nat) : Prop :=
  ∀ k d, Leads w c k d → k * clusterSize w < pos + n →
    Lands w d ∧ (isChained d = true → (k + 1) * clusterSize w < pos + n →
      Refused w d ∨ HasEntry w d)

/-- The cluster that a new one is hung behind. -/
def hungBehind (f : File) : Nat := if f.lastCluster ≥ 2 then f.lastCluster else f.startCluster

/-- Where the next byte is written to, cluster and position, and the volume then. -/
def placed (w : World) (f : File) : Option (World × Nat × Nat) :=
  if f.startCluster < 2 then
    (findFree w).map fun c => (linkNew w f.startCluster c, c, 0)
  else if ¬ isChained f.currentCluster then
    (findFree w).map fun c => (linkNew w (hungBehind f) c,
      if isChained f.lastCluster then c else f.startCluster, 0)
  else if f.clusterPosition < clusterSize w then some (w, f.currentCluster, f.clusterPosition)
  else if isChained (nextOf w f.currentCluster) then some (w, nextOf w f.currentCluster, 0)
  else (findFree w).map fun c => (linkNew w f.currentCluster c, c, 0)

/-- A descriptor whose next cluster can be looked for. -/
structure Movable (w : World) (f : File) : Prop where
  behind : 2 ≤ f.startCluster → isChained f.currentCluster = false → findFree w ≠ none →
    isChained (hungBehind f) = true → HasEntry w (hungBehind f)
  current : 2 ≤ f.startCluster → isChained f.currentCluster = true →
    clusterSize w ≤ f.clusterPosition → HasEntry w f.currentCluster

/-- A descriptor that `n` bytes can be written to. -/
structure Extendable (w : World) (f : File) (n : Nat) : Prop extends Movable w f where
  clusters : ∀ v c pos, placed w f = some (v, c, pos) → Writable v c pos n

/-- A descriptor that can be written to. Its slot is written where a byte was. -/
structure Appendable (w : World) (f : File) : Prop extends Extendable w f (2 ^ 32 - 1) where
  slot : ∀ v c pos, placed w f = some (v, c, pos) → ¬ Refused w c → Lands w f.dirEntryCluster

/-- The cluster numbers that the call meets do not lead outside. -/
def Sane (w : World) : Operation → Prop
  | .write fd => ∀ f, fileOf w fd = some f → Appendable w f
  | .create path => path.head? = some slash → ∀ s name, Parent w path s name → Enterable w s name
  | .mkdir path => path.head? = some slash → ∀ s name, Parent w path s name →
      ∀ c, findFree w = some c → Enterable (started w c s) s name
  | .remove path => path ≠ [] → ∀ x, fat32LookupPath path (calm w) = some (some x, calm w) →
      x.info.isDirectory = false → Droppable w x
  | .rmdir path => path ≠ [] → path ≠ [slash] → ∀ x,
      fat32LookupPath path (calm w) = some (some x, calm w) → x.info.isDirectory = true →
      fat32ListDirectory x.info.cluster 1 (calm w) = some (some [], calm w) → Droppable w x

section

variable {w v : World} {c p : Nat} {buf : Buf}

/-! ## What these depend on -/

theorem sameGeometry_inside (h : SameGeometry w v) {s : Nat} : Inside v s ↔ Inside w s := by
  obtain ⟨-, -, h₃, h₄, h₅, -, h₇, h₈, h₉, -⟩ := h.fields
  rw [Inside, Inside, h₃, h₄, h₅, h₇, h₈, h₉]

theorem sameGeometry_hasEntry (h : SameGeometry w v) : HasEntry v c ↔ HasEntry w c := by
  rw [HasEntry, HasEntry, h.fields.2.2.2.2.1]

theorem sameGeometry_sector (h : SameGeometry w v) :
    fat32ClusterToSector v c = fat32ClusterToSector w c := by
  obtain ⟨-, -, h₃, -, -, -, h₇, -⟩ := h.fields
  rw [fat32ClusterToSector, fat32ClusterToSector, h₃, h₇]

theorem sameGeometry_lands (h : SameGeometry w v) : Lands v c ↔ Lands w c := by
  rw [Lands, Lands, h.fields.2.2.1, sameGeometry_sector h]
  exact or_congr (SameGeometry.refused h)
    (forall_congr' fun i => imp_congr_right fun _ => sameGeometry_inside h)

/-- All of a volume that no call changes. -/
def frame (w : World) : FsInfo × Bool × (Nat → Bool) × (Nat → Fin (2 ^ 28 + 1)) :=
  ({ w.fs with fatTable := fun _ => 0 }, w.mounted, w.present, w.sectorCount)

/-- The frame and the table. -/
def volume (w : World) : FsInfo × Bool × (Nat → Bool) × (Nat → Fin (2 ^ 28 + 1)) :=
  (w.fs, w.mounted, w.present, w.sectorCount)

theorem sameGeometry_iff_frame : SameGeometry w v ↔ frame v = frame w := by
  constructor
  · intro h
    rw [frame, frame, h.mounted, h.present, h.sectorCount, ← h.fs]
  · intro h
    obtain ⟨hfs, hm, hp, hc⟩ := by simpa only [frame, Prod.mk.injEq] using h
    refine ⟨?_, hm, hp, hc⟩
    have := congrArg (fun fs : FsInfo => { fs with fatTable := w.fs.fatTable }) hfs
    exact this

theorem fs_of_volume (h : volume v = volume w) : v.fs = w.fs := congrArg Prod.fst h

theorem frame_of_volume (h : volume v = volume w) : frame v = frame w := by
  have h' := h
  simp only [volume, Prod.mk.injEq] at h'
  rw [frame, frame, h'.1, h'.2.1, h'.2.2.1, h'.2.2.2]

theorem sameGeometry_of_volume (h : volume v = volume w) : SameGeometry w v :=
  sameGeometry_iff_frame.mpr (frame_of_volume h)

theorem keeps_frame {α : Type} {m : Fat α} (h : Keeps frame m) :
    Triple (SameGeometry w) m fun _ => SameGeometry w := by
  intro s hs a t hr
  rw [sameGeometry_iff_frame] at hs ⊢
  exact (h s a t hr).trans hs

theorem keeps_volume {α : Type} {m : Fat α} (h : Keeps volume m) :
    Triple (fun t => volume t = volume w) m fun _ t => volume t = volume w :=
  fun s hs a t hr => (h s a t hr).trans hs

theorem keeps_frame_of_volume {α : Type} {m : Fat α} (h : Keeps volume m) : Keeps frame m :=
  fun s a t hr => frame_of_volume (h s a t hr)

theorem volume_of_calm (h : calm v = calm w) : volume v = volume w := by
  have hv : volume (calm v) = volume (calm w) := by rw [h]
  exact hv

theorem keeps_volume_of_calm {α : Type} {m : Fat α} (h : Keeps calm m) : Keeps volume m :=
  fun s a t hr => volume_of_calm (h s a t hr)

theorem keeps_frame_of_calm {α : Type} {m : Fat α} (h : Keeps calm m) : Keeps frame m :=
  keeps_frame_of_volume (keeps_volume_of_calm h)

theorem blockdevWrite_keeps (dev sector count : Nat) (buf : Buf) :
    Keeps volume (blockdevWrite dev sector count buf) := by
  intro s a t h
  unfold blockdevWrite at h
  split at h
  · split at h
    all_goals
      obtain ⟨-, rfl⟩ := Prod.mk.inj (Option.some.inj h)
      rfl
  · obtain ⟨-, rfl⟩ := Prod.mk.inj (Option.some.inj h)
    rfl

theorem writeCluster_keeps (c : Nat) (buf : Buf) : Keeps volume (fat32WriteCluster c buf) :=
  .get_bind fun _ => .ite (fun _ => .pure _) fun _ => .ite (fun _ => .pure _) fun _ =>
    blockdevWrite_keeps _ _ _ _

theorem flushCopies_keeps : ∀ left copy : Nat, Keeps volume (flushCopies left copy)
  | 0, _ => .pure _
  | left + 1, copy => .get_bind fun _ => .bind (blockdevWrite_keeps _ _ _ _) fun _ =>
    .ite (fun _ => flushCopies_keeps left (copy + 1)) fun _ => .pure _

theorem flushFat_keeps : Keeps volume fat32FlushFat :=
  .get_bind fun _ => .ite (fun _ => .pure _) fun _ => flushCopies_keeps _ _

theorem linkNew_volume (h : volume v = volume w) (p c : Nat) :
    volume (linkNew v p c) = volume (linkNew w p c) := by
  have hg := h
  simp only [volume, Prod.mk.injEq] at hg
  obtain ⟨hfs, hm, hp, hc⟩ := hg
  simp only [volume, linkNew, World.setFat, World.setTable, hfs]
  split
  all_goals simp only [hm, hp, hc]

/-- Whatever heap and device answer, a cluster that is allocated was the first free
one, and it is linked. -/
theorem allocateCluster_takes (p : Nat) : Triple (fun t => volume t = volume w)
    (fat32AllocateCluster p) fun a t => SameGeometry w t ∧
      (a ≠ 0 → findFree w = some a ∧ volume t = volume (linkNew w p a)) := by
  have hzero : ∀ {P : World → Prop} {o : Option Nat}, (∀ t, P t → SameGeometry w t) →
      Triple P (pure 0 : Fat Nat) fun a t => SameGeometry w t ∧
        (a ≠ 0 → o = some a ∧ volume t = volume (linkNew w p a)) :=
    fun hP => .pure fun t ht => ⟨hP t ht, fun h => absurd rfl h⟩
  refine .get_bind fun u hu => .bind (Q := fun _ t => volume t = volume w)
    ((keeps_volume (keeps_volume_of_calm (kmalloc_keeps _))).pre fun t ht => ht ▸ hu) fun b =>
    .ite (fun _ => ?_) fun _ => hzero fun t ht => sameGeometry_of_volume ht
  have hfind : findFree u = findFree w := by rw [findFree, findFree, fs_of_volume hu]
  rw [hfind]
  cases hfree : findFree w with
  | none => exact hzero fun t ht => sameGeometry_of_volume ht
  | some c =>
    have hlink : ∀ t, volume t = volume (linkNew w p c) → SameGeometry w t := fun t ht =>
      sameGeometry_linkNew.trans (sameGeometry_of_volume ht)
    refine .bind (Q := fun _ t => volume t = volume (linkNew w p c))
      (.modify fun t ht => linkNew_volume ht p c) fun _ =>
      .bind (keeps_volume (writeCluster_keeps _ _)) fun b => .ite (fun _ => ?_) fun _ => ?_
    · exact .bind (keeps_volume flushFat_keeps) fun b => .ite
        (fun _ => .pure fun t ht => ⟨hlink t ht, fun _ => ⟨rfl, ht⟩⟩) fun _ => hzero hlink
    · exact .bind (Q := fun _ t => SameGeometry w t)
        (.modify fun t ht => (hlink t ht).trans sameGeometry_setTable) fun _ => hzero fun _ h => h

/-! ## Clusters that lie inside -/

theorem inside_cluster (h2 : 2 ≤ c) (hc : c < w.fs.totalClusters + 2) {i : Nat}
    (hi : i < w.fs.sectorsPerCluster) :
    Inside w (w.fs.dataStartSector + (c - 2) * w.fs.sectorsPerCluster + i) := by
  have hnext : (c - 1) * w.fs.sectorsPerCluster =
      (c - 2) * w.fs.sectorsPerCluster + w.fs.sectorsPerCluster := by
    rw [← Nat.succ_mul]
    congr 1
    omega
  exact .inr ⟨c, hc, h2, by omega, by omega⟩

theorem lands_inRange (g : Geometry w) (h : InRange w c) : Lands w c := by
  refine .inr fun i hi => ?_
  rw [h.sector_eq g]
  exact inside_cluster h.1 (by have := h.2; omega) hi

theorem hasEntry_inRange (g : Geometry w) (h : InRange w c) : HasEntry w c :=
  Nat.lt_of_lt_of_le h.2 g.covered

theorem judge_safe {P : World → Prop} {a : Access} (h : ∀ s, P s → a.Within s) :
    Safe P (judge a) fun _ => P := .check fun s hs => decide_eq_true (h s hs)

theorem judge_stops {a : Access} (h : ¬ a.Within w) : Stops (judge a) w :=
  .check (decide_eq_false h)

theorem writeCluster_safe {P : World → Prop} (h : ∀ s, P s → Lands s c) (buf : Buf) :
    Safe P (fat32WriteClusterChecked c buf) fun _ _ => True := by
  refine .get_bind fun w hw => .ite (fun _ => .pure fun _ _ => trivial) fun _ =>
    .ite (fun _ => .pure fun _ _ => trivial) fun hs =>
    .bind (judge_safe fun t ht => ?_) fun _ => .lift fun _ _ _ _ _ => trivial
  rw [ht]
  intro hok i hi
  rcases h w hw with (h0 | hno) | hin
  · exact absurd h0 hs
  · rw [hno] at hok
    cases hok
  · exact hin i (Nat.lt_of_lt_of_le hi (Nat.mod_le _ _))

theorem writeCluster_stops (g : Geometry w) (h : ¬ Lands w c) (buf : Buf) :
    Stops (fat32WriteClusterChecked c buf) w := by
  obtain ⟨hacc, hout⟩ := not_or.mp h
  obtain ⟨hs, hok⟩ := not_or.mp hacc
  refine .get_bind (.ite_neg (not_not.mpr g.mounted) (.ite_neg hs (Stops.bind (judge_stops ?_))))
  intro hin
  refine hout fun i hi => hin (by simpa using hok) i ?_
  rwa [Nat.mod_eq_of_lt (by have := g.sectorsPerCluster_le; omega)]

/-! ## The table -/

theorem flushCopies_safe (g : Geometry w) : ∀ left copy : Nat, copy + left ≤ w.fs.numFats →
    Safe (SameGeometry w) (flushCopiesChecked left copy) fun _ _ => True
  | 0, _, _ => .pure fun _ _ => trivial
  | left + 1, copy, hle => by
    refine .get_bind fun u hu => .bind (Q := fun _ => SameGeometry w) ?_ fun b =>
      .ite (fun _ => flushCopies_safe g left (copy + 1) (by omega)) fun _ => .pure fun _ _ => trivial
    refine .bind (judge_safe fun t ht => ?_) fun _ => .lift ?_
    · rw [ht]
      intro hok i hi
      obtain ⟨-, -, -, h₄, h₅, -, h₇, h₈, -⟩ := hu.fields
      have h₁ : (copy + 1) * w.fs.fatSize ≤ w.fs.numFats * w.fs.fatSize :=
        Nat.mul_le_mul_right _ (by omega)
      have h₂ : (copy + 1) * w.fs.fatSize = copy * w.fs.fatSize + w.fs.fatSize := Nat.succ_mul _ _
      have hroom := g.room
      have hstart := g.dataStart
      have hcount := (w.sectorCount w.fs.deviceId).isLt
      have hmod := Nat.mod_le u.fs.fatSize 256
      rw [h₅] at hi hmod
      rw [h₈, h₅, Nat.mod_eq_of_lt (by omega)]
      refine (sameGeometry_inside hu).mpr (.inl ⟨copy, by omega, by omega, by omega⟩)
    · exact (keeps_frame (keeps_frame_of_volume (blockdevWrite_keeps _ _ _ _))).pre fun t ht => ht ▸ hu

theorem flushFat_safe (g : Geometry w) :
    Safe (SameGeometry w) fat32FlushFatChecked fun _ _ => True :=
  .get_bind fun u hu => .ite (fun _ => .pure fun _ _ => trivial) fun _ =>
    (flushCopies_safe g u.fs.numFats 0 (by rw [hu.fields.2.2.2.1]; omega)).pre fun t ht => ht ▸ hu

theorem findFree_safe {P : World → Prop} (t : Nat → Nat) : ∀ l : List Nat,
    (∀ c ∈ l, ∀ s, P s → HasEntry s c) → Safe P (findFreeChecked t l) fun r s =>
      r = l.find? (fun c => t c % 2 ^ 28 == 0) ∧ P s
  | [], _ => .pure fun _ hs => ⟨rfl, hs⟩
  | c :: l, h => by
    rw [findFreeChecked, List.find?_cons]
    refine .check_bind (fun s hs => decide_eq_true (h c (.head _) s hs)) ?_
    cases t c % 2 ^ 28 == 0 with
    | true => exact .pure fun _ hs => ⟨rfl, hs⟩
    | false => exact findFree_safe t l fun d hd => h d (.tail _ hd)

theorem findFree_entries (g : Geometry w) :
    ∀ c ∈ List.range' 2 (w.fs.totalClusters - 2), HasEntry w c := by
  intro c hc
  rw [List.mem_range'_1] at hc
  exact hasEntry_inRange g ⟨hc.1, by omega⟩

theorem allocateCluster_safe (g : Geometry w)
    (hp : findFree w ≠ none → isChained p = true → HasEntry w p) :
    Safe (fun t => t = w) (fat32AllocateClusterChecked p) fun _ _ => True := by
  refine .get_bind fun u hu => ?_
  subst hu
  have hmalloc := (keeps_frame (w := u) (keeps_frame_of_calm (kmalloc_keeps (clusterSize u))))
  refine .bind (.lift (hmalloc.pre fun t ht => ht ▸ .refl u)) fun b =>
    .ite (fun _ => ?_) fun _ => .pure fun _ _ => trivial
  refine .bind (findFree_safe _ _ fun c hc t ht =>
    (sameGeometry_hasEntry ht).mpr (findFree_entries g c hc)) fun r => .intro fun t ht => ?_
  obtain ⟨rfl, ht⟩ := ht
  cases hfree : findFree u with
  | none =>
    rw [findFree] at hfree
    rw [hfree]
    exact .pure fun _ _ => trivial
  | some a =>
    have hin := (findFree_some hfree).1
    have hentry := (sameGeometry_hasEntry ht).mpr (hasEntry_inRange g hin)
    rw [findFree] at hfree
    rw [hfree]
    have hlink : Safe (fun s => s = t) (judgeLink p a) fun _ => SameGeometry u := by
      refine .check_bind (fun s hs => decide_eq_true (hs ▸ hentry)) (.ite (fun hc => ?_) fun _ => ?_)
      · have hpe := hp (by rw [findFree, hfree]; exact Option.some_ne_none a) hc
        exact (judge_safe fun s hs => hs ▸ (sameGeometry_hasEntry ht).mpr hpe).post
          fun _ s hs => hs ▸ ht
      · exact .pure fun s hs => hs ▸ ht
    refine .bind hlink fun _ => .bind (Q := fun _ => SameGeometry u)
      (.modify fun s hs => hs.trans sameGeometry_linkNew) fun _ => ?_
    refine .bind (Q := fun _ => SameGeometry u) ?_ fun b => .ite (fun _ => ?_) fun _ => ?_
    · exact ((writeCluster_safe (fun s hs => (sameGeometry_lands hs).mpr (lands_inRange g hin))
        _).and_triple (writeCluster_follows _ _)
        (keeps_frame (keeps_frame_of_volume (writeCluster_keeps _ _)))).post fun _ _ h => h.2
    · exact .bind (flushFat_safe g) fun b => .ite (fun _ => .pure fun _ _ => trivial)
        fun _ => .pure fun _ _ => trivial
    · refine .check_bind (fun s hs => decide_eq_true ((sameGeometry_hasEntry hs).mpr
        (hasEntry_inRange g hin))) (.bind (Q := fun _ _ => True) (.modify fun _ _ => trivial)
        fun _ => .pure fun _ _ => trivial)

theorem allocateCluster_stops (g : Geometry w) (hm : Mallocs w) {a : Nat} (hfree : findFree w = some a)
    (hc : isChained p = true) (h : ¬ HasEntry w p) : Stops (fat32AllocateClusterChecked p) w := by
  refine .get_bind (.lift_bind (hm.kmalloc g.clusterSize_pos) (.ite_pos rfl ?_))
  refine Stops.bind_run ?_ (findFree_follows _ _) rfl
  rw [findFree] at hfree
  rw [hfree]
  exact Stops.bind (.check_bind (.ite_pos hc (judge_stops h)))

theorem allocateCluster_links (g : Geometry w)
    (hp : findFree w ≠ none → isChained p = true → HasEntry w p) :
    Safe (fun t => t = w) (fat32AllocateClusterChecked p) fun a t => SameGeometry w t ∧
      (a ≠ 0 → findFree w = some a ∧ volume t = volume (linkNew w p a)) :=
  ((allocateCluster_safe g hp).and_triple (allocateCluster_follows p)
    ((allocateCluster_takes p).pre fun _ ht => ht ▸ rfl)).post fun _ _ h => h.2

/-! ## Chains -/

theorem freeLoop_safe : ∀ (rounds s : Nat) (t : Nat → Nat),
    (∀ c, Comes (fun c => t c % 2 ^ 28) (isChained · = true) s c → HasEntry w c) →
    Safe (SameGeometry w) (freeLoopChecked rounds s t) fun _ => SameGeometry w
  | 0, s, t, _ => .ite (fun _ => .diverge) fun _ => .pure fun _ h => h
  | rounds + 1, s, t, h => by
    refine .ite (fun hs => .check_bind (fun u hu => decide_eq_true ?_) ?_) fun _ => .pure fun _ h => h
    · exact (sameGeometry_hasEntry hu).mpr (h s (comes_refl hs))
    · refine freeLoop_safe rounds _ _ fun c hc => h c ?_
      have hzero : ¬ isChained 0 = true := by decide
      rw [next_setEntry] at hc
      exact hc.of_update hs hzero

theorem hasEntry_of_not_stops : ∀ (rounds s : Nat) (t : Nat → Nat),
    ¬ Stops (freeLoopChecked rounds s t) w → (freeLoop rounds s t).isSome →
    ∀ c, Comes (fun c => t c % 2 ^ 28) (isChained · = true) s c → HasEntry w c := by
  intro rounds
  induction rounds with
  | zero =>
    intro s t _ hsome c hc
    obtain ⟨n, -, hgo⟩ := hc
    have hs : isChained s = true := hgo 0 (Nat.zero_le _)
    rw [freeLoop, if_pos hs] at hsome
    cases hsome
  | succ rounds ih =>
    intro s t hstop hsome c hc
    have hs : isChained s = true := by
      obtain ⟨n, -, hgo⟩ := hc
      exact hgo 0 (Nat.zero_le _)
    rw [freeLoopChecked, if_pos hs] at hstop
    rw [freeLoop, if_pos hs] at hsome
    have hiff : Comes (fun c => t c % 2 ^ 28) (isChained · = true) s c ↔ c = s ∨
        Comes (Function.update (fun c => t c % 2 ^ 28) s 0) (isChained · = true)
          (t s % 2 ^ 28) c := comes_update_iff hs (by decide)
    rcases hiff.mp hc with rfl | hc
    · by_contra hno
      have hout : ¬ (Access.entry c).Within w := hno
      exact hstop (judge_stops hout).bind
    · refine ih _ _ (fun h => hstop (.check_bind h)) hsome c ?_
      rw [next_setEntry]
      exact hc

theorem freeClusterChain_safe (g : Geometry w) {s : Nat} (h : Freeable w s) :
    Safe (fun t => t = w) (fat32FreeClusterChainChecked s) fun _ _ => True := by
  refine .ite (fun _ => .get_bind fun u hu => ?_) fun _ => .pure fun _ _ => trivial
  subst hu
  refine .bind ((freeLoop_safe walkLimit s u.fs.fatTable h).pre fun t ht => ht ▸ .refl u) fun t => ?_
  refine .bind (Q := fun _ => SameGeometry u) (.modify fun v hv => hv.trans sameGeometry_setTable)
    fun _ => .bind (flushFat_safe g) fun _ => .pure fun _ _ => trivial

theorem freeClusterChain_stops {s : Nat} (h : ¬ Freeable w s) :
    Stops (fat32FreeClusterChainChecked s) w := by
  obtain ⟨c, hc⟩ := not_forall.mp h
  obtain ⟨hcomes, hno⟩ := Classical.not_imp.mp hc
  have hs : isChained s = true := by
    obtain ⟨n, -, hgo⟩ := hcomes
    exact hgo 0 (Nat.zero_le _)
  refine .ite_pos hs (.get_bind (Stops.bind ?_))
  by_contra hstop
  exact hno (hasEntry_of_not_stops _ _ _ hstop (freeLoop_ends s w.fs.fatTable) c hcomes)

end

end ContinuumOS.Fat32.Confinement
