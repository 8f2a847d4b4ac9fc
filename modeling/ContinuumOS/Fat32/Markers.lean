import ContinuumOS.Fat32.Deletion
import ContinuumOS.Fat32.Reopen

/-! # The markers that end a chain

In a table of the format any entry from `0x0FFFFFF8` on ends a chain. The loops
of the driver compare with `FAT32_END_CLUSTER`, the last of these values: the
others are smaller and pass for cluster numbers. -/
namespace ContinuumOS.Fat32.Markers
open ContinuumOS.Lib.Chains
open ContinuumOS.Fat32.Volume ContinuumOS.Fat32.Device ContinuumOS.Fat32.Allocation
open ContinuumOS.Fat32.Directory ContinuumOS.Fat32.Scan
open ContinuumOS.Fat32.Descriptor ContinuumOS.Fat32.Refinement

/-- A value that means the end of a chain. -/
def IsEndMarker (m : Nat) : Prop := 0x0FFFFFF8 ≤ m ∧ m ≤ 0x0FFFFFFF

/-- A well-formed chain from `s`, with the marker `m` in its last entry. -/
structure Marked (w : World) (s : Nat) (l : List Nat) (m : Nat) : Prop where
  head : l.head? = some s
  linked : Linked (nextOf w) m l
  nodup : l.Nodup
  inRange : ∀ c ∈ l, InRange w c
  marker : IsEndMarker m

/-- The volume with the driver's own marker at the end of `l`. -/
def remarked (w : World) (l : List Nat) : World := w.setFat (l.getLastD 0) endCluster

/-- The cluster before `target`, 0 where there is none. -/
def before (l : List Nat) (target : Nat) : Nat :=
  if target ∈ l then (l.takeWhile (· ≠ target)).getLastD 0 else 0

/-- Every walker stops behind the last cluster of `l`: it has met the clusters of
`l` and no other. The last field is about a descriptor of a file in `l`. -/
structure StopsAtEnd (w : World) (s : Nat) (l : List Nat) : Prop where
  getLastCluster : fat32GetLastCluster w s = some (l.getLastD 0)
  findPrevious : ∀ target, isChained target = true →
    fat32DirectoryFindPreviousCluster w s target = some (before l target)
  iterate : ∀ (κ : Type) (callback : Callback κ) (context : κ),
    fat32IterateDirectory s callback context w =
      some (outcome (feed callback (reports (dirSlots w l)) context), w)
  freeChain : fat32FreeClusterChain s w = some ((), freed w l)
  seekReadWrite : ∀ (fd : Nat) (a : AbstractFile) (op : Op), Opened (remarked w l) fd l a → op.Bounded a →
    Fits w l (op.abstract a).2.bytes.length →
    ∃ w' l', op.run fd w = some ((op.abstract a).1, w') ∧ Opened w' fd l' (op.abstract a).2

section

variable {w w' : World} {s m c : Nat} {l : List Nat}

theorem isChained_marker (h : IsEndMarker m) : isChained m = true ↔ m ≠ endCluster := by
  rw [isChained_iff]
  simp only [IsEndMarker, endCluster] at *
  omega

theorem Marked.headD (h : Marked w s l m) (z : Nat) : l.headD z = s := by
  have hh := h.head
  cases l with
  | nil => cases hh
  | cons a l => exact Option.some.inj hh

theorem Marked.last (h : Marked w s l m) : l.getLastD 0 ∈ l ∧ nextOf w (l.getLastD 0) = m := by
  have hne : l ≠ [] := by
    rintro rfl
    cases h.head
  have hlast : l[l.length - 1]? = some (l.getLastD 0) := by
    rw [List.getLastD_eq_getLast?, List.getLast?_eq_getElem?, List.getElem?_eq_getElem, Option.getD_some]
    have := List.length_pos_iff.mpr hne
    omega
  refine ⟨List.mem_of_getElem? hlast, ?_⟩
  rw [h.linked.next hlast, List.getElem?_eq_none (by have := List.length_pos_iff.mpr hne; omega)]
  rfl

/-! ## Markers the driver does not know -/

theorem lastClusterLoop_stops {t : Nat → Nat} {d : Nat} : ∀ {rounds c : Nat},
    lastClusterLoop t rounds c = some d → isChained (t d % 2 ^ 28) = false
  | 0, c, h => by cases h
  | rounds + 1, c, h => by
    rw [lastClusterLoop] at h
    split at h
    · exact lastClusterLoop_stops h
    · rename_i hn
      rw [← Option.some.inj h]
      exact Bool.eq_false_iff.mpr hn

theorem marker_of_getLastCluster (g : Geometry w) (h : Marked w s l m)
    (hl : fat32GetLastCluster w s = some (l.getLastD 0)) : m = endCluster := by
  have hs : isChained s = true := (h.inRange s (List.mem_of_head? h.head)).isChained g
  rw [fat32GetLastCluster, if_pos hs] at hl
  have hstop := lastClusterLoop_stops hl
  by_contra hne
  have hm := (isChained_marker h.marker).mpr hne
  rw [← h.last.2, nextOf, hstop] at hm
  cases hm

/-! ## The driver's own marker -/

theorem Marked.chain (h : Marked w s l endCluster) : Chain w l := ⟨h.linked, h.nodup, h.inRange⟩

theorem Marked.chainFrom (h : Marked w s l endCluster) : ChainFrom w s l :=
  ⟨h.head, ⟨endCluster, by decide, h.linked⟩, h.inRange, h.nodup⟩

theorem findPreviousLoop_absent (g : Geometry w) {target : Nat} (ht : isChained target = true) :
    ∀ (rest : List Nat) (c rounds : Nat), Linked (nextOf w) endCluster (c :: rest) →
    (∀ a ∈ c :: rest, InRange w a) → target ∉ rest → rest.length < rounds →
    findPreviousLoop w target rounds c = some 0
  | [], c, rounds + 1, hl, hr, _, _ => by
    have hc := hr c (by simp)
    have hnext : fat32GetNextCluster w c = endCluster := (getNextCluster_eq g hc).trans hl.1
    have hne : endCluster ≠ target := fun he => by
      rw [← he] at ht
      cases ht
    rw [findPreviousLoop, if_pos (hc.isChained g)]
    simp only [hnext, hne, if_false, not_isChained_endCluster, Bool.false_eq_true]
  | d :: rest, c, rounds + 1, hl, hr, hout, hlen => by
    have hc := hr c (by simp)
    have hd := hr d (by simp)
    have hnext : fat32GetNextCluster w c = d := (getNextCluster_eq g hc).trans hl.1
    have hne : d ≠ target := fun he => hout (by simp [he])
    have ih := findPreviousLoop_absent g ht rest d rounds hl.2 (fun a ha => hr a (by simp [ha]))
      (fun hm => hout (by simp [hm])) (by simpa using hlen)
    rw [findPreviousLoop, if_pos (hc.isChained g)]
    simp only [hnext, hne, if_false, hd.isChained g, if_true, ih]

theorem before_append {a rest : List Nat} (h : c ∉ a) : before (a ++ c :: rest) c = a.getLastD 0 := by
  have htake : (a ++ c :: rest).takeWhile (· ≠ c) = a := by
    rw [List.takeWhile_append_of_pos fun d hd => by
      exact decide_eq_true fun he => h (he ▸ hd)]
    simp
  rw [before, if_pos (by simp), htake]

theorem findPrevious_before (hw : Ready w) (h : Marked w s l endCluster) {target : Nat}
    (ht : isChained target = true) :
    fat32DirectoryFindPreviousCluster w s target = some (before l target) := by
  by_cases hmem : target ∈ l
  · obtain ⟨a, rest, rfl⟩ := List.append_of_mem hmem
    have hout : target ∉ a := fun hm =>
      (List.nodup_append.mp h.nodup).2.2 target hm target (by simp) rfl
    rw [before_append hout]
    exact Deletion.findPrevious_eq hw h.chainFrom
  · have hlen := h.chainFrom.length_le hw.geometry
    rw [before, if_neg hmem, fat32DirectoryFindPreviousCluster]
    cases l with
    | nil => cases h.head
    | cons d rest =>
      obtain rfl : d = s := Option.some.inj h.head
      rw [if_neg fun he : d = target => hmem (by simp [he])]
      exact findPreviousLoop_absent hw.geometry ht rest d walkLimit h.linked h.inRange
        (fun hm => hmem (by simp [hm])) hlen

theorem Opened.of_next {fd : Nat} {a : AbstractFile} (h : Opened w fd l a)
    (hs : SameGeometry w w') (hn : nextOf w' = nextOf w) (hb : w'.sectors = w.sectors)
    (ho : w'.openFiles = w.openFiles) : Opened w' fd l a := by
  have hcs := SameGeometry.clusterSize_eq hs
  have hbuf : clusterBuf w' = clusterBuf w := by
    obtain ⟨h₁, -, h₃, -, -, -, h₇, -⟩ := hs.fields
    funext c
    rw [clusterBuf, clusterBuf, clusterAddr, clusterAddr, h₁, h₃, h₇, hb]
  have hc := h.content
  have he := h.entry
  refine ⟨h.fd_lt, ho ▸ h.inUse, ?_, ho ▸ h.cursor, ?_⟩
  · rw [ho]
    refine ⟨⟨hn ▸ hc.chain.linked, hc.chain.nodup, fun c hm => hs.inRange.mpr (hc.chain.inRange c hm)⟩,
      ?_, hcs ▸ hc.tight, hc.start, hc.last, hc.fileSize, hc.fileSize_lt, hcs ▸ hc.place,
      hc.position_le⟩
    rw [hbuf, hcs]
    exact hc.stored
  · rw [ho]
    refine ⟨hs.inRange.mpr he.inRange, ?_, he.apart, hn ▸ he.used, ?_, ?_⟩
    · rw [entriesPerCluster, hcs]
      exact he.index_lt
    · rw [entrySlot, hbuf]
      exact he.cluster
    · rw [entrySlot, hbuf]
      exact he.size

theorem opened_of_remarked (h : Marked w s l endCluster) {fd : Nat} {a : AbstractFile}
    (ho : Opened (remarked w l) fd l a) : Opened w fd l a := by
  refine Opened.of_next ho (w := remarked w l) ⟨rfl, rfl, rfl, rfl⟩ ?_ rfl rfl
  funext c
  rw [remarked, setFat_next]
  split
  · rename_i hc
    rw [hc, h.last.2]
    rfl
  · rfl

/-- **Which markers end a chain.** On a well-formed chain, with heap and device
answering, the walkers stop behind the last cluster just when its entry is the
one marker that `FAT32_END_CLUSTER` names. -/
theorem end_marker_ends_chain_iff (hw : Calm w) (h : Marked w s l m) :
    StopsAtEnd w s l ↔ m = endCluster := by
  refine ⟨fun hs => marker_of_getLastCluster hw.geometry h hs.getLastCluster, ?_⟩
  rintro rfl
  have hlast := Reopen.getLastCluster_chain hw.geometry h.chain
  rw [h.headD] at hlast
  refine ⟨hlast, fun _ ht => findPrevious_before hw.toReady h ht, fun _ _ context => ?_, ?_, ?_⟩
  · exact iterateDirectory_eq hw.geometry hw.noFaults hw.mallocs h.chainFrom context
  · exact freeClusterChain_eq hw.geometry hw.noFaults hw.flushable h.linked h.nodup h.inRange h.head
  · intro fd a op ho hb hroom
    obtain ⟨w', l', hrun, hstep⟩ := step_refines hw (opened_of_remarked h ho) hb hroom
    exact ⟨w', l', hrun, hstep.opened⟩

end

/-! ## A chain from another formatter -/

/-- Cluster 2 is a chain with marker `m`. -/
def markedVolume (m : Nat) : World := smallVolume (setEntry (fun _ => 0) 2 m) fun _ => true

theorem calm_markedVolume (m : Nat) : Calm (markedVolume m) where
  toReady := ready_smallVolume _ _
  mallocs _ := rfl

theorem marked_markedVolume {m : Nat} (h : IsEndMarker m) : Marked (markedVolume m) 2 [2] m where
  head := rfl
  linked := by
    refine ⟨?_, trivial⟩
    show m % 2 ^ 28 = m
    have := h.2
    omega
  nodup := by simp
  inRange c hc := by
    rw [List.mem_singleton.mp hc]
    exact ⟨Nat.le_refl 2, show 2 < 10 by decide⟩
  marker := h

theorem end_marker_not_known : ¬ ∀ w s l m, Calm w → Marked w s l m → StopsAtEnd w s l := by
  intro h
  have hm : Marked (markedVolume 0x0FFFFFF8) 2 [2] 0x0FFFFFF8 :=
    marked_markedVolume ⟨by decide, by decide⟩
  have hw := calm_markedVolume 0x0FFFFFF8
  have hend := marker_of_getLastCluster hw.geometry hm (h _ _ _ _ hw hm).getLastCluster
  exact absurd hend (by decide)

/-- The marker that the driver writes itself. -/
theorem end_marker_ends_chain_iff_example : StopsAtEnd (markedVolume endCluster) 2 [2] :=
  (end_marker_ends_chain_iff (calm_markedVolume _)
    (marked_markedVolume ⟨by decide, by decide⟩)).mpr rfl

end ContinuumOS.Fat32.Markers
